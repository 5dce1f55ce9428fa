import DurableRuntime.System

/-!
# A small deployment

One tenant with an owner, and the requests, publications and deliveries that
scenarios are made of.  `exists_run` turns an evaluation of `next` over a list
of actions into a run of the system.
-/

namespace DurableRuntime.Scenario

open DurableRuntime.Foundation

/-- No model provider is configured; the digest of a result is its own text. -/
def env : Env where
  controlPlaneInternalUrl := "http://127.0.0.1:4000"
  workerInternalToken := "internal"
  controlInternalToken := "internal"
  openaiBaseUrl := ""
  openaiModel := ""
  parseUrl := fun url =>
    if url = "https://example.com/data" then some ⟨"https", "example.com"⟩
    else some ⟨"http", "127.0.0.1"⟩
  equalFold := fun a b => a = b
  parseMediaType := some
  providerContents := fun _ => none
  sha256Hex := id
  timestampToInstant := id
  fitsIndex := fun name version => name.utf8ByteSize + version.utf8ByteSize ≤ 2048
  nests := fun _ => true

def tenantId : Uuid := 1

def workflowId : Uuid := 2

def runId : Uuid := 3

def owner : ControlPlane.Principal := ⟨tenantId, .owner, "owner"⟩

def start (maxActiveRuns : Nat) : State where
  clock := 0
  db :=
    { definitions := [], limits := [⟨tenantId, maxActiveRuns, 100⟩],
      principals := [⟨4, tenantId, "owner"⟩], runs := [], events := [], stepResults := [],
      effects := [], outbox := [], audits := [], nextEventId := 1, nextOutboxId := 1,
      nextAuditId := 1 }
  broker := ⟨[], 900000⟩
  locks := fun _ => none
  stream := []
  workers := []
  calls := []
  publishers := []

theorem initial (maxActiveRuns : Nat) : Initial (start maxActiveRuns) := by
  constructor <;> rfl

theorem exists_run_of (env : Env) {s : State} (hs : Initial s) (actions : List Action)
    (test : History State Action → State → Bool)
    (h : (replay (next env) s actions).any (fun p => test p.1 p.2) = true) :
    ∃ h t, Run env h t ∧ test h t = true :=
  exec_of_replay hs h

theorem exists_run (maxActiveRuns : Nat) (actions : List Action)
    (test : History State Action → State → Bool)
    (h : (replay (next env) (start maxActiveRuns) actions).any (fun p => test p.1 p.2) = true) :
    ∃ h t, Run env h t ∧ test h t = true :=
  exists_run_of env (initial maxActiveRuns) actions test h

/-! ## Parts of a scenario -/

def dataRead : Json := .obj [("kind", .str "tool"), ("tool", .str "mock_data_read")]

def ticketWrite : Json :=
  .obj [("kind", .str "tool"), ("tool", .str "mock_ticket_write"), ("sideEffect", .bool true)]

def fetch : Json := .obj [("kind", .str "tool"), ("tool", .str "allowlisted_http_fetch")]

def approval : Json := .obj [("kind", .str "approval"), ("reason", .str "Side effect")]

def workflow (steps : List Json) : Json :=
  .obj [("name", .str "demo"), ("version", .str "v1"), ("steps", .arr steps),
    ("budgetCents", .num 100), ("allowedHosts", .arr [.str "example.com"])]

def create : ControlPlane.Request :=
  .createRun ⟨workflowId, .obj [("url", .str "https://example.com/data")], none,
    "idempotency-key-1"⟩

def createRun : Action := .request owner create

/-- Store a workflow and create the run, which commits with the last of its twelve moves. -/
def createActions (steps : List Json) : List Action :=
  .createWorkflow owner workflowId (workflow steps) :: createRun ::
    List.replicate 12 (.call 0 runId)

/-- One publisher call that publishes and marks one outbox row. -/
def publishActions (publisher : Nat) : List Action :=
  .publishPending 100 :: List.replicate 4 (.publisher publisher .none) ++
    [.publisher publisher .acked, .publisher publisher .none, .publisher publisher .none,
      .publisher publisher (.row 0), .publisher publisher .none]

/-- A delivery up to the commit of its claim. -/
def claimActions (message worker : Nat) : List Action :=
  .deliver message "worker" :: List.replicate 6 (.worker worker .none)

/-- The next moves of a worker that waits for no external call. -/
def workerActions (worker moves : Nat) : List Action :=
  List.replicate moves (.worker worker .none)

/-- An approve or cancel request, which commits with the last of its ten or nine moves. -/
def transitionActions (request : ControlPlane.Request) (call moves : Nat) : List Action :=
  .request owner request :: List.replicate moves (.call call 0)

end DurableRuntime.Scenario
