import DurableRuntime.Shared
import DurableRuntime.Worker.Decode

/-!
# The worker

`services/worker/main.go`: one delivery of a queue message, from `process` to
the acknowledgement.  A position (`Pc`) stands before every statement sent to
the database and before every external call; the definitions named after the Go
functions give the position at which a call of that function starts.  Nothing
happens between two positions, so that crashes, errors and moves of the other
sessions can fall between any two statements.
-/

namespace DurableRuntime.Worker

open DurableRuntime.Foundation

/-- A run id as the message spells it, with the `uuid` it denotes as a parameter. -/
structure RunRef where
  text : String
  id : Uuid

structure LeasedRun where
  ref : RunRef
  tenantId : Uuid
  currentStep : Nat
  input : List (String × Json)
  definition : Definition
  credentialHandle : Option Uuid

inductive Outcome where
  | ok
  | invalidQueueMessage
  | error
  deriving DecidableEq

/-- Where control goes when `fail` or `uncertain` has returned nil. -/
inductive After where
  | ret
  | advance (index : Nat)
  deriving DecidableEq

inductive Pc where
  | received (runId : String)
  | claimBegin (ref : RunRef)
  | claimSelect (ref : RunRef) (now : Int)
  | claimUpdate (ref : RunRef) (now : Int) (row : RunRow) (definition : DefinitionRow)
  | claimEvents (ref : RunRef) (now : Int) (row : RunRow) (definition : DefinitionRow)
  | claimCommit (now : Int) (row : RunRow) (events : List EventRow) (run : LeasedRun)
  | execute (run : LeasedRun)
  | loop (run : LeasedRun) (index : Nat)
  | consume (run : LeasedRun) (index : Nat) (handle : Uuid) (prompt : String)
  | provider (run : LeasedRun) (index : Nat) (credential prompt : String)
  | fetch (run : LeasedRun) (index : Nat) (target : String)
  | effect (run : LeasedRun) (index : Nat)
  | record (run : LeasedRun) (index : Nat) (kind : ResultKind) (status : ResultStatus)
      (safeLabel : String)
  | awaitApproval (run : LeasedRun) (index : Nat)
  | heartbeat (run : LeasedRun) (index : Nat)
  | heartbeatUpdate (run : LeasedRun) (index : Nat) (now : Int)
  | terminate (run : LeasedRun) (state : RunState) (code : String) (after : After)
  | complete (run : LeasedRun)
  | event (run : LeasedRun) (eventType : EventType) (detail : String) (after : After)
  | eventCommit (run : LeasedRun) (row : EventRow) (after : After)
  | returned (outcome : Outcome)
  | gone

/-- The delivery of one message to one goroutine of a worker process. -/
structure Session where
  id : String
  message : Nat
  pc : Pc

/-! ## External calls -/

/-- How far a request to `/internal/credentials/:handle/consume` gets. -/
inductive Delivery where
  | unreachable
  | replyLost
  | answered

inductive ProviderReply where
  | failed
  | response (status : Nat) (body : Option (List UInt8))

inductive FetchReply where
  | failed
  | response (status : Nat) (contentLength : Int) (contentType : String)
      (body : Option (List UInt8))

inductive Reply where
  | none
  | consume (delivery : Delivery)
  | provider (reply : ProviderReply)
  | fetch (reply : FetchReply)

/-- `unicode.IsSpace`. -/
def isSpace (c : Char) : Bool :=
  c ∈ ['\t', '\n', '\r', ' '] || c.toNat ∈ [0x0B, 0x0C, 0x85, 0xA0, 0x1680, 0x2028, 0x2029,
    0x202F, 0x205F, 0x3000] || (0x2000 ≤ c.toNat && c.toNat ≤ 0x200A)

def validateProviderResponse (env : Env) : Option (List UInt8) → Bool
  | none => false
  | some body =>
      if body.length > 1000000 then false
      else
        match env.providerContents body with
        | none => false
        | some [] => false
        | some (content :: _) => !content.toList.all isSpace

/-- The provider URLs for which `callOpenAICompatible` sends a request. -/
def providerUrlAllowed (env : Env) : Bool :=
  match env.parseUrl env.openaiBaseUrl with
  | none => false
  | some url =>
      url.scheme = "https" ||
        (url.scheme = "http" && (url.hostname = "127.0.0.1" || url.hostname = "localhost"))

def callOpenAICompatible (env : Env) : ProviderReply → Bool
  | .failed => false
  | .response status body => status < 400 && validateProviderResponse env body

def validateURL (env : Env) (raw : String) (hosts : List String) : Bool :=
  match env.parseUrl raw with
  | none => false
  | some url =>
      url.scheme = "https" && url.hostname ≠ "" &&
        hosts.any fun host => env.equalFold url.hostname host

/-- The failure code of an allowlisted fetch, `none` when it succeeds. -/
def fetchFailure (env : Env) : FetchReply → Option String
  | .failed => some "http_fetch_failed"
  | .response status contentLength contentType body =>
      if status ≥ 400 then some "http_fetch_failed"
      else if contentLength > 1000000 then some "http_response_too_large"
      else
        match env.parseMediaType contentType with
        | some "application/json" | some "text/plain" =>
            match body with
            | none => some "http_fetch_failed"
            | some bytes => if bytes.length > 1000000 then some "http_response_too_large" else none
        | _ => some "http_content_type_not_allowed"

/-- `strings.TrimSuffix(url, "/")`. -/
def trimSlash (url : String) : String :=
  let chars := url.toList
  if chars.getLast? = some '/' then String.ofList chars.dropLast else url

def consumeUrl (env : Env) (handle : Uuid) : String :=
  trimSlash env.controlPlaneInternalUrl ++ "/internal/credentials/" ++ handle.text ++ "/consume"

/-- The body `{"credential":"..."}` fits the 2048 bytes that the worker reads of it. -/
def credentialReadable (credential : JsString) : Bool :=
  jsonStringSize credential + 17 ≤ 2048 && !credential.isEmpty

/-- `httpguts.ValidHeaderFieldValue`: of the control characters only the tab is sent. -/
def validHeaderFieldValue (value : String) : Bool :=
  value.toList.all fun c => (c = '\t' || 0x20 ≤ c.toNat) && c.toNat ≠ 0x7F

def isBlank (c : Char) : Bool := c = ' ' || c = '\t'

/--
What arrives of a header value, if it is sent at all: without the blanks around
it, and with a character for each byte.
-/
def receivedHeader (value : String) : Option String :=
  if validHeaderFieldValue value then
    let trimmed := ((value.toList.dropWhile isBlank).reverse.dropWhile isBlank).reverse
    some (String.ofList
      ((trimmed.flatMap String.utf8EncodeChar).map fun byte => Char.ofNat byte.toNat))
  else none

/-- The credential a consume call yields, and what the call does to the broker. -/
def consumeCredential (env : Env) (s : Shared) (handle : Uuid) :
    Delivery → Option String × Effect
  | .unreachable => (none, .none)
  | delivery =>
      if env.controlInternalToken = "" ∨
          receivedHeader env.workerInternalToken ≠ some env.controlInternalToken then
        (none, .none)
      else
        match delivery with
        | .answered =>
            ((((s.broker.consume s.dateNow handle).1).filter credentialReadable).map
              JsString.replaced, .consume handle)
        | _ => (none, .consume handle)

/-! ## Functions of the worker -/

/-- `effectKey` of the run id as the message spells it. -/
def effectKey (runId : String) (index : Nat) : String :=
  runId ++ ":" ++ toString index ++ ":mock-ticket"

def outputRef (env : Env) (run : LeasedRun) (index : Nat) (safeLabel : String) : String :=
  env.sha256Hex (run.ref.text ++ ":" ++ toString index ++ ":" ++ safeLabel)

def supportedWorkflowSchema (version : String) : Bool := version = "" || version = "1"

def recordStep (run : LeasedRun) (index : Nat) (kind : ResultKind) (safeLabel : String) : Pc :=
  .record run index kind .succeeded safeLabel

def awaitApproval (run : LeasedRun) (index : Nat) : Pc :=
  .record run index .approval .awaitingApproval "approval-required"

def fail (run : LeasedRun) (code : String) (after : After) : Pc :=
  .terminate run .failed code after

def uncertain (run : LeasedRun) (code : String) (after : After) : Pc :=
  .terminate run .uncertain code after

def executeProviderModel (env : Env) (run : LeasedRun) (index : Nat) (current : Step) : Pc :=
  match run.credentialHandle with
  | none => uncertain run "provider_credential_unavailable" (.advance index)
  | some handle =>
      if env.controlPlaneInternalUrl = "" ∨ env.workerInternalToken = "" ∨
          (env.parseUrl (consumeUrl env handle)).isNone then
        uncertain run "provider_credential_unavailable" (.advance index)
      else .consume run index handle current.promptTemplate

/-- The rest of `executeProviderModel` after the consume call. -/
def withCredential (env : Env) (run : LeasedRun) (index : Nat) (prompt : String) :
    Option String → Pc
  | none => uncertain run "provider_credential_unavailable" (.advance index)
  | some credential =>
      if env.openaiBaseUrl = "" ∨ env.openaiModel = "" then
        uncertain run "provider_not_configured" (.advance index)
      else if providerUrlAllowed env && validHeaderFieldValue credential then
        .provider run index credential prompt
      else uncertain run "provider_model_unavailable" (.advance index)

/-- `run.Input["url"].(string)`, the empty string when that is no string. -/
def inputUrl (run : LeasedRun) : String :=
  match Json.member? "url" run.input with
  | some (.str url) => url
  | _ => ""

def executeTool (env : Env) (run : LeasedRun) (index : Nat) (current : Step) : Pc :=
  if current.tool = "mock_data_read" then recordStep run index .tool "mock-data-read"
  else if current.tool = "mock_ticket_write" then .effect run index
  else if current.tool = "allowlisted_http_fetch" then
    if validateURL env (inputUrl run) run.definition.allowedHosts then
      .fetch run index (inputUrl run)
    else fail run "http_url_not_allowed" (.advance index)
  else fail run "tool_not_registered" (.advance index)

/-- The `switch` on the step kind. -/
def executeStep (env : Env) (run : LeasedRun) (index : Nat) (current : Step) : Pc :=
  if current.kind = "approval" then awaitApproval run index
  else if current.kind = "model" then
    if current.provider = "mock" then recordStep run index .model "mock-model"
    else if current.provider ≠ "openai_compatible" then
      fail run "provider_not_configured" (.advance index)
    else executeProviderModel env run index current
  else if current.kind = "transform" then
    if current.operation ≠ "extract_json" ∧ current.operation ≠ "template" then
      fail run "unsupported_transform" (.advance index)
    else recordStep run index .transform current.operation
  else if current.kind = "tool" then executeTool env run index current
  else fail run "unsupported_step" (.advance index)

def execute (run : LeasedRun) : Pc :=
  if supportedWorkflowSchema run.definition.schemaVersion then .loop run run.currentStep
  else fail run "unsupported_workflow_schema" .ret

/-- One evaluation of the loop condition, and the start of the step it admits. -/
def loop (env : Env) (run : LeasedRun) (index : Nat) : Pc :=
  match run.definition.steps[index]? with
  | none => .complete run
  | some raw =>
      match unmarshalStep raw with
      | none => fail run "invalid_workflow_step" .ret
      | some current => executeStep env run index current

def process (runId : String) : Pc :=
  if isUUID runId then
    match Uuid.ofText? runId with
    | some id => .claimBegin ⟨runId, id⟩
    | none => .returned .error
  else .returned .invalidQueueMessage

/-! ## Claiming a run -/

/-- The state condition of the `select` in `claim`, at the start time of its transaction. -/
def isClaimable (now : Int) (row : RunRow) : Bool :=
  match row.state with
  | .queued => true
  | .leased | .running =>
      match row.leaseExpiresAt with
      | some expiry => expiry < now
      | none => false
  | _ => false

/-- The row that the `select ... for update of r skip locked` of `claim` returns and locks. -/
def claimable (s : Shared) (id : Uuid) (now : Int) : Option (RunRow × DefinitionRow) :=
  match s.db.run? id with
  | none => none
  | some row =>
      match s.db.definition? row.workflowId with
      | none => none
      | some definition =>
          if isClaimable now row && s.free (.run id) then some (row, definition) else none

def claimEventRows (s : Shared) (now : Int) (row : RunRow) : List EventRow :=
  [⟨s.db.nextEventId, row.tenantId, row.id, .leased, "Worker lease acquired", now⟩,
    ⟨s.db.nextEventId + 1, row.tenantId, row.id, .started, "Worker execution started", now⟩]

/-- The run that `claim` returns once its transaction has committed. -/
def leasedRun (ref : RunRef) (row : RunRow) (definition : DefinitionRow) : Option LeasedRun := do
  let workflow ← unmarshalDefinition definition.definition
  let input ← unmarshalInput row.input
  some
    { ref, tenantId := row.tenantId, currentStep := row.currentStep, input,
      definition := workflow, credentialHandle := row.providerCredentialHandle }

/-! ## Moves -/

def stepResultRow (env : Env) (run : LeasedRun) (index : Nat) (kind : ResultKind)
    (status : ResultStatus) (safeLabel : String) : StepResultRow :=
  ⟨run.tenantId, run.ref.id, index, kind, status, outputRef env run index safeLabel, safeLabel⟩

def effectRow (run : LeasedRun) (index : Nat) : EffectRow :=
  ⟨run.tenantId, run.ref.id, index, effectKey run.ref.text index,
    .obj [("tool", .str "mock_ticket_write")]⟩

/-- After `recordStep`, an approval goes on to its pause and any other step to the heartbeat. -/
def afterRecord (run : LeasedRun) (index : Nat) : ResultStatus → Pc
  | .succeeded => .heartbeat run index
  | .awaitingApproval => .awaitApproval run index

def After.pc (run : LeasedRun) : After → Pc
  | .ret => .returned .ok
  | .advance index => .heartbeat run index

def terminalEvent : RunState → EventType
  | .uncertain => .uncertain
  | _ => .failed

/-- What the place of a parameter in a statement says about the parameter's type. -/
inductive ParameterPlace where
  | typed (type : String)
  | anyType

/--
PostgreSQL types a parameter at the first place it meets.  An argument of a
function that takes any type leaves it open there, and the statement is refused:
with 42P08 if a later place settles the type, with 42P18 if none does.
-/
def isTyped : List ParameterPlace → Bool
  | .typed _ :: _ => true
  | _ => false

/--
The places of `$1` and `$2` in the `update` of `fail` and `uncertain`.  All
values are analysed before the columns they are assigned to: `$1` as it stands
is typed by `last_error_code`, after `jsonb_build_object('errorCode', $1)`.
-/
def terminateParameters : List (List ParameterPlace) :=
  [[.anyType, .typed "text"], [.typed "uuid"]]

/--
The next move from a position.  A statement of a worker that is not inside its
own claim transaction waits until nobody else has the run row locked: updates
for the row itself, inserts for the foreign key that refers to it.  A statement
whose parameters cannot be typed is refused before it waits for anything.
-/
def step (env : Env) (s : Shared) (owner : String) (reply : Reply) : Pc → Option (Pc × Effect)
  | .received runId => some (process runId, .none)
  | .claimBegin ref => some (.claimSelect ref s.clock, .none)
  | .claimSelect ref now =>
      match claimable s ref.id now with
      | none => some (.returned .ok, .none)
      | some (row, definition) => some (.claimUpdate ref now row definition, .none)
  | .claimUpdate ref now row definition => some (.claimEvents ref now row definition, .none)
  | .claimEvents ref now row definition =>
      match leasedRun ref row definition with
      | none => some (.returned .error, .draw 2 0 0)
      | some run => some (.claimCommit now row (claimEventRows s now row) run, .draw 2 0 0)
  | .claimCommit now row events run =>
      some (.execute run, .commit (.claim row.id owner now events))
  | .execute run => some (execute run, .none)
  | .loop run index => some (loop env run index, .none)
  | .consume run index handle prompt =>
      match reply with
      | .consume delivery =>
          let result := consumeCredential env s handle delivery
          some (withCredential env run index prompt result.1, result.2)
      | _ => none
  | .provider run index _ _ =>
      match reply with
      | .provider reply =>
          if callOpenAICompatible env reply then
            some (recordStep run index .model "openai-compatible-model", .none)
          else some (uncertain run "provider_model_unavailable" (.advance index), .none)
      | _ => none
  | .fetch run index _ =>
      match reply with
      | .fetch reply =>
          match fetchFailure env reply with
          | some code => some (fail run code (.advance index), .none)
          | none => some (recordStep run index .tool "allowlisted-http-fetch", .none)
      | _ => none
  | .effect run index =>
      if s.free (.run run.ref.id) then
        if (s.db.effect? run.tenantId (effectKey run.ref.text index)).isSome then
          some (recordStep run index .tool "mock-ticket-replayed", .none)
        else
          some (recordStep run index .tool "mock-ticket-committed",
            .commit (.effect (effectRow run index)))
      else none
  | .record run index kind status safeLabel =>
      if s.free (.run run.ref.id) then
        some (afterRecord run index status,
          .commit (.stepResult (stepResultRow env run index kind status safeLabel)))
      else none
  | .awaitApproval run index =>
      if s.free (.run run.ref.id) then
        some (.event run .approvalRequested "Configured side effect requires approval" .ret,
          .commit (.awaitApproval run.ref.id index))
      else none
  | .heartbeat run index => some (.heartbeatUpdate run index s.clock, .none)
  | .heartbeatUpdate run index now =>
      if s.free (.run run.ref.id) then
        some (.loop run (index + 1), .commit (.heartbeat run.ref.id (index + 1) now))
      else none
  | .terminate run state code after =>
      if terminateParameters.all isTyped then
        if s.free (.run run.ref.id) then
          some (.event run (terminalEvent state) code after,
            .commit (.terminate run.ref.id state code))
        else none
      else some (.returned .error, .none)
  | .complete run =>
      if s.free (.run run.ref.id) then
        some (.event run .succeeded "All workflow steps completed" .ret,
          .commit (.complete run.ref.id))
      else none
  | .event run eventType detail after =>
      some (.eventCommit run
        ⟨s.db.nextEventId, run.tenantId, run.ref.id, eventType, detail, s.clock⟩ after,
        .draw 1 0 0)
  | .eventCommit run row after =>
      if s.free (.run run.ref.id) then some (after.pc run, .commit (.event row)) else none
  | .returned .error => some (.gone, .nak)
  | .returned _ => some (.gone, .ack)
  | .gone => none

/-- The statement that would end a run as failed or uncertain is refused on every call. -/
theorem terminate_refused : terminateParameters.all isTyped = false := rfl

theorem step_terminate (env : Env) (s : Shared) (owner : String) (reply : Reply)
    (run : LeasedRun) (state : RunState) (code : String) (after : After) :
    step env s owner reply (.terminate run state code after) =
      some (.returned .error, .none) := by
  simp only [step, terminate_refused]
  rfl

/-! ## Positions -/

namespace Pc

/-- The run row that the claim transaction has locked. -/
def lockedRow? : Pc → Option RunRow
  | claimUpdate _ _ row _ | claimEvents _ _ row _ | claimCommit _ row _ _ => some row
  | _ => none

def held (pc : Pc) : List Resource :=
  match pc.lockedRow? with
  | some row => [.run row.id]
  | none => []

/-- The run a worker executes once its claim has committed. -/
def executing? : Pc → Option LeasedRun
  | execute run | loop run _ | consume run _ _ _ | provider run _ _ _ | fetch run _ _
  | effect run _ | record run _ _ _ _ | awaitApproval run _ | heartbeat run _
  | heartbeatUpdate run _ _ | terminate run _ _ _ | complete run | event run _ _ _
  | eventCommit run _ _ => some run
  | _ => none

/--
Positions at which a database error can surface: before a statement, or after
one whose reply was lost.
-/
def mayFail : Pc → Bool
  | received _ | consume _ _ _ _ | provider _ _ _ _ | fetch _ _ _ | gone => false
  | returned outcome => outcome = .ok
  | _ => true

/-- The run that the current call of `process` is about, as the message spells it. -/
def ref? : Pc → Option RunRef
  | claimBegin ref | claimSelect ref _ | claimUpdate ref _ _ _ | claimEvents ref _ _ _ =>
      some ref
  | claimCommit _ _ _ run => some run.ref
  | pc => pc.executing?.map LeasedRun.ref

def processing? (pc : Pc) : Option Uuid := pc.ref?.map RunRef.id

end Pc

end DurableRuntime.Worker
