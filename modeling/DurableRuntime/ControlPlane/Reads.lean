import DurableRuntime.ControlPlane.Stores

/-!
# The reading requests

`GET /v1/runs/:runId` and `GET /v1/audit`.  They write nothing and lock nothing;
the run and its events are read in two statements of one transaction, and others
can commit between them.  `Reads.next` is the system with any number of these
requests beside everything else.
-/

namespace DurableRuntime.Reads

open DurableRuntime.Foundation

inductive Request where
  | readRun (runId : String)
  | listAudit

inductive Response where
  | run (run : ControlPlane.StoredRun)
  | records (records : List RuntimeStore.AuditRecord)
  | error (status : Nat) (message : String)

inductive Pc where
  | route
  | selectRun (runId : Uuid)
  | selectEvents (row : RunRow)
  | selectAudit
  | done (response : Response)

structure Session where
  principal : ControlPlane.Principal
  request : Request
  pc : Pc

def start (role : ControlPlane.Role) : Request → Pc
  | .readRun runId =>
      match Uuid.ofText? runId with
      | some id => .selectRun id
      | none => .done (.error 500 "invalid input syntax for type uuid")
  | .listAudit =>
      if role = .owner then .selectAudit else .done (.error 500 "Insufficient role")

def step (s : Shared) (session : Session) : Option Pc :=
  match session.pc with
  | .route => some (start session.principal.role session.request)
  | .selectRun runId =>
      match ControlPlane.runOfTenant? s session.principal.tenantId runId with
      | none => some (.done (.error 404 "run_not_found"))
      | some row => some (.selectEvents row)
  | .selectEvents row =>
      some (.done (.run
        (ControlPlane.readRunInTransaction s.db.events session.principal.tenantId row)))
  | .selectAudit => some (.done (.records (PostgresDurableStore.listAudit s session.principal)))
  | .done _ => none

/-- Positions before a statement sent to the database. -/
def Pc.isStatement : Pc → Bool
  | route | done _ => false
  | _ => true

/-! ## The system with the requests -/

structure System extends State where
  reads : List Session

inductive Action where
  | system (action : DurableRuntime.Action)
  | request (principal : ControlPlane.Principal) (request : Request)
  | read (index : Nat)
  | readError (index : Nat)

def System.move (s : System) (index : Nat) (session : Session) (pc : Pc) : System :=
  { s with reads := s.reads.set index { session with pc } }

def next (env : Env) (s : System) : Action → Option System
  | .system action =>
      match DurableRuntime.next env s.toState action with
      | none => none
      | some state => some { s with toState := state }
  | .request principal request =>
      some { s with reads := s.reads ++ [⟨principal, request, .route⟩] }
  | .read index =>
      match s.reads[index]? with
      | none => none
      | some session =>
          match step s.toShared session with
          | none => none
          | some pc => some (s.move index session pc)
  | .readError index =>
      match s.reads[index]? with
      | none => none
      | some session =>
          if session.pc.isStatement then
            some (s.move index session (.done (.error 500 "database error")))
          else none

end DurableRuntime.Reads
