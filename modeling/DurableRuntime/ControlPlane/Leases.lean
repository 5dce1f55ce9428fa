import DurableRuntime.System

/-!
# `claimRunLease`

The store's own claim of a run.  It leaves the run `leased` where the worker's
leaves it `running`, gets the time to live from its caller, and looks up the
definition in a statement of its own.  `Lease.next` is the system with any
number of such calls beside everything else.
-/

namespace DurableRuntime

/-- The update of `claimRunLease`; `ttl` is its interval in microseconds. -/
def RunRow.grantLease (owner : String) (now : Int) (ttl : Nat) (row : RunRow) : RunRow :=
  { row with
    state := .leased
    leaseOwner := some owner
    leaseExpiresAt := some (now + ttl)
    updatedAt := now }

namespace Lease

open DurableRuntime.Foundation

structure WorkerLease where
  run : ControlPlane.StoredRun
  definition : WorkflowDefinition
  currentStep : Nat
  leaseOwner : String
  leaseExpiresAt : Int

inductive Pc where
  | start
  | select (now : Int)
  | commitEmpty
  | workflow (now : Int) (row : RunRow)
  | update (now : Int) (row : RunRow) (definition : Json)
  | insertEvent (now : Int) (row : RunRow) (definition : Json)
  | commit (now : Int) (row : RunRow) (definition : Json) (event : EventRow)
  | readEvents (now : Int) (row : RunRow) (definition : Json)
  | done (lease : Option WorkerLease)
  | failed

/-- One call of `claimRunLease`. -/
structure Session where
  runId : Uuid
  workerId : String
  ttl : Nat
  pc : Pc

inductive Effect where
  | none
  | draw
  | commit (runId : Uuid) (owner : String) (now : Int) (ttl : Nat) (event : EventRow)

/-- `state = 'queued' or (state in ('leased', 'running') and lease_expires_at < now())`. -/
def leasable (now : Int) (row : RunRow) : Bool :=
  row.state = .queued ||
    ((row.state = .leased || row.state = .running) &&
      row.leaseExpiresAt.any fun expiry => expiry < now)

/-- The row that the `select ... for update skip locked` returns and locks. -/
def select (s : Shared) (runId : Uuid) (now : Int) : Option RunRow :=
  (s.db.run? runId).filter fun row => leasable now row && s.free (.run runId)

def workflow (s : Shared) (row : RunRow) : Option DefinitionRow :=
  (s.db.definition? row.workflowId).filter fun definition => definition.tenantId = row.tenantId

def eventRow (s : Shared) (row : RunRow) (now : Int) : EventRow :=
  ⟨s.db.nextEventId, row.tenantId, row.id, .leased, "Worker lease acquired", now⟩

def readRunSystem (s : Shared) (row : RunRow) : ControlPlane.StoredRun :=
  ControlPlane.readRunInTransaction s.db.events row.tenantId row

/-- What the call returns; a definition that does not parse is an error after the commit. -/
def result (s : Shared) (session : Session) (now : Int) (row : RunRow) (definition : Json) : Pc :=
  match workflowDefinitionSchema definition with
  | none => .failed
  | some definition =>
      .done (some
        { run := readRunSystem s { row with state := .leased }
          definition
          currentStep := row.currentStep
          leaseOwner := session.workerId
          leaseExpiresAt := now + session.ttl })

def step (s : Shared) (session : Session) : Option (Pc × Effect) :=
  match session.pc with
  | .start => some (.select s.clock, .none)
  | .select now =>
      match select s session.runId now with
      | none => some (.commitEmpty, .none)
      | some row => some (.workflow now row, .none)
  | .commitEmpty => some (.done none, .none)
  | .workflow now row =>
      match workflow s row with
      | none => some (.failed, .none)
      | some definition => some (.update now row definition.definition, .none)
  | .update now row definition => some (.insertEvent now row definition, .none)
  | .insertEvent now row definition =>
      some (.commit now row definition (eventRow s row now), .draw)
  | .commit now row definition event =>
      some (.readEvents now row definition,
        .commit row.id session.workerId now session.ttl event)
  | .readEvents now row definition => some (result s session now row definition, .none)
  | .done _ => none
  | .failed => none

namespace Pc

/-- The claim in progress: its `now()` and the row it has locked. -/
def claiming? : Pc → Option (Int × RunRow)
  | workflow now row | update now row _ | insertEvent now row _ | commit now row _ _ =>
      some (now, row)
  | _ => none

def held (pc : Pc) : List Resource :=
  match pc.claiming? with
  | some (_, row) => [.run row.id]
  | none => []

def isRunning : Pc → Bool
  | done _ | failed => false
  | _ => true

end Pc

def Effect.apply (db : Db) : Effect → Db
  | .none => db
  | .draw => db.draw 1 0 0
  | .commit runId owner now ttl event =>
      { db.updateRun runId (RunRow.grantLease owner now ttl) with events := db.events ++ [event] }

/-! ## The system with the calls -/

structure System extends State where
  leases : List Session

inductive Action where
  | system (action : DurableRuntime.Action)
  | claimRunLease (runId : Uuid) (workerId : String) (ttl : Nat)
  | lease (index : Nat)
  | leaseError (index : Nat)

def System.move (s : System) (index : Nat) (session : Session) (pc : Pc) (effect : Effect) :
    System :=
  { s with
    db := effect.apply s.db
    locks := regrant (.lease index) pc.held s.locks
    leases := s.leases.set index { session with pc } }

def next (env : Env) (s : System) : Action → Option System
  | .system action =>
      match DurableRuntime.next env s.toState action with
      | none => none
      | some state => some { s with toState := state }
  | .claimRunLease runId workerId ttl =>
      some { s with leases := s.leases ++ [⟨runId, workerId, ttl, .start⟩] }
  | .lease index =>
      match s.leases[index]? with
      | none => none
      | some session =>
          match step s.toShared session with
          | none => none
          | some (pc, effect) => some (s.move index session pc effect)
  | .leaseError index =>
      match s.leases[index]? with
      | none => none
      | some session =>
          if session.pc.isRunning then some (s.move index session .failed .none) else none

abbrev Run (env : Env) : History System Action → System → Prop :=
  Exec (fun s => Initial s.toState ∧ s.leases = []) (next env)

end Lease

end DurableRuntime
