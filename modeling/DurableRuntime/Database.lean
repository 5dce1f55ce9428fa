import DurableRuntime.Contracts
import DurableRuntime.Foundation.Table
import DurableRuntime.Identifiers
import Mathlib.Data.List.Sort

/-!
# The database

The tables of `db/migrations` with the columns that the runtime reads, and the
effect of every statement or transaction that some component commits.  Instants
are microseconds since the epoch.  Identity columns draw their value when the
row is inserted and tables list rows in the order of their commits, so for
rows of overlapping transactions the two orders can differ.
-/

namespace DurableRuntime

open DurableRuntime.Foundation

/-! ## Rows -/

structure DefinitionRow where
  id : Uuid
  tenantId : Uuid
  name : String
  version : String
  definition : Json
  budgetCents : Nat

structure LimitsRow where
  tenantId : Uuid
  maxActiveRuns : Nat
  maxRunsPerDay : Nat

structure PrincipalRow where
  id : Uuid
  tenantId : Uuid
  subject : String

structure RunRow where
  id : Uuid
  tenantId : Uuid
  workflowId : Uuid
  idempotencyKey : String
  state : RunState
  input : Json
  budgetCents : Nat
  createdAt : Int
  updatedAt : Int
  currentStep : Nat
  leaseOwner : Option String
  leaseExpiresAt : Option Int
  attemptCount : Nat
  lastErrorCode : Option String
  terminalEvidence : Json
  providerCredentialHandle : Option Uuid

structure EventRow where
  id : Nat
  tenantId : Uuid
  runId : Uuid
  eventType : EventType
  detail : String
  createdAt : Int

inductive ResultKind where
  | model
  | transform
  | tool
  | approval
  deriving DecidableEq, Repr

inductive ResultStatus where
  | succeeded
  | awaitingApproval
  deriving DecidableEq, Repr

structure StepResultRow where
  tenantId : Uuid
  runId : Uuid
  stepIndex : Nat
  resultKind : ResultKind
  status : ResultStatus
  outputRef : String
  label : String

structure EffectRow where
  tenantId : Uuid
  runId : Uuid
  stepIndex : Nat
  effectKey : String
  outcome : Json

/-- The JSON object `{"runId": ...}` of an outbox row. -/
structure Payload where
  runId : String
  deriving DecidableEq

structure OutboxRow where
  id : Nat
  tenantId : Uuid
  runId : Uuid
  subject : String
  payload : Payload
  publishedAt : Option Int
  attempts : Nat

structure AuditRow where
  id : Nat
  tenantId : Uuid
  principalId : Option Uuid
  action : String
  resourceId : Uuid
  createdAt : Int

/-- The committed state, with the next value of each identity column. -/
structure Db where
  definitions : List DefinitionRow
  limits : List LimitsRow
  principals : List PrincipalRow
  runs : List RunRow
  events : List EventRow
  stepResults : List StepResultRow
  effects : List EffectRow
  outbox : List OutboxRow
  audits : List AuditRow
  nextEventId : Nat
  nextOutboxId : Nat
  nextAuditId : Nat

/-! ## Unique keys -/

def StepResultRow.key (row : StepResultRow) : Uuid × Uuid × Nat :=
  (row.tenantId, row.runId, row.stepIndex)

def EffectRow.key (row : EffectRow) : Uuid × String := (row.tenantId, row.effectKey)

def RunRow.key (row : RunRow) : Uuid × String := (row.tenantId, row.idempotencyKey)

namespace Db

def run? (db : Db) (id : Uuid) : Option RunRow := Table.lookup RunRow.id id db.runs

def stepResult? (db : Db) (tenantId runId : Uuid) (stepIndex : Nat) : Option StepResultRow :=
  Table.lookup StepResultRow.key (tenantId, runId, stepIndex) db.stepResults

def effect? (db : Db) (tenantId : Uuid) (effectKey : String) : Option EffectRow :=
  Table.lookup EffectRow.key (tenantId, effectKey) db.effects

def runByKey? (db : Db) (tenantId : Uuid) (idempotencyKey : String) : Option RunRow :=
  Table.lookup RunRow.key (tenantId, idempotencyKey) db.runs

def definition? (db : Db) (id : Uuid) : Option DefinitionRow :=
  Table.lookup DefinitionRow.id id db.definitions

def limits? (db : Db) (tenantId : Uuid) : Option LimitsRow :=
  Table.lookup LimitsRow.tenantId tenantId db.limits

/-- `select id from principals where tenant_id = $1 and subject = $2`. -/
def principalId? (db : Db) (tenantId : Uuid) (subject : String) : Option Uuid :=
  (db.principals.find? fun row => row.tenantId = tenantId ∧ row.subject = subject).map (·.id)

end Db

/-- The events of a run in id order. -/
def eventsOf (events : List EventRow) (runId : Uuid) : List EventRow :=
  (events.filter fun row => row.runId = runId).insertionSort fun a b => a.id ≤ b.id

/-! ## Updates of a run row -/

/-- `interval '30 seconds'`. -/
def leaseInterval : Int := 30000000

namespace RunRow

def claim (owner : String) (now : Int) (row : RunRow) : RunRow :=
  { row with
    state := .running
    leaseOwner := some owner
    leaseExpiresAt := some (now + leaseInterval)
    attemptCount := row.attemptCount + 1
    updatedAt := now }

def heartbeat (step : Nat) (now : Int) (row : RunRow) : RunRow :=
  { row with
    currentStep := step
    leaseExpiresAt := some (now + leaseInterval)
    updatedAt := now }

def awaitApproval (index : Nat) (row : RunRow) : RunRow :=
  { row with
    state := .awaitingApproval
    leaseOwner := none
    leaseExpiresAt := none
    currentStep := index }

/-- The update shared by `fail` and `uncertain`. -/
def terminate (state : RunState) (code : String) (row : RunRow) : RunRow :=
  { row with
    state := state
    leaseOwner := none
    leaseExpiresAt := none
    lastErrorCode := some code
    terminalEvidence := .obj [("errorCode", .str code)] }

def complete (row : RunRow) : RunRow :=
  { row with
    state := .succeeded
    leaseOwner := none
    leaseExpiresAt := none
    terminalEvidence := .obj [("kind", .str "completed")] }

/-- The update of `transition`; an approval also moves past the approved step. -/
def transition (state : RunState) (approved : Bool) (now : Int) (row : RunRow) : RunRow :=
  { row with
    state := state
    currentStep := if approved then row.currentStep + 1 else row.currentStep
    updatedAt := now }

end RunRow

/-! ## Commits -/

/-- What a control-plane transaction does to `workflow_runs`; an update keeps the locked row. -/
inductive RunWrite where
  | insert (row : RunRow)
  | update (before : RunRow) (state : RunState) (approved : Bool) (now : Int)

/-- The row as the transaction itself sees it. -/
def RunWrite.row : RunWrite → RunRow
  | .insert row => row
  | .update before state approved now => before.transition state approved now

/-- The uncommitted writes of a control-plane transaction. -/
structure Writes where
  run : RunWrite
  event : Option EventRow
  outbox : Option OutboxRow
  audit : Option AuditRow

inductive Commit where
  | createWorkflow (row : DefinitionRow) (audit : AuditRow)
  | request (writes : Writes)
  | claim (runId : Uuid) (owner : String) (now : Int) (events : List EventRow)
  | heartbeat (runId : Uuid) (step : Nat) (now : Int)
  | awaitApproval (runId : Uuid) (index : Nat)
  | terminate (runId : Uuid) (state : RunState) (code : String)
  | complete (runId : Uuid)
  | event (row : EventRow)
  | stepResult (row : StepResultRow)
  | effect (row : EffectRow)
  | outboxAttempts (ids : List Nat)
  | outboxPublished (ids : List Nat) (now : Int)

def Db.updateRun (db : Db) (id : Uuid) (f : RunRow → RunRow) : Db :=
  { db with runs := Table.modify RunRow.id id f db.runs }

def Db.writeRun (db : Db) : RunWrite → Db
  | .insert row => { db with runs := db.runs ++ [row] }
  | .update before state approved now =>
      db.updateRun before.id (RunRow.transition state approved now)

def OutboxRow.attempt (row : OutboxRow) : OutboxRow :=
  { row with attempts := row.attempts + 1 }

def OutboxRow.publish (now : Int) (row : OutboxRow) : OutboxRow :=
  { row with publishedAt := some now }

def Db.updateOutbox (db : Db) (ids : List Nat) (f : OutboxRow → OutboxRow) : Db :=
  { db with outbox := db.outbox.map fun row => if row.id ∈ ids then f row else row }

def Db.commit (db : Db) : Commit → Db
  | .createWorkflow row audit =>
      { db with definitions := db.definitions ++ [row], audits := db.audits ++ [audit] }
  | .request writes =>
      { db.writeRun writes.run with
        events := db.events ++ writes.event.toList
        outbox := db.outbox ++ writes.outbox.toList
        audits := db.audits ++ writes.audit.toList }
  | .claim runId owner now events =>
      { db.updateRun runId (RunRow.claim owner now) with events := db.events ++ events }
  | .heartbeat runId step now => db.updateRun runId (RunRow.heartbeat step now)
  | .awaitApproval runId index => db.updateRun runId (RunRow.awaitApproval index)
  | .terminate runId state code => db.updateRun runId (RunRow.terminate state code)
  | .complete runId => db.updateRun runId RunRow.complete
  | .event row => { db with events := db.events ++ [row] }
  | .stepResult row =>
      { db with stepResults := Table.insertIfAbsent StepResultRow.key row db.stepResults }
  | .effect row => { db with effects := Table.insertIfAbsent EffectRow.key row db.effects }
  | .outboxAttempts ids => db.updateOutbox ids OutboxRow.attempt
  | .outboxPublished ids now => db.updateOutbox ids (OutboxRow.publish now)

/-- The database after a step that commits at most once. -/
def Db.after (db : Db) : Option Commit → Db
  | none => db
  | some change => db.commit change

/-- Identity values drawn by inserts that may still be uncommitted. -/
def Db.draw (db : Db) (events outbox audits : Nat) : Db :=
  { db with
    nextEventId := db.nextEventId + events
    nextOutboxId := db.nextOutboxId + outbox
    nextAuditId := db.nextAuditId + audits }

end DurableRuntime
