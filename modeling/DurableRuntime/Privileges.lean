import DurableRuntime.Database
import DurableRuntime.Foundation.History
import DurableRuntime.Foundation.RowSecurity

/-!
# The database roles

Grants and policies of `db/migrations` for `dar_control` and `dar_worker`, with
any statement they may send.  The policies compare the tenant of a row with the
setting `app.tenant_id` of the connection, which `withTenant` sets for one
transaction of a connection that serves all tenants in turn.
-/

namespace DurableRuntime

open DurableRuntime.Foundation

inductive DatabaseRole where
  | control
  | worker
  deriving DecidableEq

/-! ## Tables -/

inductive RunColumn where
  | id
  | tenantId
  | workflowId
  | idempotencyKey
  | state
  | input
  | budgetCents
  | createdAt
  | updatedAt
  | currentStep
  | leaseOwner
  | leaseExpiresAt
  | attemptCount
  | lastErrorCode
  | terminalEvidence
  | providerCredentialHandle
  deriving DecidableEq

/-- `using (tenant_id = nullif(current_setting('app.tenant_id', true), '')::uuid)`. -/
def tenantPolicy {ρ : Type} (tenantId : ρ → Uuid) : Policy DatabaseRole (Option Uuid) ρ where
  roles := none
  usingRow := fun setting row => setting.map fun id => tenantId row = id
  checkRow := fun setting row => setting.map fun id => tenantId row = id

/-- `for all to dar_worker using (true) with check (true)`. -/
def workerSystem {ρ : Type} : Policy DatabaseRole (Option Uuid) ρ where
  roles := some [.worker]
  usingRow := fun _ _ => some true
  checkRow := fun _ _ => some true

abbrev TableProtection (κ ρ : Type) := Protection DatabaseRole (Option Uuid) κ ρ

namespace Protection

def definitions : TableProtection Unit DefinitionRow where
  grants := [⟨[.control], [.select, .insert, .update, .delete], none⟩,
    ⟨[.worker], [.select], none⟩]
  rowSecurity := true
  policies := [tenantPolicy DefinitionRow.tenantId, workerSystem]

def limits : TableProtection Unit LimitsRow where
  grants := [⟨[.control], [.select, .insert, .update], none⟩]
  rowSecurity := true
  policies := [tenantPolicy LimitsRow.tenantId]

def principals : TableProtection Unit PrincipalRow where
  grants := [⟨[.control], [.select, .insert, .update], none⟩]
  rowSecurity := false
  policies := []

def runs : TableProtection RunColumn RunRow where
  grants := [⟨[.control], [.select], none⟩,
    ⟨[.control], [.insert], some [.tenantId, .workflowId, .idempotencyKey, .input, .budgetCents,
      .providerCredentialHandle]⟩,
    ⟨[.control], [.update], some [.state, .currentStep, .updatedAt]⟩,
    ⟨[.worker], [.select, .update], none⟩]
  rowSecurity := true
  policies := [tenantPolicy RunRow.tenantId, workerSystem]

def events : TableProtection Unit EventRow where
  grants := [⟨[.control], [.select, .insert, .update, .delete], none⟩,
    ⟨[.worker], [.select, .insert, .update], none⟩]
  rowSecurity := true
  policies := [tenantPolicy EventRow.tenantId, workerSystem]

def stepResults : TableProtection Unit StepResultRow where
  grants := [⟨[.worker], [.select, .insert, .update], none⟩]
  rowSecurity := true
  policies := [tenantPolicy StepResultRow.tenantId, workerSystem]

def effects : TableProtection Unit EffectRow where
  grants := [⟨[.worker], [.select, .insert, .update], none⟩]
  rowSecurity := true
  policies := [tenantPolicy EffectRow.tenantId, workerSystem]

def outbox : TableProtection Unit OutboxRow where
  grants := [⟨[.worker], [.select, .insert, .update], none⟩]
  rowSecurity := true
  policies := [tenantPolicy OutboxRow.tenantId, workerSystem]

def audits : TableProtection Unit AuditRow where
  grants := [⟨[.control], [.select, .insert, .update, .delete], none⟩]
  rowSecurity := true
  policies := [tenantPolicy AuditRow.tenantId]

end Protection

def RunColumn.Cell : RunColumn → Type
  | .id | .tenantId | .workflowId => Uuid
  | .idempotencyKey => String
  | .state => RunState
  | .input | .terminalEvidence => Json
  | .budgetCents | .currentStep | .attemptCount => Nat
  | .createdAt | .updatedAt => Int
  | .leaseOwner | .lastErrorCode => Option String
  | .leaseExpiresAt => Option Int
  | .providerCredentialHandle => Option Uuid

def RunRow.cell (row : RunRow) : (column : RunColumn) → RunColumn.Cell column
  | .id => row.id
  | .tenantId => row.tenantId
  | .workflowId => row.workflowId
  | .idempotencyKey => row.idempotencyKey
  | .state => row.state
  | .input => row.input
  | .budgetCents => row.budgetCents
  | .createdAt => row.createdAt
  | .updatedAt => row.updatedAt
  | .currentStep => row.currentStep
  | .leaseOwner => row.leaseOwner
  | .leaseExpiresAt => row.leaseExpiresAt
  | .attemptCount => row.attemptCount
  | .lastErrorCode => row.lastErrorCode
  | .terminalEvidence => row.terminalEvidence
  | .providerCredentialHandle => row.providerCredentialHandle

/-- The defaults of `workflow_runs`; ids and instants are drawn by the database. -/
def RunColumn.IsDefault : (column : RunColumn) → RunColumn.Cell column → Prop
  | .id, _ | .createdAt, _ | .updatedAt, _ => True
  | .tenantId, _ | .workflowId, _ | .idempotencyKey, _ | .budgetCents, _ => False
  | .state, cell => cell = RunState.queued
  | .input, cell | .terminalEvidence, cell => cell = Json.obj []
  | .currentStep, cell | .attemptCount, cell => cell = (0 : Nat)
  | .leaseOwner, cell | .lastErrorCode, cell => cell = (none : Option String)
  | .leaseExpiresAt, cell => cell = (none : Option Int)
  | .providerCredentialHandle, cell => cell = (none : Option Uuid)

def runColumns : Columns RunColumn RunRow where
  Cell := RunColumn.Cell
  cell := RunRow.cell
  IsDefault := RunColumn.IsDefault

/-! ## Queries -/

inductive Query where
  | definitions (statement : Statement (Columns.whole DefinitionRow))
  | limits (statement : Statement (Columns.whole LimitsRow))
  | principals (statement : Statement (Columns.whole PrincipalRow))
  | runs (statement : Statement runColumns)
  | events (statement : Statement (Columns.whole EventRow))
  | stepResults (statement : Statement (Columns.whole StepResultRow))
  | effects (statement : Statement (Columns.whole EffectRow))
  | outbox (statement : Statement (Columns.whole OutboxRow))
  | audits (statement : Statement (Columns.whole AuditRow))
  | queueRunOutbox (calls : List (Nat × Uuid × Uuid))

/-- The table of the principals has no row security. -/
def Query.isSecured : Query → Bool
  | principals _ => false
  | _ => true

/-- The tenants of the returned rows. -/
abbrev Shown := List Uuid

/-- The row that `queue_run_outbox` inserts, with the id it draws. -/
def OutboxRow.queued (id : Nat) (tenantId runId : Uuid) : OutboxRow :=
  ⟨id, tenantId, runId, "dar.run.queued", ⟨runId.text⟩, none, 0⟩

/-- `security definer`: the insertion itself is done by the owner of the tables. -/
def Db.queueRunOutbox (db : Db) (setting : Option Uuid) (id : Nat) (tenantId runId : Uuid) :
    Option Db :=
  if some tenantId ≠ setting then none
  else if db.runs.any fun row =>
      row.id = runId && row.tenantId = tenantId && row.state = .queued then
    some { db with outbox := db.outbox ++ [.queued id tenantId runId] }
  else none

/-- The calls of one statement, of which none may be refused. -/
def Db.queueRunOutboxes (db : Db) (setting : Option Uuid) (calls : List (Nat × Uuid × Uuid)) :
    Option Db :=
  calls.foldlM
    (fun (db : Db) call => db.queueRunOutbox setting call.1 call.2.1 call.2.2) db

def Query.run (role : DatabaseRole) (setting : Option Uuid) (db : Db) :
    Query → Option (Shown × Db)
  | .definitions statement =>
      (statement.run Protection.definitions role setting db.definitions).map fun result =>
        (result.1.map DefinitionRow.tenantId, { db with definitions := result.2 })
  | .limits statement =>
      (statement.run Protection.limits role setting db.limits).map fun result =>
        (result.1.map LimitsRow.tenantId, { db with limits := result.2 })
  | .principals statement =>
      (statement.run Protection.principals role setting db.principals).map fun result =>
        (result.1.map PrincipalRow.tenantId, { db with principals := result.2 })
  | .runs statement =>
      (statement.run Protection.runs role setting db.runs).map fun result =>
        (result.1.map RunRow.tenantId, { db with runs := result.2 })
  | .events statement =>
      (statement.run Protection.events role setting db.events).map fun result =>
        (result.1.map EventRow.tenantId, { db with events := result.2 })
  | .stepResults statement =>
      (statement.run Protection.stepResults role setting db.stepResults).map fun result =>
        (result.1.map StepResultRow.tenantId, { db with stepResults := result.2 })
  | .effects statement =>
      (statement.run Protection.effects role setting db.effects).map fun result =>
        (result.1.map EffectRow.tenantId, { db with effects := result.2 })
  | .outbox statement =>
      (statement.run Protection.outbox role setting db.outbox).map fun result =>
        (result.1.map OutboxRow.tenantId, { db with outbox := result.2 })
  | .audits statement =>
      (statement.run Protection.audits role setting db.audits).map fun result =>
        (result.1.map AuditRow.tenantId, { db with audits := result.2 })
  | .queueRunOutbox calls =>
      -- `grant execute on function queue_run_outbox(uuid, uuid) to dar_control`
      if role = .control then
        (db.queueRunOutboxes setting calls).map fun db => ([], db)
      else none

/-! ## A connection of the pool -/

/--
`transaction` is the tenant that `withTenant` serves on the connection now, and
`setting` is what `current_setting('app.tenant_id', true)` returns.
-/
structure Connection where
  db : Db
  transaction : Option Uuid
  setting : Option String

/-- `nullif(..., '')::uuid`, `none` when the text is no `uuid`. -/
def Connection.tenantSetting (c : Connection) : Option (Option Uuid) :=
  match c.setting with
  | none => some none
  | some text => if text = "" then some none else (Uuid.ofText? text).map some

inductive ConnectionAction where
  | withTenant (tenantId : Uuid)
  | query (query : Query)
  | finish
  | others (db : Db)

/-- The setting is local to its transaction, after which it reads as the empty string. -/
def Connection.next (role : DatabaseRole) (c : Connection) : ConnectionAction → Option Connection
  | .withTenant tenantId =>
      if c.transaction.isNone then
        some { c with transaction := some tenantId, setting := some tenantId.text }
      else none
  | .query query =>
      match c.tenantSetting with
      | none => none
      | some setting => (query.run role setting c.db).map fun result => { c with db := result.2 }
  | .finish =>
      if c.transaction.isSome then some { c with transaction := none, setting := some "" }
      else none
  | .others db => some { c with db }

/-- The connections of a pool, from their opening on. -/
abbrev ConnectionRun (role : DatabaseRole) :
    History Connection ConnectionAction → Connection → Prop :=
  Exec (fun c => c.transaction = none ∧ c.setting = none) (Connection.next role)

end DurableRuntime
