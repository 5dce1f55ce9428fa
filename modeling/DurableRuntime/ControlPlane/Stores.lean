import DurableRuntime.Foundation.Answers
import DurableRuntime.Jsonb
import DurableRuntime.System

/-!
# The two stores

`RuntimeStore` with its two implementations, one call at a time:
`InMemoryDurableStore` over the maps of one process, and `PostgresDurableStore`,
whose calls are transactions that here run alone.  Ids are text in both; the
database prints a `uuid` in lower case and reads any spelling of it.  A call
draws its id at random and reads the clock once.
-/

namespace DurableRuntime

open DurableRuntime.Foundation

/-! ## The interface -/

namespace RuntimeStore

structure Principal where
  tenantId : String
  role : ControlPlane.Role
  subject : String

structure RunEvent where
  instant : Int
  eventType : EventType
  detail : String

structure StoredWorkflow where
  id : String
  tenantId : String
  definition : WorkflowDefinition
  createdAt : Int

structure StoredRun where
  id : String
  tenantId : String
  workflowId : String
  state : RunState
  input : JsValue
  budgetCents : Nat
  idempotencyKey : String
  createdAt : Int
  events : List RunEvent

/-- What `transition` does to the object that the map holds. -/
def StoredRun.move (state : RunState) (event : RunEvent) (run : StoredRun) : StoredRun :=
  { run with state, events := run.events ++ [event] }

structure AuditRecord where
  instant : Int
  tenantId : String
  subject : String
  action : String
  resourceId : String

structure CreateRun where
  workflowId : String
  input : JsValue
  providerCredentialHandle : Option Uuid

inductive Call where
  | createWorkflow (definition : WorkflowDefinition)
  | createRun (request : CreateRun) (idempotencyKey : String)
  | readRun (runId : String)
  | transition (runId : String) (state : RunState) (event : RunEvent)
  | listAudit

/-- A call of a principal, with the random id it draws and the time it is made. -/
structure Request where
  role : ControlPlane.Role
  subject : String
  call : Call
  id : Uuid
  now : Int

inductive Result where
  | workflow (workflow : StoredWorkflow)
  | created (run : StoredRun) (replayed : Bool)
  | read (run : Option StoredRun)
  | run (run : StoredRun)
  | audit (records : List AuditRecord)

abbrev Answer := Except String Result

end RuntimeStore

open RuntimeStore

/-! ## `InMemoryDurableStore` -/

structure InMemoryDurableStore where
  workflows : List StoredWorkflow
  runs : List StoredRun
  audits : List AuditRecord
  idempotency : List (String × String)

namespace InMemoryDurableStore

def empty : InMemoryDurableStore := ⟨[], [], [], []⟩

def audit (store : InMemoryDurableStore) (principal : Principal) (action resourceId : String)
    (now : Int) : InMemoryDurableStore :=
  { store with
    audits := store.audits ++ [⟨now, principal.tenantId, principal.subject, action, resourceId⟩] }

def createWorkflow (store : InMemoryDurableStore) (principal : Principal)
    (definition : WorkflowDefinition) (id : String) (now : Int) :
    StoredWorkflow × InMemoryDurableStore :=
  let workflow := ⟨id, principal.tenantId, definition, now⟩
  let stored := { store with workflows := Table.put StoredWorkflow.id workflow store.workflows }
  (workflow, stored.audit principal "workflow.created" id now)

/-- The key under which the map `idempotency` knows a request. -/
def idempotencyMapKey (principal : Principal) (idempotencyKey : String) : String :=
  principal.tenantId ++ ":" ++ idempotencyKey

def createRun (store : InMemoryDurableStore) (principal : Principal) (request : CreateRun)
    (idempotencyKey id : String) (now : Int) :
    Except String (StoredRun × Bool) × InMemoryDurableStore :=
  let key := idempotencyMapKey principal idempotencyKey
  match Table.lookup Prod.fst key store.idempotency with
  | some prior =>
      match Table.lookup StoredRun.id prior.2 store.runs with
      | none => (.error "Idempotency record refers to a missing run", store)
      | some run => (.ok (run, true), store)
  | none =>
      match (Table.lookup StoredWorkflow.id request.workflowId store.workflows).filter
          (fun workflow => workflow.tenantId = principal.tenantId) with
      | none => (.error "Workflow not found", store)
      | some workflow =>
          let run :=
            { id, tenantId := principal.tenantId, workflowId := workflow.id, state := .queued,
              input := request.input, budgetCents := workflow.definition.budgetCents,
              idempotencyKey, createdAt := now, events := [⟨now, .created, "Run queued"⟩] }
          let stored :=
            { store with
              runs := Table.put StoredRun.id run store.runs
              idempotency := Table.put Prod.fst (key, id) store.idempotency }
          (.ok (run, false), stored.audit principal "run.created" id now)

def readRun (store : InMemoryDurableStore) (principal : Principal) (runId : String) :
    Option StoredRun :=
  (Table.lookup StoredRun.id runId store.runs).filter fun run =>
    run.tenantId = principal.tenantId

def transition (store : InMemoryDurableStore) (principal : Principal) (runId : String)
    (state : RunState) (event : RunEvent) (now : Int) :
    Except String StoredRun × InMemoryDurableStore :=
  match readRun store principal runId with
  | none => (.error "Run not found", store)
  | some run =>
      match assertTransition run.state state with
      | .error message => (.error message, store)
      | .ok _ =>
          let stored :=
            { store with runs := Table.modify StoredRun.id runId (.move state event) store.runs }
          (.ok (run.move state event),
            stored.audit principal ("run." ++ event.eventType.text) runId now)

def listAudit (store : InMemoryDurableStore) (principal : Principal) : List AuditRecord :=
  store.audits.filter fun item => item.tenantId = principal.tenantId

def answer (tenantId : String) (store : InMemoryDurableStore) (request : Request) :
    Answer × InMemoryDurableStore :=
  let principal := ⟨tenantId, request.role, request.subject⟩
  match request.call with
  | .createWorkflow definition =>
      let result := createWorkflow store principal definition request.id.text request.now
      (.ok (.workflow result.1), result.2)
  | .createRun create idempotencyKey =>
      let result :=
        createRun store principal create idempotencyKey request.id.text request.now
      (result.1.map fun created => .created created.1 created.2, result.2)
  | .readRun runId => (.ok (.read (readRun store principal runId)), store)
  | .transition runId state event =>
      let result := transition store principal runId state event request.now
      (result.1.map .run, result.2)
  | .listAudit => (.ok (.audit (listAudit store principal)), store)

end InMemoryDurableStore

/-! ## `PostgresDurableStore` -/

namespace PostgresDurableStore

open ControlPlane (toRun runOfTenant? quotaError newRun handleUnused auditRow eventRow outboxRow)

def notUuid (text : String) : String := "invalid input syntax for type uuid: \"" ++ text ++ "\""

def duplicateKey (name : String) : String :=
  "duplicate key value violates unique constraint \"" ++ name ++ "\""

def checkViolation (relation name : String) : String :=
  "new row for relation \"" ++ relation ++ "\" violates check constraint \"" ++ name ++ "\""

def indexRowTooLong (name : String) : String :=
  "index row size exceeds btree version 4 maximum 2704 for index \"" ++ name ++ "\""

def toEvent (row : EventRow) : RunEvent := ⟨row.createdAt, row.eventType, row.detail⟩

def toStoredRun (run : ControlPlane.StoredRun) : StoredRun :=
  { id := run.id.text, tenantId := run.tenantId.text, workflowId := run.workflowId.text,
    state := run.state, input := .ofJson run.input, budgetCents := run.budgetCents,
    idempotencyKey := run.idempotencyKey, createdAt := run.createdAt,
    events := run.events.map toEvent }

def readRunInTransaction (db : Db) (tenantId : Uuid) (row : RunRow) : StoredRun :=
  toStoredRun (ControlPlane.readRunInTransaction db.events tenantId row)

/-- What the constraints of `workflow_definitions` find wrong with a new row. -/
def definitionError (env : Env) (db : Db) (row : DefinitionRow) : Option String :=
  if !isJsonText row.definition then some nulInJson
  else if !isVersion row.version then
    some (checkViolation "workflow_definitions" "workflow_definitions_version_check")
  else if !env.fitsIndex row.name row.version then
    some (indexRowTooLong "workflow_definitions_tenant_id_name_version_key")
  else if !definitionInsertable db row then
    some (duplicateKey "workflow_definitions_tenant_id_name_version_key")
  else none

def createWorkflow (env : Env) (s : Shared) (principal : ControlPlane.Principal)
    (definition : WorkflowDefinition) (id : Uuid) : Except String StoredWorkflow × Shared :=
  let row := definitionRow principal id definition
  match definitionError env s.db row with
  | some message => (.error message, s)
  | none =>
      let audit := auditRow s principal s.clock "workflow.created" id
      (.ok ⟨id.text, row.tenantId.text, definition, s.clock⟩,
        { s with db := (s.db.draw 0 0 1).commit (.createWorkflow row audit) })

/-- What the constraints of `workflow_runs` find wrong with a new row. -/
def runError (s : Shared) (row : RunRow) : Option String :=
  if !(16 ≤ row.idempotencyKey.length && row.idempotencyKey.length ≤ 128) then
    some (checkViolation "workflow_runs" "workflow_runs_idempotency_key_check")
  else if (s.db.run? row.id).isSome then some (duplicateKey "workflow_runs_pkey")
  else if row.providerCredentialHandle.any fun handle => !handleUnused s handle then
    some (duplicateKey "workflow_runs_provider_credential_handle_idx")
  else none

/-- `queue_run_outbox`, inside the transaction that has the row. -/
def queueRunOutbox (s : Shared) (tenantId : Uuid) (row : RunRow) : Except String OutboxRow :=
  if row.tenantId = tenantId ∧ row.state = .queued then .ok (outboxRow s row)
  else .error "queued run does not exist for tenant"

/-- The rest of `createRun` once the workflow has been found. -/
def insertRun (env : Env) (s : Shared) (principal : ControlPlane.Principal)
    (create : CreateRun) (workflow : DefinitionRow) (idempotencyKey : String) (id : Uuid) :
    Except String (StoredRun × Bool) × Shared :=
  match jsonError env create.input.toJson with
  | some message => (.error message, s)
  | none =>
      let row := newRun principal.tenantId
        ⟨workflow.id, create.input.toJson, none, idempotencyKey⟩ create.providerCredentialHandle
        id s.clock workflow.budgetCents
      match runError s row with
      | some message => (.error message, s)
      | none =>
          match queueRunOutbox s principal.tenantId row with
          | .error message => (.error message, s)
          | .ok queued =>
              let event := eventRow s row s.clock .created "Run queued"
              let audit := auditRow s principal s.clock "run.created" row.id
              let db := (s.db.draw 1 1 1).commit
                (.request ⟨.insert row, some event, some queued, some audit⟩)
              (.ok (readRunInTransaction db principal.tenantId row, false), { s with db })

def createRun (env : Env) (s : Shared) (principal : ControlPlane.Principal) (create : CreateRun)
    (idempotencyKey : String) (id : Uuid) : Except String (StoredRun × Bool) × Shared :=
  if !isText idempotencyKey then (.error nulInText, s)
  else
    match s.db.runByKey? principal.tenantId idempotencyKey with
    | some row => (.ok (readRunInTransaction s.db principal.tenantId row, true), s)
    | none =>
        match s.db.limits? principal.tenantId with
        | none => (.error "Tenant runtime limits missing", s)
        | some limits =>
            match quotaError env s s.clock limits principal.tenantId with
            | some message => (.error message, s)
            | none =>
                match Uuid.ofText? create.workflowId with
                | none => (.error (notUuid create.workflowId), s)
                | some workflowId =>
                    match (s.db.definition? workflowId).filter
                        (fun row => row.tenantId = principal.tenantId) with
                    | none => (.error "Workflow not found", s)
                    | some workflow =>
                        insertRun env s principal create workflow idempotencyKey id

def readRun (s : Shared) (principal : ControlPlane.Principal) (runId : String) :
    Except String (Option StoredRun) :=
  match Uuid.ofText? runId with
  | none => .error (notUuid runId)
  | some id =>
      .ok ((runOfTenant? s principal.tenantId id).map
        (readRunInTransaction s.db principal.tenantId))

/-- The outbox row of a transition, which only an approval queues. -/
def queueApproved (s : Shared) (tenantId : Uuid) (args : ControlPlane.TransitionArgs)
    (row : RunRow) : Except String (Option OutboxRow) :=
  if args.approves then (queueRunOutbox s tenantId row).map some else .ok none

/-- What the columns of `run_events` find wrong with a detail. -/
def detailError (detail : String) : Option String :=
  if !isText detail then some nulInText
  else if 500 < detail.length then some (checkViolation "run_events" "run_events_detail_check")
  else none

/-- The rest of `transition` once it has locked the row and checked the target state. -/
def updateRun (s : Shared) (principal : ControlPlane.Principal) (row : RunRow)
    (args : ControlPlane.TransitionArgs) : Except String StoredRun × Shared :=
  let write := RunWrite.update row args.state args.approves s.clock
  match detailError args.detail with
  | some message => (.error message, s)
  | none =>
      match queueApproved s principal.tenantId args write.row with
      | .error message => (.error message, s)
      | .ok queued =>
          let event := eventRow s write.row s.clock args.eventType args.detail
          let audit := auditRow s principal s.clock ("run." ++ args.eventType.text) row.id
          let db := (s.db.draw 1 queued.toList.length 1).commit
            (.request ⟨write, some event, queued, some audit⟩)
          (.ok (readRunInTransaction db principal.tenantId write.row), { s with db })

def transition (s : Shared) (principal : ControlPlane.Principal) (runId : String)
    (state : RunState) (event : RunEvent) : Except String StoredRun × Shared :=
  match Uuid.ofText? runId with
  | none => (.error (notUuid runId), s)
  | some id =>
      match runOfTenant? s principal.tenantId id with
      | none => (.error "Run not found", s)
      | some row =>
          match assertTransition row.state state with
          | .error message => (.error message, s)
          | .ok _ => updateRun s principal row ⟨state, event.eventType, event.detail⟩

/-- `select ... from audit_records a left join principals p ... order by a.id`. -/
def auditRecord (db : Db) (row : AuditRow) : AuditRecord :=
  let principal := row.principalId.bind fun id =>
    db.principals.find? fun principal => principal.id = id
  { instant := row.createdAt, tenantId := row.tenantId.text,
    subject := (principal.map PrincipalRow.subject).getD "system", action := row.action,
    resourceId := row.resourceId.text }

def auditsOf (db : Db) (tenantId : Uuid) : List AuditRow :=
  (db.audits.filter fun row => row.tenantId = tenantId).insertionSort fun a b => a.id ≤ b.id

def listAudit (s : Shared) (principal : ControlPlane.Principal) : List AuditRecord :=
  (auditsOf s.db principal.tenantId).map (auditRecord s.db)

def answer (env : Env) (tenantId : Uuid) (s : Shared) (request : Request) : Answer × Shared :=
  let principal := ⟨tenantId, request.role, request.subject⟩
  let s := { s with clock := request.now }
  match request.call with
  | .createWorkflow definition =>
      let result := createWorkflow env s principal definition request.id
      (result.1.map .workflow, result.2)
  | .createRun create idempotencyKey =>
      let result := createRun env s principal create idempotencyKey request.id
      (result.1.map fun created => .created created.1 created.2, result.2)
  | .readRun runId => ((readRun s principal runId).map .read, s)
  | .transition runId state event =>
      let result := transition s principal runId state event
      (result.1.map .run, result.2)
  | .listAudit => (.ok (.audit (listAudit s principal)), s)

/-- An approval finds the run that it has just queued. -/
theorem queueApproved_ok (s : Shared) (now : Int) {tenantId : Uuid} {row : RunRow}
    (htenant : row.tenantId = tenantId) (args : ControlPlane.TransitionArgs) :
    ∃ queued, queueApproved s tenantId args
      (RunWrite.update row args.state args.approves now).row = .ok queued := by
  unfold queueApproved
  split
  · rename_i happroves
    have hstate : args.state = .queued := by
      simp only [ControlPlane.TransitionArgs.approves, Bool.and_eq_true, decide_eq_true_eq]
        at happroves
      exact happroves.1
    refine ⟨some (outboxRow s (RunWrite.update row args.state args.approves now).row), ?_⟩
    rw [queueRunOutbox, if_pos ⟨htenant, hstate⟩]
    rfl
  · exact ⟨none, rfl⟩

end PostgresDurableStore

end DurableRuntime
