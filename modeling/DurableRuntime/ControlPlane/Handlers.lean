import DurableRuntime.Shared

/-!
# The control plane

The handlers of `app.ts` that create, approve and cancel runs, with the
transactions of `PostgresDurableStore` that they call.  A position stands
before every statement; `begin` and `set_config` count as one.  The writes of a
transaction stay in the position until the commit, whose reply can get lost
after the database has carried it out.
-/

namespace DurableRuntime.ControlPlane

open DurableRuntime.Foundation

inductive Role where
  | owner
  | operator
  | viewer
  deriving DecidableEq, Repr

structure Principal where
  tenantId : Uuid
  role : Role
  subject : String

def privilegedRoles : List Role := [.owner, .operator]

structure StoredRun where
  id : Uuid
  tenantId : Uuid
  workflowId : Uuid
  state : RunState
  input : Json
  budgetCents : Nat
  idempotencyKey : String
  createdAt : Int
  events : List EventRow

/-- A parsed `createRunSchema` body with the idempotency key of its request. -/
structure CreateRun where
  workflowId : Uuid
  input : Json
  providerCredential : Option JsString
  idempotencyKey : String

inductive Request where
  | createRun (create : CreateRun)
  | approve (runId : String)
  | cancel (runId : String)

inductive Response where
  | created (run : StoredRun) (replayed : Bool)
  | run (run : StoredRun)
  | error (status : Nat) (message : String)

/-- The target state and the event that a handler passes to `transition`. -/
structure TransitionArgs where
  state : RunState
  eventType : EventType
  detail : String

def approveArgs : TransitionArgs :=
  ⟨.queued, .approved, "Approval recorded; run re-queued"⟩

def cancelArgs : TransitionArgs := ⟨.cancelled, .cancelled, "Cancellation requested"⟩

/-- `state === "queued" && event.type === "approved"`. -/
def TransitionArgs.approves (args : TransitionArgs) : Bool :=
  args.state = .queued && args.eventType = .approved

inductive Pc where
  | route
  | createBegin (create : CreateRun)
  | createLookup (create : CreateRun) (now : Int)
  | createLimits (create : CreateRun) (now : Int)
  | createUsage (create : CreateRun) (now : Int) (limits : LimitsRow)
  | createWorkflow (create : CreateRun) (now : Int)
  | createInsert (create : CreateRun) (now : Int) (budgetCents : Nat)
  | createRaced (create : CreateRun)
  | replayEvents (row : RunRow) (limitsLocked : Bool)
  | replayCommit (run : StoredRun) (limitsLocked : Bool)
  | discard (run : StoredRun)
  | readRun (args : TransitionArgs) (runId : Uuid)
  | transitionBegin (args : TransitionArgs) (runId : Uuid)
  | transitionLock (args : TransitionArgs) (runId : Uuid) (now : Int)
  | transitionUpdate (args : TransitionArgs) (now : Int) (row : RunRow)
  | insertEvent (now : Int) (eventType : EventType) (detail : String) (writes : Writes)
  | queueOutbox (now : Int) (eventType : EventType) (writes : Writes)
  | audit (now : Int) (eventType : EventType) (writes : Writes)
  | readEvents (writes : Writes)
  | commit (writes : Writes) (run : StoredRun)
  | committed (response : Response)
  | done (response : Response)

/-- One HTTP request; `handle` is the credential handle that the handler issued for it. -/
structure Session where
  principal : Principal
  request : Request
  handle : Option Uuid
  pc : Pc

/-! ## Reading runs -/

def toRun (row : RunRow) (events : List EventRow) : StoredRun :=
  { id := row.id, tenantId := row.tenantId, workflowId := row.workflowId, state := row.state,
    input := row.input, budgetCents := row.budgetCents, idempotencyKey := row.idempotencyKey,
    createdAt := row.createdAt, events }

/-- `readRunInTransaction`: the events are those of the tenant's run, in id order. -/
def readRunInTransaction (events : List EventRow) (tenantId : Uuid) (row : RunRow) : StoredRun :=
  toRun row (eventsOf (events.filter fun event => event.tenantId = tenantId) row.id)

def terminalStates : List RunState := [.succeeded, .failed, .cancelled, .uncertain]

/-- `select ... from workflow_runs where id = $1 and tenant_id = $2`. -/
def runOfTenant? (s : Shared) (tenantId runId : Uuid) : Option RunRow :=
  (s.db.run? runId).filter fun row => row.tenantId = tenantId

/-! ## `createRun` -/

/-- A day in microseconds. -/
def day : Int := 86400000000

/-- `date_trunc('day', now() at time zone 'utc')`, compared as an instant of the session zone. -/
def startOfToday (env : Env) (now : Int) : Int :=
  env.timestampToInstant (now - now % day)

def activeRuns (s : Shared) (tenantId : Uuid) : Nat :=
  s.db.runs.countP fun row => row.tenantId = tenantId && row.state.isActive

def runsToday (env : Env) (s : Shared) (now : Int) (tenantId : Uuid) : Nat :=
  s.db.runs.countP fun row => row.tenantId = tenantId && startOfToday env now ≤ row.createdAt

/-- The quota checks of `createRun`, in order. -/
def quotaError (env : Env) (s : Shared) (now : Int) (limits : LimitsRow) (tenantId : Uuid) :
    Option String :=
  if limits.maxActiveRuns ≤ activeRuns s tenantId then some "Active run quota exceeded"
  else if limits.maxRunsPerDay ≤ runsToday env s now tenantId then
    some "Daily run quota exceeded"
  else none

def newRun (tenantId : Uuid) (create : CreateRun) (handle : Option Uuid) (id : Uuid) (now : Int)
    (budgetCents : Nat) : RunRow :=
  { id, tenantId, workflowId := create.workflowId, idempotencyKey := create.idempotencyKey,
    state := .queued, input := create.input.jsonb, budgetCents, createdAt := now, updatedAt := now,
    currentStep := 0, leaseOwner := none, leaseExpiresAt := none, attemptCount := 0,
    lastErrorCode := none, terminalEvidence := .obj [], providerCredentialHandle := handle }

def handleUnused (s : Shared) (handle : Uuid) : Bool :=
  s.db.runs.all fun row => row.providerCredentialHandle ≠ some handle

/-- The constraints on a new row: a fresh primary key and handle, and the key's length. -/
def insertable (s : Shared) (row : RunRow) : Bool :=
  (s.db.run? row.id).isNone && s.free (.run row.id) &&
    (row.providerCredentialHandle.all fun handle => handleUnused s handle) &&
    (16 ≤ row.idempotencyKey.length && row.idempotencyKey.length ≤ 128)

/-- `randomUUID()` never repeats a handle that is still known somewhere. -/
def freshHandle (s : Shared) (handle : Uuid) : Bool :=
  (s.broker.get handle).isNone && handleUnused s handle && s.free (.handle handle)

/-- The status that the error handler of `POST /v1/runs` gives to a thrown message. -/
def createErrorStatus (message : String) : Nat :=
  if message = "Active run quota exceeded" ∨ message = "Daily run quota exceeded" then 429
  else if message = "Workflow not found" then 404
  else 500

def createError (message : String) : Pc := .done (.error (createErrorStatus message) message)

/-! ## Moves -/

def eventRow (s : Shared) (row : RunRow) (now : Int) (eventType : EventType) (detail : String) :
    EventRow :=
  ⟨s.db.nextEventId, row.tenantId, row.id, eventType, detail, now⟩

def outboxRow (s : Shared) (row : RunRow) : OutboxRow :=
  ⟨s.db.nextOutboxId, row.tenantId, row.id, "dar.run.queued", ⟨row.id.text⟩, none, 0⟩

def auditRow (s : Shared) (principal : Principal) (now : Int) (action : String) (runId : Uuid) :
    AuditRow :=
  ⟨s.db.nextAuditId, principal.tenantId,
    s.db.principalId? principal.tenantId principal.subject, action, runId, now⟩

/-- The handler of `POST /v1/runs` up to the store call. -/
def startCreate (s : Shared) (session : Session) (create : CreateRun) (handle : Uuid) :
    Option (Session × Effect) :=
  if session.principal.role ∉ privilegedRoles then
    some ({ session with pc := .done (.error 500 "Insufficient role") }, .none)
  else if utf16Length create.idempotencyKey < 16 ∨ 128 < utf16Length create.idempotencyKey then
    some ({ session with pc := .done (.error 400 "idempotency_key_required") }, .none)
  else
    match create.providerCredential with
    | none => some ({ session with pc := .createBegin create }, .none)
    | some credential =>
        if freshHandle s handle then
          some ({ session with handle := some handle, pc := .createBegin create },
            .issue handle credential)
        else none

def startTransition (role : Role) (runId : String) (args : TransitionArgs) : Pc :=
  if role ∈ privilegedRoles then
    match Uuid.ofText? runId with
    | some id => .readRun args id
    | none => .done (.error 500 "invalid input syntax for type uuid")
  else .done (.error 500 "Insufficient role")

/-- What the approve and cancel handlers check on the run before the transition. -/
def readRunCheck (args : TransitionArgs) (runId : Uuid) : Option RunRow → Pc
  | none => .done (.error 404 "run_not_found")
  | some row =>
      if args.approves then
        if row.state = .awaitingApproval then .transitionBegin args runId
        else .done (.error 409 "run_not_awaiting_approval")
      else if row.state ∈ terminalStates then .done (.error 409 "terminal_run")
      else .transitionBegin args runId

/--
`insert ... on conflict (tenant_id, idempotency_key) do nothing` with the id it
draws.  Its parameters are read before anything else.
-/
def insertRun (env : Env) (s : Shared) (tenantId : Uuid) (create : CreateRun)
    (handle : Option Uuid) (id : Uuid) (now : Int) (budgetCents : Nat) : Option Pc :=
  match PostgresDurableStore.jsonError env create.input with
  | some message => some (createError message)
  | none =>
      if s.free (.runKey tenantId create.idempotencyKey) then
        if (s.db.runByKey? tenantId create.idempotencyKey).isSome then some (.createRaced create)
        else
          let row := newRun tenantId create handle id now budgetCents
          if insertable s row then
            some (.insertEvent now .created "Run queued" ⟨.insert row, none, none, none⟩)
          else none
      else none

/-- `select ... for update` and `assertTransition`; it waits while the row is locked. -/
def lockRun (s : Shared) (tenantId : Uuid) (args : TransitionArgs) (runId : Uuid) (now : Int) :
    Option Pc :=
  match runOfTenant? s tenantId runId with
  | none => some (.done (.error 500 "Run not found"))
  | some row =>
      if s.free (.run runId) then
        match assertTransition row.state args.state with
        | .error message => some (.done (.error 500 message))
        | .ok _ => some (.transitionUpdate args now row)
      else none

/-- `queue_run_outbox` runs after the event of a creation or an approval. -/
def queues (eventType : EventType) : Bool := eventType = .created || eventType = .approved

def response (writes : Writes) (run : StoredRun) : Response :=
  match writes.run with
  | .insert _ => .created run false
  | .update _ _ _ _ => .run run

/-- The next position inside a request, with the effect of reaching it. -/
def stepPc (env : Env) (s : Shared) (choice : Uuid) (session : Session) :
    Pc → Option (Pc × Effect)
  | .route =>
      match session.request with
      | .createRun _ => none
      | .approve runId =>
          some (startTransition session.principal.role runId approveArgs, .none)
      | .cancel runId => some (startTransition session.principal.role runId cancelArgs, .none)
  | .createBegin create => some (.createLookup create s.clock, .none)
  | .createLookup create now =>
      match s.db.runByKey? session.principal.tenantId create.idempotencyKey with
      | some row => some (.replayEvents row false, .none)
      | none => some (.createLimits create now, .none)
  | .createLimits create now =>
      if s.free (.limits session.principal.tenantId) then
        match s.db.limits? session.principal.tenantId with
        | none => some (createError "Tenant runtime limits missing", .none)
        | some limits => some (.createUsage create now limits, .none)
      else none
  | .createUsage create now limits =>
      match quotaError env s now limits session.principal.tenantId with
      | some message => some (createError message, .none)
      | none => some (.createWorkflow create now, .none)
  | .createWorkflow create now =>
      match (s.db.definition? create.workflowId).filter
          (fun row => row.tenantId = session.principal.tenantId) with
      | none => some (createError "Workflow not found", .none)
      | some definition => some (.createInsert create now definition.budgetCents, .none)
  | .createInsert create now budgetCents =>
      match insertRun env s session.principal.tenantId create session.handle choice now
          budgetCents with
      | none => none
      | some pc => some (pc, .none)
  | .createRaced create =>
      match s.db.runByKey? session.principal.tenantId create.idempotencyKey with
      | some row => some (.replayEvents row true, .none)
      | none => some (createError "Cannot read properties of undefined", .none)
  | .replayEvents row locked =>
      some (.replayCommit (readRunInTransaction s.db.events session.principal.tenantId row) locked,
        .none)
  | .replayCommit run _ => some (.discard run, .none)
  | .discard run =>
      match session.handle with
      | none => some (.done (.created run true), .none)
      | some handle => some (.done (.created run true), .discard handle)
  | .readRun args runId =>
      some (readRunCheck args runId (runOfTenant? s session.principal.tenantId runId), .none)
  | .transitionBegin args runId => some (.transitionLock args runId s.clock, .none)
  | .transitionLock args runId now =>
      match lockRun s session.principal.tenantId args runId now with
      | none => none
      | some pc => some (pc, .none)
  | .transitionUpdate args now row =>
      some (.insertEvent now args.eventType args.detail
        ⟨.update row args.state args.approves now, none, none, none⟩, .none)
  | .insertEvent now eventType detail writes =>
      let event := eventRow s writes.run.row now eventType detail
      if queues eventType then
        some (.queueOutbox now eventType { writes with event := some event }, .draw 1 0 0)
      else some (.audit now eventType { writes with event := some event }, .draw 1 0 0)
  | .queueOutbox now eventType writes =>
      if writes.run.row.state = .queued ∧
          writes.run.row.tenantId = session.principal.tenantId then
        some (.audit now eventType { writes with outbox := some (outboxRow s writes.run.row) },
          .draw 0 1 0)
      else some (.done (.error 500 "queued run does not exist for tenant"), .none)
  | .audit now eventType writes =>
      some (.readEvents
        { writes with
          audit := some (auditRow s session.principal now ("run." ++ eventType.text)
            writes.run.row.id) }, .draw 0 0 1)
  | .readEvents writes =>
      some (.commit writes (readRunInTransaction (s.db.events ++ writes.event.toList)
        session.principal.tenantId writes.run.row), .none)
  | .commit writes run => some (.committed (response writes run), .commit (.request writes))
  | .committed response => some (.done response, .none)
  | .done _ => none

/--
The next move of a handler.  `choice` is the random uuid that the move draws:
the credential handle, or the id of a new run.
-/
def step (env : Env) (s : Shared) (choice : Uuid) (session : Session) :
    Option (Session × Effect) :=
  match session.pc, session.request with
  | .route, .createRun create => startCreate s session create choice
  | pc, _ =>
      match stepPc env s choice session pc with
      | none => none
      | some (pc, effect) => some ({ session with pc }, effect)

/-! ## Positions -/

namespace Pc

/-- The writes that the transaction will commit. -/
def writes? : Pc → Option Writes
  | insertEvent _ _ _ writes | queueOutbox _ _ writes | audit _ _ writes | readEvents writes
  | commit writes _ => some writes
  | _ => none

/-- The run row that a transition has locked. -/
def lockedRow? (pc : Pc) : Option RunRow :=
  match pc with
  | transitionUpdate _ _ row => some row
  | _ =>
      match pc.writes? with
      | some ⟨.update before _ _ _, _, _, _⟩ => some before
      | _ => none

/--
Positions before a statement sent to the database, or before its reply, where a
database error can strike.
-/
def isStatement : Pc → Bool
  | route | discard _ | done _ => false
  | _ => true

/-- A position of `createRun` that has locked the limits row of the tenant. -/
def limitsLocked : Pc → Bool
  | createUsage _ _ _ | createWorkflow _ _ | createInsert _ _ _ | createRaced _
  | replayEvents _ true | replayCommit _ true => true
  | pc =>
      match pc.writes? with
      | some ⟨.insert _, _, _, _⟩ => true
      | _ => false

end Pc

/-- The rows that a transaction has locked or inserted. -/
def Writes.occupied (writes : Writes) : List Resource :=
  (match writes.run with
    | .insert row => [.run row.id, .runKey row.tenantId row.idempotencyKey]
    | .update before _ _ _ => [.run before.id]) ++
  (writes.outbox.map fun row => Resource.outbox row.id).toList

/-- What the open transaction at a position has locked. -/
def Pc.held (tenantId : Uuid) (pc : Pc) : List Resource :=
  (if pc.limitsLocked then [.limits tenantId] else []) ++
  match pc with
  | .transitionUpdate _ _ row => [.run row.id]
  | pc =>
      match pc.writes? with
      | some writes => Writes.occupied writes
      | none => []

/-- The handle that a request issued is spoken for until the request is done. -/
def Session.held (session : Session) : List Resource :=
  session.pc.held session.principal.tenantId ++
  match session.pc with
  | .done _ => []
  | _ => (session.handle.map Resource.handle).toList

end DurableRuntime.ControlPlane
