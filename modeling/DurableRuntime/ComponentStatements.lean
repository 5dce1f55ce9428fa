import DurableRuntime.ControlPlane.Reads
import DurableRuntime.LeastPrivilege

/-!
# The statements of the components

What the control plane, the workers and the publishers send to the database: the
statements, the positions they are sent from, and those among them that make a
commit.  `begin`, `set_config`, `commit` and `rollback` concern no table, and
ids are drawn by the database.
-/

namespace DurableRuntime

open DurableRuntime.Foundation

namespace Query

variable {ρ : Type}

/-! ## Reading statements -/

/-- The columns that `toRun` reads. -/
def storedRun : List RunColumn :=
  [.id, .tenantId, .workflowId, .state, .input, .budgetCents, .idempotencyKey, .createdAt]

def runByKey (tenantId : Uuid) (idempotencyKey : String) : Query :=
  .runs (.select storedRun fun row =>
    row.tenantId = tenantId && row.idempotencyKey = idempotencyKey)

def runOfTenant (tenantId runId : Uuid) : Query :=
  .runs (.select storedRun fun row => row.id = runId && row.tenantId = tenantId)

def lockRun (tenantId runId : Uuid) : Query :=
  .runs (.selectForUpdate storedRun fun row => row.id = runId && row.tenantId = tenantId)

def lockLimits (tenantId : Uuid) : Query :=
  .limits (.selectForUpdate [()] fun row => row.tenantId = tenantId)

/-- The two counts of the quota checks. -/
def usage (tenantId : Uuid) : Query :=
  .runs (.select [.tenantId, .state, .createdAt] fun row => row.tenantId = tenantId)

def definitionOfTenant (tenantId workflowId : Uuid) : Query :=
  .definitions (.select [()] fun row => row.id = workflowId && row.tenantId = tenantId)

def eventsOfRun (tenantId runId : Uuid) : Query :=
  .events (.select [()] fun row => row.tenantId = tenantId && row.runId = runId)

def principalId (tenantId : Uuid) (subject : String) : Query :=
  .principals (.select [()] fun row => row.tenantId = tenantId && row.subject = subject)

def auditsOfTenant (tenantId : Uuid) : Query :=
  .audits (.select [()] fun row => row.tenantId = tenantId)

/-- `left join principals`, which may meet every row of the table. -/
def joinPrincipals : Query := .principals (.select [()] fun _ => true)

/-- `claim` locks the run, and joins the definitions without a lock. -/
def claimableRun (id : Uuid) (now : Int) : Query :=
  .runs (.selectForUpdate
    [.id, .tenantId, .workflowId, .state, .input, .createdAt, .currentStep, .leaseExpiresAt,
      .providerCredentialHandle]
    fun row => row.id = id && Worker.isClaimable now row)

def joinDefinitions : Query := .definitions (.select [()] fun _ => true)

def pendingOutbox : Query := .outbox (.selectForUpdate [()] fun row => row.publishedAt.isNone)

/-! ## Writing statements -/

def insertInto (rows : List ρ) : Statement (Columns.whole ρ) :=
  .insert ⟨[()], rows, fun _ _ _ hcolumn => absurd (List.mem_singleton.mpr rfl) hcolumn⟩ []

def updateWhere (f : ρ → ρ) (condition : ρ → Bool) : Statement (Columns.whole ρ) :=
  .update ⟨[()], f, fun _ _ hcolumn => absurd (List.mem_singleton.mpr rfl) hcolumn⟩ [()] condition

def insertDefinition (row : DefinitionRow) : Query := .definitions (insertInto [row])

def insertEvents (rows : List EventRow) : Query := .events (insertInto rows)

def insertAudit (row : AuditRow) : Query := .audits (insertInto [row])

/-- `on conflict (tenant_id, run_id, step_index) do nothing`. -/
def insertStepResult (db : Db) (row : StepResultRow) : Query :=
  .stepResults (insertInto
    (if (Table.lookup StepResultRow.key row.key db.stepResults).isSome then [] else [row]))

/-- `on conflict (tenant_id, effect_key) do nothing`. -/
def insertEffect (db : Db) (row : EffectRow) : Query :=
  .effects (insertInto
    (if (Table.lookup EffectRow.key row.key db.effects).isSome then [] else [row]))

def updateOutbox (ids : List Nat) (f : OutboxRow → OutboxRow) : Query :=
  .outbox (updateWhere f fun row => row.id ∈ ids)

/-- `on conflict (tenant_id, idempotency_key) do nothing`. -/
def insertedRun (db : Db) (tenantId : Uuid) (create : ControlPlane.CreateRun)
    (handle : Option Uuid) (id : Uuid) (now : Int) (budgetCents : Nat) : Insertion runColumns where
  listed := [.tenantId, .workflowId, .idempotencyKey, .input, .budgetCents,
    .providerCredentialHandle]
  rows :=
    if (db.runByKey? tenantId create.idempotencyKey).isSome then []
    else [ControlPlane.newRun tenantId create handle id now budgetCents]
  defaults := by
    intro row hrow column hcolumn
    split at hrow
    · cases hrow
    · rw [List.mem_singleton.mp hrow]
      cases column <;> first | exact absurd (by decide) hcolumn | exact trivial | exact rfl

def insertRun (db : Db) (tenantId : Uuid) (create : ControlPlane.CreateRun) (handle : Option Uuid)
    (id : Uuid) (now : Int) (budgetCents : Nat) : Query :=
  .runs (.insert (insertedRun db tenantId create handle id now budgetCents) storedRun)

def updateRun (assignment : Assignment runColumns) (reads : List RunColumn) (id : Uuid) : Query :=
  .runs (.update assignment (.id :: reads) fun row => row.id = id)

def claim (owner : String) (now : Int) : Assignment runColumns where
  listed := [.state, .leaseOwner, .leaseExpiresAt, .attemptCount, .updatedAt]
  set := RunRow.claim owner now
  frame := by
    intro row column hcolumn
    cases column <;> first | rfl | exact absurd (by decide) hcolumn

def heartbeat (step : Nat) (now : Int) : Assignment runColumns where
  listed := [.currentStep, .leaseExpiresAt, .updatedAt]
  set := RunRow.heartbeat step now
  frame := by
    intro row column hcolumn
    cases column <;> first | rfl | exact absurd (by decide) hcolumn

def awaitApproval (index : Nat) : Assignment runColumns where
  listed := [.state, .leaseOwner, .leaseExpiresAt, .currentStep]
  set := RunRow.awaitApproval index
  frame := by
    intro row column hcolumn
    cases column <;> first | rfl | exact absurd (by decide) hcolumn

def terminate (state : RunState) (code : String) : Assignment runColumns where
  listed := [.state, .leaseOwner, .leaseExpiresAt, .lastErrorCode, .terminalEvidence]
  set := RunRow.terminate state code
  frame := by
    intro row column hcolumn
    cases column <;> first | rfl | exact absurd (by decide) hcolumn

def complete : Assignment runColumns where
  listed := [.state, .leaseOwner, .leaseExpiresAt, .terminalEvidence]
  set := RunRow.complete
  frame := by
    intro row column hcolumn
    cases column <;> first | rfl | exact absurd (by decide) hcolumn

/-- Only an approval assigns `current_step`. -/
def transition (state : RunState) (approved : Bool) (now : Int) : Assignment runColumns where
  listed := if approved then [.state, .currentStep, .updatedAt] else [.state, .updatedAt]
  set := RunRow.transition state approved now
  frame := by
    intro row column hcolumn
    cases approved <;> cases column <;> first | rfl | exact absurd (by decide) hcolumn

end Query

def OutboxRow.query (row : OutboxRow) : Query :=
  .queueRunOutbox [(row.id, row.tenantId, row.runId)]

/-- The statements behind the first write of a transaction, which concern its event and records. -/
def Writes.recordQueries (writes : Writes) : List Query :=
  writes.event.toList.map (fun row => .insertEvents [row]) ++
    writes.outbox.toList.map OutboxRow.query ++ writes.audit.toList.map .insertAudit

/-- The statements by which a component makes a commit, with the role that it sends them under. -/
inductive Commit.Sends (db : Db) : Commit → DatabaseRole → List Query → Prop
  | createWorkflow (row audit) :
      Sends db (.createWorkflow row audit) .control [.insertDefinition row, .insertAudit audit]
  | createRun {writes : Writes} {tenantId create handle id now budgetCents}
      (hinsert : writes.run =
        .insert (ControlPlane.newRun tenantId create handle id now budgetCents)) :
      Sends db (.request writes) .control
        (.insertRun db tenantId create handle id now budgetCents :: writes.recordQueries)
  | transition {writes : Writes} {before state approved now}
      (hupdate : writes.run = .update before state approved now) :
      Sends db (.request writes) .control
        (.updateRun (Query.transition state approved now)
          (if approved then [.currentStep] else []) before.id :: writes.recordQueries)
  | claim (runId owner now events) :
      Sends db (.claim runId owner now events) .worker
        [.updateRun (Query.claim owner now) [.attemptCount] runId, .insertEvents events]
  | heartbeat (runId step now) :
      Sends db (.heartbeat runId step now) .worker
        [.updateRun (Query.heartbeat step now) [] runId]
  | awaitApproval (runId index) :
      Sends db (.awaitApproval runId index) .worker
        [.updateRun (Query.awaitApproval index) [] runId]
  | terminate (runId state code) :
      Sends db (.terminate runId state code) .worker
        [.updateRun (Query.terminate state code) [] runId]
  | complete (runId) :
      Sends db (.complete runId) .worker [.updateRun Query.complete [] runId]
  | event (row) : Sends db (.event row) .worker [.insertEvents [row]]
  | stepResult (row) : Sends db (.stepResult row) .worker [.insertStepResult db row]
  | effect (row) : Sends db (.effect row) .worker [.insertEffect db row]
  | outboxAttempts (ids) :
      Sends db (.outboxAttempts ids) .worker [.updateOutbox ids OutboxRow.attempt]
  | outboxPublished (ids now) :
      Sends db (.outboxPublished ids now) .worker [.updateOutbox ids (OutboxRow.publish now)]

/-! ## Positions -/

namespace ControlPlane

/-- The tables as the transaction of a request sees them. -/
def Session.view (session : Session) (db : Db) : Db :=
  match session.pc.writes? with
  | some writes => db.commit (.request writes)
  | none => db

inductive Sends (db : Db) (session : Session) : Query → Prop
  | lookup {create now} (hpc : session.pc = .createLookup create now) :
      Sends db session (.runByKey session.principal.tenantId create.idempotencyKey)
  | limits {create now} (hpc : session.pc = .createLimits create now) :
      Sends db session (.lockLimits session.principal.tenantId)
  | usage {create now limits} (hpc : session.pc = .createUsage create now limits) :
      Sends db session (.usage session.principal.tenantId)
  | workflow {create now} (hpc : session.pc = .createWorkflow create now) :
      Sends db session (.definitionOfTenant session.principal.tenantId create.workflowId)
  | insert {create now budgetCents} (hpc : session.pc = .createInsert create now budgetCents)
      (id : Uuid) :
      Sends db session
        (.insertRun db session.principal.tenantId create session.handle id now budgetCents)
  | raced {create} (hpc : session.pc = .createRaced create) :
      Sends db session (.runByKey session.principal.tenantId create.idempotencyKey)
  | replayEvents {row locked} (hpc : session.pc = .replayEvents row locked) :
      Sends db session (.eventsOfRun session.principal.tenantId row.id)
  | readRun {args runId} (hpc : session.pc = .readRun args runId) :
      Sends db session (.runOfTenant session.principal.tenantId runId)
  | readRunEvents {args runId} (hpc : session.pc = .readRun args runId) :
      Sends db session (.eventsOfRun session.principal.tenantId runId)
  | lock {args runId now} (hpc : session.pc = .transitionLock args runId now) :
      Sends db session (.lockRun session.principal.tenantId runId)
  | update {args now row} (hpc : session.pc = .transitionUpdate args now row) :
      Sends db session (.updateRun (Query.transition args.state args.approves now)
        (if args.approves then [.currentStep] else []) row.id)
  | event {now eventType detail writes}
      (hpc : session.pc = .insertEvent now eventType detail writes) (id : Nat) :
      Sends db session (.insertEvents
        [⟨id, session.principal.tenantId, writes.run.row.id, eventType, detail, now⟩])
  | queue {now eventType writes} (hpc : session.pc = .queueOutbox now eventType writes)
      (id : Nat) :
      Sends db session
        (.queueRunOutbox [(id, session.principal.tenantId, writes.run.row.id)])
  | principal {now eventType writes} (hpc : session.pc = .audit now eventType writes) :
      Sends db session (.principalId session.principal.tenantId session.principal.subject)
  | audit {now eventType writes} (hpc : session.pc = .audit now eventType writes) (id : Nat)
      (principalId : Option Uuid) :
      Sends db session (.insertAudit ⟨id, session.principal.tenantId, principalId,
        "run." ++ eventType.text, writes.run.row.id, now⟩)
  | readEvents {writes} (hpc : session.pc = .readEvents writes) :
      Sends db session (.eventsOfRun session.principal.tenantId writes.run.row.id)

end ControlPlane

inductive Reads.Sends (session : Session) : Query → Prop
  | run {runId} (hpc : session.pc = .selectRun runId) :
      Sends session (.runOfTenant session.principal.tenantId runId)
  | events {row} (hpc : session.pc = .selectEvents row) :
      Sends session (.eventsOfRun session.principal.tenantId row.id)
  | audits (hpc : session.pc = .selectAudit) :
      Sends session (.auditsOfTenant session.principal.tenantId)
  | principals (hpc : session.pc = .selectAudit) : Sends session .joinPrincipals

namespace Worker

/-- The tables as the claim transaction sees them; the other statements stand alone. -/
def Session.view (session : Session) (db : Db) : Db :=
  match session.pc with
  | .claimEvents ref now _ _ => db.updateRun ref.id (RunRow.claim session.id now)
  | _ => db

/-- A statement that PostgreSQL refuses for its parameters is sent all the same. -/
inductive Sends (env : Env) (db : Db) (session : Session) : Query → Prop
  | claimSelect {ref now} (hpc : session.pc = .claimSelect ref now) :
      Sends env db session (.claimableRun ref.id now)
  | claimJoin {ref now} (hpc : session.pc = .claimSelect ref now) :
      Sends env db session .joinDefinitions
  | claimUpdate {ref now row definition}
      (hpc : session.pc = .claimUpdate ref now row definition) :
      Sends env db session (.updateRun (Query.claim session.id now) [.attemptCount] ref.id)
  | claimEvents {ref now row definition}
      (hpc : session.pc = .claimEvents ref now row definition) (id : Nat) :
      Sends env db session (.insertEvents
        [⟨id, row.tenantId, ref.id, .leased, "Worker lease acquired", now⟩,
          ⟨id + 1, row.tenantId, ref.id, .started, "Worker execution started", now⟩])
  | effect {run index} (hpc : session.pc = .effect run index) :
      Sends env db session (.insertEffect db (effectRow run index))
  | record {run index kind status safeLabel}
      (hpc : session.pc = .record run index kind status safeLabel) :
      Sends env db session
        (.insertStepResult db (stepResultRow env run index kind status safeLabel))
  | awaitApproval {run index} (hpc : session.pc = .awaitApproval run index) :
      Sends env db session (.updateRun (Query.awaitApproval index) [] run.ref.id)
  | heartbeat {run index now} (hpc : session.pc = .heartbeatUpdate run index now) :
      Sends env db session (.updateRun (Query.heartbeat (index + 1) now) [] run.ref.id)
  | terminate {run state code after} (hpc : session.pc = .terminate run state code after) :
      Sends env db session (.updateRun (Query.terminate state code) [] run.ref.id)
  | complete {run} (hpc : session.pc = .complete run) :
      Sends env db session (.updateRun Query.complete [] run.ref.id)
  | event {run row after} (hpc : session.pc = .eventCommit run row after) :
      Sends env db session (.insertEvents [row])

end Worker

inductive Outbox.Sends (session : Session) : Query → Prop
  | select (hpc : session.pc = .claimSelect) : Sends session .pendingOutbox
  | attempts {messages} (hpc : session.pc = .claimUpdate messages) :
      Sends session (.updateOutbox (messages.map (·.id)) OutboxRow.attempt)
  | published {now delivered left} (hpc : session.pc = .marking now delivered left) :
      Sends session (.updateOutbox delivered (OutboxRow.publish now))

/-- What `createWorkflow` sends, with the ids that the database draws. -/
def workflowQueries (principal : ControlPlane.Principal) (workflow : WorkflowDefinition)
    (id : Uuid) (audit : AuditRow) : List Query :=
  [.insertDefinition (definitionRow principal id workflow),
    .principalId principal.tenantId principal.subject, .insertAudit audit]

/--
What the components send in a state, with the role and the setting of their
connections and the tables that the statement meets.
-/
inductive Sends (env : Env) (s : State) : DatabaseRole → Option Uuid → Db → Query → Prop
  | createWorkflow (principal : ControlPlane.Principal) (workflow : WorkflowDefinition) {id audit}
      {query : Query} (haudit : audit.tenantId = principal.tenantId)
      (h : query ∈ workflowQueries principal workflow id audit) :
      Sends env s .control (some principal.tenantId) s.db query
  | call {index : Nat} {session : ControlPlane.Session} {query}
      (hcall : s.calls[index]? = some session) (h : ControlPlane.Sends s.db session query) :
      Sends env s .control (some session.principal.tenantId) (session.view s.db) query
  | read {session : Reads.Session} {query} (h : Reads.Sends session query) :
      Sends env s .control (some session.principal.tenantId) s.db query
  | worker {index : Nat} {session : Worker.Session} {query}
      (hworker : s.workers[index]? = some session) (h : Worker.Sends env s.db session query) :
      Sends env s .worker none (session.view s.db) query
  | publisher {index : Nat} {session : Outbox.Session} {query}
      (hpublisher : s.publishers[index]? = some session) (h : Outbox.Sends session query) :
      Sends env s .worker none s.db query

end DurableRuntime
