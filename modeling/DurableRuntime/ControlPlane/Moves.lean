import DurableRuntime.ControlPlane.Handlers

/-!
# The moves of a request

`PcMove` lists what a handler can do from each position inside its store call,
with the guard of each move; `Move` adds the start of a creation, the one move
that also stores a credential handle.  `step_move` derives them from `step`.
-/

namespace DurableRuntime.ControlPlane

open DurableRuntime.Foundation

inductive PcMove (env : Env) (s : Shared) (choice : Uuid) (session : Session) :
    Pc → Pc → Effect → Prop
  | approve {runId} (hrequest : session.request = .approve runId) :
      PcMove env s choice session .route
        (startTransition session.principal.role runId approveArgs) .none
  | cancel {runId} (hrequest : session.request = .cancel runId) :
      PcMove env s choice session .route
        (startTransition session.principal.role runId cancelArgs) .none
  | createBegin (create) :
      PcMove env s choice session (.createBegin create) (.createLookup create s.clock) .none
  | lookupFound {create now row}
      (hfound : s.db.runByKey? session.principal.tenantId create.idempotencyKey = some row) :
      PcMove env s choice session (.createLookup create now) (.replayEvents row false) .none
  | lookupMissed {create now}
      (habsent : s.db.runByKey? session.principal.tenantId create.idempotencyKey = none) :
      PcMove env s choice session (.createLookup create now) (.createLimits create now) .none
  | limitsMissing {create now} (hfree : s.free (.limits session.principal.tenantId) = true)
      (hlimits : s.db.limits? session.principal.tenantId = none) :
      PcMove env s choice session (.createLimits create now)
        (createError "Tenant runtime limits missing") .none
  | limitsFound {create now limits}
      (hfree : s.free (.limits session.principal.tenantId) = true)
      (hlimits : s.db.limits? session.principal.tenantId = some limits) :
      PcMove env s choice session (.createLimits create now) (.createUsage create now limits)
        .none
  | quotaExceeded {create now limits message}
      (hquota : quotaError env s now limits session.principal.tenantId = some message) :
      PcMove env s choice session (.createUsage create now limits) (createError message) .none
  | quotaFree {create now limits}
      (hquota : quotaError env s now limits session.principal.tenantId = none) :
      PcMove env s choice session (.createUsage create now limits) (.createWorkflow create now)
        .none
  | workflowMissing {create now}
      (hworkflow : (s.db.definition? create.workflowId).filter
        (fun row => row.tenantId = session.principal.tenantId) = none) :
      PcMove env s choice session (.createWorkflow create now)
        (createError "Workflow not found") .none
  | workflowFound {create now definition}
      (hworkflow : (s.db.definition? create.workflowId).filter
        (fun row => row.tenantId = session.principal.tenantId) = some definition) :
      PcMove env s choice session (.createWorkflow create now)
        (.createInsert create now definition.budgetCents) .none
  | inputRefused {create now budgetCents message}
      (hinput : PostgresDurableStore.jsonError env create.input = some message) :
      PcMove env s choice session (.createInsert create now budgetCents)
        (createError message) .none
  | raced {create now budgetCents row}
      (hfree : s.free (.runKey session.principal.tenantId create.idempotencyKey) = true)
      (hfound : s.db.runByKey? session.principal.tenantId create.idempotencyKey = some row)
      (hinput : PostgresDurableStore.jsonError env create.input = none) :
      PcMove env s choice session (.createInsert create now budgetCents) (.createRaced create)
        .none
  | inserted {create now budgetCents}
      (hfree : s.free (.runKey session.principal.tenantId create.idempotencyKey) = true)
      (habsent : s.db.runByKey? session.principal.tenantId create.idempotencyKey = none)
      (hinsertable : insertable s (newRun session.principal.tenantId create session.handle
        choice now budgetCents) = true)
      (hinput : PostgresDurableStore.jsonError env create.input = none) :
      PcMove env s choice session (.createInsert create now budgetCents)
        (.insertEvent now .created "Run queued"
          ⟨.insert (newRun session.principal.tenantId create session.handle choice now
            budgetCents), none, none, none⟩) .none
  | racedFound {create row}
      (hfound : s.db.runByKey? session.principal.tenantId create.idempotencyKey = some row) :
      PcMove env s choice session (.createRaced create) (.replayEvents row true) .none
  | racedMissing {create}
      (habsent : s.db.runByKey? session.principal.tenantId create.idempotencyKey = none) :
      PcMove env s choice session (.createRaced create)
        (createError "Cannot read properties of undefined") .none
  | replayEvents (row locked) :
      PcMove env s choice session (.replayEvents row locked)
        (.replayCommit (readRunInTransaction s.db.events session.principal.tenantId row)
          locked) .none
  | replayCommit (run locked) :
      PcMove env s choice session (.replayCommit run locked) (.discard run) .none
  | discardNone {run} (hhandle : session.handle = none) :
      PcMove env s choice session (.discard run) (.done (.created run true)) .none
  | discardSome {run handle} (hhandle : session.handle = some handle) :
      PcMove env s choice session (.discard run) (.done (.created run true))
        (.discard handle)
  | readRun (args runId) :
      PcMove env s choice session (.readRun args runId)
        (readRunCheck args runId (runOfTenant? s session.principal.tenantId runId)) .none
  | transitionBegin (args runId) :
      PcMove env s choice session (.transitionBegin args runId)
        (.transitionLock args runId s.clock) .none
  | runMissing {args runId now}
      (hrow : runOfTenant? s session.principal.tenantId runId = none) :
      PcMove env s choice session (.transitionLock args runId now)
        (.done (.error 500 "Run not found")) .none
  | transitionInvalid {args runId now row message}
      (hrow : runOfTenant? s session.principal.tenantId runId = some row)
      (hfree : s.free (.run runId) = true)
      (hassert : assertTransition row.state args.state = .error message) :
      PcMove env s choice session (.transitionLock args runId now)
        (.done (.error 500 message)) .none
  | transitionLocked {args runId now row}
      (hrow : runOfTenant? s session.principal.tenantId runId = some row)
      (hfree : s.free (.run runId) = true)
      (hassert : assertTransition row.state args.state = .ok ()) :
      PcMove env s choice session (.transitionLock args runId now)
        (.transitionUpdate args now row) .none
  | transitionUpdate (args now row) :
      PcMove env s choice session (.transitionUpdate args now row)
        (.insertEvent now args.eventType args.detail
          ⟨.update row args.state args.approves now, none, none, none⟩) .none
  | eventQueued {now eventType detail writes} (hqueues : queues eventType = true) :
      PcMove env s choice session (.insertEvent now eventType detail writes)
        (.queueOutbox now eventType
          { writes with event := some (eventRow s writes.run.row now eventType detail) })
        (.draw 1 0 0)
  | eventUnqueued {now eventType detail writes} (hqueues : queues eventType = false) :
      PcMove env s choice session (.insertEvent now eventType detail writes)
        (.audit now eventType
          { writes with event := some (eventRow s writes.run.row now eventType detail) })
        (.draw 1 0 0)
  | queueOutbox {now eventType writes}
      (hqueued : writes.run.row.state = .queued ∧
        writes.run.row.tenantId = session.principal.tenantId) :
      PcMove env s choice session (.queueOutbox now eventType writes)
        (.audit now eventType { writes with outbox := some (outboxRow s writes.run.row) })
        (.draw 0 1 0)
  | queueRefused {now eventType writes}
      (hrefused : ¬(writes.run.row.state = .queued ∧
        writes.run.row.tenantId = session.principal.tenantId)) :
      PcMove env s choice session (.queueOutbox now eventType writes)
        (.done (.error 500 "queued run does not exist for tenant")) .none
  | audit (now eventType writes) :
      PcMove env s choice session (.audit now eventType writes)
        (.readEvents
          { writes with
            audit := some (auditRow s session.principal now ("run." ++ eventType.text)
              writes.run.row.id) }) (.draw 0 0 1)
  | readEvents (writes) :
      PcMove env s choice session (.readEvents writes)
        (.commit writes (readRunInTransaction (s.db.events ++ writes.event.toList)
          session.principal.tenantId writes.run.row)) .none
  | commit (writes run) :
      PcMove env s choice session (.commit writes run) (.committed (response writes run))
        (.commit (.request writes))
  | committed (response) :
      PcMove env s choice session (.committed response) (.done response) .none

inductive Move (env : Env) (s : Shared) (choice : Uuid) (session : Session) :
    Session → Effect → Prop
  | start {create session' effect} (hpc : session.pc = .route)
      (hrequest : session.request = .createRun create)
      (hstart : startCreate s session create choice = some (session', effect)) :
      Move env s choice session session' effect
  | inner {pc effect} (hmove : PcMove env s choice session session.pc pc effect) :
      Move env s choice session { session with pc } effect

/--
How a creation starts: it is refused, or begins with a handle for its credential if it
has one.
-/
inductive CreateStart (s : Shared) (session : Session) (create : CreateRun) (handle : Uuid) :
    Session → Effect → Prop
  | refused {status error}
      (hrefused : session.principal.role ∈ privilegedRoles →
        utf16Length create.idempotencyKey < 16 ∨ 128 < utf16Length create.idempotencyKey) :
      CreateStart s session create handle
        { session with pc := .done (.error status error) } .none
  | plain (hrole : session.principal.role ∈ privilegedRoles)
      (hlength : ¬(utf16Length create.idempotencyKey < 16 ∨
        128 < utf16Length create.idempotencyKey))
      (hcredential : create.providerCredential = none) :
      CreateStart s session create handle { session with pc := .createBegin create } .none
  | issue {credential} (hrole : session.principal.role ∈ privilegedRoles)
      (hlength : ¬(utf16Length create.idempotencyKey < 16 ∨
        128 < utf16Length create.idempotencyKey))
      (hcredential : create.providerCredential = some credential)
      (hfresh : freshHandle s handle = true) :
      CreateStart s session create handle
        { session with handle := some handle, pc := .createBegin create }
        (.issue handle credential)

section

variable {env : Env} {s : Shared} {choice : Uuid} {session session' : Session} {pc : Pc}
  {effect : Effect}

theorem startCreate_start {create : CreateRun}
    (h : startCreate s session create choice = some (session', effect)) :
    CreateStart s session create choice session' effect := by
  simp only [startCreate] at h
  split at h
  · rename_i hrole
    cases h
    exact .refused fun hmember => absurd hmember hrole
  · rename_i hrole
    split at h
    · rename_i hlength
      cases h
      exact .refused fun _ => hlength
    · rename_i hlength
      split at h
      · rename_i hcredential
        cases h
        exact .plain (not_not.mp hrole) hlength hcredential
      · rename_i hcredential
        split at h
        · rename_i hfresh
          cases h
          exact .issue (not_not.mp hrole) hlength hcredential hfresh
        · cases h

theorem insertRun_move {create : CreateRun} {now : Int} {budgetCents : Nat}
    (h : insertRun env s session.principal.tenantId create session.handle choice now budgetCents =
      some pc) :
    PcMove env s choice session (.createInsert create now budgetCents) pc .none := by
  simp only [insertRun] at h
  split at h
  · rename_i hinput
    cases h
    exact .inputRefused hinput
  · rename_i hinput
    split at h
    · rename_i hfree
      split at h
      · rename_i hfound
        obtain ⟨row, hfound⟩ := Option.isSome_iff_exists.mp hfound
        cases h
        exact .raced hfree hfound hinput
      · rename_i habsent
        split at h
        · rename_i hinsertable
          cases h
          exact .inserted hfree (by simpa using habsent) hinsertable hinput
        · cases h
    · cases h

theorem lockRun_move {args : TransitionArgs} {runId : Uuid} {now : Int}
    (h : lockRun s session.principal.tenantId args runId now = some pc) :
    PcMove env s choice session (.transitionLock args runId now) pc .none := by
  simp only [lockRun] at h
  split at h
  · rename_i hrow
    cases h
    exact .runMissing hrow
  · rename_i row hrow
    split at h
    · rename_i hfree
      split at h
      · rename_i hassert
        cases h
        exact .transitionInvalid hrow hfree hassert
      · rename_i hassert
        cases h
        exact .transitionLocked hrow hfree hassert
    · cases h

theorem stepPc_move {start : Pc} (h : stepPc env s choice session start = some (pc, effect)) :
    PcMove env s choice session start pc effect := by
  cases start with
  | route =>
      simp only [stepPc] at h
      split at h
      · cases h
      · rename_i hrequest
        cases h
        exact .approve hrequest
      · rename_i hrequest
        cases h
        exact .cancel hrequest
  | createBegin create =>
      cases h
      exact .createBegin create
  | createLookup create now =>
      simp only [stepPc] at h
      split at h
      · rename_i hfound
        cases h
        exact .lookupFound hfound
      · rename_i habsent
        cases h
        exact .lookupMissed habsent
  | createLimits create now =>
      simp only [stepPc] at h
      split at h
      · rename_i hfree
        split at h
        · rename_i hlimits
          cases h
          exact .limitsMissing hfree hlimits
        · rename_i hlimits
          cases h
          exact .limitsFound hfree hlimits
      · cases h
  | createUsage create now limits =>
      simp only [stepPc] at h
      split at h
      · rename_i hquota
        cases h
        exact .quotaExceeded hquota
      · rename_i hquota
        cases h
        exact .quotaFree hquota
  | createWorkflow create now =>
      simp only [stepPc] at h
      split at h
      · rename_i hworkflow
        cases h
        exact .workflowMissing hworkflow
      · rename_i hworkflow
        cases h
        exact .workflowFound hworkflow
  | createInsert create now budgetCents =>
      simp only [stepPc] at h
      split at h
      · cases h
      · rename_i hinsert
        cases h
        exact insertRun_move hinsert
  | createRaced create =>
      simp only [stepPc] at h
      split at h
      · rename_i hfound
        cases h
        exact .racedFound hfound
      · rename_i habsent
        cases h
        exact .racedMissing habsent
  | replayEvents row locked =>
      cases h
      exact .replayEvents row locked
  | replayCommit run locked =>
      cases h
      exact .replayCommit run locked
  | discard run =>
      simp only [stepPc] at h
      split at h
      · rename_i hhandle
        cases h
        exact .discardNone hhandle
      · rename_i hhandle
        cases h
        exact .discardSome hhandle
  | readRun args runId =>
      cases h
      exact .readRun args runId
  | transitionBegin args runId =>
      cases h
      exact .transitionBegin args runId
  | transitionLock args runId now =>
      simp only [stepPc] at h
      split at h
      · cases h
      · rename_i hlock
        cases h
        exact lockRun_move hlock
  | transitionUpdate args now row =>
      cases h
      exact .transitionUpdate args now row
  | insertEvent now eventType detail writes =>
      simp only [stepPc] at h
      split at h
      · rename_i hqueues
        cases h
        exact .eventQueued hqueues
      · rename_i hqueues
        cases h
        exact .eventUnqueued (Bool.not_eq_true _ ▸ hqueues)
  | queueOutbox now eventType writes =>
      simp only [stepPc] at h
      split at h
      · rename_i hqueued
        cases h
        exact .queueOutbox hqueued
      · rename_i hrefused
        cases h
        exact .queueRefused hrefused
  | audit now eventType writes =>
      cases h
      exact .audit now eventType writes
  | readEvents writes =>
      cases h
      exact .readEvents writes
  | commit writes run =>
      cases h
      exact .commit writes run
  | committed response =>
      cases h
      exact .committed response
  | done response => cases h

theorem step_move (h : step env s choice session = some (session', effect)) :
    Move env s choice session session' effect := by
  simp only [step] at h
  split at h
  · rename_i create hpc hrequest
    exact .start hpc hrequest h
  · split at h
    · cases h
    · rename_i hstep
      cases h
      exact .inner (stepPc_move hstep)

end

end DurableRuntime.ControlPlane
