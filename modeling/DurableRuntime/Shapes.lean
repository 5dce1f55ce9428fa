import DurableRuntime.Locking

/-!
# What a position knows

The data a session carries in its position has been read or built on the way
there.  `Worker.Shaped` and `ControlPlane.Shaped` say what it is at every
position; both hold of every session of every run, whatever the others do.
-/

namespace DurableRuntime

open DurableRuntime.Foundation

namespace Worker

/-- The run that a claim transaction hands to `execute` is the row it has locked. -/
structure Leases (run : LeasedRun) (row : RunRow) : Prop where
  id : row.id = run.ref.id
  tenantId : run.tenantId = row.tenantId
  currentStep : run.currentStep = row.currentStep

/-- The two events of a claim. -/
structure ClaimEvents (events : List EventRow) (runId : Uuid) : Prop where
  types : events.map EventRow.eventType = [.leased, .started]
  runs : ∀ event ∈ events, event.runId = runId

/-- The events that a worker adds after its own update, which `fail` and `uncertain` never do. -/
def Announced (eventType : EventType) (after : After) : Prop :=
  (eventType = .approvalRequested ∨ eventType = .succeeded) ∧ after = .ret

def Shaped : Pc → Prop
  | .claimUpdate ref now row _ => row.id = ref.id ∧ isClaimable now row = true
  | .claimEvents ref now row _ => row.id = ref.id ∧ isClaimable now row = true
  | .claimCommit now row events run =>
      Leases run row ∧ ClaimEvents events row.id ∧ isClaimable now row = true
  | .terminate _ state _ _ => state = .failed ∨ state = .uncertain
  | .event _ eventType _ after => Announced eventType after
  | .eventCommit run row after => row.runId = run.ref.id ∧ Announced row.eventType after
  | _ => True

theorem leasedRun_leases {ref : RunRef} {row : RunRow} {definition : DefinitionRow}
    {run : LeasedRun} (hid : row.id = ref.id) (h : leasedRun ref row definition = some run) :
    Leases run row ∧ run.ref = ref ∧
      unmarshalDefinition definition.definition = some run.definition := by
  simp only [leasedRun, Option.bind_eq_bind, Option.bind_eq_some_iff] at h
  obtain ⟨workflow, hworkflow, input, hinput, h⟩ := h
  cases h
  exact ⟨⟨hid, rfl, rfl⟩, rfl, hworkflow⟩

theorem leasedRun_reads {ref : RunRef} {row : RunRow} {definition : DefinitionRow}
    {run : LeasedRun} (h : leasedRun ref row definition = some run) :
    run.credentialHandle = row.providerCredentialHandle ∧
      unmarshalDefinition definition.definition = some run.definition := by
  simp only [leasedRun, Option.bind_eq_bind, Option.bind_eq_some_iff] at h
  obtain ⟨workflow, hworkflow, input, -, h⟩ := h
  cases h
  exact ⟨rfl, hworkflow⟩

theorem loop_shaped (env : Env) (run : LeasedRun) (index : Nat) :
    Shaped (loop env run index) := by
  unfold loop executeStep executeTool executeProviderModel
  repeat' split
  all_goals first | trivial | exact .inl rfl | exact .inr rfl

theorem withCredential_shaped (env : Env) (run : LeasedRun) (index : Nat) (prompt : String)
    (credential : Option String) : Shaped (withCredential env run index prompt credential) := by
  unfold withCredential
  repeat' split
  all_goals first | trivial | exact .inr rfl

theorem Turn.shaped {env : Env} {s : Shared} {session : Session} {pc : Pc} {effect : Effect}
    (hturn : Turn env s session pc effect) (h : Shaped session.pc) : Shaped pc := by
  cases hturn with
  | error => trivial
  | crash => trivial
  | move hmove =>
      generalize session.pc = old at hmove h
      cases hmove with
      | received runId =>
          unfold process
          repeat' split
          all_goals trivial
      | claimFound hselect =>
          obtain ⟨-, -, hid, -, hclaimable⟩ := claimable_free hselect
          exact ⟨hid, hclaimable⟩
      | claimUpdate => exact h
      | claimEvents hdecode =>
          refine ⟨(leasedRun_leases h.1 hdecode).1, ⟨rfl, ?_⟩, h.2⟩
          simp [claimEventRows]
      | execute run =>
          unfold execute
          split
          · trivial
          · exact .inl rfl
      | loop run index => exact loop_shaped env run index
      | consume run index handle prompt delivery => exact withCredential_shaped env run index _ _
      | providerFailed => exact .inr rfl
      | fetchFailed => exact .inl rfl
      | @record _ run index kind status safeLabel hfree => cases status <;> trivial
      | awaitApproval => exact ⟨.inl rfl, rfl⟩
      | complete => exact ⟨.inr rfl, rfl⟩
      | event => exact ⟨rfl, h⟩
      | @eventCommit _ run row after hfree => cases after <;> trivial
      | _ => trivial

end Worker

namespace ControlPlane

/-- The update of the run row that opens a transaction, with the event it announces. -/
def Opened (session : Session) (eventType : EventType) : RunWrite → Prop
  | .insert row =>
      eventType = .created ∧ ∃ create id now budgetCents,
        session.request = .createRun create ∧
        row = newRun session.principal.tenantId create session.handle id now budgetCents
  | .update before state approved _ =>
      ∃ args, (args = approveArgs ∨ args = cancelArgs) ∧ eventType = args.eventType ∧
        state = args.state ∧ approved = args.approves ∧
        args.state ∈ allowedTransitions before.state ∧
        before.tenantId = session.principal.tenantId

def EventWritten (eventType : EventType) (writes : Writes) : Prop :=
  ∃ event, writes.event = some event ∧ event.eventType = eventType ∧
    event.runId = writes.run.row.id

/-- The outbox row is there exactly when the event queues the run. -/
def OutboxWritten (eventType : EventType) (writes : Writes) : Prop :=
  if queues eventType then
    ∃ row, writes.outbox = some row ∧ row.runId = writes.run.row.id ∧
      row.payload = ⟨writes.run.row.id.text⟩ ∧ row.publishedAt = none
  else writes.outbox = none

def AuditWritten (eventType : EventType) (writes : Writes) : Prop :=
  ∃ audit, writes.audit = some audit ∧ audit.action = "run." ++ eventType.text ∧
    audit.resourceId = writes.run.row.id

/-- The writes of a transaction that is about to commit. -/
structure Complete (session : Session) (eventType : EventType) (writes : Writes) : Prop where
  opened : Opened session eventType writes.run
  event : EventWritten eventType writes
  outbox : OutboxWritten eventType writes
  audit : AuditWritten eventType writes

theorem Complete.unpublished {session : Session} {eventType : EventType} {writes : Writes}
    (hcomplete : Complete session eventType writes) {row : OutboxRow}
    (hrow : writes.outbox = some row) : row.publishedAt = none := by
  have houtbox := hcomplete.outbox
  unfold OutboxWritten at houtbox
  split at houtbox
  · obtain ⟨queued, hqueued, -, -, hunpublished⟩ := houtbox
    rw [hrow, Option.some.injEq] at hqueued
    rw [hqueued, hunpublished]
  · rw [hrow] at houtbox
    cases houtbox

def Shaped (session : Session) : Prop :=
  match session.pc with
  | .createBegin create | .createLookup create _ | .createLimits create _
  | .createUsage create _ _ | .createWorkflow create _ | .createInsert create _ _
  | .createRaced create => session.request = .createRun create
  | .readRun args _ | .transitionBegin args _ | .transitionLock args _ _ =>
      args = approveArgs ∨ args = cancelArgs
  | .transitionUpdate args _ row =>
      (args = approveArgs ∨ args = cancelArgs) ∧
        args.state ∈ allowedTransitions row.state ∧ row.tenantId = session.principal.tenantId
  | .insertEvent _ eventType _ writes =>
      Opened session eventType writes.run ∧ writes.event = none ∧ writes.outbox = none
  | .queueOutbox _ eventType writes =>
      Opened session eventType writes.run ∧ EventWritten eventType writes ∧
        queues eventType = true
  | .audit _ eventType writes =>
      Opened session eventType writes.run ∧ EventWritten eventType writes ∧
        OutboxWritten eventType writes
  | .readEvents writes => ∃ eventType, Complete session eventType writes
  | .commit writes run =>
      (∃ eventType, Complete session eventType writes) ∧
        ∃ events, run = toRun writes.run.row events
  | _ => True

section

variable {env : Env} {s : Shared} {choice : Uuid} {session moved : Session} {pc : Pc}
  {effect : Effect}

theorem startTransition_shaped (role : Role) (runId : String) {args : TransitionArgs}
    (hargs : args = approveArgs ∨ args = cancelArgs) :
    Shaped { session with pc := startTransition role runId args } := by
  unfold startTransition
  repeat' split
  · exact hargs
  all_goals trivial

theorem readRunCheck_shaped {args : TransitionArgs} (runId : Uuid) (row : Option RunRow)
    (hargs : args = approveArgs ∨ args = cancelArgs) :
    Shaped { session with pc := readRunCheck args runId row } := by
  unfold readRunCheck
  repeat' split
  all_goals first | exact hargs | trivial

theorem eventRow_written (s : Shared) (now : Int) (eventType : EventType) (detail : String)
    (writes : Writes) :
    EventWritten eventType
      { writes with event := some (eventRow s writes.run.row now eventType detail) } :=
  ⟨_, rfl, rfl, rfl⟩

theorem PcMove.shaped (hmove : PcMove env s choice session session.pc pc effect)
    (h : Shaped session) : Shaped { session with pc } := by
  unfold Shaped at h
  generalize session.pc = old at hmove h
  cases hmove with
  | approve => exact startTransition_shaped _ _ (.inl rfl)
  | cancel => exact startTransition_shaped _ _ (.inr rfl)
  | createBegin => exact h
  | lookupFound => trivial
  | lookupMissed => exact h
  | limitsMissing => trivial
  | limitsFound => exact h
  | quotaExceeded => trivial
  | quotaFree => exact h
  | workflowMissing => trivial
  | workflowFound => exact h
  | inputRefused => trivial
  | raced => exact h
  | @inserted create now budgetCents hfree habsent hinsertable =>
      exact ⟨⟨rfl, create, choice, now, budgetCents, h, rfl⟩, rfl, rfl⟩
  | racedFound => trivial
  | racedMissing => trivial
  | replayEvents => trivial
  | replayCommit => trivial
  | discardNone => trivial
  | discardSome => trivial
  | readRun => exact readRunCheck_shaped _ _ h
  | transitionBegin => exact h
  | runMissing => trivial
  | transitionInvalid => trivial
  | transitionLocked hrow hfree hassert =>
      exact ⟨h, assertTransition_ok.mp hassert, (runOfTenant?_run? hrow).2.1⟩
  | transitionUpdate args now row =>
      obtain ⟨hargs, hallowed, htenant⟩ := h
      exact ⟨⟨args, hargs, rfl, rfl, rfl, hallowed, htenant⟩, rfl, rfl⟩
  | eventQueued hqueues => exact ⟨h.1, eventRow_written _ _ _ _ _, hqueues⟩
  | eventUnqueued hqueues =>
      refine ⟨h.1, eventRow_written _ _ _ _ _, ?_⟩
      rw [OutboxWritten, hqueues]
      exact h.2.2
  | queueOutbox hqueued =>
      obtain ⟨hopened, hevent, hqueues⟩ := h
      refine ⟨hopened, hevent, ?_⟩
      rw [OutboxWritten, hqueues]
      exact ⟨_, rfl, rfl, rfl, rfl⟩
  | queueRefused => trivial
  | audit now eventType writes =>
      obtain ⟨hopened, hevent, houtbox⟩ := h
      exact ⟨eventType, hopened, hevent, houtbox, _, rfl, rfl, rfl⟩
  | readEvents writes =>
      obtain ⟨eventType, hopened, hevent, houtbox, haudit⟩ := h
      exact ⟨⟨eventType, hopened, hevent, houtbox, haudit⟩, _, rfl⟩
  | commit => trivial
  | committed => trivial

theorem Turn.shaped (hturn : Turn env s session moved effect) (h : Shaped session) :
    Shaped moved := by
  cases hturn with
  | error => trivial
  | move hmove =>
      cases hmove with
      | inner hmove => exact hmove.shaped h
      | start hpc hrequest hstart =>
          cases startCreate_start hstart with
          | refused => trivial
          | plain => exact hrequest
          | issue => exact hrequest

end

end ControlPlane

/-! ## Every session of a run -/

structure Shaped (s : State) : Prop where
  workers : ∀ (index : Nat) (session : Worker.Session), s.workers[index]? = some session →
    Worker.Shaped session.pc
  calls : ∀ (index : Nat) (session : ControlPlane.Session), s.calls[index]? = some session →
    ControlPlane.Shaped session

theorem Shaped.next {env : Env} {s s' : State} {a : Action} (shaped : Shaped s)
    (hnext : next env s a = some s') : Shaped s' := by
  constructor
  · intro index session hworker
    cases worker_case hnext hworker with
    | kept hold hactor => exact shaped.workers index _ hold
    | joined => trivial
    | turned hold hactor hcommit hturn hstate =>
        exact hturn.shaped (shaped.workers index _ hold)
  · intro index session hcall
    cases call_case hnext hcall with
    | kept hold hactor => exact shaped.calls index _ hold
    | joined => trivial
    | turned hold hactor hcommit hturn hstate =>
        exact hturn.shaped (shaped.calls index _ hold)

theorem run_shaped {env : Env} {h : History State Action} {s : State} (run : Run env h s) :
    Shaped s := by
  refine run.always ?_ fun _ shaped hnext => shaped.next hnext
  intro s hs
  exact ⟨by simp [hs.workers], by simp [hs.calls]⟩

end DurableRuntime
