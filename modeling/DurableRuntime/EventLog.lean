import DurableRuntime.EventIds
import DurableRuntime.Scenario
import DurableRuntime.StateMachine

/-!
# The event log

A transition of the control plane and a claim commit the state together with its
events.  The other state updates of a worker are followed by their event in a
statement of its own, and until that has committed the log is one event behind.
-/

namespace DurableRuntime

open DurableRuntime.Foundation

/-- The state that an event announces. -/
def EventType.state : EventType → RunState
  | .created | .approved => .queued
  | .leased => .leased
  | .started => .running
  | .approvalRequested => .awaitingApproval
  | .cancelled => .cancelled
  | .succeeded => .succeeded
  | .failed => .failed
  | .uncertain => .uncertain

/-- `leased` and `started` both stand for a run in the hands of a worker. -/
def EventType.Denotes (event : EventType) (state : RunState) : Prop :=
  event.state = state ∨
    (event.state ∈ [RunState.leased, .running] ∧ state ∈ [RunState.leased, .running])

/-- A move of the state machine, or the claim of a run whose lease has expired. -/
def EventType.Follows (before after : EventType) : Prop :=
  after.state ∈ allowedTransitions before.state ∨
    (after = .leased ∧ before.state ∈ [RunState.leased, .running])

/-- The events of a run are a path of the state machine from its creation to the last event. -/
def LogPath (db : Db) (runId : Uuid) (last : EventType) : Prop :=
  Path (fun event => event = .created) EventType.Follows (eventTypes db runId) last

/-- In a run that no live worker executes, the last event denotes the state. -/
def LogAgrees (s : State) : Prop :=
  ∀ id row, s.db.run? id = some row → (∀ session ∈ s.workers, ¬session.Executes id) →
    ∃ last, LogPath s.db id last ∧ last.Denotes row.state

/-- The event that a worker owes to the log for the state it has written. -/
def Worker.Pc.owes? : Worker.Pc → Option (Worker.LeasedRun × EventType)
  | .event run eventType _ _ => some (run, eventType)
  | .eventCommit run row _ => some (run, row.eventType)
  | _ => none

/-- The run that an approve or a cancel moves. -/
def transitioned? (env : Env) (s : State) (a : Action) : Option Uuid :=
  match commitOf env s a with
  | some (.request writes) =>
      match writes.run with
      | .update before _ _ _ => some before.id
      | .insert _ => none
  | _ => none

/-- The worker that a crash or a failing statement stops. -/
def stopped? : Action → Option Nat
  | .crash index | .workerError index => some index
  | _ => none

/--
Every state update of a worker finds the run running, and until its event has
committed the worker neither stops nor does an approve or a cancel get in between.
-/
structure EventsPrompt (env : Env) (s : State) (a : Action) : Prop where
  running : ∀ change id target row, commitOf env s a = some change →
    change.workerState? = some (id, target) → s.db.run? id = some row → row.state = .running
  undisturbed : ∀ (index : Nat) (session : Worker.Session), stopped? a = some index →
    s.workers[index]? = some session → session.pc.owes? = none
  waits : ∀ id, transitioned? env s a = some id → ∀ session ∈ s.workers, ∀ run eventType,
    session.pc.owes? = some (run, eventType) → run.ref.id ≠ id

/-! ## What a worker owes -/

def Owed (s : State) (index : Nat) (runId : Uuid) (eventType : EventType) : Prop :=
  ∃ session run, s.workers[index]? = some session ∧ session.pc.owes? = some (run, eventType) ∧
    run.ref.id = runId

namespace Worker

variable {env : Env} {s : Shared} {session : Session} {pc : Pc} {effect : Effect}
  {run : LeasedRun} {eventType : EventType}

theorem executing_of_owes (h : pc.owes? = some (run, eventType)) : pc.executing? = some run := by
  cases pc <;> cases h <;> rfl

theorem owes_of_branch (hbranch : pc.isBranch = true) : pc.owes? = none := by
  cases pc <;> first | rfl | cases hbranch

/-- A debt begins with an update of the state. -/
inductive Owes (pc : Pc) (effect : Effect) (run : LeasedRun) (eventType : EventType) : Prop
  | before (howes : pc.owes? = some (run, eventType)) (hquiet : effect.commit? = none)
  | wrote {change} (hexecuting : pc.executing? = some run) (heffect : effect.commit? = some change)
      (hstate : change.workerState? = some (run.ref.id, eventType.state))

theorem Turn.owes (hturn : Turn env s session pc effect)
    (h : pc.owes? = some (run, eventType)) : Owes session.pc effect run eventType := by
  cases hturn with
  | error => cases h
  | crash => cases h
  | move hmove =>
      generalize session.pc = old at hmove
      cases hmove with
      | awaitApproval =>
          cases h
          exact .wrote rfl rfl rfl
      | complete =>
          cases h
          exact .wrote rfl rfl rfl
      | event run eventType detail after =>
          cases h
          exact .before rfl rfl
      | received runId =>
          rw [owes_of_branch (process_branch runId)] at h
          cases h
      | execute run =>
          rw [owes_of_branch (execute_branch run)] at h
          cases h
      | loop run index =>
          rw [owes_of_branch (loop_branch env run index)] at h
          cases h
      | consume run index handle prompt delivery =>
          rw [owes_of_branch (withCredential_branch env run index prompt _)] at h
          cases h
      | @record _ run index kind status safeLabel hfree => cases status <;> cases h
      | @eventCommit _ run row after hfree => cases after <;> cases h
      | _ => cases h

/-- An update of the state leaves the worker in debt. -/
theorem Move.wrote {owner : String} {reply : Reply} {pc' : Pc} {change : Commit} {id : Uuid}
    {target : RunState} (hmove : Move env s owner reply pc pc' effect)
    (hcommit : effect.commit? = some change) (hstate : change.workerState? = some (id, target)) :
    ∃ run eventType, pc'.owes? = some (run, eventType) ∧ run.ref.id = id ∧
      eventType.state = target := by
  cases hmove with
  | awaitApproval =>
      cases hcommit
      cases hstate
      exact ⟨_, _, rfl, rfl, rfl⟩
  | complete =>
      cases hcommit
      cases hstate
      exact ⟨_, _, rfl, rfl, rfl⟩
  | consume run index handle prompt delivery =>
      rw [consumeCredential_commit] at hcommit
      cases hcommit
  | claimCommit =>
      cases hcommit
      cases hstate
  | effectCommitted =>
      cases hcommit
      cases hstate
  | record =>
      cases hcommit
      cases hstate
  | heartbeatUpdate =>
      cases hcommit
      cases hstate
  | eventCommit =>
      cases hcommit
      cases hstate
  | _ => cases hcommit

/-- A worker that goes on settles its debt with the commit of the event. -/
inductive Settles (pc pc' : Pc) (effect : Effect) (run : LeasedRun) (eventType : EventType) : Prop
  | still (howes : pc'.owes? = some (run, eventType))
  | logged {row after} (hpc : pc = .eventCommit run row after) (htype : row.eventType = eventType)
      (heffect : effect.commit? = some (.event row))

theorem Move.settles {owner : String} {reply : Reply} {pc' : Pc}
    (hmove : Move env s owner reply pc pc' effect) (h : pc.owes? = some (run, eventType)) :
    Settles pc pc' effect run eventType := by
  cases hmove with
  | event run eventType detail after =>
      cases h
      exact .still rfl
  | eventCommit =>
      cases h
      exact .logged rfl rfl rfl
  | _ => cases h

end Worker

section

variable {env : Env} {s s' : State} {a : Action} {h : History State Action} {index : Nat}
  {runId choice : Uuid} {eventType : EventType}

/-- A new debt is the old one, or comes from an update that the worker has just made. -/
theorem owed_next (hnext : next env s a = some s')
    (howed : Owed s' index runId eventType) :
    (Owed s index runId eventType ∧ (actor a = some (.worker index) → commitOf env s a = none)) ∨
      (actor a = some (.worker index) ∧ ∃ change, commitOf env s a = some change ∧
        change.workerState? = some (runId, eventType.state)) := by
  obtain ⟨session, leased, hworker, howes, rfl⟩ := howed
  cases worker_case hnext hworker with
  | kept hold hactor =>
      exact .inl ⟨⟨session, leased, hold, howes, rfl⟩, fun hmine => absurd hmine hactor⟩
  | joined => cases howes
  | @turned old pc effect hold hactor hcommit hturn hstate =>
      cases hturn.owes howes with
      | before hmine hquiet =>
          exact .inl ⟨⟨old, leased, hold, hmine, rfl⟩, fun _ => hcommit.trans hquiet⟩
      | wrote hexecuting heffect hchange =>
          exact .inr ⟨hactor, _, hcommit.trans heffect, hchange⟩

/-- A debt stays until the worker that owes it commits the event. -/
theorem owed_kept (hprompt : EventsPrompt env s a) (hnext : next env s a = some s')
    (howed : Owed s index runId eventType) :
    Owed s' index runId eventType ∨
      (actor a = some (.worker index) ∧ ∃ event session run after,
        commitOf env s a = some (.event event) ∧ event.eventType = eventType ∧
          s.workers[index]? = some session ∧ session.pc = .eventCommit run event after ∧
            run.ref.id = runId) := by
  obtain ⟨old, leased, hold, howes, rfl⟩ := howed
  have hgoes : stopped? a ≠ some index := by
    intro hstops
    rw [hprompt.undisturbed index old hstops hold] at howes
    cases howes
  by_cases hactor : actor a = some (.worker index)
  · obtain ⟨reply, rfl⟩ : ∃ reply, a = .worker index reply := by
      cases a <;> cases hactor
      · exact ⟨_, rfl⟩
      · exact absurd rfl hgoes
      · exact absurd rfl hgoes
    obtain ⟨pc, effect, hmove, hcommit, hworker⟩ := worker_action hnext hold
    cases hmove.settles howes with
    | still hmine => exact .inl ⟨_, leased, hworker, hmine, rfl⟩
    | logged hpc htype heffect =>
        exact .inr ⟨hactor, _, old, leased, _, hcommit.trans heffect, htype, hold, hpc, rfl⟩
  · obtain ⟨session, hworker⟩ := worker_persists hnext hold
    cases worker_case hnext hworker with
    | kept hold' hactor =>
        rw [hold, Option.some.injEq] at hold'
        subst hold'
        exact .inl ⟨old, leased, hworker, howes, rfl⟩
    | joined haction hmessage hunacked hnew =>
        rw [hold] at hnew
        cases hnew
    | turned hold' hactor' => exact absurd hactor' hactor

/-! ## What a step does to a run and to its events -/

theorem workerState_subject {change : Commit} {id : Uuid} {target : RunState}
    (h : change.workerState? = some (id, target)) : change.subject? = some id := by
  cases change <;> cases h <;> rfl

theorem eventTypes_quiet (hnext : next env s a = some s')
    (hother : ∀ change, commitOf env s a = some change →
      ∀ event ∈ change.newEvents, event.runId ≠ runId) :
    eventTypes s'.db runId = eventTypes s.db runId := by
  unfold eventTypes
  rw [events_next hnext]
  cases hcommit : commitOf env s a with
  | none => simp
  | some change =>
      rw [Option.map_some, Option.getD_some, eventsOf_append_of_ne (hother change hcommit)]

theorem eventTypes_append {change : Commit} {event : EventRow} (hnext : next env s a = some s')
    (hcommit : commitOf env s a = some change) (hevents : change.newEvents = [event])
    (hnewest : Newest s.db event) :
    eventTypes s'.db event.runId = eventTypes s.db event.runId ++ [event.eventType] := by
  unfold eventTypes
  rw [events_next hnext, hcommit, Option.map_some, Option.getD_some, hevents,
    eventsOf_snoc hnewest, List.map_append, List.map_singleton]

theorem eventTypes_claim {id : Uuid} {owner : String} {now : Int} {row : RunRow}
    {events : List EventRow} (hnext : next env s a = some s')
    (hcommit : commitOf env s a = some (.claim id owner now events))
    (hclaim : ClaimNumbered s.db row events) :
    eventTypes s'.db row.id = eventTypes s.db row.id ++ [.leased] ++ [.started] := by
  obtain ⟨first, second, rfl, hleased, hstarted, hfirst, hsecond, hlt, -, hnewest⟩ := hclaim.pair
  have hnewest' : ∀ old ∈ s.db.events ++ [first], old.runId = second.runId →
      old.id < second.id := by
    intro old hold hrun
    rcases List.mem_append.mp hold with hold | hold
    · exact Nat.lt_trans (hnewest old hold (by rw [hrun, hsecond, hfirst])) hlt
    · rwa [List.mem_singleton.mp hold]
  unfold eventTypes
  rw [events_next hnext, hcommit, Option.map_some, Option.getD_some]
  change List.map _ (eventsOf (s.db.events ++ ([first] ++ [second])) row.id) = _
  rw [← List.append_assoc, ← hsecond, eventsOf_snoc hnewest', hsecond, ← hfirst,
    eventsOf_snoc hnewest]
  simp [hleased, hstarted]

/-- The step neither logs an event of the run nor updates its state on a worker's behalf. -/
structure Untouched (env : Env) (s : State) (a : Action) (id : Uuid) : Prop where
  unlogged : ∀ change, commitOf env s a = some change → ∀ event ∈ change.newEvents, event.runId ≠ id
  unwritten : ∀ change target, commitOf env s a = some change →
    change.workerState? ≠ some (id, target)

inductive LogStep (env : Env) (s s' : State) (a : Action) (id : Uuid) : Prop
  | quiet (huntouched : Untouched env s a id)
      (hstate : (s'.db.run? id).map RunRow.state = (s.db.run? id).map RunRow.state)
  | created {choice index writes row} (haction : a = .call index choice)
      (hcommit : commitOf env s a = some (.request writes))
      (hnone : s.db.run? id = none) (hrow : s'.db.run? id = some row)
      (hstate : row.state = .queued)
      (hevents : eventTypes s'.db id = eventTypes s.db id ++ [.created])
  | transitioned {writes row row' event} (hmoved : transitioned? env s a = some id)
      (hcommit : commitOf env s a = some (.request writes))
      (hrow : s.db.run? id = some row) (hrow' : s'.db.run? id = some row')
      (hstate : EventType.state event = row'.state)
      (hallowed : row'.state ∈ allowedTransitions row.state)
      (hevents : eventTypes s'.db id = eventTypes s.db id ++ [event])
  | claimed {owner now events row row'}
      (hcommit : commitOf env s a = some (.claim id owner now events))
      (hrow : s.db.run? id = some row) (hrow' : s'.db.run? id = some row')
      (hpending : row.state.isPending = true) (hstate : row'.state = .running)
      (hevents : eventTypes s'.db id = eventTypes s.db id ++ [.leased] ++ [.started])
  | wrote {index change target} (hactor : actor a = some (.worker index))
      (hcommit : commitOf env s a = some change)
      (hchange : change.workerState? = some (id, target))
      (hevents : eventTypes s'.db id = eventTypes s.db id)
  | logged {index reply session run event after} (haction : a = .worker index reply)
      (hcommit : commitOf env s a = some (.event event))
      (hworker : s.workers[index]? = some session)
      (hpc : session.pc = .eventCommit run event after) (hid : run.ref.id = id)
      (hrow : s'.db.run? id = s.db.run? id)
      (hevents : eventTypes s'.db id = eventTypes s.db id ++ [event.eventType])

/-- An open statement that will log an event of a worker has drawn the newest id of the run. -/
def PendingNewest (s : State) : Prop :=
  ∀ (index : Nat) (session : Worker.Session) run event after,
    s.workers[index]? = some session → session.pc = .eventCommit run event after →
      Newest s.db event

/-- The log step of a creation, an approve or a cancel. -/
theorem request_logStep (run : Run env h s) (hnext : next env s (.call index choice) = some s')
    {session : ControlPlane.Session} {writes : Writes} {stored : ControlPlane.StoredRun}
    (hcommit : commitOf env s (.call index choice) = some (.request writes))
    (hcall : s.calls[index]? = some session) (hpc : session.pc = .commit writes stored) :
    LogStep env s s' (.call index choice) writes.run.row.id := by
  have sound := run_sound run
  have hwrites : session.pc.writes? = some writes := by rw [hpc]; rfl
  obtain ⟨eventType, hcomplete⟩ := sound.complete hcall hpc
  obtain ⟨event, hevent, htype, hof⟩ := hcomplete.event
  obtain ⟨-, -, hnewest⟩ := (run_numbered run).calls index session writes event hcall hwrites hevent
  have hevents := eventTypes_append hnext hcommit (by simp [Commit.newEvents, hevent]) hnewest
  rw [hof, htype] at hevents
  have hopened := hcomplete.opened
  have hrun? := next_run? hnext writes.run.row.id
  rw [hcommit] at hrun?
  cases hwrite : writes.run with
  | insert row =>
      obtain ⟨create, key, now, budgetCents, -, hnew⟩ := sound.insert_eq hcall hpc hwrite
      have habsent := (sound.snapshots.inserts index session writes row hcall hwrites hwrite).1
      rw [hwrite] at hopened hevents
      rw [hopened.1] at hevents
      have hrow : s'.db.run? row.id = some row := by
        simpa [Commit.rowAfter, RunWrite.rowAfter, hwrite, RunWrite.row, habsent] using hrun?
      exact .created rfl hcommit habsent hrow (by rw [hnew]; rfl) hevents
  | update before state approved now =>
      obtain ⟨-, -, -, -, hallowed⟩ := sound.update_args hcall hpc hwrite
      have hrow := sound.snapshots.updates index session before hcall (by
        rw [ControlPlane.lockedRow?_writes hwrites, hwrite])
      rw [hwrite] at hopened hevents
      obtain ⟨args, hargs, rfl, rfl, -⟩ := hopened
      have hrow' : s'.db.run? before.id =
          some (before.transition args.state approved now) := by
        simpa [Commit.rowAfter, RunWrite.rowAfter, hwrite, RunWrite.row, RunRow.transition, hrow]
          using hrun?
      refine .transitioned ?_ hcommit hrow hrow' ?_ hallowed hevents
      · simp [transitioned?, hcommit, hwrite, RunWrite.row, RunRow.transition]
      · rcases hargs with rfl | rfl <;> rfl

theorem Numbered.untouched (numbered : Numbered s) {change : Commit} {id : Uuid}
    (hcommit : commitOf env s a = some change)
    (hsilent : change.newEvents = [] ∨ change.subject? ≠ some id)
    (hstate : ∀ target, change.workerState? ≠ some (id, target)) : Untouched env s a id := by
  constructor
  · intro change' hcommit' event hevent hid
    rw [hcommit, Option.some.injEq] at hcommit'
    subst hcommit'
    rcases hsilent with hnone | hsubject
    · simp [hnone] at hevent
    · exact hsubject (hid ▸ (numbered.logged hcommit hevent).1)
  · intro change' target hcommit'
    rw [hcommit, Option.some.injEq] at hcommit'
    subst hcommit'
    exact hstate target

theorem log_step (run : Run env h s) (hpending : PendingNewest s) (hnext : next env s a = some s')
    (id : Uuid) : LogStep env s s' a id := by
  have sound := run_sound run
  have numbered := run_numbered run
  have hrun? := next_run? hnext id
  cases hcommit : commitOf env s a with
  | none =>
      rw [hcommit] at hrun?
      exact .quiet ⟨by simp [hcommit], by simp [hcommit]⟩ (by rw [hrun?])
  | some change =>
      rw [hcommit] at hrun?
      simp only at hrun?
      by_cases hsubject : change.subject? = some id
      · have silent : change.newEvents = [] → eventTypes s'.db id = eventTypes s.db id := by
          intro hnone
          refine eventTypes_quiet hnext ?_
          simp [hcommit, hnone]
        cases commitOf_commits hcommit with
        | request hcall hpc =>
            cases hsubject
            exact request_logStep run hnext hcommit hcall hpc
        | @claim index reply session now row events leased hworker hpc =>
            cases hsubject
            have hrow := sound.snapshots.workers index session row hworker (by rw [hpc]; rfl)
            have hevents := eventTypes_claim hnext hcommit
              (numbered.claims index session now row events leased hworker hpc)
            simp only [Commit.rowAfter, hrow, Option.map_some, if_true] at hrun?
            exact .claimed hcommit hrow hrun? (sound.claim_state hworker hpc) rfl hevents
        | @event index reply session leased row after hworker hpc hfree =>
            cases hsubject
            have hshape := sound.shaped.workers index session hworker
            rw [hpc] at hshape
            exact .logged rfl hcommit hworker hpc hshape.1.symm hrun?
              (eventTypes_append hnext hcommit rfl
                (hpending index session leased row after hworker hpc))
        | @heartbeat index reply session leased step now hworker hpc hfree =>
            refine .quiet (numbered.untouched hcommit (.inl rfl) ?_) ?_
            · intro target hstate
              cases hstate
            rw [hrun?]
            cases s.db.run? id with
            | none => simp [Commit.rowAfter]
            | some row =>
                simp only [Commit.rowAfter]
                split
                · rfl
                · rfl
        | awaitApproval =>
            cases hsubject
            exact .wrote rfl hcommit rfl (silent rfl)
        | complete =>
            cases hsubject
            exact .wrote rfl hcommit rfl (silent rfl)
        | stepResult =>
            refine .quiet (numbered.untouched hcommit (.inl rfl) ?_) (by rw [hrun?]; rfl)
            intro target hstate
            cases hstate
        | effect =>
            refine .quiet (numbered.untouched hcommit (.inl rfl) ?_) (by rw [hrun?]; rfl)
            intro target hstate
            cases hstate
        | _ => cases hsubject
      · exact .quiet (numbered.untouched hcommit (.inr hsubject) fun target hstate =>
          hsubject (workerState_subject hstate)) (by rw [hrun?, rowAfter_of_ne hsubject])

/-! ## The log and what is owed to it -/

theorem Owed.run? (run : Run env h s) (howed : Owed s index runId eventType) :
    ∃ row, s.db.run? runId = some row := by
  obtain ⟨session, leased, hworker, howes, rfl⟩ := howed
  obtain ⟨row, -, hrow, -⟩ := run_agrees run hworker (Worker.executing_of_owes howes)
  exact ⟨row, hrow⟩

theorem Owed.unique {other : EventType} (howed : Owed s index runId eventType)
    (howed' : Owed s index runId other) : other = eventType := by
  obtain ⟨session, leased, hworker, howes, -⟩ := howed
  obtain ⟨session', leased', hworker', howes', -⟩ := howed'
  rw [hworker, Option.some.injEq] at hworker'
  subst hworker'
  rw [howes] at howes'
  cases howes'
  rfl

/-- Either the log is up to date, or one worker is about to log the state it has written. -/
inductive LogCase (s : State) (id : Uuid) : Prop
  | absent (hnone : s.db.run? id = none)
  | settled {row last} (hrow : s.db.run? id = some row)
      (hnobody : ∀ index eventType, ¬Owed s index id eventType) (hpath : LogPath s.db id last)
      (hlast : last.state = row.state)
  | owing {index eventType row last} (hrow : s.db.run? id = some row)
      (howed : Owed s index id eventType)
      (halone : ∀ other otherType, Owed s other id otherType → other = index)
      (hstate : eventType.state = row.state) (hwritten : row.state ∈ workerStates)
      (hpath : LogPath s.db id last) (hlast : last.state = .running)

theorem owed_untouched (run : Run env h s) (hprompt : EventsPrompt env s a)
    (hnext : next env s a = some s') (huntouched : Untouched env s a runId) :
    Owed s' index runId eventType ↔ Owed s index runId eventType := by
  constructor
  · intro howed
    rcases owed_next hnext howed with ⟨hold, -⟩ | ⟨-, change, hcommit, hstate⟩
    · exact hold
    · exact absurd hstate (huntouched.unwritten change _ hcommit)
  · intro howed
    rcases owed_kept hprompt hnext howed with hkept | ⟨-, event, session, leased, after, hcommit,
      -, hworker, hpc, hid⟩
    · exact hkept
    · have hshape := (run_shaped run).workers index session hworker
      rw [hpc] at hshape
      exact absurd (Eq.trans hshape.1 hid)
        (huntouched.unlogged _ hcommit event (List.mem_singleton_self event))

theorem owed_committed (hnext : next env s a = some s') {change : Commit}
    (hcommit : commitOf env s a = some change)
    (hwrite : change.workerState? = none) (howed : Owed s' index runId eventType) :
    Owed s index runId eventType ∧ actor a ≠ some (.worker index) := by
  rcases owed_next hnext howed with ⟨hold, hquiet⟩ | ⟨-, change', hcommit', hstate⟩
  · refine ⟨hold, ?_⟩
    intro hactor
    rw [hquiet hactor] at hcommit
    cases hcommit
  · rw [hcommit, Option.some.injEq] at hcommit'
    rw [← hcommit', hwrite] at hstate
    cases hstate

theorem owed_wrote (run : Run env h s) (hnext : next env s a = some s')
    (hactor : actor a = some (.worker index)) {change : Commit} {target : RunState}
    (hcommit : commitOf env s a = some change)
    (hstate : change.workerState? = some (runId, target)) :
    (∃ row, s.db.run? runId = some row) ∧
      ∃ eventType, Owed s' index runId eventType ∧ eventType.state = target := by
  have hworker : ∃ reply session leased, a = .worker index reply ∧
      s.workers[index]? = some session ∧ session.pc.executing? = some leased ∧
        leased.ref.id = runId := by
    cases commitOf_commits hcommit with
    | awaitApproval hworker hpc =>
        cases hactor
        cases hstate
        exact ⟨_, _, _, rfl, hworker, by rw [hpc]; rfl, rfl⟩
    | complete hworker hpc =>
        cases hactor
        cases hstate
        exact ⟨_, _, _, rfl, hworker, by rw [hpc]; rfl, rfl⟩
    | _ => cases hstate
  obtain ⟨reply, session, leased, rfl, hworker, hexecuting, rfl⟩ := hworker
  obtain ⟨row, -, hrow, -⟩ := run_agrees run hworker hexecuting
  obtain ⟨pc, effect, hmove, hchange, hworker'⟩ := worker_action hnext hworker
  obtain ⟨leased', eventType, howes, hid, htype⟩ :=
    hmove.wrote (hchange.symm.trans hcommit) hstate
  exact ⟨⟨row, hrow⟩, eventType, ⟨_, leased', hworker', howes, hid⟩, htype⟩

theorem LogCase.next (run : Run env h s) (hpending : PendingNewest s)
    (hprompt : EventsPrompt env s a) (hnext : next env s a = some s') {id : Uuid}
    (kind : LogCase s id) : LogCase s' id := by
  cases log_step run hpending hnext id with
  | quiet huntouched hstate =>
      have hevents := eventTypes_quiet hnext huntouched.unlogged
      have howed : ∀ {index eventType}, Owed s' index id eventType ↔ Owed s index id eventType :=
        owed_untouched run hprompt hnext huntouched
      cases kind with
      | absent hnone =>
          rw [hnone, Option.map_none, Option.map_eq_none_iff] at hstate
          exact .absent hstate
      | settled hrow hnobody hpath hlast =>
          rw [hrow, Option.map_some, Option.map_eq_some_iff] at hstate
          obtain ⟨row', hrow', hsame⟩ := hstate
          refine .settled hrow' ?_ (by rwa [LogPath, hevents]) (hlast.trans hsame.symm)
          intro index eventType hmine
          exact hnobody index eventType (howed.mp hmine)
      | owing hrow hmine halone hwrote hwritten hpath hlast =>
          rw [hrow, Option.map_some, Option.map_eq_some_iff] at hstate
          obtain ⟨row', hrow', hsame⟩ := hstate
          refine .owing hrow' (howed.mpr hmine) ?_ (hwrote.trans hsame.symm) (hsame ▸ hwritten)
            (by rwa [LogPath, hevents]) hlast
          intro other otherType hother
          exact halone other otherType (howed.mp hother)
  | created haction hcommit hnone hrow hstate hevents =>
      have hempty : eventTypes s.db id = [] := by
        simp only [eventTypes, eventsOf, List.map_eq_nil_iff]
        rw [List.filter_eq_nil_iff.mpr]
        · rfl
        · intro event hevent hid
          obtain ⟨row, hrow⟩ := (run_numbered run).known event hevent
          rw [of_decide_eq_true hid, hnone] at hrow
          cases hrow
      refine @LogCase.settled s' id _ .created hrow ?_ ?_ hstate.symm
      · intro index eventType howed
        obtain ⟨row', hrow'⟩ := (owed_committed hnext hcommit rfl howed).1.run? run
        rw [hnone] at hrow'
        cases hrow'
      · rw [LogPath, hevents, hempty]
        exact .start rfl
  | @transitioned writes row row' event hmoved hcommit hrow hrow' hstate hallowed hevents =>
      have hnobody : ∀ index eventType, ¬Owed s index id eventType := by
        rintro index eventType ⟨session, leased, hworker, howes, hid⟩
        exact hprompt.waits id hmoved session (List.mem_of_getElem? hworker) leased eventType
          howes hid
      cases kind with
      | absent hnone =>
          rw [hnone] at hrow
          cases hrow
      | owing _ howed => exact absurd howed (hnobody _ _)
      | settled hrow₀ _ hpath hlast =>
          rw [hrow, Option.some.injEq] at hrow₀
          subst hrow₀
          refine .settled hrow' ?_ ?_ hstate
          · intro index eventType howed
            exact hnobody index eventType (owed_committed hnext hcommit rfl howed).1
          · rw [LogPath, hevents]
            refine .step hpath (.inl ?_)
            rw [hstate, hlast]
            exact hallowed
  | claimed hcommit hrow hrow' hpending' hstate hevents =>
      cases kind with
      | absent hnone =>
          rw [hnone] at hrow
          cases hrow
      | owing hrow₀ howed halone hwrote hwritten =>
          rw [hrow, Option.some.injEq] at hrow₀
          subst hrow₀
          revert hwritten hpending'
          cases RunRow.state _ <;> simp [workerStates, RunState.isPending]
      | settled hrow₀ hnobody hpath hlast =>
          rw [hrow, Option.some.injEq] at hrow₀
          subst hrow₀
          refine @LogCase.settled s' id _ .started hrow' ?_ ?_ hstate.symm
          · intro index eventType howed
            exact hnobody index eventType (owed_committed hnext hcommit rfl howed).1
          · rw [LogPath, hevents]
            refine .step (.step hpath ?_) (.inl (by decide))
            unfold EventType.Follows
            rw [hlast]
            revert hpending'
            cases RunRow.state _ <;>
              simp [RunState.isPending, allowedTransitions, EventType.state]
  | wrote hactor hcommit hchange hevents =>
      obtain ⟨⟨row, hold⟩, eventType, howed, htype⟩ := owed_wrote run hnext hactor hcommit hchange
      obtain ⟨row', hrow', htarget⟩ := workerState_next hnext hcommit hchange hold
      have hrunning := hprompt.running _ _ _ row hcommit hchange hold
      cases kind with
      | absent hnone =>
          rw [hold] at hnone
          cases hnone
      | owing hrow₀ _ _ _ hwritten =>
          rw [hold, Option.some.injEq] at hrow₀
          subst hrow₀
          rw [hrunning] at hwritten
          exact absurd hwritten (by decide)
      | settled hrow₀ hnobody hpath hlast =>
          rw [hold, Option.some.injEq] at hrow₀
          subst hrow₀
          refine .owing hrow' howed ?_ (htype.trans htarget.symm)
            (htarget ▸ workerState_mem hcommit hchange)
            (by rwa [LogPath, hevents]) (hlast.trans hrunning)
          intro other otherType hother
          rcases owed_next hnext hother with ⟨hold', -⟩ | ⟨hactor', -⟩
          · exact absurd hold' (hnobody _ _)
          · rw [hactor'] at hactor
            cases hactor
            rfl
  | @logged index reply session leased event after haction hcommit hworker hpc hid hrow hevents =>
      have howed : Owed s index id event.eventType :=
        ⟨session, leased, hworker, by rw [hpc]; rfl, hid⟩
      cases kind with
      | absent hnone =>
          obtain ⟨row, hrow'⟩ := howed.run? run
          rw [hnone] at hrow'
          cases hrow'
      | settled _ hnobody => exact absurd howed (hnobody _ _)
      | owing hrow₀ howed' halone hwrote hwritten hpath hlast =>
          have hsame := halone _ _ howed
          subst hsame
          rw [← howed'.unique howed] at hwrote
          refine .settled (hrow.trans hrow₀) ?_ ?_ hwrote
          · intro other otherType hother
            obtain ⟨hold, hactor⟩ := owed_committed hnext hcommit rfl hother
            rw [halone _ _ hold, haction] at hactor
            exact hactor rfl
          · rw [LogPath, hevents]
            refine .step hpath (.inl ?_)
            rw [hlast, hwrote]
            revert hwritten
            cases RunRow.state _ <;> decide

/-- While a worker owes an event of the run, no other session logs one. -/
theorem LogCase.undisturbed (run : Run env h s) (hpending : PendingNewest s)
    (hprompt : EventsPrompt env s a) (hnext : DurableRuntime.next env s a = some s')
    (kind : LogCase s runId) (howed : Owed s index runId eventType)
    (hother : actor a ≠ some (.worker index)) {change : Commit}
    (hcommit : commitOf env s a = some change) :
    ∀ event ∈ change.newEvents, event.runId ≠ runId := by
  obtain ⟨row, hrow⟩ := howed.run? run
  cases log_step run hpending hnext runId with
  | quiet huntouched => exact huntouched.unlogged change hcommit
  | created _ _ hnone =>
      rw [hrow] at hnone
      cases hnone
  | transitioned hmoved =>
      obtain ⟨session, leased, hworker, howes, hid⟩ := howed
      exact absurd hid
        (hprompt.waits runId hmoved session (List.mem_of_getElem? hworker) leased eventType howes)
  | claimed _ hrow' _ hclaimable =>
      cases kind with
      | absent hnone =>
          rw [hrow] at hnone
          cases hnone
      | settled _ hnobody => exact absurd howed (hnobody _ _)
      | owing hrow₀ _ _ _ hwritten =>
          rw [hrow₀, Option.some.injEq] at hrow'
          subst hrow'
          revert hwritten hclaimable
          cases RunRow.state _ <;> simp [workerStates, RunState.isPending]
  | wrote _ hcommit' hchange =>
      rw [hcommit, Option.some.injEq] at hcommit'
      subst hcommit'
      intro event hevent
      cases change <;> cases hchange <;> cases hevent
  | @logged other reply session leased event after haction _ hworker hpc hid =>
      have howed' : Owed s other runId event.eventType :=
        ⟨session, leased, hworker, by rw [hpc]; rfl, hid⟩
      cases kind with
      | absent hnone =>
          rw [hrow] at hnone
          cases hnone
      | settled _ hnobody => exact absurd howed (hnobody _ _)
      | owing _ _ halone =>
          rw [halone _ _ howed, ← halone _ _ howed', haction] at hother
          exact absurd rfl hother

theorem PendingNewest.next (run : Run env h s) (hpending : PendingNewest s)
    (hprompt : EventsPrompt env s a) (hnext : DurableRuntime.next env s a = some s')
    (kinds : ∀ id, LogCase s id) : PendingNewest s' := by
  intro index session leased event after hworker hpc
  cases worker_case hnext hworker with
  | kept hold hactor =>
      have hshape := (run_shaped run).workers index session hold
      rw [hpc] at hshape
      have howed : Owed s index event.runId event.eventType :=
        ⟨session, leased, hold, by rw [hpc]; rfl, hshape.1.symm⟩
      intro old hmem hrun
      rw [events_next hnext] at hmem
      rcases List.mem_append.mp hmem with hmem | hmem
      · exact hpending index session leased event after hold hpc old hmem hrun
      · cases hcommit : commitOf env s a with
        | none => simp [hcommit] at hmem
        | some change =>
            rw [hcommit] at hmem
            exact absurd hrun ((kinds event.runId).undisturbed run hpending hprompt hnext howed
              hactor hcommit old hmem)
  | joined => cases hpc
  | turned hold hactor hcommit hturn hstate =>
      obtain ⟨-, hid, -, rfl⟩ := hturn.draws_event hpc
      have hquiet : s'.db.events = s.db.events := by
        rw [events_next hnext, hcommit]
        exact List.append_nil _
      rw [Newest, hquiet]
      exact (run_numbered run).newest_drawn hid

structure Logged (s : State) : Prop where
  kinds : ∀ id, LogCase s id
  newest : PendingNewest s

theorem run_logged (run : Run env h s) (hprompt : Within (fun _ => EventsPrompt env) h) :
    Logged s := by
  refine run.always_within ?_ ?_ hprompt
  · intro s hs
    refine ⟨fun id => .absent (by simp [Db.run?, hs.runs]), ?_⟩
    intro index session leased event after hworker
    simp [hs.workers] at hworker
  · intro h s a s' run logged hprompt hnext
    exact ⟨fun id => (logged.kinds id).next run logged.newest hprompt hnext,
      logged.newest.next run hprompt hnext logged.kinds⟩

/--
The log agrees with the state whenever every state update of a worker has found
the run running and its event has followed without a crash, an error or an
approve or cancel of the run in between.
-/
theorem logAgrees_of_eventsPrompt (run : Run env h s)
    (hprompt : Within (fun _ => EventsPrompt env) h) : LogAgrees s := by
  intro id row hrow hidle
  cases (run_logged run hprompt).kinds id with
  | absent hnone =>
      rw [hrow] at hnone
      cases hnone
  | settled hrow' _ hpath hlast =>
      rw [hrow, Option.some.injEq] at hrow'
      exact ⟨_, hpath, .inl (hrow' ▸ hlast)⟩
  | owing _ howed =>
      obtain ⟨session, leased, hworker, howes, hid⟩ := howed
      exact absurd ⟨leased, Worker.executing_of_owes howes, hid⟩
        (hidle session (List.mem_of_getElem? hworker))

end

/-- `EventsPrompt`, as a test. -/
def eventsPrompt (env : Env) (s : State) (a : Action) : Bool :=
  (((commitOf env s a).bind Commit.workerState?).all fun write =>
      (s.db.run? write.1).all fun row => row.state = .running) &&
    ((stopped? a).all fun index => s.workers[index]?.all fun session => session.pc.owes?.isNone) &&
    (transitioned? env s a).all fun id =>
      s.workers.all fun session => session.pc.owes?.all fun owed => owed.1.ref.id ≠ id

theorem eventsPrompt_of_test {env : Env} {s : State} {a : Action}
    (htest : eventsPrompt env s a = true) : EventsPrompt env s a := by
  simp only [eventsPrompt, Bool.and_eq_true, Option.all_eq_true, List.all_eq_true,
    decide_eq_true_eq, Option.isNone_iff_eq_none, Option.bind_eq_some_iff] at htest
  obtain ⟨⟨hrunning, hgoes⟩, hwaits⟩ := htest
  constructor
  · intro change id target row hcommit hchange hrow
    exact hrunning (id, target) ⟨change, hcommit, hchange⟩ row hrow
  · exact fun index session hstops hworker => hgoes index hstops session hworker
  · intro id hmoved session hworker run eventType howes
    exact hwaits id hmoved session hworker (run, eventType) howes

/-! ## A pause that is never logged -/

/-- A run of one approval step, paused and approved after its events. -/
def pausedLogged : List Action :=
  Scenario.createActions [Scenario.approval] ++ Scenario.publishActions 0 ++
    Scenario.claimActions 0 0 ++ Scenario.workerActions 0 7 ++
    Scenario.transitionActions (.approve Scenario.runId.text) 1 10

/-- The same run, paused by a worker that crashes before it logs the request. -/
def pausedUnlogged : List Action :=
  Scenario.createActions [Scenario.approval] ++ Scenario.publishActions 0 ++
    Scenario.claimActions 0 0 ++ Scenario.workerActions 0 4 ++ [.crash 0]

/-- The log of the scenario's run ends with the given event. -/
def logEndsWith (t : State) (event : EventType) : Bool :=
  (eventTypes t.db Scenario.runId).getLast? = some event

theorem pausedLogged_logAgrees : ∃ h t, Run Scenario.env h t ∧
    logEndsWith t .approved = true ∧ LogAgrees t := by
  obtain ⟨h, t, run, htest⟩ := Scenario.exists_run 5 pausedLogged
    (fun h t => logEndsWith t .approved && h.all fun p => eventsPrompt Scenario.env p.1 p.2)
    (by decide +kernel)
  simp only [Bool.and_eq_true, List.all_eq_true] at htest
  exact ⟨h, t, run, htest.1,
    logAgrees_of_eventsPrompt run (within_iff.mpr fun p hp => eventsPrompt_of_test (htest.2 p hp))⟩

theorem not_logAgrees : ¬∀ env h s, Run env h s → LogAgrees s := by
  intro hall
  obtain ⟨h, t, run, htest⟩ := Scenario.exists_run 5 pausedUnlogged
    (fun _ t => endsIn t .awaitingApproval && logEndsWith t .started &&
      t.workers.all fun session => session.pc.executing?.isNone) (by decide +kernel)
  simp only [endsIn, logEndsWith, Bool.and_eq_true, Option.any_eq_true, List.all_eq_true,
    Option.isNone_iff_eq_none, decide_eq_true_eq] at htest
  obtain ⟨⟨⟨row, hrow, hpaused⟩, hlast⟩, hidle⟩ := htest
  obtain ⟨last, hpath, hdenotes⟩ := hall Scenario.env h t run Scenario.runId row hrow (by
    rintro session hsession ⟨leased, hexecuting, -⟩
    rw [hidle session hsession] at hexecuting
    cases hexecuting)
  rw [hpath.getLast?, Option.some.injEq] at hlast
  subst hlast
  rw [hpaused] at hdenotes
  simp [EventType.Denotes, EventType.state] at hdenotes

end DurableRuntime
