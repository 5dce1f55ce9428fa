import DurableRuntime.Executions
import DurableRuntime.Foundation.Sequences

/-!
# The ids of events

Events are read in the order of their ids, which are drawn when the row is
inserted and not when it is committed.  For the transactions that hold the run's
lock the two orders agree: the id an open transaction has drawn is greater than
that of every committed event of its run.
-/

namespace DurableRuntime

open DurableRuntime.Foundation

/-- The events that a commit inserts. -/
def Commit.newEvents : Commit → List EventRow
  | .request writes => writes.event.toList
  | .claim _ _ _ events => events
  | .event row => [row]
  | _ => []

theorem events_commit (db : Db) (change : Commit) :
    (db.commit change).events = db.events ++ change.newEvents := by
  cases change with
  | request writes =>
      obtain ⟨write, event, outbox, audit⟩ := writes
      cases write <;> rfl
  | claim => rfl
  | event => rfl
  | _ => exact (List.append_nil _).symm

theorem nextEventId_commit (db : Db) (change : Commit) :
    (db.commit change).nextEventId = db.nextEventId := by
  cases change with
  | request writes =>
      obtain ⟨write, event, outbox, audit⟩ := writes
      cases write <;> rfl
  | _ => rfl

/-- The types of the events of a run, in id order. -/
def eventTypes (db : Db) (runId : Uuid) : List EventType :=
  (eventsOf db.events runId).map EventRow.eventType

/-- The event is newer than all that its run has. -/
def Newest (db : Db) (event : EventRow) : Prop :=
  ∀ old ∈ db.events, old.runId = event.runId → old.id < event.id

theorem eventsOf_snoc {events : List EventRow} {event : EventRow}
    (hnewest : ∀ old ∈ events, old.runId = event.runId → old.id < event.id) :
    eventsOf (events ++ [event]) event.runId = eventsOf events event.runId ++ [event] := by
  unfold eventsOf
  rw [List.filter_append, List.filter_singleton, decide_eq_true rfl]
  apply insertionSort_snoc
  intro old hold
  simp only [List.mem_filter, decide_eq_true_eq] at hold
  exact Nat.le_of_lt (hnewest old hold.1 hold.2)

theorem eventsOf_append_of_ne {events new : List EventRow} {runId : Uuid}
    (hother : ∀ event ∈ new, event.runId ≠ runId) :
    eventsOf (events ++ new) runId = eventsOf events runId := by
  have hnone : (new.filter fun event => event.runId = runId) = [] := by
    simpa [List.filter_eq_nil_iff] using hother
  unfold eventsOf
  rw [List.filter_append, hnone, List.append_nil]

namespace ControlPlane

/-- A transaction keeps the event it has inserted. -/
theorem PcMove.event {env : Env} {s : Shared} {choice : Uuid} {session : Session}
    {pc pc' : Pc} {effect : Effect} (hmove : PcMove env s choice session pc pc' effect)
    {writes : Writes} {row : EventRow} (hwrites : pc'.writes? = some writes)
    (hrow : writes.event = some row) :
    (effect.commit? = none ∧ ∃ old, pc.writes? = some old ∧ old.event = some row ∧
        old.run = writes.run) ∨
      (effect = .draw 1 0 0 ∧ row.id = s.db.nextEventId ∧ row.runId = writes.run.row.id) := by
  cases hmove with
  | approve => simp [startTransition_idle] at hwrites
  | cancel => simp [startTransition_idle] at hwrites
  | readRun => simp [readRunCheck_idle] at hwrites
  | inserted =>
      cases hwrites
      cases hrow
  | transitionUpdate =>
      cases hwrites
      cases hrow
  | eventQueued =>
      cases hwrites
      cases hrow
      exact .inr ⟨rfl, rfl, rfl⟩
  | eventUnqueued =>
      cases hwrites
      cases hrow
      exact .inr ⟨rfl, rfl, rfl⟩
  | queueOutbox =>
      cases hwrites
      exact .inl ⟨rfl, _, rfl, hrow, rfl⟩
  | audit =>
      cases hwrites
      exact .inl ⟨rfl, _, rfl, hrow, rfl⟩
  | readEvents =>
      cases hwrites
      exact .inl ⟨rfl, _, rfl, hrow, rfl⟩
  | _ => cases hwrites

end ControlPlane

namespace Worker

variable {env : Env} {s : Shared} {session : Session} {pc : Pc} {effect : Effect}

theorem Turn.draws_claim (hturn : Turn env s session pc effect) {now : Int} {row : RunRow}
    {events : List EventRow} {run : LeasedRun} (hpc : pc = .claimCommit now row events run) :
    events = claimEventRows s now row ∧ effect = .draw 2 0 0 := by
  cases hturn with
  | error => cases hpc
  | crash => cases hpc
  | move hmove =>
      generalize session.pc = old at hmove
      cases hmove with
      | claimEvents hdecode =>
          cases hpc
          exact ⟨rfl, rfl⟩
      | received runId =>
          have hbranch := process_branch runId
          rw [hpc] at hbranch
          cases hbranch
      | execute run =>
          have hbranch := execute_branch run
          rw [hpc] at hbranch
          cases hbranch
      | loop run index =>
          have hbranch := loop_branch env run index
          rw [hpc] at hbranch
          cases hbranch
      | consume run index handle prompt delivery =>
          have hbranch := withCredential_branch env run index prompt
            (consumeCredential env s handle delivery).1
          rw [hpc] at hbranch
          cases hbranch
      | @record _ run index kind status safeLabel hfree => cases status <;> cases hpc
      | @eventCommit _ run row after hfree => cases after <;> cases hpc
      | _ => cases hpc

theorem Turn.draws_event (hturn : Turn env s session pc effect) {run : LeasedRun}
    {event : EventRow} {after : After} (hpc : pc = .eventCommit run event after) :
    (∃ detail, session.pc = .event run event.eventType detail after) ∧
      event.id = s.db.nextEventId ∧ event.runId = run.ref.id ∧ effect = .draw 1 0 0 := by
  cases hturn with
  | error => cases hpc
  | crash => cases hpc
  | move hmove =>
      generalize session.pc = old at hmove
      cases hmove with
      | event run eventType detail after =>
          cases hpc
          exact ⟨⟨detail, rfl⟩, rfl, rfl, rfl⟩
      | received runId =>
          have hbranch := process_branch runId
          rw [hpc] at hbranch
          cases hbranch
      | execute run =>
          have hbranch := execute_branch run
          rw [hpc] at hbranch
          cases hbranch
      | loop run index =>
          have hbranch := loop_branch env run index
          rw [hpc] at hbranch
          cases hbranch
      | consume run index handle prompt delivery =>
          have hbranch := withCredential_branch env run index prompt
            (consumeCredential env s handle delivery).1
          rw [hpc] at hbranch
          cases hbranch
      | @record _ run index kind status safeLabel hfree => cases status <;> cases hpc
      | @eventCommit _ run row after hfree => cases after <;> cases hpc
      | _ => cases hpc

end Worker

/-- The two events of a claim, with ids in order and newer than the events of the run. -/
structure ClaimNumbered (db : Db) (row : RunRow) (events : List EventRow) : Prop where
  pair : ∃ first second, events = [first, second] ∧ first.eventType = .leased ∧
    second.eventType = .started ∧ first.runId = row.id ∧ second.runId = row.id ∧
      first.id < second.id ∧ second.id < db.nextEventId ∧ Newest db first

structure Numbered (s : State) : Prop where
  drawn : ∀ event ∈ s.db.events, event.id < s.db.nextEventId
  known : ∀ event ∈ s.db.events, ∃ row, s.db.run? event.runId = some row
  calls : ∀ (index : Nat) (session : ControlPlane.Session) writes event,
    s.calls[index]? = some session → session.pc.writes? = some writes →
      writes.event = some event →
        event.runId = writes.run.row.id ∧ event.id < s.db.nextEventId ∧ Newest s.db event
  claims : ∀ (index : Nat) (session : Worker.Session) now row events run,
    s.workers[index]? = some session → session.pc = .claimCommit now row events run →
      ClaimNumbered s.db row events
  pending : ∀ (index : Nat) (session : Worker.Session) run event after,
    s.workers[index]? = some session → session.pc = .eventCommit run event after →
      event.id < s.db.nextEventId

section

variable {env : Env} {s s' : State} {a : Action} {h : History State Action}

theorem events_next (hnext : next env s a = some s') :
    s'.db.events = s.db.events ++ ((commitOf env s a).map Commit.newEvents).getD [] := by
  obtain ⟨events, outbox, audits, hdb⟩ := next_db hnext
  rw [hdb]
  cases hcommit : commitOf env s a with
  | none => exact (List.append_nil _).symm
  | some change => exact events_commit _ change

theorem nextEventId_next (hnext : next env s a = some s') :
    s.db.nextEventId ≤ s'.db.nextEventId := by
  obtain ⟨events, outbox, audits, hdb⟩ := next_db hnext
  rw [hdb]
  cases commitOf env s a with
  | none => exact Nat.le_add_right _ _
  | some change =>
      rw [Db.after, nextEventId_commit]
      exact Nat.le_add_right _ _

/-- What a commit logs is about the run that the commit is about, with an id drawn before. -/
theorem Numbered.logged (numbered : Numbered s) {change : Commit}
    (hcommit : commitOf env s a = some change) {event : EventRow}
    (hevent : event ∈ change.newEvents) :
    change.subject? = some event.runId ∧ event.id < s.db.nextEventId := by
  cases commitOf_commits hcommit with
  | @request index choice session writes run hcall hpc =>
      obtain ⟨hrun, hlt, -⟩ := numbered.calls index session writes event hcall (by rw [hpc]; rfl)
        (Option.mem_toList.mp hevent)
      exact ⟨by rw [hrun]; rfl, hlt⟩
  | @claim index reply session now row events run hworker hpc =>
      obtain ⟨first, second, rfl, -, -, hfirst, hsecond, hlt, hdrawn, -⟩ :=
        (numbered.claims index session now row events run hworker hpc).pair
      rcases List.mem_pair.mp hevent with rfl | rfl
      · exact ⟨by rw [hfirst]; rfl, by omega⟩
      · exact ⟨by rw [hsecond]; rfl, hdrawn⟩
  | @event index reply session run row after hworker hpc hfree =>
      rw [List.mem_singleton.mp hevent]
      exact ⟨rfl, numbered.pending index session run row after hworker hpc⟩
  | _ => cases hevent

/-- Nobody logs an event of a run that another session has locked. -/
theorem Numbered.newest_next (sound : Sound s) (numbered : Numbered s)
    (hnext : next env s a = some s') {event : EventRow} {me : Holder}
    (hlock : s.locks (.run event.runId) = some me) (hother : actor a ≠ some me)
    (hnewest : Newest s.db event) : Newest s'.db event := by
  intro old hold hrun
  rw [events_next hnext] at hold
  rcases List.mem_append.mp hold with hold | hnew
  · exact hnewest old hold hrun
  · cases hcommit : commitOf env s a with
    | none => simp [hcommit] at hnew
    | some change =>
        rw [hcommit] at hnew
        have hsubject := (numbered.logged hcommit hnew).1
        rw [hrun] at hsubject
        exact absurd hsubject
          (subject_of_lock sound.locked sound.shaped hlock hother hcommit)

theorem Numbered.newest_drawn (numbered : Numbered s) {event : EventRow}
    (hid : event.id = s.db.nextEventId) : Newest s.db event := by
  intro old hold _
  rw [hid]
  exact numbered.drawn old hold

theorem Locked.call_writes (locked : Locked s) {index : Nat} {session : ControlPlane.Session}
    {writes : Writes} (hcall : s.calls[index]? = some session)
    (hwrites : session.pc.writes? = some writes) :
    s.locks (.run writes.run.row.id) = some (.call index) := by
  cases hrun : writes.run with
  | insert row => exact (locked.call_insert hcall hwrites hrun).1
  | update before state approved now =>
      have hlocked := ControlPlane.lockedRow?_writes hwrites
      rw [hrun] at hlocked
      change s.locks (.run before.id) = some (.call index)
      exact locked.call_row hcall hlocked

theorem Numbered.known_next (run : Run env h s) (numbered : Numbered s)
    (hnext : next env s a = some s') :
    ∀ event ∈ s'.db.events, ∃ row, s'.db.run? event.runId = some row := by
  have sound := run_sound run
  have kept : ∀ {id : Uuid} {row : RunRow}, s.db.run? id = some row →
      ∃ row', s'.db.run? id = some row' := by
    intro id row hrow
    obtain ⟨row', hrow', -⟩ := (next_extends hnext).runs id row hrow
    exact ⟨row', hrow'⟩
  intro event hevent
  rw [events_next hnext] at hevent
  rcases List.mem_append.mp hevent with hold | hnew
  · obtain ⟨row, hrow⟩ := numbered.known event hold
    exact kept hrow
  · cases hcommit : commitOf env s a with
    | none => simp [hcommit] at hnew
    | some change =>
        rw [hcommit] at hnew
        have hsubject := (numbered.logged hcommit hnew).1
        cases commitOf_commits hcommit with
        | @request index choice session writes run hcall hpc =>
            obtain ⟨write, event', outbox, audit⟩ := writes
            simp only [Commit.subject?, Option.some.injEq] at hsubject
            rw [← hsubject]
            cases write with
            | insert row =>
                refine ⟨row, ?_⟩
                have habsent := sound.snapshots.inserts index session _ row hcall
                  (by rw [hpc]; rfl) rfl
                rw [next_run? hnext, hcommit]
                simp [Commit.rowAfter, RunWrite.rowAfter, RunWrite.row, habsent.1]
            | update before state approved now =>
                exact kept (sound.snapshots.updates index session before hcall (by rw [hpc]; rfl))
        | @claim index reply session now row events run hworker hpc =>
            simp only [Commit.subject?, Option.some.injEq] at hsubject
            rw [← hsubject]
            exact kept (sound.snapshots.workers index session row hworker (by rw [hpc]; rfl))
        | @event index reply session leased row after hworker hpc hfree =>
            have hshape := sound.shaped.workers index session hworker
            rw [hpc] at hshape
            obtain ⟨row', -, hrow', -⟩ := run_agrees run hworker (by rw [hpc]; rfl)
            rw [List.mem_singleton.mp hnew, hshape.1]
            exact kept hrow'
        | _ => cases hnew

theorem Numbered.calls_next (sound : Sound s) (numbered : Numbered s)
    (hnext : next env s a = some s') {index : Nat} {session : ControlPlane.Session}
    {writes : Writes} {event : EventRow} (hcall : s'.calls[index]? = some session)
    (hwrites : session.pc.writes? = some writes) (hevent : writes.event = some event) :
    event.runId = writes.run.row.id ∧ event.id < s'.db.nextEventId ∧ Newest s'.db event := by
  cases call_case hnext hcall with
  | kept hold hactor =>
      obtain ⟨hrun, hlt, hnewest⟩ := numbered.calls index session writes event hold hwrites hevent
      have hlock := sound.locked.call_writes hold hwrites
      rw [← hrun] at hlock
      exact ⟨hrun, Nat.lt_of_lt_of_le hlt (nextEventId_next hnext),
        numbered.newest_next sound hnext hlock hactor hnewest⟩
  | joined => cases hwrites
  | @turned session moved effect hold hactor hcommit hturn hstate =>
      cases hturn with
      | error => cases hwrites
      | move hmove =>
          cases hmove with
          | start hpc hrequest hstart =>
              rw [(ControlPlane.startCreate_idle hstart).2] at hwrites
              cases hwrites
          | inner hmove =>
              have hevents : effect.commit? = none → s'.db.events = s.db.events := by
                intro hquiet
                rw [events_next hnext, hcommit, hquiet]
                exact List.append_nil _
              rcases hmove.event hwrites hevent with ⟨hquiet, old, hold', hmine, hrun⟩ |
                ⟨rfl, hid, hrun⟩
              · obtain ⟨hrun', hlt, hnewest⟩ :=
                  numbered.calls index session old event hold hold' hmine
                refine ⟨by rw [hrun', hrun], Nat.lt_of_lt_of_le hlt (nextEventId_next hnext), ?_⟩
                rw [Newest, hevents hquiet]
                exact hnewest
              · refine ⟨hrun, ?_, ?_⟩
                · rw [hid, hstate]
                  exact Nat.lt_succ_self _
                · rw [Newest, hevents rfl]
                  exact numbered.newest_drawn hid

theorem Numbered.claims_next (sound : Sound s) (numbered : Numbered s)
    (hnext : next env s a = some s') {index : Nat} {session : Worker.Session} {now : Int}
    {row : RunRow} {events : List EventRow} {run : Worker.LeasedRun}
    (hworker : s'.workers[index]? = some session)
    (hpc : session.pc = .claimCommit now row events run) :
    ClaimNumbered s'.db row events := by
  cases worker_case hnext hworker with
  | kept hold hactor =>
      obtain ⟨first, second, rfl, hleased, hstarted, hfirst, hsecond, hlt, hdrawn, hnewest⟩ :=
        (numbered.claims index session now row events run hold hpc).pair
      have hlock := sound.locked.worker_row hold (by rw [hpc]; rfl)
      rw [← hfirst] at hlock
      exact ⟨first, second, rfl, hleased, hstarted, hfirst, hsecond, hlt,
        Nat.lt_of_lt_of_le hdrawn (nextEventId_next hnext),
        numbered.newest_next sound hnext hlock hactor hnewest⟩
  | joined => cases hpc
  | @turned session pc effect hold hactor hcommit hturn hstate =>
      obtain ⟨rfl, rfl⟩ := hturn.draws_claim hpc
      refine ⟨_, _, rfl, rfl, rfl, rfl, rfl, Nat.lt_succ_self _, ?_, ?_⟩
      · rw [hstate]
        exact Nat.lt_succ_self _
      · rw [Newest, events_next hnext, hcommit]
        intro old hold'
        rw [show (Effect.draw 2 0 0).commit? = none from rfl, Option.map_none, Option.getD_none,
          List.append_nil] at hold'
        intro _
        exact numbered.drawn old hold'

theorem Numbered.next (run : Run env h s) (numbered : Numbered s)
    (hnext : next env s a = some s') : Numbered s' where
  drawn := by
    intro event hevent
    have hmono := nextEventId_next hnext
    rw [events_next hnext] at hevent
    rcases List.mem_append.mp hevent with hold | hnew
    · exact Nat.lt_of_lt_of_le (numbered.drawn event hold) hmono
    · cases hcommit : commitOf env s a with
      | none => simp [hcommit] at hnew
      | some change =>
          rw [hcommit] at hnew
          exact Nat.lt_of_lt_of_le (numbered.logged hcommit hnew).2 hmono
  known := numbered.known_next run hnext
  calls := fun _ _ _ _ hcall hwrites hevent =>
    numbered.calls_next (run_sound run) hnext hcall hwrites hevent
  claims := fun _ _ _ _ _ _ hworker hpc => numbered.claims_next (run_sound run) hnext hworker hpc
  pending := by
    intro index session leased event after hworker hpc
    cases worker_case hnext hworker with
    | kept hold hactor =>
        exact Nat.lt_of_lt_of_le (numbered.pending index session leased event after hold hpc)
          (nextEventId_next hnext)
    | joined => cases hpc
    | turned hold hactor hcommit hturn hstate =>
        obtain ⟨-, hid, -, rfl⟩ := hturn.draws_event hpc
        rw [hid, hstate]
        exact Nat.lt_succ_self _

theorem run_numbered (run : Run env h s) : Numbered s := by
  refine run.always ?_ ?_
  · intro s hs
    exact ⟨by simp [hs.events], by simp [hs.events], by simp [hs.calls], by simp [hs.workers],
      by simp [hs.workers]⟩
  · intro h s a s' run numbered hnext
    exact numbered.next run hnext

end

end DurableRuntime
