import DurableRuntime.Drafts
import DurableRuntime.TenantIsolation

/-!
# What readers see

A run is read in two statements, the row and then its events, while others
commit.  Still every answer shows committed events only, and whoever asks again
after an answer gets the same run with at least the same events in the same
order; the answer to an approval or a cancellation already shows its own event.
-/

namespace DurableRuntime

open DurableRuntime.Foundation

/-- The columns of a run that no update changes. -/
def ControlPlane.StoredRun.request (run : ControlPlane.StoredRun) :
    Uuid × Uuid × Uuid × Json × Nat × String × Int :=
  (run.id, run.tenantId, run.workflowId, run.input, run.budgetCents, run.idempotencyKey,
    run.createdAt)

/-- The events of a run that its tenant can read, in id order. -/
def Db.timeline (db : Db) (tenantId runId : Uuid) : List EventRow :=
  eventsOf (db.events.filter fun event => event.tenantId = tenantId) runId

/-- All that the answer shows has been committed. -/
structure Recorded (db : Db) (tenantId : Uuid) (run : ControlPlane.StoredRun) : Prop where
  row : ∃ row, db.run? run.id = some row ∧ run.request = (ControlPlane.toRun row []).request
  events : run.events.Sublist (db.timeline tenantId run.id)

/-- The request commits, with an event that its answer shows. -/
def ShowsOwn (env : Env) (p : State × Action) (index : Nat) (request : ControlPlane.Request)
    (run : ControlPlane.StoredRun) : Prop :=
  ∃ choice writes event args, p.2 = .call index choice ∧
    commitOf env p.1 p.2 = some (.request writes) ∧ writes.event = some event ∧
      ControlPlane.Asks request args run.id ∧ event.eventType = args.eventType ∧
        event ∈ run.events

namespace Reads

structure Initial (s : System) : Prop where
  system : DurableRuntime.Initial s.toState
  reads : s.reads = []

abbrev Run (env : Env) (h : History System Action) (s : System) : Prop :=
  Exec Initial (next env) h s

inductive Client where
  | call (index : Nat)
  | read (index : Nat)

/-- The tenant of a client, and the run that it has been answered. -/
def System.answer? (s : System) : Client → Option (Uuid × ControlPlane.StoredRun)
  | .call index =>
      match s.calls[index]? with
      | some ⟨principal, _, _, .done (.created run _)⟩
      | some ⟨principal, _, _, .done (.run run)⟩ => some (principal.tenantId, run)
      | _ => none
  | .read index =>
      match s.reads[index]? with
      | some ⟨principal, _, .done (.run run)⟩ => some (principal.tenantId, run)
      | _ => none

/-- The request of the client has not arrived, or not sent its first statement. -/
def System.Unstarted (s : System) : Client → Prop
  | .call index => ∀ session, s.calls[index]? = some session → session.pc = .route
  | .read index => ∀ session, s.reads[index]? = some session → session.pc = .route

/-- The steps of a history that are steps of the system below. -/
def steps (h : History System Action) : History State DurableRuntime.Action :=
  h.filterMap fun p =>
    match p.2 with
    | .system action => some (p.1.toState, action)
    | _ => none

structure Consistent (env : Env) (s t : System) (h : History System Action) : Prop where
  recorded : ∀ client tenantId run, t.answer? client = some (tenantId, run) →
    run.tenantId = tenantId ∧ Recorded t.db tenantId run
  monotone : ∀ first second tenantId run other run', s.answer? first = some (tenantId, run) →
    s.Unstarted second → t.answer? second = some (other, run') → run'.id = run.id →
      run'.request = run.request ∧ run.events.Sublist run'.events
  own : ∀ (index : Nat) (session : ControlPlane.Session) run, t.calls[index]? = some session →
    session.pc = .done (.run run) → ∃ p ∈ steps h, ShowsOwn env p index session.request run

end Reads

/-! ## Timelines -/

section

variable {env : Env} {s s' : State} {a : Action} {h : History State Action}

theorem eventsOf_sublist {events later : List EventRow} (hsub : events.Sublist later)
    (tenantId runId : Uuid) :
    (eventsOf (events.filter fun event => event.tenantId = tenantId) runId).Sublist
      (eventsOf (later.filter fun event => event.tenantId = tenantId) runId) :=
  sublist_insertionSort_of_sublist ((hsub.filter _).filter _)

theorem timeline_extends {db db' : Db} (h : db.Extends db') (tenantId runId : Uuid) :
    (db.timeline tenantId runId).Sublist (db'.timeline tenantId runId) :=
  eventsOf_sublist h.events.sublist tenantId runId

theorem request_of_same {row row' : RunRow} (h : row.SameRequest row') :
    (ControlPlane.toRun row' []).request = (ControlPlane.toRun row []).request := by
  simp only [ControlPlane.toRun, ControlPlane.StoredRun.request, h.id, h.tenantId, h.workflowId,
    h.input, h.budgetCents, h.idempotencyKey, h.createdAt]

theorem Recorded.extends {db db' : Db} {tenantId : Uuid} {run : ControlPlane.StoredRun}
    (recorded : Recorded db tenantId run) (h : db.Extends db') : Recorded db' tenantId run := by
  obtain ⟨row, hrow, hrequest⟩ := recorded.row
  obtain ⟨row', hrow', hsame⟩ := h.runs _ _ hrow
  exact ⟨⟨row', hrow', hrequest.trans (request_of_same hsame).symm⟩,
    recorded.events.trans (timeline_extends h tenantId run.id)⟩

end

/-! ## The answers of the calls -/

namespace ControlPlane

/-- A run that an answer shows, or will show once the transaction has ended. -/
def Pc.delivered? : Pc → Option StoredRun
  | replayCommit run _ | discard run => some run
  | committed (.created run _) | committed (.run run) => some run
  | done (.created run _) | done (.run run) => some run
  | _ => none

/-- The run that a transition answers with. -/
def Pc.transitioned? : Pc → Option StoredRun
  | committed (.run run) | done (.run run) => some run
  | _ => none

section

variable {env : Env} {s : Shared} {choice : Uuid} {session moved : Session} {pc pc' : Pc}
  {effect : Effect}

theorem shown_of_delivered {run : StoredRun} (h : pc.delivered? = some run) :
    pc.shown? = some run := by
  unfold Pc.delivered? at h
  split at h <;> cases h <;> rfl

theorem delivered_of_transitioned {run : StoredRun} (h : pc.transitioned? = some run) :
    pc.delivered? = some run := by
  unfold Pc.transitioned? at h
  split at h <;> cases h <;> rfl

theorem startTransition_shows (role : Role) (runId : String) (args : TransitionArgs) :
    (startTransition role runId args).shown? = none ∧
      ∀ row locked, startTransition role runId args ≠ .replayEvents row locked := by
  unfold startTransition
  repeat' split
  all_goals simp [Pc.shown?]

theorem readRunCheck_shows (args : TransitionArgs) (runId : Uuid) (row : Option RunRow) :
    (readRunCheck args runId row).shown? = none ∧
      ∀ other locked, readRunCheck args runId row ≠ .replayEvents other locked := by
  unfold readRunCheck
  repeat' split
  all_goals simp [Pc.shown?]

theorem PcMove.finds (hmove : PcMove env s choice session pc pc' effect) {row : RunRow}
    {locked : Bool} (h : pc' = .replayEvents row locked) :
    ∃ idempotencyKey,
      s.db.runByKey? session.principal.tenantId idempotencyKey = some row := by
  cases hmove with
  | lookupFound hfound =>
      cases h
      exact ⟨_, hfound⟩
  | racedFound hfound =>
      cases h
      exact ⟨_, hfound⟩
  | approve => exact absurd h ((startTransition_shows _ _ _).2 row locked)
  | cancel => exact absurd h ((startTransition_shows _ _ _).2 row locked)
  | readRun => exact absurd h ((readRunCheck_shows _ _ _).2 row locked)
  | _ => cases h

theorem PcMove.readies (hmove : PcMove env s choice session pc pc' effect) {writes : Writes}
    {run : StoredRun} (h : pc' = .commit writes run) :
    pc = .readEvents writes ∧ run = readRunInTransaction (s.db.events ++ writes.event.toList)
      session.principal.tenantId writes.run.row := by
  cases hmove with
  | readEvents =>
      cases h
      exact ⟨rfl, rfl⟩
  | approve => cases (startTransition_shows _ _ _).1.symm.trans (congrArg Pc.shown? h)
  | cancel => cases (startTransition_shows _ _ _).1.symm.trans (congrArg Pc.shown? h)
  | readRun => cases (readRunCheck_shows _ _ _).1.symm.trans (congrArg Pc.shown? h)
  | _ => cases h

/-- An answer was read from the committed events, or comes with the commit. -/
theorem PcMove.delivers (hmove : PcMove env s choice session pc pc' effect) {run : StoredRun}
    (h : pc'.delivered? = some run) :
    pc.delivered? = some run ∨
      (∃ row locked, pc = .replayEvents row locked ∧
        run = readRunInTransaction s.db.events session.principal.tenantId row) ∨
      ∃ writes, pc = .commit writes run ∧ effect = .commit (.request writes) := by
  cases hmove with
  | replayEvents row locked =>
      cases h
      exact .inr (.inl ⟨row, locked, rfl, rfl⟩)
  | replayCommit => exact .inl h
  | discardNone => exact .inl h
  | discardSome => exact .inl h
  | commit writes shown =>
      refine .inr (.inr ⟨writes, ?_, rfl⟩)
      unfold response at h
      split at h <;> cases h <;> rfl
  | committed response => cases response <;> exact .inl h
  | approve => cases (startTransition_shows _ _ _).1.symm.trans (shown_of_delivered h)
  | cancel => cases (startTransition_shows _ _ _).1.symm.trans (shown_of_delivered h)
  | readRun => cases (readRunCheck_shows _ _ _).1.symm.trans (shown_of_delivered h)
  | _ => cases h

theorem PcMove.responds (hmove : PcMove env s choice session pc pc' effect) {run : StoredRun}
    (h : pc'.transitioned? = some run) :
    pc.transitioned? = some run ∨ ∃ writes before state approved now,
      pc = .commit writes run ∧ writes.run = .update before state approved now ∧
        effect = .commit (.request writes) := by
  have hshown := shown_of_delivered (delivered_of_transitioned h)
  cases hmove with
  | commit writes shown =>
      unfold response at h
      split at h
      · cases h
      · rename_i before state approved now hwrite
        cases h
        exact .inr ⟨writes, before, state, approved, now, rfl, hwrite, rfl⟩
  | committed response => cases response <;> exact .inl h
  | approve => cases (startTransition_shows _ _ _).1.symm.trans hshown
  | cancel => cases (startTransition_shows _ _ _).1.symm.trans hshown
  | readRun => cases (readRunCheck_shows _ _ _).1.symm.trans hshown
  | _ => cases h

/-- Whatever is shown was read after the events that were there when the request arrived. -/
theorem PcMove.reads (hmove : PcMove env s choice session pc pc' effect) {run : StoredRun}
    (h : pc'.shown? = some run) :
    pc.shown? = some run ∨ ∃ events row, s.db.events <+: events ∧
      run = readRunInTransaction events session.principal.tenantId row := by
  cases hmove with
  | replayEvents row locked =>
      cases h
      exact .inr ⟨_, row, List.prefix_rfl, rfl⟩
  | readEvents writes =>
      cases h
      exact .inr ⟨_, _, List.prefix_append _ _, rfl⟩
  | replayCommit => exact .inl h
  | discardNone => exact .inl h
  | discardSome => exact .inl h
  | commit writes shown =>
      refine .inl ?_
      unfold response at h
      split at h <;> exact h
  | committed response => cases response <;> exact .inl h
  | approve => cases (startTransition_shows _ _ _).1.symm.trans h
  | cancel => cases (startTransition_shows _ _ _).1.symm.trans h
  | readRun => cases (readRunCheck_shows _ _ _).1.symm.trans h
  | _ => cases h

end

end ControlPlane

structure Disclosed (s : State) : Prop where
  found : ∀ (index : Nat) (session : ControlPlane.Session) row locked,
    s.calls[index]? = some session → session.pc = .replayEvents row locked →
      ∃ row', s.db.run? row.id = some row' ∧ row.SameRequest row'
  ready : ∀ (index : Nat) (session : ControlPlane.Session) writes run,
    s.calls[index]? = some session → session.pc = .commit writes run →
      ∃ earlier, earlier.Sublist s.db.events ∧ run = ControlPlane.readRunInTransaction
        (earlier ++ writes.event.toList) session.principal.tenantId writes.run.row
  delivered : ∀ (index : Nat) (session : ControlPlane.Session) run,
    s.calls[index]? = some session → session.pc.delivered? = some run →
      Recorded s.db session.principal.tenantId run

section

variable {env : Env} {s s' : State} {a : Action} {h : History State Action}

/-- The row that a transaction writes is there once it has committed. -/
theorem run?_written (run : Run env h s) (hnext : next env s a = some s') {writes : Writes}
    (hcommit : commitOf env s a = some (.request writes)) :
    s'.db.run? writes.run.row.id = some writes.run.row := by
  have sound := run_sound run
  rw [next_run? hnext, hcommit]
  cases commitOf_commits hcommit with
  | @request index choice session _ stored hcall hpc =>
      simp only [Commit.rowAfter]
      cases hwrite : writes.run with
      | insert row =>
          have habsent := sound.snapshots.inserts index session writes row hcall
            (by rw [hpc]; rfl) hwrite
          simp [RunWrite.rowAfter, RunWrite.row, habsent.1]
      | update before state approved now =>
          have hrow := sound.snapshots.updates index session before hcall
            (by rw [hpc, ControlPlane.lockedRow?_writes rfl, hwrite])
          simp [RunWrite.rowAfter, RunWrite.row, RunRow.transition, hrow]

theorem recorded_read {db : Db} {tenantId : Uuid} {row row' : RunRow}
    (hrow : db.run? row.id = some row') (hsame : row.SameRequest row') :
    Recorded db tenantId (ControlPlane.readRunInTransaction db.events tenantId row) :=
  ⟨⟨row', hrow, (request_of_same hsame).symm⟩, List.Sublist.refl _⟩

/-- A transition that is about to commit shows the event that it writes itself. -/
theorem own_event (run : Run env h s) {index : Nat} {session : ControlPlane.Session}
    {writes : Writes} {shown : ControlPlane.StoredRun} (hcall : s.calls[index]? = some session)
    (hpc : session.pc = .commit writes shown) {before : RunRow} {state : RunState}
    {approved : Bool} {now : Int} (hwrite : writes.run = .update before state approved now)
    {earlier : List EventRow} (hshown : shown = ControlPlane.readRunInTransaction
      (earlier ++ writes.event.toList) session.principal.tenantId writes.run.row) :
    ∃ event args, writes.event = some event ∧
      ControlPlane.Asks session.request args shown.id ∧ event.eventType = args.eventType ∧
        event ∈ shown.events := by
  have hdrafts := run_drafted run index session hcall
  unfold ControlPlane.Drafts at hdrafts
  rw [hpc] at hdrafts
  obtain ⟨instant, eventType, detail, event, outbox, audit, hopens, hwrites⟩ := hdrafts
  rw [hwrite] at hopens
  obtain ⟨-, htenant, args, hasks, rfl, -⟩ := hopens
  have hevent : writes.event =
      some (ControlPlane.eventOf writes.run.row instant args.eventType detail event) :=
    congrArg Writes.event hwrites
  refine ⟨ControlPlane.eventOf writes.run.row instant args.eventType detail event, args, hevent,
    ?_, rfl, ?_⟩
  · rw [hshown, hwrite]
    exact hasks
  · rw [hshown, ControlPlane.readRunInTransaction, ControlPlane.toRun, eventsOf,
      List.mem_insertionSort, List.mem_filter, List.mem_filter, hevent]
    refine ⟨⟨by simp, ?_⟩, ?_⟩
    · simp [ControlPlane.eventOf, hwrite, RunWrite.row, RunRow.transition, htenant]
    · simp [ControlPlane.eventOf]

theorem Disclosed.next (run : Run env h s) (shown : Disclosed s) (hnext : next env s a = some s') :
    Disclosed s' := by
  have hextends := next_extends hnext
  constructor
  · intro index session row locked hcall hpc
    have carry : (∃ row', s.db.run? row.id = some row' ∧ row.SameRequest row') →
        ∃ row', s'.db.run? row.id = some row' ∧ row.SameRequest row' := by
      rintro ⟨row', hrow, hsame⟩
      obtain ⟨later, hlater, hlater'⟩ := hextends.runs _ _ hrow
      exact ⟨later, hlater, hsame.trans hlater'⟩
    cases call_case hnext hcall with
    | kept hold => exact carry (shown.found index _ row locked hold hpc)
    | joined => cases hpc
    | @turned session moved effect hold hactor hcommit hturn hstate =>
        cases hturn with
        | error => cases hpc
        | move hmove =>
            cases hmove with
            | start hroute hrequest hstart =>
                exact absurd hpc ((ControlPlane.startCreate_shows hstart).2 row locked)
            | inner hmove =>
                obtain ⟨idempotencyKey, hfound⟩ := hmove.finds hpc
                have hrow := Table.lookup_of_mem (run_runsKeyed run).ids (Table.lookup_mem hfound)
                exact carry ⟨row, hrow, .refl row⟩
  · intro index session writes run' hcall hpc
    cases call_case hnext hcall with
    | kept hold =>
        obtain ⟨earlier, hearlier, hrun⟩ := shown.ready index _ writes run' hold hpc
        exact ⟨earlier, hearlier.trans hextends.events.sublist, hrun⟩
    | joined => cases hpc
    | @turned session moved effect hold hactor hcommit hturn hstate =>
        cases hturn with
        | error => cases hpc
        | move hmove =>
            cases hmove with
            | start hroute hrequest hstart =>
                have hnone := (ControlPlane.startCreate_shows hstart).1
                rw [hpc] at hnone
                cases hnone
            | inner hmove =>
                obtain ⟨-, hrun⟩ := hmove.readies hpc
                exact ⟨s.db.events, hextends.events.sublist, hrun⟩
  · intro index session run' hcall hdelivered
    cases call_case hnext hcall with
    | kept hold => exact (shown.delivered index _ run' hold hdelivered).extends hextends
    | joined => cases hdelivered
    | @turned session moved effect hold hactor hcommit hturn hstate =>
        cases hturn with
        | error => cases hdelivered
        | move hmove =>
            cases hmove with
            | start hroute hrequest hstart =>
                cases (ControlPlane.startCreate_shows hstart).1.symm.trans
                  (ControlPlane.shown_of_delivered hdelivered)
            | inner hmove =>
                rcases hmove.delivers hdelivered with hmine | ⟨row, locked, hpc, rfl⟩ |
                  ⟨writes, hpc, rfl⟩
                · exact (shown.delivered index session run' hold hmine).extends hextends
                · obtain ⟨row', hrow, hsame⟩ := shown.found index session row locked hold hpc
                  exact (recorded_read hrow hsame).extends hextends
                · obtain ⟨earlier, hearlier, rfl⟩ := shown.ready index session writes run' hold hpc
                  refine ⟨⟨_, run?_written run hnext hcommit, rfl⟩, ?_⟩
                  refine eventsOf_sublist ?_ _ _
                  rw [events_next hnext, hcommit]
                  exact hearlier.append_right _

theorem run_shown (run : Run env h s) : Disclosed s := by
  refine run.always ?_ ?_
  · intro s hs
    exact ⟨by simp [hs.calls], by simp [hs.calls], by simp [hs.calls]⟩
  · intro h s a s' run shown hnext
    exact shown.next run hnext

theorem run_showsOwn (run : Run env h s) :
    ∀ (index : Nat) (session : ControlPlane.Session) shown, s.calls[index]? = some session →
      session.pc.transitioned? = some shown →
        ∃ p ∈ h, ShowsOwn env p index session.request shown := by
  refine @Exec.invariant _ _ _ _ (fun h s => ∀ (index : Nat) (session : ControlPlane.Session)
    shown, s.calls[index]? = some session → session.pc.transitioned? = some shown →
      ∃ p ∈ h, ShowsOwn env p index session.request shown) ?_ ?_ _ _ run
  · intro s hs index session shown hcall
    simp [hs.calls] at hcall
  · intro h s a s' run hearlier hnext index session shown hcall hshown
    have carry : (∃ p ∈ h, ShowsOwn env p index session.request shown) →
        ∃ p ∈ h ++ [(s, a)], ShowsOwn env p index session.request shown :=
      fun ⟨p, hp, hown⟩ => ⟨p, List.mem_append_left _ hp, hown⟩
    cases call_case hnext hcall with
    | kept hold => exact carry (hearlier index session shown hold hshown)
    | joined => cases hshown
    | @turned old moved effect hold hactor hcommit hturn hstate =>
        rw [hturn.same.2] at carry ⊢
        cases hturn with
        | error => cases hshown
        | move hmove =>
            cases hmove with
            | start hroute hrequest hstart =>
                cases (ControlPlane.startCreate_shows hstart).1.symm.trans
                  (ControlPlane.shown_of_delivered (ControlPlane.delivered_of_transitioned hshown))
            | inner hmove =>
                rcases hmove.responds hshown with hmine |
                  ⟨writes, before, state, approved, now, hpc, hwrite, rfl⟩
                · exact carry (hearlier index old shown hold hmine)
                · obtain ⟨earlier, -, hread⟩ :=
                    (run_shown run).ready index old writes shown hold hpc
                  obtain ⟨event, args, hown⟩ :=
                    @own_event _ _ _ run _ old _ _ hold hpc _ _ _ _ hwrite _ hread
                  have hcommit' := hcommit
                  cases commitOf_commits hcommit' with
                  | @request other choice =>
                      cases hactor
                      exact ⟨(s, .call index choice), by simp, choice, writes, event, args, rfl,
                        hcommit, hown⟩

end

/-! ## The answers of the reading requests -/

namespace Reads

section

variable {env : Env} {s s' t : System} {a : Action} {h : History System Action}

/-- What a step does: one of the system below, or a reading request arrives, reads or fails. -/
inductive Step (env : Env) (s s' : System) : Action → Prop
  | system {action} (hnext : DurableRuntime.next env s.toState action = some s'.toState)
      (hreads : s'.reads = s.reads) : Step env s s' (.system action)
  | joined {principal request} (hsystem : s'.toState = s.toState)
      (hreads : s'.reads = s.reads ++ [⟨principal, request, .route⟩]) :
      Step env s s' (.request principal request)
  | turned {a index session pc} (hread : s.reads[index]? = some session)
      (ha : a = .read index ∨ a = .readError index)
      (hmove : step s.toShared session = some pc ∨ pc = .done (.error 500 "database error"))
      (hstate : s' = s.move index session pc) : Step env s s' a

theorem next_step (hnext : next env s a = some s') : Step env s s' a := by
  cases a with
  | system action =>
      simp only [next] at hnext
      split at hnext
      · cases hnext
      · rename_i state hstate
        cases hnext
        exact .system hstate rfl
  | request principal request =>
      cases hnext
      exact .joined rfl rfl
  | read index =>
      simp only [next] at hnext
      split at hnext
      · cases hnext
      · rename_i session hread
        split at hnext
        · cases hnext
        · rename_i pc hmove
          cases hnext
          exact .turned hread (.inl rfl) (.inl hmove) rfl
  | readError index =>
      simp only [next] at hnext
      split at hnext
      · cases hnext
      · rename_i session hread
        split at hnext <;> cases hnext
        exact .turned hread (.inr rfl) (.inr rfl) rfl

theorem run_system (run : Run env h s) : DurableRuntime.Run env (steps h) s.toState := by
  induction run with
  | start hs => exact .start hs.system
  | @step h s a s' _ hnext ih =>
      rw [steps, List.filterMap_append]
      rw [← steps]
      cases next_step hnext with
      | system hbelow => exact ih.step hbelow
      | joined hsystem =>
          rw [hsystem]
          simpa using ih
      | turned hread ha hmove hstate =>
          subst hstate
          rcases ha with rfl | rfl
          all_goals simpa [System.move] using ih

theorem extends_next (hnext : next env s a = some s') : s.db.Extends s'.db := by
  cases next_step hnext with
  | system hbelow => exact next_extends hbelow
  | joined hsystem => exact hsystem ▸ .refl _
  | turned hread ha hmove hstate => exact hstate ▸ .refl _

inductive ReadCase (env : Env) (s : System) (index : Nat) : Session → Prop
  | kept {session} (hread : s.reads[index]? = some session) : ReadCase env s index session
  | joined {session} (hpc : session.pc = .route) : ReadCase env s index session
  | turned {session pc} (hread : s.reads[index]? = some session)
      (hmove : step s.toShared session = some pc) : ReadCase env s index { session with pc }
  | failed {session status message} (hpc : session.pc = .done (.error status message)) :
      ReadCase env s index session

theorem read_case (hnext : next env s a = some s') {index : Nat} {session : Session}
    (hread : s'.reads[index]? = some session) : ReadCase env s index session := by
  cases next_step hnext with
  | system _ hreads => exact .kept (hreads ▸ hread)
  | joined _ hreads =>
      rw [hreads] at hread
      rcases getElem?_snoc_some hread with ⟨-, rfl⟩ | hold
      · exact .joined rfl
      · exact .kept hold
  | turned hold ha hmove hstate =>
      subst hstate
      rcases getElem?_set_some hread with ⟨rfl, rfl⟩ | ⟨-, hkept⟩
      · rcases hmove with hmove | rfl
        · exact .turned hold hmove
        · exact .failed rfl
      · exact .kept hkept

/-- What a request shows or is about to show is a committed run of its tenant. -/
structure Seen (s : System) : Prop where
  selected : ∀ (index : Nat) (session : Session) row, s.reads[index]? = some session →
    session.pc = .selectEvents row → row.tenantId = session.principal.tenantId ∧
      ∃ row', s.db.run? row.id = some row' ∧ row.SameRequest row'
  answered : ∀ (index : Nat) (session : Session) run, s.reads[index]? = some session →
    session.pc = .done (.run run) → run.tenantId = session.principal.tenantId ∧
      Recorded s.db session.principal.tenantId run

theorem selects_of_step {session : Session} {pc : Pc}
    (hmove : step s.toShared session = some pc) {row : RunRow} (hpc : pc = .selectEvents row) :
    ∃ runId, ControlPlane.runOfTenant? s.toShared session.principal.tenantId runId = some row := by
  subst hpc
  simp only [step] at hmove
  split at hmove
  · unfold start at hmove
    repeat' split at hmove
    all_goals cases hmove
  · rename_i runId hselect
    split at hmove <;> cases hmove
    exact ⟨runId, by assumption⟩
  all_goals cases hmove

theorem answers_of_step {session : Session} {pc : Pc}
    (hmove : step s.toShared session = some pc) {run : ControlPlane.StoredRun}
    (hpc : pc = .done (.run run)) : ∃ row, session.pc = .selectEvents row ∧
      run = ControlPlane.readRunInTransaction s.db.events session.principal.tenantId row := by
  subst hpc
  simp only [step] at hmove
  split at hmove
  · unfold start at hmove
    repeat' split at hmove
    all_goals cases hmove
  · split at hmove <;> cases hmove
  · rename_i row hselected
    cases hmove
    exact ⟨row, hselected, rfl⟩
  all_goals cases hmove

theorem Seen.next (seen : Seen s) (hnext : next env s a = some s') : Seen s' := by
  have hextends := extends_next hnext
  constructor
  · intro index session row hread hpc
    have carry : (∃ row', s.db.run? row.id = some row' ∧ row.SameRequest row') →
        ∃ row', s'.db.run? row.id = some row' ∧ row.SameRequest row' := by
      rintro ⟨row', hrow, hsame⟩
      obtain ⟨later, hlater, hlater'⟩ := hextends.runs _ _ hrow
      exact ⟨later, hlater, hsame.trans hlater'⟩
    cases read_case hnext hread with
    | kept hold =>
        obtain ⟨htenant, hrow⟩ := seen.selected index _ row hold hpc
        exact ⟨htenant, carry hrow⟩
    | joined hroute =>
        rw [hroute] at hpc
        cases hpc
    | turned hold hmove =>
        obtain ⟨runId, hfound⟩ := selects_of_step hmove hpc
        obtain ⟨hrow, htenant, hid⟩ := ControlPlane.runOfTenant?_run? hfound
        exact ⟨htenant, carry ⟨row, hid ▸ hrow, .refl row⟩⟩
    | failed herror =>
        rw [herror] at hpc
        cases hpc
  · intro index session run hread hpc
    cases read_case hnext hread with
    | kept hold =>
        obtain ⟨htenant, recorded⟩ := seen.answered index _ run hold hpc
        exact ⟨htenant, recorded.extends hextends⟩
    | joined hroute =>
        rw [hroute] at hpc
        cases hpc
    | turned hold hmove =>
        obtain ⟨row, hrow, rfl⟩ := answers_of_step hmove hpc
        obtain ⟨htenant, row', hfound, hsame⟩ := seen.selected index _ row hold hrow
        exact ⟨htenant, (recorded_read hfound hsame).extends hextends⟩
    | failed herror =>
        rw [herror] at hpc
        cases hpc

theorem run_seen (run : Run env h s) : Seen s := by
  refine run.always ?_ ?_
  · intro s hs
    exact ⟨by simp [hs.reads], by simp [hs.reads]⟩
  · intro h s a s' _ seen hnext
    exact seen.next hnext

/-! ## Asking again -/

/-- Since the base, the client has been shown nothing older than the base. -/
def Fresh (base : Db) (s : System) : Client → Prop
  | .call index => ∀ (session : ControlPlane.Session) run, s.calls[index]? = some session →
      session.pc.shown? = some run →
        (base.timeline session.principal.tenantId run.id).Sublist run.events
  | .read index => ∀ (session : Session) run, s.reads[index]? = some session →
      session.pc = .done (.run run) →
        (base.timeline session.principal.tenantId run.id).Sublist run.events

theorem Fresh.of_unstarted {client : Client} (h : s.Unstarted client) : Fresh s.db s client := by
  cases client with
  | call index =>
      intro session run hcall hshown
      rw [h session hcall] at hshown
      cases hshown
  | read index =>
      intro session run hread hpc
      rw [h session hread] at hpc
      cases hpc

theorem Fresh.next {base : Db} (hbase : base.Extends s.db) {client : Client}
    (fresh : Fresh base s client) (hnext : next env s a = some s') : Fresh base s' client := by
  cases client with
  | call index =>
      intro session run hcall hshown
      cases next_step hnext with
      | joined hsystem => exact fresh session run (hsystem ▸ hcall) hshown
      | turned hread ha hmove hstate =>
          subst hstate
          exact fresh session run hcall hshown
      | system hbelow =>
          cases call_case hbelow hcall with
          | kept hold => exact fresh _ run hold hshown
          | joined => cases hshown
          | @turned session moved effect hold hactor hcommit hturn hstate =>
              cases hturn with
              | error => cases hshown
              | move hmove =>
                  cases hmove with
                  | start hroute hrequest hstart =>
                      cases (ControlPlane.startCreate_shows hstart).1.symm.trans hshown
                  | inner hmove =>
                      rcases hmove.reads hshown with hmine | ⟨events, row, hevents, rfl⟩
                      · exact fresh session run hold hmine
                      · exact eventsOf_sublist (hbase.events.trans hevents).sublist _ _
  | read index =>
      intro session run hread hpc
      cases read_case hnext hread with
      | kept hold => exact fresh _ run hold hpc
      | joined hroute =>
          rw [hroute] at hpc
          cases hpc
      | @turned session pc hold hmove =>
          obtain ⟨row, -, rfl⟩ := answers_of_step hmove hpc
          exact timeline_extends hbase _ _
      | failed herror =>
          rw [herror] at hpc
          cases hpc

theorem fresh_since {k : History System Action} (rest : Exec (fun u => u = s) (next env) k t)
    {client : Client} (hclient : s.Unstarted client) :
    s.db.Extends t.db ∧ Fresh s.db t client := by
  refine rest.always (P := fun u => s.db.Extends u.db ∧ Fresh s.db u client) ?_ ?_
  · rintro u rfl
    exact ⟨.refl _, .of_unstarted hclient⟩
  · rintro k u a u' - ⟨hbase, fresh⟩ hnext
    exact ⟨hbase.trans (extends_next hnext), fresh.next hbase hnext⟩

theorem answer_cases {client : Client} {tenantId : Uuid} {run : ControlPlane.StoredRun}
    (hanswer : s.answer? client = some (tenantId, run)) :
    (∃ (index : Nat) (session : ControlPlane.Session), client = .call index ∧
        s.calls[index]? = some session ∧ session.pc.delivered? = some run ∧
          session.principal.tenantId = tenantId) ∨
      ∃ (index : Nat) (session : Session), client = .read index ∧
        s.reads[index]? = some session ∧ session.pc = .done (.run run) ∧
          session.principal.tenantId = tenantId := by
  cases client with
  | call index =>
      simp only [System.answer?] at hanswer
      split at hanswer
      · rename_i hcall
        cases hanswer
        exact .inl ⟨index, _, rfl, hcall, rfl, rfl⟩
      · rename_i hcall
        cases hanswer
        exact .inl ⟨index, _, rfl, hcall, rfl, rfl⟩
      · cases hanswer
  | read index =>
      simp only [System.answer?] at hanswer
      split at hanswer
      · rename_i hread
        cases hanswer
        exact .inr ⟨index, _, rfl, hread, rfl, rfl⟩
      · cases hanswer

theorem recorded_answer (run : Run env h s) {client : Client} {tenantId : Uuid}
    {shown : ControlPlane.StoredRun} (hanswer : s.answer? client = some (tenantId, shown)) :
    shown.tenantId = tenantId ∧ Recorded s.db tenantId shown := by
  have run' := run_system run
  rcases answer_cases hanswer with ⟨index, session, rfl, hcall, hdelivered, rfl⟩ |
    ⟨index, session, rfl, hread, hpc, rfl⟩
  · have htenant := (run_tenanted run').shown index session shown hcall
      (ControlPlane.shown_of_delivered hdelivered)
    exact ⟨htenant.tenant, (run_shown run').delivered index session shown hcall hdelivered⟩
  · exact (run_seen run).answered index session shown hread hpc

theorem fresh_answer {base : Db} {client : Client} (fresh : Fresh base s client) {tenantId : Uuid}
    {shown : ControlPlane.StoredRun} (hanswer : s.answer? client = some (tenantId, shown)) :
    (base.timeline tenantId shown.id).Sublist shown.events := by
  rcases answer_cases hanswer with ⟨index, session, rfl, hcall, hdelivered, rfl⟩ |
    ⟨index, session, rfl, hread, hpc, rfl⟩
  · exact fresh session shown hcall (ControlPlane.shown_of_delivered hdelivered)
  · exact fresh session shown hread hpc

/--
Whatever commits between the two reads of an answer: all answers show committed
runs of the client's own tenant, a client that asks after an answer is shown the
same request with every event of that answer in the same order, and an approval
or cancellation is answered with the event that it has committed itself.
-/
theorem readsConsistent (run : Run env h s) {k : History System Action}
    (rest : Exec (fun u => u = s) (next env) k t) : Consistent env s t (h ++ k) := by
  have run' := run.append rest
  constructor
  · intro client tenantId shown hanswer
    exact recorded_answer run' hanswer
  · intro first second tenantId shown other shown' hfirst hunstarted hsecond hid
    obtain ⟨htenant, recorded⟩ := recorded_answer run hfirst
    obtain ⟨htenant', recorded'⟩ := recorded_answer run' hsecond
    obtain ⟨hextends, fresh⟩ := fresh_since rest hunstarted
    obtain ⟨row, hrow, hrequest⟩ := (recorded.extends hextends).row
    obtain ⟨row', hrow', hrequest'⟩ := recorded'.row
    rw [hid, hrow, Option.some.injEq] at hrow'
    subst hrow'
    have hsame : shown'.request = shown.request := hrequest'.trans hrequest.symm
    have htenants : other = tenantId := by
      rw [← htenant, ← htenant']
      exact congrArg (fun request => request.2.1) hsame
    subst htenants
    have hlater := fresh_answer fresh hsecond
    rw [hid] at hlater
    exact ⟨hsame, recorded.events.trans hlater⟩
  · intro index session shown hcall hpc
    exact run_showsOwn (run_system run') index session shown hcall (by rw [hpc]; rfl)

end

/-- The run is created and published. -/
def created : List Action :=
  (Scenario.createActions [Scenario.dataRead] ++ .call 0 0 :: Scenario.publishActions 0).map
    .system

/-- A worker claims the run between the two reads of a request. -/
def readAround : List Action :=
  [.request Scenario.owner (.readRun Scenario.runId.text), .read 0, .read 0] ++
    (Scenario.claimActions 0 0 ++ Scenario.workerActions 0 1).map .system ++ [.read 0]

def shows (s : System) (client : Client) (events : Nat) : Bool :=
  (s.answer? client).any fun answer => answer.2.events.length = events

theorem readAround_consistent : ∃ h s k t, Run Scenario.env h s ∧
    Exec (fun u => u = s) (next Scenario.env) k t ∧ shows s (.call 0) 1 = true ∧
      shows t (.read 0) 3 = true ∧ s.Unstarted (.read 0) ∧
        Consistent Scenario.env s t (h ++ k) := by
  have hstart : Initial { Scenario.start 5 with reads := [] } := ⟨Scenario.initial 5, rfl⟩
  obtain ⟨h, s, run, htest⟩ := @exec_of_replay _ _ Initial (next Scenario.env) _ hstart created
    (fun _ s => shows s (.call 0) 1 && s.reads.isEmpty &&
      (replay (next Scenario.env) s readAround).any fun p => shows p.2 (.read 0) 3)
    (by decide +kernel)
  simp only [Bool.and_eq_true, List.isEmpty_iff] at htest
  obtain ⟨⟨hfirst, hreads⟩, hlater⟩ := htest
  obtain ⟨k, t, rest, hsecond⟩ := @exec_of_replay _ _ (fun u => u = s) (next Scenario.env) s rfl
    readAround (fun _ t => shows t (.read 0) 3) hlater
  refine ⟨h, s, k, t, run, rest, hfirst, hsecond, ?_, readsConsistent run rest⟩
  simp [System.Unstarted, hreads]

end Reads

end DurableRuntime
