import DurableRuntime.EventLog

/-!
# Control-plane accounting

A creation, an approve or a cancel commits all of its records with its update of
the run or none of them.  So the records of a run can be counted against each
other, and a request that ends in an error has changed nothing, unless the error
is that the reply to its commit got lost: then it has changed everything.
-/

namespace DurableRuntime

open DurableRuntime.Foundation

/-! ## The records of a run -/

def eventCount (db : Db) (runId : Uuid) (eventType : EventType) : Nat :=
  db.events.countP fun row => row.runId = runId && row.eventType = eventType

def auditCount (db : Db) (runId : Uuid) (action : String) : Nat :=
  db.audits.countP fun row => row.resourceId = runId && row.action = action

def outboxCount (db : Db) (runId : Uuid) : Nat :=
  (db.outbox.map OutboxRow.runId).count runId

/-- The only step of the request that has committed anything. -/
structure OnlyCommit (env : Env) (h : History State Action) (index : Nat) (s : State)
    (a : Action) : Prop where
  actor : actor a = some (.call index)
  only : ∃ h₁ h₂, h = h₁ ++ (s, a) :: h₂ ∧ ∀ p ∈ h₁ ++ h₂,
    DurableRuntime.actor p.2 = some (.call index) → commitOf env p.1 p.2 = none

/-- The request has committed, and its connection broke before the reply to the commit came. -/
def ReplyLost (h : History State Action) (index : Nat) : Prop :=
  ∃ s session response, (s, .callError index) ∈ h ∧ s.calls[index]? = some session ∧
    session.pc = .committed response

section

variable {env : Env} {s s' : State} {a : Action} {h : History State Action}

/-- A worker logs only the states it has written. -/
def OwesWritten (s : State) : Prop :=
  ∀ index runId eventType, Owed s index runId eventType → eventType.state ∈ workerStates

theorem run_owesWritten (run : Run env h s) : OwesWritten s := by
  refine run.always ?_ ?_
  · rintro s hs index runId eventType ⟨session, leased, hworker, -⟩
    simp [hs.workers] at hworker
  · intro h s a s' run ih hnext index runId eventType howed
    rcases owed_next hnext howed with ⟨hold, -⟩ | ⟨-, change, hcommit, hstate⟩
    · exact ih index runId eventType hold
    · exact workerState_mem hcommit hstate

theorem queues_of_written {eventType : EventType} (h : eventType.state ∈ workerStates) :
    ControlPlane.queues eventType = false := by
  cases eventType <;> first | rfl | exact absurd h (by decide)

theorem eventText_inj {t u : EventType} : t.text = u.text ↔ t = u := by
  constructor
  · cases t <;> cases u <;> decide
  · rintro rfl
    rfl

theorem workflowAction_ne (eventType : EventType) :
    "workflow.created" ≠ "run." ++ eventType.text := by
  cases eventType <;> decide

/-- The three books: each queueing event has its outbox row and its audit record. -/
structure Books (db : Db) : Prop where
  outbox : ∀ id, outboxCount db id = eventCount db id .created + eventCount db id .approved
  created : ∀ id, eventCount db id .created = if (db.run? id).isSome then 1 else 0
  audits : ∀ id eventType, ControlPlane.queues eventType = true →
    auditCount db id ("run." ++ eventType.text) = eventCount db id eventType

/-- What a commit adds to the books: nothing, or the records of one control-plane event. -/
inductive Booked (env : Env) (s : State) (a : Action) : Prop
  | quiet
      (hevents : ∀ change, commitOf env s a = some change → ∀ event ∈ change.newEvents,
        ControlPlane.queues event.eventType = false)
      (haudits : ∀ change, commitOf env s a = some change → ∀ audit ∈ change.newAudits,
        ∀ eventType : EventType, audit.action ≠ "run." ++ eventType.text)
      (houtbox : ∀ change, commitOf env s a = some change → change.queued? = none)
      (hruns : ∀ change, commitOf env s a = some change → change.inserted? = none)
  | request {index : Nat} {choice : Uuid} {session writes stored eventType}
      (haction : a = .call index choice) (hcommit : commitOf env s a = some (.request writes))
      (hcall : s.calls[index]? = some session) (hpc : session.pc = .commit writes stored)
      (hcomplete : ControlPlane.Complete session eventType writes)

theorem booked (run : Run env h s) (a : Action) : Booked env s a := by
  have sound := run_sound run
  cases hcommit : commitOf env s a with
  | none =>
      exact .quiet (by simp [hcommit]) (by simp [hcommit]) (by simp [hcommit]) (by simp [hcommit])
  | some change =>
      have quiet : (∀ event ∈ change.newEvents, ControlPlane.queues event.eventType = false) →
          (∀ audit ∈ change.newAudits, ∀ eventType : EventType,
            audit.action ≠ "run." ++ eventType.text) →
          change.queued? = none → change.inserted? = none → Booked env s a := by
        intro hevents haudits houtbox hruns
        refine .quiet ?_ ?_ ?_ ?_ <;> intro change' hcommit' <;>
          rw [hcommit, Option.some.injEq] at hcommit' <;> subst hcommit' <;> assumption
      cases commitOf_commits hcommit with
      | @request index choice session writes stored hcall hpc =>
          obtain ⟨eventType, hcomplete⟩ := sound.complete hcall hpc
          exact .request rfl hcommit hcall hpc hcomplete
      | createWorkflow hschema hinsertable =>
          refine quiet nofun ?_ rfl rfl
          intro audit haudit eventType
          rw [List.mem_singleton.mp haudit]
          exact workflowAction_ne eventType
      | @claim index reply session now row events leased hworker hpc =>
          obtain ⟨first, second, rfl, hleased, hstarted, -⟩ :=
            ((run_numbered run).claims index session now row events leased hworker hpc).pair
          refine quiet ?_ nofun rfl rfl
          intro event hevent
          rcases List.mem_pair.mp hevent with rfl | rfl
          · rw [hleased]
            rfl
          · rw [hstarted]
            rfl
      | @event index reply session leased row after hworker hpc hfree =>
          refine quiet ?_ nofun rfl rfl
          intro event hevent
          rw [List.mem_singleton.mp hevent]
          exact queues_of_written (run_owesWritten run index leased.ref.id row.eventType
            ⟨session, leased, hworker, by rw [hpc]; rfl, rfl⟩)
      | _ => exact quiet nofun nofun rfl rfl

theorem eventCount_next (hnext : next env s a = some s') (id : Uuid) (eventType : EventType) :
    eventCount s'.db id eventType = eventCount s.db id eventType +
      (((commitOf env s a).map Commit.newEvents).getD []).countP fun row =>
        row.runId = id && row.eventType = eventType := by
  unfold eventCount
  rw [events_next hnext, List.countP_append]

theorem auditCount_next (hnext : next env s a = some s') (id : Uuid) (action : String) :
    auditCount s'.db id action = auditCount s.db id action +
      (((commitOf env s a).map Commit.newAudits).getD []).countP fun row =>
        row.resourceId = id && row.action = action := by
  obtain ⟨events, outbox, audits, hdb⟩ := next_db hnext
  unfold auditCount
  rw [hdb]
  cases hcommit : commitOf env s a with
  | none => rfl
  | some change => exact (congrArg _ (audits_commit _ change)).trans List.countP_append

theorem outboxCount_next (hnext : next env s a = some s') (id : Uuid) :
    outboxCount s'.db id = outboxCount s.db id +
      (((commitOf env s a).bind Commit.queued?).map OutboxRow.runId).toList.count id := by
  obtain ⟨events, outbox, audits, hdb⟩ := next_db hnext
  unfold outboxCount
  rw [hdb]
  cases hcommit : commitOf env s a with
  | none => rfl
  | some change =>
      exact (congrArg _ (outbox_commit_map OutboxRow.runId (fun h => h.runId) _ change)).trans
        List.count_append

/-- The entries of one control-plane event. -/
theorem Books.request_next {index : Nat} {choice : Uuid} {session : ControlPlane.Session}
    {writes : Writes} {eventType : EventType} (hnext : next env s (.call index choice) = some s')
    (hcommit : commitOf env s (.call index choice) = some (.request writes))
    (hcomplete : ControlPlane.Complete session eventType writes) (id : Uuid) :
    (∀ other, eventCount s'.db id other = eventCount s.db id other +
        if writes.run.row.id = id ∧ eventType = other then 1 else 0) ∧
      (∀ other : EventType, auditCount s'.db id ("run." ++ other.text) =
        auditCount s.db id ("run." ++ other.text) +
          if writes.run.row.id = id ∧ eventType = other then 1 else 0) ∧
      outboxCount s'.db id = outboxCount s.db id +
        if writes.run.row.id = id ∧ ControlPlane.queues eventType = true then 1 else 0 := by
  obtain ⟨event, hevent, rfl, hevent'⟩ := hcomplete.event
  obtain ⟨audit, haudit, haction, haudit'⟩ := hcomplete.audit
  have houtbox := hcomplete.outbox
  refine ⟨?_, ?_, ?_⟩
  · intro other
    rw [eventCount_next hnext, hcommit]
    simp [Commit.newEvents, hevent, hevent', List.countP_cons]
  · intro other
    rw [auditCount_next hnext, hcommit]
    simp [Commit.newAudits, haudit, haction, haudit', List.countP_cons, eventText_inj]
  · rw [outboxCount_next hnext, hcommit]
    unfold ControlPlane.OutboxWritten at houtbox
    split at houtbox
    · rename_i hqueues
      obtain ⟨row, hrow, hrun, -⟩ := houtbox
      simp [Commit.queued?, hrow, hrun, hqueues, List.count_cons]
    · rename_i hqueues
      simp [Commit.queued?, houtbox, hqueues]

theorem Books.next (run : Run env h s) (hnext : DurableRuntime.next env s a = some s')
    (books : Books s.db) : Books s'.db := by
  cases booked run a with
  | quiet hevents haudits houtbox hruns =>
      have events : ∀ id eventType, ControlPlane.queues eventType = true →
          eventCount s'.db id eventType = eventCount s.db id eventType := by
        intro id eventType hqueues
        rw [eventCount_next hnext]
        refine Nat.add_eq_left.mpr (List.countP_eq_zero.mpr ?_)
        intro event hevent
        cases hcommit : commitOf env s a with
        | none => simp [hcommit] at hevent
        | some change =>
            rw [hcommit] at hevent
            have hquiet := hevents change hcommit event hevent
            simp only [Bool.and_eq_true, decide_eq_true_eq]
            rintro ⟨-, rfl⟩
            rw [hqueues] at hquiet
            cases hquiet
      have outbox : ∀ id, outboxCount s'.db id = outboxCount s.db id := by
        intro id
        rw [outboxCount_next hnext]
        cases hcommit : commitOf env s a with
        | none => rfl
        | some change => simp [houtbox change hcommit]
      refine ⟨?_, ?_, ?_⟩
      · intro id
        rw [outbox, events id .created rfl, events id .approved rfl]
        exact books.outbox id
      · intro id
        have hsame : (s'.db.run? id).isSome = (s.db.run? id).isSome := by
          rw [Bool.eq_iff_iff, run?_isSome, run?_isSome, runIds_next hnext]
          cases hcommit : commitOf env s a with
          | none => simp
          | some change => simp [hruns change hcommit]
        rw [events id .created rfl, hsame]
        exact books.created id
      · intro id eventType hqueues
        rw [events id eventType hqueues, ← books.audits id eventType hqueues,
          auditCount_next hnext]
        refine Nat.add_eq_left.mpr (List.countP_eq_zero.mpr ?_)
        intro audit haudit
        cases hcommit : commitOf env s a with
        | none => simp [hcommit] at haudit
        | some change =>
            rw [hcommit] at haudit
            simp [haudits change hcommit audit haudit eventType]
  | @request index choice session writes stored eventType haction hcommit hcall hpc hcomplete =>
      subst haction
      have hrecords := fun id => Books.request_next hnext hcommit hcomplete id
      have hopened := hcomplete.opened
      refine ⟨?_, ?_, ?_⟩
      · intro id
        obtain ⟨hevents, -, houtbox⟩ := hrecords id
        rw [houtbox, hevents, hevents, books.outbox id]
        by_cases hid : writes.run.row.id = id
        · cases eventType <;> simp [hid, ControlPlane.queues] <;> omega
        · simp [hid]
      · intro id
        obtain ⟨hevents, -, -⟩ := hrecords id
        rw [hevents, books.created id]
        have hsome : (s'.db.run? id).isSome = true ↔
            (s.db.run? id).isSome = true ∨ writes.run.inserted?.map RunRow.id = some id := by
          rw [run?_isSome, run?_isSome, runIds_next hnext, hcommit, List.mem_append]
          simp [Commit.inserted?]
        cases hwrite : writes.run with
        | insert row =>
            have habsent := ((run_sound run).snapshots.inserts index session writes row hcall
              (by rw [hpc]; rfl) hwrite).1
            rw [hwrite] at hopened hsome
            rw [hopened.1]
            simp only [RunWrite.inserted?, Option.map_some, Option.some.injEq] at hsome
            by_cases hid : row.id = id
            · rw [hid] at habsent
              simp [RunWrite.row, hid, habsent, hsome.mpr (.inr hid)]
            · simp only [RunWrite.row, hid, false_and, if_false, Nat.add_zero]
              refine if_congr ?_ rfl rfl
              rw [hsome]
              simp [hid]
        | update before state approved now =>
            rw [hwrite] at hopened hsome
            obtain ⟨args, hargs, htype, -⟩ := hopened
            have hother : eventType ≠ .created := by
              rcases hargs with rfl | rfl <;> rw [htype] <;> decide
            simp only [RunWrite.inserted?, Option.map_none, reduceCtorEq, or_false] at hsome
            simp [hother, if_congr hsome rfl rfl]
      · intro id other hqueues
        obtain ⟨hevents, haudits, -⟩ := hrecords id
        rw [haudits, hevents, books.audits id other hqueues]

theorem run_books (run : Run env h s) : Books s.db := by
  refine @Exec.always _ _ _ _ (fun s => Books s.db) ?_ ?_ _ _ run
  · intro s hs
    constructor
    · simp [outboxCount, eventCount, hs.outbox, hs.events]
    · simp [eventCount, Db.run?, Table.lookup, hs.events, hs.runs]
    · simp [auditCount, eventCount, hs.audits, hs.events]
  · intro h s a s' run books hnext
    exact books.next run hnext

/-! ## A pause is approved once -/

theorem approved_request {id : Uuid} (happroved : approvedRun? env s a = some id) :
    ∃ index choice session writes stored before state now, a = .call index choice ∧
      commitOf env s a = some (.request writes) ∧ s.calls[index]? = some session ∧
        session.pc = .commit writes stored ∧ writes.run = .update before state true now ∧
          before.id = id := by
  unfold approvedRun? at happroved
  split at happroved
  · rename_i writes hcommit
    split at happroved
    · rename_i before state now hwrite
      cases happroved
      cases commitOf_commits hcommit with
      | request hcall hpc => exact ⟨_, _, _, _, _, _, _, _, rfl, hcommit, hcall, hpc, hwrite, rfl⟩
    · cases happroved
  · cases happroved

end

/-! ## What a request asks for, and what it has committed -/

namespace ControlPlane

/-- The request names the run and wants the transition. -/
inductive Asks : Request → TransitionArgs → Uuid → Prop
  | approve {text id} (hid : Uuid.ofText? text = some id) : Asks (.approve text) approveArgs id
  | cancel {text id} (hid : Uuid.ofText? text = some id) : Asks (.cancel text) cancelArgs id

/-- The transition of an open transaction is the one that its request asks for. -/
def AskedWrite (request : Request) : RunWrite → Prop
  | .insert _ => True
  | .update before state approved _ =>
      ∃ args, Asks request args before.id ∧ state = args.state ∧ approved = args.approves

def Asked (session : Session) : Prop :=
  match session.pc with
  | .readRun args runId | .transitionBegin args runId | .transitionLock args runId _ =>
      Asks session.request args runId
  | .transitionUpdate args _ row => Asks session.request args row.id
  | .insertEvent _ _ _ writes | .queueOutbox _ _ writes | .audit _ _ writes
  | .readEvents writes | .commit writes _ => AskedWrite session.request writes.run
  | _ => True

def Response.isCommitted : Response → Bool
  | .created _ false | .run _ => true
  | _ => false

/-- The transaction has committed, and nothing has gone wrong since. -/
def Pc.isCommitted : Pc → Bool
  | .committed _ => true
  | .done response => response.isCommitted
  | _ => false

variable {env : Env} {s : Shared} {choice : Uuid} {session moved : Session} {pc pc' : Pc}
  {effect : Effect}

theorem response_isCommitted (writes : Writes) (run : StoredRun) :
    (response writes run).isCommitted = true := by
  unfold response
  split <;> rfl

/-- How a turn of a request bears on its commit and the reply to it. -/
inductive Answers (session moved : Session) (effect : Effect) : Prop
  | before (hquiet : effect.commit? = none) (hopen : session.pc.isCommitted = false)
      (hopen' : moved.pc.isCommitted = false)
  | commits {writes run} (hpc : session.pc = .commit writes run)
      (hmoved : moved = { session with pc := .committed (response writes run) })
      (hcommit : effect.commit? = some (.request writes))
  | replies {response} (hpc : session.pc = .committed response)
      (hmoved : moved = { session with pc := .done response }) (hquiet : effect.commit? = none)
  | lost {response} (hpc : session.pc = .committed response)
      (hmoved : moved = { session with pc := .done databaseError })
      (hquiet : effect.commit? = none)

theorem Turn.answers (hturn : Turn env s session moved effect) :
    Answers session moved effect := by
  cases hturn with
  | error hstatement =>
      cases hpc : session.pc with
      | committed response => exact .lost hpc rfl rfl
      | done response =>
          rw [hpc] at hstatement
          cases hstatement
      | _ => exact .before rfl (by rw [hpc]; rfl) rfl
  | move hmove =>
      cases hmove with
      | start hpc hrequest hstart =>
          refine .before (startCreate_commit hstart) (by rw [hpc]; rfl) ?_
          cases startCreate_start hstart with
          | _ => rfl
      | inner hmove =>
          generalize hpc : session.pc = old at hmove
          cases hmove with
          | commit writes run => exact .commits hpc rfl rfl
          | committed response => exact .replies hpc rfl rfl
          | approve =>
              refine .before rfl (by rw [hpc]; rfl) ?_
              unfold startTransition
              repeat' split
              all_goals rfl
          | cancel =>
              refine .before rfl (by rw [hpc]; rfl) ?_
              unfold startTransition
              repeat' split
              all_goals rfl
          | readRun =>
              refine .before rfl (by rw [hpc]; rfl) ?_
              unfold readRunCheck
              repeat' split
              all_goals rfl
          | _ => exact .before rfl (by rw [hpc]; rfl) rfl

theorem Turn.not_done (hturn : Turn env s session moved effect) (response : Response) :
    session.pc ≠ .done response := by
  intro hpc
  cases hturn with
  | error hstatement =>
      rw [hpc] at hstatement
      cases hstatement
  | move hmove =>
      cases hmove with
      | start hroute =>
          rw [hroute] at hpc
          cases hpc
      | inner hmove =>
          rw [hpc] at hmove
          cases hmove

theorem startTransition_asked {runId : String} {args : TransitionArgs}
    (hasks : ∀ id, Uuid.ofText? runId = some id → Asks session.request args id) (role : Role) :
    Asked { session with pc := startTransition role runId args } := by
  unfold startTransition
  split
  · split
    · rename_i id hid
      exact hasks id hid
    · trivial
  · trivial

theorem PcMove.asked (hmove : PcMove env s choice session session.pc pc effect)
    (h : Asked session) : Asked { session with pc } := by
  unfold Asked at h
  generalize session.pc = old at hmove h
  cases hmove with
  | approve hrequest =>
      refine startTransition_asked ?_ _
      rw [hrequest]
      exact fun id hid => .approve hid
  | cancel hrequest =>
      refine startTransition_asked ?_ _
      rw [hrequest]
      exact fun id hid => .cancel hid
  | readRun =>
      unfold readRunCheck
      repeat' split
      all_goals first | exact h | trivial
  | transitionBegin => exact h
  | transitionLocked hrow =>
      simp only [Asked]
      rw [(runOfTenant?_run? hrow).2.2]
      exact h
  | transitionUpdate args => exact ⟨args, h, rfl, rfl⟩
  | eventQueued => exact h
  | eventUnqueued => exact h
  | queueOutbox => exact h
  | audit => exact h
  | readEvents => exact h
  | _ => trivial

theorem Turn.asked (hturn : Turn env s session moved effect) (h : Asked session) :
    Asked moved := by
  cases hturn with
  | error => trivial
  | move hmove =>
      cases hmove with
      | inner hmove => exact hmove.asked h
      | start hpc hrequest hstart =>
          cases startCreate_start hstart with
          | _ => trivial

end ControlPlane

section

variable {env : Env} {s s' : State} {a : Action} {h : History State Action}

def AllAsked (s : State) : Prop :=
  ∀ (index : Nat) (session : ControlPlane.Session), s.calls[index]? = some session →
    ControlPlane.Asked session

theorem run_asked (run : Run env h s) : AllAsked s := by
  refine run.always ?_ ?_
  · intro s hs index session hcall
    simp [hs.calls] at hcall
  · intro h s a s' _ asked hnext index session hcall
    cases call_case hnext hcall with
    | kept hold hactor => exact asked index _ hold
    | joined => trivial
    | turned hold hactor hcommit hturn hstate => exact hturn.asked (asked index _ hold)

/-- No step of the request has committed. -/
def Quiet (env : Env) (h : History State Action) (index : Nat) : Prop :=
  ∀ p ∈ h, actor p.2 = some (.call index) → commitOf env p.1 p.2 = none

theorem Quiet.snoc {index : Nat} (hquiet : Quiet env h index)
    (hlast : actor a = some (.call index) → commitOf env s a = none) :
    Quiet env (h ++ [(s, a)]) index := by
  intro p hp hactor
  rcases List.mem_append.mp hp with hold | hnew
  · exact hquiet p hold hactor
  · rw [List.mem_singleton.mp hnew] at hactor ⊢
    exact hlast hactor

/-- Where a request that has committed stands: at its reply, or behind it. -/
inductive Replied (h : History State Action) (index : Nat) (response : ControlPlane.Response) :
    ControlPlane.Pc → Prop
  | awaited : Replied h index response (.committed response)
  | answered : Replied h index response (.done response)
  | lost (hlost : ReplyLost h index) : Replied h index response (.done databaseError)

/-- The past of a request: it has committed nothing yet, or just its writes. -/
inductive CallPast (env : Env) (h : History State Action) (index : Nat)
    (session : ControlPlane.Session) : Prop
  | quiet (hquiet : Quiet env h index) (hopen : session.pc.isCommitted = false)
  | committed {s a writes run} (honly : OnlyCommit env h index s a)
      (hcall : s.calls[index]? = some { session with pc := .commit writes run })
      (hcommit : commitOf env s a = some (.request writes))
      (hreplied : Replied h index (ControlPlane.response writes run) session.pc)

theorem ReplyLost.snoc {index : Nat} (hlost : ReplyLost h index) :
    ReplyLost (h ++ [(s, a)]) index := by
  obtain ⟨t, session, response, hp, hcall, hpc⟩ := hlost
  exact ⟨t, session, response, List.mem_append_left _ hp, hcall, hpc⟩

theorem Replied.snoc {index : Nat} {response : ControlPlane.Response} {pc : ControlPlane.Pc}
    (hreplied : Replied h index response pc) : Replied (h ++ [(s, a)]) index response pc := by
  cases hreplied with
  | awaited => exact .awaited
  | answered => exact .answered
  | lost hlost => exact .lost hlost.snoc

theorem Replied.response {index : Nat} {response answer : ControlPlane.Response}
    {pc : ControlPlane.Pc} (hreplied : Replied h index response pc) (hdone : pc = .done answer)
    (hanswer : answer ≠ databaseError) : answer = response := by
  cases hreplied with
  | awaited => cases hdone
  | answered => exact (ControlPlane.Pc.done.inj hdone).symm
  | lost => exact absurd (ControlPlane.Pc.done.inj hdone).symm hanswer

theorem OnlyCommit.snoc {index : Nat} {t : State} {b : Action}
    (honly : OnlyCommit env h index t b)
    (hlast : DurableRuntime.actor a = some (.call index) → commitOf env s a = none) :
    OnlyCommit env (h ++ [(s, a)]) index t b := by
  obtain ⟨hactor, h₁, h₂, rfl, hrest⟩ := honly
  refine ⟨hactor, h₁, h₂ ++ [(s, a)], by simp, ?_⟩
  rw [← List.append_assoc]
  exact @Quiet.snoc env _ _ _ _ hrest hlast

theorem CallPast.snoc {index : Nat} {session : ControlPlane.Session}
    (past : CallPast env h index session) (hother : actor a ≠ some (.call index)) :
    CallPast env (h ++ [(s, a)]) index session := by
  cases past with
  | quiet hquiet hopen => exact .quiet (hquiet.snoc fun hactor => absurd hactor hother) hopen
  | committed honly hcall hcommit hreplied =>
      exact .committed (honly.snoc fun hmine => absurd hmine hother) hcall hcommit hreplied.snoc

/-- An answer that is not the committed one is an error of the connection. -/
theorem call_failed (hnext : next env s a = some s') {index : Nat}
    {old session : ControlPlane.Session} {writes : Writes} {run : ControlPlane.StoredRun}
    (hactor : actor a = some (.call index)) (hold : s.calls[index]? = some old)
    (hpc : old.pc = .committed (ControlPlane.response writes run))
    (hcall : s'.calls[index]? = some session) (hfailed : session.pc = .done databaseError) :
    a = .callError index := by
  cases a with
  | callError other =>
      cases hactor
      rfl
  | call other choice =>
      cases hactor
      obtain ⟨moved, effect, hmove, hmoved⟩ := call_action hnext hold
      rw [hmoved, Option.some.injEq] at hcall
      subst hcall
      cases hmove with
      | start hroute => cases hpc.symm.trans hroute
      | inner hmove =>
          rw [hpc] at hmove
          cases hmove with
          | committed =>
              have hcommitted := ControlPlane.response_isCommitted writes run
              rw [ControlPlane.Pc.done.inj hfailed] at hcommitted
              cases hcommitted
  | _ => cases hactor

structure CallPasts (env : Env) (h : History State Action) (s : State) : Prop where
  known : ∀ p ∈ h, ∀ index, actor p.2 = some (.call index) → index < s.calls.length
  calls : ∀ (index : Nat) (session : ControlPlane.Session), s.calls[index]? = some session →
    CallPast env h index session

theorem calls_length_next (hnext : next env s a = some s') :
    s.calls.length ≤ s'.calls.length := by
  cases next_step hnext with
  | request => simp
  | call => simp [State.moveCall]
  | _ => exact Nat.le_refl _

theorem run_callPasts (run : Run env h s) : CallPasts env h s := by
  refine @Exec.invariant _ _ _ _ (CallPasts env) ?_ ?_ _ _ run
  · intro s hs
    exact ⟨by simp, by simp [hs.calls]⟩
  · intro h s a s' run pasts hnext
    constructor
    · intro p hp index hactor
      refine Nat.lt_of_lt_of_le ?_ (calls_length_next hnext)
      rcases List.mem_append.mp hp with hold | hnew
      · exact pasts.known p hold index hactor
      · rw [List.mem_singleton.mp hnew] at hactor
        cases next_step hnext with
        | call hactor' hcommit hcall =>
            rw [hactor'] at hactor
            cases hactor
            exact (List.getElem?_eq_some_iff.mp hcall).1
        | publisher hactor' =>
            rw [hactor'] at hactor
            cases hactor
        | worker hactor' =>
            rw [hactor'] at hactor
            cases hactor
        | _ => cases hactor
    · intro index session hcall
      cases call_case hnext hcall with
      | kept hold hactor => exact (pasts.calls index session hold).snoc hactor
      | joined haction hnew =>
          refine .quiet ?_ rfl
          refine Quiet.snoc ?_ (by simp [haction, actor])
          intro p hp hactor
          exact absurd (pasts.known p hp index hactor)
            (Nat.not_lt.mpr (List.getElem?_eq_none_iff.mp hnew))
      | @turned old moved effect hold hactor hcommit hturn hstate =>
          cases pasts.calls index old hold with
          | committed honly hcall' hcommit' hreplied =>
              generalize hpc : old.pc = pc at hreplied
              cases hreplied with
              | answered => exact absurd hpc (hturn.not_done _)
              | lost => exact absurd hpc (hturn.not_done _)
              | awaited =>
                  cases hturn.answers with
                  | before hnone hopen =>
                      rw [hpc] at hopen
                      cases hopen
                  | commits hpc' => cases hpc.symm.trans hpc'
                  | replies hpc' hmoved hnone =>
                      cases hpc.symm.trans hpc'
                      subst hmoved
                      exact .committed (honly.snoc fun _ => hcommit.trans hnone) hcall' hcommit'
                        .answered
                  | lost hpc' hmoved hnone =>
                      subst hmoved
                      refine .committed (honly.snoc fun _ => hcommit.trans hnone) hcall' hcommit'
                        (.lost ⟨s, old, _, ?_, hold, hpc'⟩)
                      rw [← call_failed hnext hactor hold hpc hcall rfl]
                      exact List.mem_append_right _ (List.mem_singleton_self _)
          | quiet hquiet hopen =>
              cases hturn.answers with
              | before hnone _ hopen' =>
                  exact .quiet (hquiet.snoc fun _ => hcommit.trans hnone) hopen'
              | commits hpc hmoved hwrites =>
                  subst hmoved
                  refine .committed ⟨hactor, h, [], rfl, ?_⟩ ?_ (hcommit.trans hwrites) .awaited
                  · rwa [List.append_nil]
                  · rw [← hpc]
                    exact hold
              | replies hpc =>
                  rw [hpc] at hopen
                  cases hopen
              | lost hpc =>
                  rw [hpc] at hopen
                  cases hopen

/-! ## The accounts of a run -/

end

/-! ## An approve and its late twin -/

end DurableRuntime
