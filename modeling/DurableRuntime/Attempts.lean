import DurableRuntime.Drafts
import DurableRuntime.Publication

/-!
# Attempts

`attempt_count` of a run and `attempts` of an outbox row count what has been
tried.  A delivery claims its run at most once, and a publisher publishes each
row of its batch at most once; so the counters stand between the deliveries and
the copies in the stream, however often something failed on the way.
-/

namespace DurableRuntime

open DurableRuntime.Foundation

def Commit.attempted : Commit → List Nat
  | .outboxAttempts ids => ids
  | _ => []

/-- The rows that an action claims for publication. -/
def attempted (env : Env) (s : State) (a : Action) : List Nat :=
  ((commitOf env s a).map Commit.attempted).getD []

/-- The claims of a run that a history has committed. -/
def claimCount (env : Env) (h : History State Action) (id : Uuid) : Nat :=
  h.countP fun p => claimed? env p.1 p.2 = some id

def batchCount (env : Env) (h : History State Action) (id : Nat) : Nat :=
  h.countP fun p => id ∈ attempted env p.1 p.2

/-- The message of a delivery names the run. -/
def State.delivers (s : State) (id : Uuid) (session : Worker.Session) : Bool :=
  (s.stream[session.message]?).any fun message =>
    Uuid.ofText? message.payload.runId = some id

/-- The deliveries of messages that name a run. -/
def deliveries (s : State) (id : Uuid) : Nat :=
  s.workers.countP (s.delivers id)

/-- The messages of the stream that were published from an outbox row. -/
def copies (s : State) (id : Nat) : Nat := (s.stream.map Message.row).count id

structure AttemptsAccounted (env : Env) (h : History State Action) (t : State) : Prop where
  runs : ∀ id row, t.db.run? id = some row → row.attemptCount = claimCount env h id ∧
    row.attemptCount = eventCount t.db id .leased ∧
      row.attemptCount = eventCount t.db id .started ∧ row.attemptCount ≤ deliveries t id
  outbox : ∀ row ∈ t.db.outbox, row.attempts = batchCount env h row.id ∧
    copies t row.id ≤ row.attempts ∧ (row.publishedAt.isSome = true → 1 ≤ copies t row.id)
  unpublished : ∀ p ∈ h, ∀ row ∈ p.1.db.outbox, row.id ∈ attempted env p.1 p.2 →
    row.publishedAt = none

/-! ## The counters -/

namespace Db

def attemptCount (db : Db) (id : Uuid) : Nat := ((db.run? id).map RunRow.attemptCount).getD 0

def attempts (db : Db) (id : Nat) : Nat :=
  ((Table.lookup OutboxRow.id id db.outbox).map OutboxRow.attempts).getD 0

end Db

section

variable {env : Env} {s s' : State} {a : Action} {h : History State Action}

theorem claimed_position {id : Uuid} (h : claimed? env s a = some id) :
    ∃ index reply session now row events run, a = .worker index reply ∧
      s.workers[index]? = some session ∧ session.pc = .claimCommit now row events run ∧
        row.id = id ∧ commitOf env s a = some (.claim id session.id now events) := by
  unfold claimed? at h
  split at h
  · rename_i runId owner now events hcommit
    cases h
    cases commitOf_commits hcommit with
    | claim hworker hpc => exact ⟨_, _, _, _, _, _, _, rfl, hworker, hpc, rfl, hcommit⟩
  · cases h

theorem attemptCount_next (run : Run env h s) (hnext : next env s a = some s') (id : Uuid) :
    s'.db.attemptCount id =
      s.db.attemptCount id + if claimed? env s a = some id then 1 else 0 := by
  have sound := run_sound run
  unfold Db.attemptCount
  by_cases hclaimed : claimed? env s a = some id
  · obtain ⟨index, reply, session, now, row, events, leased, rfl, hworker, hpc, rfl, hcommit⟩ :=
      claimed_position hclaimed
    have hrow := sound.snapshots.workers index session row hworker (by rw [hpc]; rfl)
    rw [next_run? hnext, hcommit, hrow, if_pos hclaimed]
    simp [Commit.rowAfter, RunRow.claim]
  · rw [if_neg hclaimed]
    have hstep := row_step sound hnext id
    generalize s.db.run? id = old at hstep
    generalize s'.db.run? id = new at hstep
    cases hstep with
    | same => rfl
    | @created index choice session writes run row hcommit hcall hpc hwrite hid =>
        obtain ⟨create, id, now, budgetCents, -, rfl⟩ := sound.insert_eq hcall hpc hwrite
        simp [ControlPlane.newRun]
    | transitioned => simp [RunRow.transition]
    | claimed hcommit => simp [claimed?, hcommit] at hclaimed
    | heartbeat => simp [RunRow.heartbeat]
    | paused => simp [RunRow.awaitApproval]
    | completed => simp [RunRow.complete]

theorem queues_or_cancelled {session : ControlPlane.Session} {writes : Writes}
    {eventType : EventType} (hcomplete : ControlPlane.Complete session eventType writes) :
    eventType = .created ∨ eventType = .approved ∨ eventType = .cancelled := by
  have hopened := hcomplete.opened
  generalize writes.run = write at hopened
  cases write with
  | insert => exact .inl hopened.1
  | update before state approved now =>
      obtain ⟨args, rfl | rfl, rfl, -⟩ := hopened
      · exact .inr (.inl rfl)
      · exact .inr (.inr rfl)

/-- The claim of a run logs its two events, and nothing else logs them. -/
theorem eventCount_claimed (run : Run env h s) (hnext : next env s a = some s') (id : Uuid)
    {eventType : EventType} (htype : eventType = .leased ∨ eventType = .started) :
    eventCount s'.db id eventType =
      eventCount s.db id eventType + if claimed? env s a = some id then 1 else 0 := by
  rw [eventCount_next hnext]
  congr 1
  cases hcommit : commitOf env s a with
  | none => simp [claimed?, hcommit]
  | some change =>
      cases commitOf_commits hcommit with
      | @request index choice session writes stored hcall hpc =>
          obtain ⟨written, hcomplete⟩ := (run_sound run).complete hcall hpc
          obtain ⟨event, hevent, rfl, -⟩ := hcomplete.event
          have hother := queues_or_cancelled hcomplete
          have hne : event.eventType ≠ eventType := by
            rintro rfl
            rcases htype with htype | htype <;> simp [htype] at hother
          simp [claimed?, hcommit, Commit.newEvents, hevent, hne]
      | @claim index reply session now row events leased hworker hpc =>
          obtain ⟨first, second, rfl, hleased, hstarted, hfirst, hsecond, -⟩ :=
            ((run_numbered run).claims index session now row events leased hworker hpc).pair
          rcases htype with rfl | rfl <;>
            simp [claimed?, hcommit, Commit.newEvents, List.countP_cons, hleased, hstarted, hfirst,
              hsecond]
      | @event index reply session leased row after hworker hpc hfree =>
          have hwritten := run_owesWritten run index leased.ref.id row.eventType
            ⟨session, leased, hworker, by rw [hpc]; rfl, rfl⟩
          have hne : row.eventType ≠ eventType := by
            rintro rfl
            rcases htype with htype | htype <;>
              simp [htype, EventType.state, workerStates] at hwritten
          simp [claimed?, hcommit, Commit.newEvents, hne]
      | _ => simp [claimed?, hcommit, Commit.newEvents]

/-! ## Deliveries -/

/-- The delivery has not claimed its run yet. -/
def Worker.Pc.unclaimed : Worker.Pc → Bool
  | .received _ | .claimBegin _ | .claimSelect _ _ | .claimUpdate _ _ _ _ | .claimEvents _ _ _ _
  | .claimCommit _ _ _ _ => true
  | _ => false

def awaiting (s : State) (id : Uuid) : Nat :=
  s.workers.countP fun session => s.delivers id session && session.pc.unclaimed

theorem delivers_next (run : Run env h s) (hnext : next env s a = some s') {index : Nat}
    {session : Worker.Session} (hworker : s.workers[index]? = some session) (id : Uuid) :
    s'.delivers id session = s.delivers id session := by
  obtain ⟨message, hmessage, -⟩ := (run_named run).workers index session hworker
  obtain ⟨new, hnew, hlater⟩ := stream_later hnext hmessage
  rw [State.delivers, State.delivers, hmessage, hnew, Option.any_some, Option.any_some,
    hlater.payload]

theorem Worker.unclaimed_of_executing {pc : Worker.Pc} {run : Worker.LeasedRun}
    (h : pc.executing? = some run) : pc.unclaimed = false := by
  cases pc <;> first | rfl | cases h

/-- Before a delivery has claimed its run it had not claimed it either. -/
theorem Worker.Turn.unclaimed {s : Shared} {session : Worker.Session} {pc : Worker.Pc}
    {effect : Effect} (hturn : Worker.Turn env s session pc effect)
    (h : pc.unclaimed = true) : session.pc.unclaimed = true ∧
      ∀ id owner now events, effect.commit? ≠ some (.claim id owner now events) := by
  have executes : ∀ {run : Worker.LeasedRun}, pc.executing? = some run → False := by
    intro run hexecuting
    rw [Worker.unclaimed_of_executing hexecuting] at h
    cases h
  cases hturn with
  | error => cases h
  | crash => cases h
  | move hmove =>
      generalize session.pc = old at hmove
      cases hmove with
      | execute run => exact (executes (execute_executing run)).elim
      | loop run index => exact (executes (loop_executing env run index)).elim
      | consume run index handle prompt =>
          exact (executes (withCredential_executing env run index prompt _)).elim
      | @record _ run index kind status =>
          cases status <;> exact (executes rfl).elim
      | @eventCommit _ run row after => cases after <;> cases h
      | _ => first | cases h; done | exact ⟨rfl, by simp [Effect.commit?]⟩

theorem claimed_delivers (run : Run env h s) {index : Nat} {session : Worker.Session} {now : Int}
    {row : RunRow} {events : List EventRow} {leased : Worker.LeasedRun}
    (hworker : s.workers[index]? = some session)
    (hpc : session.pc = .claimCommit now row events leased) :
    s.delivers row.id session = true := by
  obtain ⟨message, hmessage, hhandles⟩ := (run_named run).workers index session hworker
  have hshape := (run_sound run).shaped.workers index session hworker
  rw [hpc] at hshape
  have href := (hhandles.ref leased.ref (by rw [hpc]; rfl)).2
  simp [State.delivers, hmessage, href, ofText?_text, hshape.1.id]

theorem claimed_turn (run : Run env h s) {index : Nat} {session : Worker.Session} {pc : Worker.Pc}
    {effect : Effect} (hactor : actor a = some (.worker index))
    (hcommit : commitOf env s a = effect.commit?) (hworker : s.workers[index]? = some session)
    (hturn : Worker.Turn env s.toShared session pc effect) (id : Uuid) :
    (if s.delivers id session && pc.unclaimed then 1 else 0) +
        (if claimed? env s a = some id then 1 else 0) ≤
      if s.delivers id session && session.pc.unclaimed then 1 else 0 := by
  by_cases hclaimed : claimed? env s a = some id
  · obtain ⟨other, reply, session', now, row, events, leased, rfl, hworker', hpc, rfl, hchange⟩ :=
      claimed_position hclaimed
    cases hactor
    rw [hworker, Option.some.injEq] at hworker'
    subst hworker'
    have hunclaimed : pc.unclaimed ≠ true := fun hmoved =>
      (hturn.unclaimed hmoved).2 _ _ _ _ (hcommit ▸ hchange)
    rw [if_pos hclaimed]
    have hold : session.pc.unclaimed = true := hpc ▸ rfl
    simp [claimed_delivers run hworker hpc, hold, hunclaimed]
  · rw [if_neg hclaimed]
    by_cases hmoved : pc.unclaimed = true
    · simp [hmoved, (hturn.unclaimed hmoved).1]
    · simp [hmoved]

/-- A claim takes a delivery of the run from those that await their claim. -/
theorem awaiting_next (run : Run env h s) (hnext : next env s a = some s') (id : Uuid) :
    awaiting s' id + (if claimed? env s a = some id then 1 else 0) + deliveries s id ≤
      awaiting s id + deliveries s' id := by
  have same : ∀ session ∈ s.workers, s'.delivers id session = s.delivers id session := by
    intro session hmem
    obtain ⟨index, hworker⟩ := List.getElem?_of_mem hmem
    exact delivers_next run hnext hworker id
  have hawaiting : (s.workers.countP fun session =>
      s'.delivers id session && session.pc.unclaimed) = awaiting s id :=
    List.countP_congr fun session hmem => by rw [same session hmem]
  have hdeliveries : s.workers.countP (s'.delivers id) = deliveries s id :=
    List.countP_congr fun session hmem => by rw [same session hmem]
  have unclaimed : (∀ index, actor a ≠ some (.worker index)) → claimed? env s a ≠ some id := by
    intro hactor hclaimed
    obtain ⟨index, reply, session, now, row, events, leased, rfl, -⟩ := claimed_position hclaimed
    exact hactor index rfl
  have quiet : s'.workers = s.workers → (∀ index, actor a ≠ some (.worker index)) →
      awaiting s' id + (if claimed? env s a = some id then 1 else 0) + deliveries s id ≤
        awaiting s id + deliveries s' id := by
    intro hworkers hactor
    rw [awaiting, deliveries.eq_1 s', hworkers, hawaiting, hdeliveries, if_neg (unclaimed hactor)]
    omega
  cases next_step hnext with
  | tick => exact quiet rfl (by simp [actor])
  | createWorkflow => exact quiet rfl (by simp [actor])
  | request => exact quiet rfl (by simp [actor])
  | call hactor => exact quiet rfl (by simp [hactor])
  | publishPending => exact quiet rfl (by simp [actor])
  | publisher hactor => exact quiet rfl (by simp [hactor])
  | @deliver index workerId message hmessage hready =>
      rw [if_neg (unclaimed (by simp [actor]))]
      simp only [awaiting, deliveries] at hawaiting hdeliveries ⊢
      rw [List.countP_append, List.countP_append, hawaiting, hdeliveries]
      simp only [List.countP_singleton, Worker.Pc.unclaimed, Bool.and_true]
      omega
  | @worker _ index session pc effect hactor hcommit hworker hturn =>
      have hsame := same session (List.mem_of_getElem? hworker)
      have hless : (if s.delivers id session && pc.unclaimed then 1 else 0) +
          (if claimed? env s a = some id then 1 else 0) ≤
            if s.delivers id session && session.pc.unclaimed then 1 else 0 :=
        claimed_turn run hactor hcommit hworker hturn id
      have hawaits : awaiting (s.moveWorker index session pc effect) id +
          (if s.delivers id session && session.pc.unclaimed then 1 else 0) =
          awaiting s id + if s.delivers id session && pc.unclaimed then 1 else 0 := by
        rw [← hsame, ← hawaiting]
        exact countP_set_of_some hworker
      have hdelivers : deliveries (s.moveWorker index session pc effect) id +
          (if s.delivers id session then 1 else 0) =
          deliveries s id + if s.delivers id session then 1 else 0 := by
        rw [← hsame, ← hdeliveries]
        exact countP_set_of_some hworker
      omega

/-! ## Batches -/

/-- The batch that a claim has selected and not committed yet. -/
def Outbox.Pc.selected? : Outbox.Pc → Option (List Outbox.PendingOutboxMessage)
  | .claimUpdate messages | .claimCommit messages => some messages
  | _ => none

/-- A selected batch has no row twice, and nobody marks its rows in the meantime. -/
def Reserved (s : State) : Prop :=
  ∀ (index : Nat) (session : Outbox.Session) (messages : List Outbox.PendingOutboxMessage),
    s.publishers[index]? = some session → session.pc.selected? = some messages →
      (messages.map (·.id)).Nodup ∧ ∀ pending ∈ messages, ∀ row ∈ s.db.outbox,
        row.id = pending.id → row.publishedAt = none

theorem Outbox.Turn.selects {s : Shared} {session : Outbox.Session} {pc : Outbox.Pc}
    {effect : Effect} (hturn : Outbox.Turn s session pc effect)
    {messages : List Outbox.PendingOutboxMessage} (h : pc.selected? = some messages) :
    effect = .none ∧ (session.pc.selected? = some messages ∨
      messages = Outbox.claimPending s session.limit) := by
  cases hturn with
  | error => cases h
  | move hmove =>
      generalize session.pc = old at hmove
      cases hmove with
      | claimSelect =>
          cases h
          exact ⟨rfl, .inr rfl⟩
      | claimUpdate messages => exact ⟨rfl, .inl h⟩
      | _ => cases h

theorem claimPending_reserved (keyed : OutboxKeyed s) (limit : Nat) :
    ((Outbox.claimPending s.toShared limit).map (·.id)).Nodup ∧
      ∀ pending ∈ Outbox.claimPending s.toShared limit, ∀ row ∈ s.db.outbox,
        row.id = pending.id → row.publishedAt = none := by
  constructor
  · rw [Outbox.claimPending, List.map_map]
    refine List.Nodup.sublist ((List.take_sublist _ _).map _) ?_
    rw [((List.perm_insertionSort _ _).map _).nodup_iff]
    exact keyed.nodup.sublist (List.filter_sublist.map _)
  · intro pending hpending row hrow hid
    obtain ⟨selected, hselected, rfl⟩ := List.mem_map.mp hpending
    obtain ⟨hmem, htest⟩ := List.mem_filter.mp
      ((List.mem_insertionSort _).mp (List.mem_of_mem_take hselected))
    rw [Bool.and_eq_true, Option.isNone_iff_eq_none] at htest
    rw [List.inj_on_of_nodup_map keyed.nodup hrow hmem hid]
    exact htest.1

/-- Only a row that it has locked is marked as published by a publisher. -/
theorem published_next (run : Run env h s) (hnext : next env s a = some s') {row : OutboxRow}
    (hrow : row ∈ s'.db.outbox) (hpublished : row.publishedAt.isSome = true) :
    (∃ old ∈ s.db.outbox, old.id = row.id ∧ old.publishedAt.isSome = true) ∨
      ∃ index, actor a = some (.publisher index) ∧
        s.locks (.outbox row.id) = some (.publisher index) := by
  obtain ⟨events, outbox, audits, hdb⟩ := next_db hnext
  rw [hdb] at hrow
  cases hcommit : commitOf env s a with
  | none =>
      rw [hcommit] at hrow
      exact .inl ⟨row, hrow, rfl, hpublished⟩
  | some change =>
      rw [hcommit] at hrow
      rcases published_commit hrow hpublished with ⟨old, hold, hsame, hmarked⟩ |
        ⟨ids, now, rfl, hid⟩ | ⟨writes, rfl, hnew⟩
      · exact .inl ⟨old, hold, hsame.id.symm, hmarked⟩
      · cases commitOf_commits hcommit with
        | @outboxPublished index _ session _ _ hpublisher hpc =>
            refine .inr ⟨index, rfl, (run_locked run).publishers index session hpublisher _ ?_⟩
            simpa [hpc, Outbox.Pc.held] using hid
      · cases commitOf_commits hcommit with
        | request hcall hpc =>
            obtain ⟨eventType, hcomplete⟩ := (run_sound run).complete hcall hpc
            rw [hcomplete.unpublished hnew] at hpublished
            cases hpublished

theorem Outbox.held_of_selected {pc : Outbox.Pc} {messages : List Outbox.PendingOutboxMessage}
    (h : pc.selected? = some messages) :
    pc.held = messages.map fun pending => .outbox pending.id := by
  cases pc <;> cases h <;> rfl

theorem Reserved.next (run : Run env h s) (reserved : Reserved s)
    (hnext : next env s a = some s') : Reserved s' := by
  intro index session messages hpublisher hselected
  cases publisher_case hnext hpublisher with
  | kept hold hactor =>
      obtain ⟨hnodup, hunpublished⟩ := reserved index _ messages hold hselected
      refine ⟨hnodup, fun pending hpending row hrow hid => ?_⟩
      have hheld : .outbox pending.id ∈ session.pc.held := by
        rw [Outbox.held_of_selected hselected]
        exact List.mem_map_of_mem hpending
      have hlock := (run_locked run).publishers index _ hold _ hheld
      by_contra hmarked
      rcases published_next run hnext hrow (Option.isSome_iff_ne_none.mpr hmarked) with
        ⟨old, hmem, hsame, hpublished⟩ | ⟨marker, hmarker, hholder⟩
      · rw [hunpublished pending hpending old hmem (hsame.trans hid)] at hpublished
        cases hpublished
      · rw [hid, hlock] at hholder
        cases hholder
        exact hactor hmarker
  | joined => cases hselected
  | @turned session pc effect hold hactor hturn hstate =>
      obtain ⟨rfl, hread⟩ := hturn.selects hselected
      have hdb : s'.db = s.db := by
        rw [hstate]
        rfl
      rw [hdb]
      rcases hread with hmine | rfl
      · exact reserved index session messages hold hmine
      · exact claimPending_reserved (run_outboxKeyed run) session.limit

theorem run_reserved (run : Run env h s) : Reserved s := by
  refine run.always ?_ ?_
  · intro s hs
    simp [Reserved, hs.publishers]
  · intro h s a s' run reserved hnext
    exact reserved.next run hnext

/-! ## Copies -/

/-- The publications that a claimed batch still allows. -/
def Outbox.Pc.owed (id : Nat) : Outbox.Pc → Nat
  | .publish messages _ => (messages.map (·.id)).count id
  | _ => 0

def owed (s : State) (id : Nat) : Nat :=
  (s.publishers.map fun session => session.pc.owed id).sum

def Effect.published (id : Nat) : Effect → Nat
  | .publish message => if message.row = id then 1 else 0
  | _ => 0

theorem rows_modify (stream : List Message) (position : Nat) {f : Message → Message}
    (hf : ∀ message, (f message).row = message.row) :
    (stream.modify position f).map Message.row = stream.map Message.row := by
  refine List.ext_getElem? fun other => ?_
  rw [List.getElem?_map, List.getElem?_map, List.getElem?_modify]
  cases stream[other]? with
  | none => rfl
  | some message => by_cases hposition : position = other <;> simp [hposition, hf]

theorem copies_after (stream : List Message) (clock : Int) (handled id : Nat) (effect : Effect) :
    ((streamAfter stream clock handled effect).map Message.row).count id =
      (stream.map Message.row).count id + effect.published id := by
  cases effect with
  | publish message =>
      simp [streamAfter, Effect.published, List.count_singleton, beq_iff_eq]
  | ack => exact congrArg _ (rows_modify stream handled fun _ => rfl)
  | nak => exact congrArg _ (rows_modify stream handled fun _ => rfl)
  | _ => rfl

/-- A publisher publishes each row of its batch at most once, after it has counted the attempt. -/
theorem Outbox.Turn.owed {s : Shared} {session : Outbox.Session} {pc : Outbox.Pc}
    {effect : Effect} (hturn : Outbox.Turn s session pc effect) (id : Nat)
    (hnodup : ∀ messages, session.pc.selected? = some messages →
      (messages.map (·.id)).Nodup) :
    effect.published id + pc.owed id ≤
      session.pc.owed id +
        if id ∈ (effect.commit?.map Commit.attempted).getD [] then 1 else 0 := by
  cases hturn with
  | error => exact Nat.zero_le _
  | move hmove =>
      generalize session.pc = old at hmove hnodup
      cases hmove with
      | claimCommit messages =>
          have hbatch := hnodup messages rfl
          change 0 + (messages.map (·.id)).count id ≤
            0 + if id ∈ messages.map (·.id) then 1 else 0
          rw [Nat.zero_add, Nat.zero_add]
          by_cases hmem : id ∈ messages.map (·.id)
          · rw [if_pos hmem]
            exact List.nodup_iff_count_le_one.mp hbatch id
          · rw [List.count_eq_zero_of_not_mem hmem]
            exact Nat.zero_le _
      | acked pending messages delivered =>
          by_cases hid : pending.id = id
          · simp [Effect.published, Pc.owed, Outbox.message, hid]
            omega
          · simp [Effect.published, Pc.owed, Outbox.message, hid]
      | ackLost pending messages delivered =>
          by_cases hid : pending.id = id
          · simp [Effect.published, Pc.owed, Outbox.message, hid]
            omega
          · simp [Effect.published, Pc.owed, Outbox.message, hid]
      | _ => exact Nat.zero_le _

theorem attempts_drafted (run : Run env h s) {index : Nat} {session : ControlPlane.Session}
    {writes : Writes} {stored : ControlPlane.StoredRun} (hcall : s.calls[index]? = some session)
    (hpc : session.pc = .commit writes stored) {row : OutboxRow}
    (hrow : writes.outbox = some row) : row.attempts = 0 := by
  have hdrafts := run_drafted run index session hcall
  unfold ControlPlane.Drafts at hdrafts
  rw [hpc] at hdrafts
  obtain ⟨now, eventType, detail, event, outbox, audit, -, hwrites⟩ := hdrafts
  rw [hwrites] at hrow
  simp only [ControlPlane.outboxOf] at hrow
  split at hrow <;> cases hrow
  rfl

theorem attempts_updated (db : Db) (ids : List Nat) {f : OutboxRow → OutboxRow}
    (hf : ∀ row, (f row).id = row.id) (id : Nat) :
    (db.updateOutbox ids f).attempts id =
      ((Table.lookup OutboxRow.id id db.outbox).map fun row =>
        (if id ∈ ids then f row else row).attempts).getD 0 := by
  have hkey : (fun row : OutboxRow => (if row.id ∈ ids then f row else row).id) =
      OutboxRow.id := by
    funext row
    split
    · exact hf row
    · rfl
  rw [Db.attempts, Db.updateOutbox, Table.lookup_map, hkey]
  cases hrow : Table.lookup OutboxRow.id id db.outbox with
  | none => rfl
  | some row => simp [Table.lookup_key hrow]

theorem attempts_next (run : Run env h s) (hnext : next env s a = some s') (id : Nat) :
    s'.db.attempts id = s.db.attempts id + if id ∈ attempted env s a then 1 else 0 := by
  obtain ⟨events, outbox, audits, hdb⟩ := next_db hnext
  rw [hdb, attempted]
  cases hcommit : commitOf env s a with
  | none => simp [Db.after, Db.draw, Db.attempts]
  | some change =>
      simp only [Option.map_some, Option.getD_some]
      cases commitOf_commits hcommit with
      | @request index choice session writes stored hcall hpc =>
          have hzero := fun row => @attempts_drafted env s h run index session writes stored hcall
            hpc row
          rw [Db.after, Db.attempts, outbox_request]
          cases hrow : writes.outbox with
          | none => simp [Commit.attempted, Db.attempts, Db.draw]
          | some row =>
              rw [Option.toList_some, Table.lookup_snoc]
              cases hold : Table.lookup OutboxRow.id id s.db.outbox with
              | none => by_cases hid : row.id = id <;>
                  simp [Commit.attempted, Db.attempts, Db.draw, hold, hid, hzero row hrow]
              | some old => simp [Commit.attempted, Db.attempts, Db.draw, hold]
      | @outboxAttempts index reply session messages hpublisher hpc =>
          rw [Db.after, Db.commit, attempts_updated (f := OutboxRow.attempt) _ _ fun _ => rfl]
          change _ = _ + if id ∈ messages.map (·.id) then 1 else 0
          by_cases hmem : id ∈ messages.map (·.id)
          · obtain ⟨pending, hpending, rfl⟩ := List.mem_map.mp hmem
            obtain ⟨row, hrow, rfl⟩ := run_batched run index session hpublisher pending
              (by rw [hpc]; exact hpending)
            have hfound := Table.lookup_of_mem (run_outboxKeyed run).nodup hrow
            rw [if_pos hmem]
            simp only [if_pos hmem]
            simp [Db.draw, Db.attempts, Outbox.OutboxRow.pending, hfound, OutboxRow.attempt]
          · simp only [if_neg hmem]
            rfl
      | @outboxPublished index reply session now delivered hpublisher hpc =>
          rw [Db.after, Db.commit,
            attempts_updated (f := OutboxRow.publish now) _ _ fun _ => rfl]
          by_cases hmem : id ∈ delivered <;>
            simp [Commit.attempted, OutboxRow.publish, Db.attempts, Db.draw, hmem]
      | _ => simp [Db.after, Db.draw, Db.commit, Db.updateRun, Db.attempts, Commit.attempted]

theorem copies_next (run : Run env h s) (hnext : next env s a = some s') (id : Nat) :
    copies s' id + owed s' id ≤
      copies s id + owed s id + if id ∈ attempted env s a then 1 else 0 := by
  have quiet : s'.stream.map Message.row = s.stream.map Message.row →
      s'.publishers = s.publishers → copies s' id + owed s' id ≤
        copies s id + owed s id + if id ∈ attempted env s a then 1 else 0 := by
    intro hstream hpublishers
    rw [copies, owed, hstream, hpublishers]
    exact Nat.le_add_right _ _
  cases next_step hnext with
  | tick => exact quiet rfl rfl
  | createWorkflow => exact quiet rfl rfl
  | request => exact quiet rfl rfl
  | call hactor hcommit hcall hturn => exact quiet (congrArg _ hturn.stream) rfl
  | publishPending limit =>
      have howed : owed { s with publishers := s.publishers ++ [⟨limit, .claimBegin⟩] } id =
          owed s id := by
        simp [owed, Outbox.Pc.owed]
      rw [howed]
      exact Nat.le_add_right _ _
  | @publisher _ index session pc effect hactor hcommit hpublisher hturn =>
      have hturned := hturn.owed id fun messages hselected =>
        (run_reserved run index session messages hpublisher hselected).1
      have hcopies : copies (s.movePublisher index session pc effect) id =
          copies s id + effect.published id := copies_after _ _ _ _ _
      have howed : owed (s.movePublisher index session pc effect) id + session.pc.owed id =
          owed s id + pc.owed id :=
        sum_map_set (f := fun session : Outbox.Session => session.pc.owed id) hpublisher
      rw [attempted, hcommit]
      omega
  | deliver => exact quiet (rows_modify _ _ fun _ => rfl) rfl
  | @worker _ index session pc effect hactor hcommit hworker hturn =>
      have hcopies : copies (s.moveWorker index session pc effect) id =
          copies s id + effect.published id := copies_after _ _ _ _ _
      have hquiet : effect.published id = 0 := by
        cases effect with
        | publish message => exact absurd rfl (hturn.stream.1 message)
        | _ => rfl
      have howed : owed (s.moveWorker index session pc effect) id = owed s id := rfl
      omega

/-! ## The accounts of a run -/

structure Counted (env : Env) (h : History State Action) (s : State) : Prop where
  claims : ∀ id, s.db.attemptCount id = claimCount env h id
  events : ∀ id eventType, eventType = .leased ∨ eventType = .started →
    eventCount s.db id eventType = claimCount env h id
  deliveries : ∀ id, claimCount env h id + awaiting s id ≤ deliveries s id
  batches : ∀ id, s.db.attempts id = batchCount env h id
  copies : ∀ id, copies s id + owed s id ≤ batchCount env h id

theorem claimCount_snoc (id : Uuid) : claimCount env (h ++ [(s, a)]) id =
    claimCount env h id + if claimed? env s a = some id then 1 else 0 := by
  simp [claimCount, List.countP_append, List.countP_singleton]

theorem batchCount_snoc (id : Nat) : batchCount env (h ++ [(s, a)]) id =
    batchCount env h id + if id ∈ attempted env s a then 1 else 0 := by
  simp [batchCount, List.countP_append, List.countP_singleton]

theorem run_counted (run : Run env h s) : Counted env h s := by
  refine @Exec.invariant _ _ _ _ (Counted env) ?_ ?_ _ _ run
  · intro s hs
    constructor
    · simp [Db.attemptCount, Db.run?, hs.runs, claimCount]
    · simp [eventCount, hs.events, claimCount]
    · simp [awaiting, hs.workers, claimCount]
    · simp [Db.attempts, hs.outbox, batchCount]
    · simp [copies, owed, hs.stream, hs.publishers, batchCount]
  · intro h s a s' run counted hnext
    constructor
    · intro id
      rw [attemptCount_next run hnext, counted.claims, claimCount_snoc]
    · intro id eventType htype
      rw [eventCount_claimed run hnext id htype, counted.events id eventType htype,
        claimCount_snoc]
    · intro id
      have hold := counted.deliveries id
      have hmoved := awaiting_next run hnext id
      rw [claimCount_snoc]
      omega
    · intro id
      rw [attempts_next run hnext, counted.batches, batchCount_snoc]
    · intro id
      have hold := counted.copies id
      have hmoved := copies_next run hnext id
      rw [batchCount_snoc]
      omega

theorem attempted_unpublished (run : Run env h s) (a : Action) {row : OutboxRow}
    (hrow : row ∈ s.db.outbox) (hid : row.id ∈ attempted env s a) : row.publishedAt = none := by
  unfold attempted at hid
  cases hcommit : commitOf env s a with
  | none => simp [hcommit] at hid
  | some change =>
      rw [hcommit] at hid
      cases commitOf_commits hcommit with
      | @outboxAttempts index reply session messages hpublisher hpc =>
          obtain ⟨pending, hpending, hsame⟩ := List.mem_map.mp hid
          exact (run_reserved run index session messages hpublisher (hpc ▸ rfl)).2 pending hpending
            row hrow hsame.symm
      | _ => cases hid

/--
In every run the counters say what was tried: a run's attempts are its
committed claims, each logged by its two events and each made by a delivery of
its own; an outbox row's attempts are the batches that claimed it while it was
unpublished, and at least as many as the copies that the stream holds, of which
there is one once the row is marked.
-/
theorem attemptsAccounted (run : Run env h s) : AttemptsAccounted env h s := by
  have counted := run_counted run
  constructor
  · intro id row hrow
    have hclaims := counted.claims id
    rw [Db.attemptCount, hrow, Option.map_some, Option.getD_some] at hclaims
    have hleased := counted.events id .leased (.inl rfl)
    have hstarted := counted.events id .started (.inr rfl)
    have hdeliveries := counted.deliveries id
    exact ⟨hclaims, by omega, by omega, by omega⟩
  · intro row hrow
    have hbatches := counted.batches row.id
    rw [Db.attempts, Table.lookup_of_mem (run_outboxKeyed run).nodup hrow, Option.map_some,
      Option.getD_some] at hbatches
    have hcopies := counted.copies row.id
    refine ⟨hbatches, by omega, fun hpublished => ?_⟩
    obtain ⟨message, hmessage, hsame⟩ := (run_published run).outbox row hrow hpublished
    exact List.count_pos_iff.mpr (List.mem_map.mpr ⟨message, hmessage, hsame⟩)
  · intro p hp row hrow hid
    obtain ⟨h₁, h₂, rfl⟩ := List.append_of_mem hp
    obtain ⟨-, run', -⟩ := run.split
    exact attempted_unpublished run' p.2 hrow hid

end

/-- The acknowledgement of the first publication is lost, and the row is published again. -/
def publishedTwice : List Action :=
  Scenario.createActions [Scenario.dataRead] ++ .publishPending 100 ::
    List.replicate 4 (.publisher 0 .none) ++ [.publisher 0 .ackLost] ++
    Scenario.publishActions 1 ++ Scenario.claimActions 0 0 ++ [.deliver 1 "worker"]

theorem publishedTwice_accounted : ∃ h t, Run Scenario.env h t ∧
    ((t.db.run? Scenario.runId).any fun row => row.attemptCount = 1) = true ∧
    deliveries t Scenario.runId = 2 ∧
    (t.db.outbox.all fun row => row.attempts = 2 && copies t row.id = 2) = true ∧
    AttemptsAccounted Scenario.env h t := by
  obtain ⟨h, t, run, htest⟩ := Scenario.exists_run 5 publishedTwice
    (fun _ t => ((t.db.run? Scenario.runId).any fun row => row.attemptCount = 1) &&
      deliveries t Scenario.runId = 2 &&
      t.db.outbox.all fun row => row.attempts = 2 && copies t row.id = 2) (by decide +kernel)
  simp only [Bool.and_eq_true, decide_eq_true_eq] at htest
  exact ⟨h, t, run, htest.1.1, htest.1.2, htest.2, attemptsAccounted run⟩

end DurableRuntime
