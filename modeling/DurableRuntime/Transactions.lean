import DurableRuntime.Shapes

/-!
# Transactions

While a session has a run locked no other session commits anything about it, so
the row in its position is the row in the table, and a row or key it is about to
insert is still absent.  With that, `RowStep` says everything a step can do to
the row of a run.
-/

namespace DurableRuntime

open DurableRuntime.Foundation

section

variable {env : Env} {s s' : State} {a : Action}

/-- A commit about a run needs the run's lock to be free, or its own. -/
theorem commit_lock (locked : Locked s) (shaped : Shaped s) {change : Commit}
    (hcommit : Commits env s a change) {id : Uuid} (hsubject : change.subject? = some id) :
    s.locks (.run id) = none ∨ s.locks (.run id) = actor a := by
  cases hcommit with
  | createWorkflow => cases hsubject
  | outboxAttempts => cases hsubject
  | outboxPublished => cases hsubject
  | @request index choice session writes run hcall hpc =>
      cases hsubject
      have hwrites : session.pc.writes? = some writes := by
        rw [hpc]
        rfl
      refine .inr (locked.calls index session hcall _ (List.mem_append_left _ ?_))
      rw [ControlPlane.held_writes hwrites]
      refine List.mem_append_right _ (List.mem_append_left _ ?_)
      cases writes.run <;> simp [RunWrite.row, RunRow.transition]
  | @claim index reply session now row events run hworker hpc =>
      cases hsubject
      refine .inr (locked.workers index session hworker _ ?_)
      simp [hpc, Worker.Pc.held, Worker.Pc.lockedRow?]
  | @event index reply session run row after hworker hpc hfree =>
      have hshape := shaped.workers index session hworker
      rw [hpc] at hshape
      cases hsubject
      rw [hshape.1]
      exact .inl (Option.isNone_iff_eq_none.mp hfree)
  | _ hworker hpc hfree =>
      cases hsubject
      exact .inl (Option.isNone_iff_eq_none.mp hfree)

/-- A run that one session has locked is no other session's subject. -/
theorem subject_of_lock (locked : Locked s) (shaped : Shaped s) {id : Uuid} {me : Holder}
    (hlock : s.locks (.run id) = some me) (hother : actor a ≠ some me) {change : Commit}
    (hcommit : commitOf env s a = some change) : change.subject? ≠ some id := by
  intro hsubject
  rcases commit_lock locked shaped (commitOf_commits hcommit) hsubject with hnone | hmine
  · rw [hnone] at hlock
    cases hlock
  · exact hother (hmine ▸ hlock)

theorem run?_of_lock (locked : Locked s) (shaped : Shaped s) (hnext : next env s a = some s')
    {id : Uuid} {me : Holder} (hlock : s.locks (.run id) = some me)
    (hother : actor a ≠ some me) : s'.db.run? id = s.db.run? id := by
  rw [next_run? hnext]
  cases hcommit : commitOf env s a with
  | none => rfl
  | some change => exact rowAfter_of_ne (subject_of_lock locked shaped hlock hother hcommit) _

/-- Likewise no other session inserts a key that one session is about to insert. -/
theorem runByKey?_of_lock (locked : Locked s) (hnext : next env s a = some s')
    {tenantId : Uuid} {idempotencyKey : String} {me : Holder}
    (hlock : s.locks (.runKey tenantId idempotencyKey) = some me) (hother : actor a ≠ some me)
    (habsent : s.db.runByKey? tenantId idempotencyKey = none) :
    s'.db.runByKey? tenantId idempotencyKey = none := by
  obtain ⟨events, outbox, audits, hdb⟩ := next_db hnext
  rw [hdb]
  cases hcommit : commitOf env s a with
  | none => exact habsent
  | some change =>
      rw [runByKey?_eq_none] at habsent ⊢
      rw [Db.after, runs_commit_map RunRow.key RunRow.SameRequest.key, List.mem_append]
      rintro (hold | hnew)
      · exact habsent hold
      · cases commitOf_commits hcommit with
        | @request index choice session writes run hcall hpc =>
            obtain ⟨write, event, outboxRow, audit⟩ := writes
            cases write with
            | insert row =>
                have hkey : (tenantId, idempotencyKey) = row.key := by
                  simpa [Commit.inserted?, RunWrite.inserted?] using hnew
                have hheld : Resource.runKey tenantId idempotencyKey ∈ session.held := by
                  refine List.mem_append_left _ ?_
                  rw [ControlPlane.held_writes (by rw [hpc]; rfl)]
                  simp only [RunRow.key, Prod.mk.injEq] at hkey
                  simp [ControlPlane.Writes.occupied, hkey.1, hkey.2]
                rw [locked.calls index session hcall _ hheld] at hlock
                exact hother hlock
            | update => simp [Commit.inserted?, RunWrite.inserted?] at hnew
        | _ => simp [Commit.inserted?] at hnew

end

/-! ## Snapshots -/

theorem Worker.Turn.lockedRow? {env : Env} {s : Shared} {session : Worker.Session}
    {pc : Worker.Pc} {effect : Effect} (hturn : Worker.Turn env s session pc effect)
    {row : RunRow} (h : pc.lockedRow? = some row) :
    effect.commit? = none ∧
      (session.pc.lockedRow? = some row ∨ s.db.run? row.id = some row) := by
  have executing : ∀ {pc : Worker.Pc} {run : Worker.LeasedRun}, pc.executing? = some run →
      pc.lockedRow? = none := by
    intro pc run hexecuting
    cases pc <;> first | rfl | cases hexecuting
  cases hturn with
  | error => cases h
  | crash => cases h
  | move hmove =>
      generalize session.pc = old at hmove
      cases hmove with
      | received runId =>
          unfold Worker.process at h
          repeat' split at h
          all_goals cases h
      | claimFound hselect =>
          obtain ⟨-, hrow, hid, -⟩ := Worker.claimable_free hselect
          cases h
          exact ⟨rfl, .inr (hid ▸ hrow)⟩
      | claimUpdate => exact ⟨rfl, .inl h⟩
      | claimEvents => exact ⟨rfl, .inl h⟩
      | execute run =>
          rw [executing (Worker.execute_executing run)] at h
          cases h
      | loop run index =>
          rw [executing (Worker.loop_executing env run index)] at h
          cases h
      | consume run index handle prompt delivery =>
          rw [executing (Worker.withCredential_executing env run index prompt _)] at h
          cases h
      | @record _ run index kind status safeLabel hfree => cases status <;> cases h
      | @eventCommit _ run row after hfree => cases after <;> cases h
      | _ => cases h

namespace ControlPlane

variable {env : Env} {s : Shared} {choice : Uuid} {session : Session} {pc pc' : Pc}
  {effect : Effect}

theorem lockedRow?_writes {writes : Writes} (h : pc.writes? = some writes) :
    pc.lockedRow? =
      match writes.run with
      | .insert _ => none
      | .update before _ _ _ => some before := by
  obtain ⟨write, event, outbox, audit⟩ := writes
  cases pc <;> cases h <;> cases write <;> rfl

theorem startTransition_idle (role : Role) (runId : String) (args : TransitionArgs) :
    (startTransition role runId args).lockedRow? = none ∧
      (startTransition role runId args).writes? = none := by
  unfold startTransition
  repeat' split
  all_goals exact ⟨rfl, rfl⟩

theorem readRunCheck_idle (args : TransitionArgs) (runId : Uuid) (row : Option RunRow) :
    (readRunCheck args runId row).lockedRow? = none ∧
      (readRunCheck args runId row).writes? = none := by
  unfold readRunCheck
  repeat' split
  all_goals exact ⟨rfl, rfl⟩

/-- A transaction keeps the row it has locked. -/
theorem PcMove.lockedRow? (hmove : PcMove env s choice session pc pc' effect) {row : RunRow}
    (h : pc'.lockedRow? = some row) :
    effect.commit? = none ∧ (pc.lockedRow? = some row ∨ s.db.run? row.id = some row) := by
  cases hmove with
  | approve => simp [startTransition_idle] at h
  | cancel => simp [startTransition_idle] at h
  | readRun => simp [readRunCheck_idle] at h
  | transitionLocked hrow hfree hassert =>
      cases h
      obtain ⟨hfound, -, hid⟩ := runOfTenant?_run? hrow
      exact ⟨rfl, .inr (hid ▸ hfound)⟩
  | transitionUpdate => exact ⟨rfl, .inl h⟩
  | eventQueued => exact ⟨rfl, .inl (by rwa [lockedRow?_writes rfl] at h ⊢)⟩
  | eventUnqueued => exact ⟨rfl, .inl (by rwa [lockedRow?_writes rfl] at h ⊢)⟩
  | queueOutbox => exact ⟨rfl, .inl (by rwa [lockedRow?_writes rfl] at h ⊢)⟩
  | audit => exact ⟨rfl, .inl (by rwa [lockedRow?_writes rfl] at h ⊢)⟩
  | readEvents => exact ⟨rfl, .inl (by rwa [lockedRow?_writes rfl] at h ⊢)⟩
  | _ => cases h

/-- A transaction keeps the row it has inserted. -/
theorem PcMove.inserts (hmove : PcMove env s choice session pc pc' effect) {writes : Writes}
    {row : RunRow} (hwrites : pc'.writes? = some writes) (hrow : writes.run = .insert row) :
    effect.commit? = none ∧
      ((∃ old, pc.writes? = some old ∧ old.run = .insert row) ∨
        (s.db.run? row.id = none ∧
          s.db.runByKey? row.tenantId row.idempotencyKey = none)) := by
  cases hmove with
  | approve => simp [startTransition_idle] at hwrites
  | cancel => simp [startTransition_idle] at hwrites
  | readRun => simp [readRunCheck_idle] at hwrites
  | inserted hfree habsent hinsertable =>
      cases hwrites
      cases hrow
      simp only [insertable, Bool.and_eq_true, Option.isNone_iff_eq_none] at hinsertable
      exact ⟨rfl, .inr ⟨hinsertable.1.1.1, habsent⟩⟩
  | transitionUpdate =>
      cases hwrites
      cases hrow
  | eventQueued =>
      cases hwrites
      exact ⟨rfl, .inl ⟨_, rfl, hrow⟩⟩
  | eventUnqueued =>
      cases hwrites
      exact ⟨rfl, .inl ⟨_, rfl, hrow⟩⟩
  | queueOutbox =>
      cases hwrites
      exact ⟨rfl, .inl ⟨_, rfl, hrow⟩⟩
  | audit =>
      cases hwrites
      exact ⟨rfl, .inl ⟨_, rfl, hrow⟩⟩
  | readEvents =>
      cases hwrites
      exact ⟨rfl, .inl ⟨_, rfl, hrow⟩⟩
  | _ => cases hwrites

theorem startCreate_idle {create : CreateRun} {moved : Session}
    (h : startCreate s session create choice = some (moved, effect)) :
    moved.pc.lockedRow? = none ∧ moved.pc.writes? = none := by
  cases startCreate_start h with
  | _ => exact ⟨rfl, rfl⟩

end ControlPlane

structure Snapshots (s : State) : Prop where
  workers : ∀ (index : Nat) (session : Worker.Session) (row : RunRow),
    s.workers[index]? = some session → session.pc.lockedRow? = some row →
      s.db.run? row.id = some row
  updates : ∀ (index : Nat) (session : ControlPlane.Session) (row : RunRow),
    s.calls[index]? = some session → session.pc.lockedRow? = some row →
      s.db.run? row.id = some row
  inserts : ∀ (index : Nat) (session : ControlPlane.Session) (writes : Writes) (row : RunRow),
    s.calls[index]? = some session → session.pc.writes? = some writes →
      writes.run = .insert row →
        s.db.run? row.id = none ∧ s.db.runByKey? row.tenantId row.idempotencyKey = none

section

variable {env : Env} {s s' : State} {a : Action} {index : Nat} {row : RunRow}

theorem Locked.worker_row (locked : Locked s) {session : Worker.Session}
    (hworker : s.workers[index]? = some session) (hrow : session.pc.lockedRow? = some row) :
    s.locks (.run row.id) = some (.worker index) := by
  refine locked.workers index session hworker _ ?_
  simp [Worker.Pc.held, hrow]

theorem Locked.call_row (locked : Locked s) {session : ControlPlane.Session}
    (hcall : s.calls[index]? = some session) (hrow : session.pc.lockedRow? = some row) :
    s.locks (.run row.id) = some (.call index) := by
  refine locked.calls index session hcall _ (List.mem_append_left _ ?_)
  cases hwrites : session.pc.writes? with
  | some writes =>
      rw [ControlPlane.lockedRow?_writes hwrites] at hrow
      rw [ControlPlane.held_writes hwrites]
      refine List.mem_append_right _ (List.mem_append_left _ ?_)
      cases hrun : writes.run with
      | insert => simp [hrun] at hrow
      | update =>
          simp only [hrun, Option.some.injEq] at hrow
          simp [hrow]
  | none =>
      cases hpc : session.pc with
      | transitionUpdate args now before =>
          rw [hpc] at hrow
          cases hrow
          simp [ControlPlane.Pc.held]
      | _ =>
          rw [hpc] at hrow hwrites
          first | cases hrow | cases hwrites

theorem Locked.call_insert (locked : Locked s) {session : ControlPlane.Session} {writes : Writes}
    (hcall : s.calls[index]? = some session) (hwrites : session.pc.writes? = some writes)
    (hrow : writes.run = .insert row) :
    s.locks (.run row.id) = some (.call index) ∧
      s.locks (.runKey row.tenantId row.idempotencyKey) = some (.call index) := by
  have hheld : ∀ x ∈ [Resource.run row.id, .runKey row.tenantId row.idempotencyKey],
      x ∈ session.held := by
    intro x hx
    refine List.mem_append_left _ ?_
    rw [ControlPlane.held_writes hwrites]
    refine List.mem_append_right _ (List.mem_append_left _ ?_)
    simpa [hrow] using hx
  exact ⟨locked.calls index session hcall _ (hheld _ (by simp)),
    locked.calls index session hcall _ (hheld _ (by simp))⟩

theorem apply_run? {effect : Effect} (h : effect.commit? = none) (s : Shared) (id : Uuid) :
    (s.apply effect).db.run? id = s.db.run? id := by
  cases effect <;> first | rfl | cases h

theorem apply_runByKey? {effect : Effect} (h : effect.commit? = none) (s : Shared)
    (tenantId : Uuid) (idempotencyKey : String) :
    (s.apply effect).db.runByKey? tenantId idempotencyKey =
      s.db.runByKey? tenantId idempotencyKey := by
  cases effect <;> first | rfl | cases h

theorem Snapshots.next (locked : Locked s) (shaped : Shaped s) (snapshots : Snapshots s)
    (hnext : next env s a = some s') : Snapshots s' := by
  constructor
  · intro index session row hworker hrow
    cases worker_case hnext hworker with
    | kept hold hactor =>
        rw [run?_of_lock locked shaped hnext (locked.worker_row hold hrow) hactor]
        exact snapshots.workers index session row hold hrow
    | joined => cases hrow
    | turned hold hactor hcommit hturn hstate =>
        obtain ⟨hquiet, hmine | hread⟩ := hturn.lockedRow? hrow
        · rw [hstate]
          exact (apply_run? hquiet _ _).trans (snapshots.workers index _ row hold hmine)
        · rw [hstate]
          exact (apply_run? hquiet _ _).trans hread
  · intro index session row hcall hrow
    cases call_case hnext hcall with
    | kept hold hactor =>
        rw [run?_of_lock locked shaped hnext (locked.call_row hold hrow) hactor]
        exact snapshots.updates index session row hold hrow
    | joined => cases hrow
    | turned hold hactor hcommit hturn hstate =>
        rw [hstate]
        cases hturn with
        | error => cases hrow
        | move hmove =>
            cases hmove with
            | start hpc hrequest hstart =>
                rw [(ControlPlane.startCreate_idle hstart).1] at hrow
                cases hrow
            | inner hmove =>
                obtain ⟨hquiet, hmine | hread⟩ := hmove.lockedRow? hrow
                · exact (apply_run? hquiet _ _).trans (snapshots.updates index _ row hold hmine)
                · exact (apply_run? hquiet _ _).trans hread
  · intro index session writes row hcall hwrites hrow
    cases call_case hnext hcall with
    | kept hold hactor =>
        obtain ⟨hrun, hkey⟩ := snapshots.inserts index session writes row hold hwrites hrow
        obtain ⟨hlock, hkeylock⟩ := locked.call_insert hold hwrites hrow
        rw [run?_of_lock locked shaped hnext hlock hactor]
        exact ⟨hrun, runByKey?_of_lock locked hnext hkeylock hactor hkey⟩
    | joined => cases hwrites
    | turned hold hactor hcommit hturn hstate =>
        rw [hstate]
        cases hturn with
        | error => cases hwrites
        | move hmove =>
            cases hmove with
            | start hpc hrequest hstart =>
                rw [(ControlPlane.startCreate_idle hstart).2] at hwrites
                cases hwrites
            | inner hmove =>
                obtain ⟨hquiet, hread⟩ := hmove.inserts hwrites hrow
                have habsent : s.db.run? row.id = none ∧
                    s.db.runByKey? row.tenantId row.idempotencyKey = none := by
                  rcases hread with ⟨old, hold', hmine⟩ | hread
                  · exact snapshots.inserts index _ old row hold hold' hmine
                  · exact hread
                exact ⟨(apply_run? hquiet _ _).trans habsent.1,
                  (apply_runByKey? hquiet _ _ _).trans habsent.2⟩

end

/-- What holds of the locks, positions and snapshots in every state of a run. -/
structure Sound (s : State) : Prop where
  locked : Locked s
  shaped : Shaped s
  snapshots : Snapshots s

theorem Sound.next {env : Env} {s s' : State} {a : Action} (sound : Sound s)
    (hnext : next env s a = some s') : Sound s' :=
  ⟨sound.locked.next hnext, sound.shaped.next hnext,
    sound.snapshots.next sound.locked sound.shaped hnext⟩

theorem run_sound {env : Env} {h : History State Action} {s : State} (run : Run env h s) :
    Sound s := by
  refine run.always ?_ fun _ sound hnext => sound.next hnext
  intro s hs
  refine ⟨Locked.initial hs, ⟨by simp [hs.workers], by simp [hs.calls]⟩, ?_⟩
  exact ⟨by simp [hs.workers], by simp [hs.calls], by simp [hs.calls]⟩

namespace Sound

variable {s : State} {index : Nat} {session : ControlPlane.Session} {writes : Writes}
  {run : ControlPlane.StoredRun}

theorem complete (sound : Sound s) (hcall : s.calls[index]? = some session)
    (hpc : session.pc = .commit writes run) :
    ∃ eventType, ControlPlane.Complete session eventType writes := by
  have hshape := sound.shaped.calls index session hcall
  rw [ControlPlane.Shaped, hpc] at hshape
  exact hshape.1

theorem insert_eq (sound : Sound s) (hcall : s.calls[index]? = some session)
    (hpc : session.pc = .commit writes run) {row : RunRow} (hwrite : writes.run = .insert row) :
    ∃ create id now budgetCents, session.request = .createRun create ∧
      row = ControlPlane.newRun session.principal.tenantId create session.handle id now
        budgetCents := by
  obtain ⟨eventType, hcomplete⟩ := sound.complete hcall hpc
  have hopened := hcomplete.opened
  rw [hwrite] at hopened
  exact hopened.2

/-- A committed transition passed `assertTransition` on the row it updates. -/
theorem update_args (sound : Sound s) (hcall : s.calls[index]? = some session)
    (hpc : session.pc = .commit writes run) {row : RunRow} {state : RunState} {approved : Bool}
    {now : Int} (hwrite : writes.run = .update row state approved now) :
    ∃ args, (args = ControlPlane.approveArgs ∨ args = ControlPlane.cancelArgs) ∧
      state = args.state ∧ approved = args.approves ∧ state ∈ allowedTransitions row.state := by
  obtain ⟨eventType, hcomplete⟩ := sound.complete hcall hpc
  have hopened := hcomplete.opened
  rw [hwrite] at hopened
  obtain ⟨args, hargs, -, hstate, happroved, hallowed, -⟩ := hopened
  exact ⟨args, hargs, hstate, happroved, hstate ▸ hallowed⟩

theorem claim_state (sound : Sound s) {session : Worker.Session} {now : Int} {row : RunRow}
    {events : List EventRow} {run : Worker.LeasedRun}
    (hworker : s.workers[index]? = some session)
    (hpc : session.pc = .claimCommit now row events run) : row.state.isPending = true := by
  have hshape := sound.shaped.workers index session hworker
  rw [hpc] at hshape
  have hclaimable := hshape.2.2
  unfold Worker.isClaimable at hclaimable
  cases hstate : row.state <;> simp_all [RunState.isPending]

end Sound

/-! ## Steps of a run row -/

inductive RowStep (env : Env) (s : State) (id : Uuid) :
    Action → Option RunRow → Option RunRow → Prop
  | same {a old} : RowStep env s id a old old
  | created {index choice session writes run row}
      (hcommit : commitOf env s (.call index choice) = some (.request writes))
      (hcall : s.calls[index]? = some session) (hpc : session.pc = .commit writes run)
      (hwrite : writes.run = .insert row) (hid : row.id = id) :
      RowStep env s id (.call index choice) none (some row)
  | transitioned {index choice session writes run row state approved now}
      (hcommit : commitOf env s (.call index choice) = some (.request writes))
      (hcall : s.calls[index]? = some session) (hpc : session.pc = .commit writes run)
      (hwrite : writes.run = .update row state approved now) (hid : row.id = id) :
      RowStep env s id (.call index choice) (some row)
        (some (row.transition state approved now))
  | claimed {index reply session now row events run}
      (hcommit : commitOf env s (.worker index reply) = some (.claim id session.id now events))
      (hworker : s.workers[index]? = some session)
      (hpc : session.pc = .claimCommit now row events run) (hid : row.id = id) :
      RowStep env s id (.worker index reply) (some row) (some (row.claim session.id now))
  | heartbeat {index reply session run step now row}
      (hcommit : commitOf env s (.worker index reply) = some (.heartbeat id (step + 1) now))
      (hworker : s.workers[index]? = some session)
      (hpc : session.pc = .heartbeatUpdate run step now) (hid : run.ref.id = id) :
      RowStep env s id (.worker index reply) (some row) (some (row.heartbeat (step + 1) now))
  | paused {index reply session run step row}
      (hcommit : commitOf env s (.worker index reply) = some (.awaitApproval id step))
      (hworker : s.workers[index]? = some session) (hpc : session.pc = .awaitApproval run step)
      (hid : run.ref.id = id) :
      RowStep env s id (.worker index reply) (some row) (some (row.awaitApproval step))
  | completed {index reply session run row}
      (hcommit : commitOf env s (.worker index reply) = some (.complete id))
      (hworker : s.workers[index]? = some session) (hpc : session.pc = .complete run)
      (hid : run.ref.id = id) :
      RowStep env s id (.worker index reply) (some row) (some row.complete)

theorem row_step {env : Env} {s s' : State} {a : Action} (sound : Sound s)
    (hnext : next env s a = some s') (id : Uuid) :
    RowStep env s id a (s.db.run? id) (s'.db.run? id) := by
  rw [next_run? hnext]
  cases hcommit : commitOf env s a with
  | none => exact .same
  | some change =>
      simp only
      by_cases hsubject : change.subject? = some id
      · cases commitOf_commits hcommit with
        | @request index choice session writes run hcall hpc =>
            obtain ⟨write, event, outbox, audit⟩ := writes
            cases write with
            | insert row =>
                have hid : row.id = id := by simpa [RunWrite.row, Commit.subject?] using hsubject
                have habsent := sound.snapshots.inserts index session _ row hcall
                  (by rw [hpc]; rfl) rfl
                rw [← hid, habsent.1]
                simp only [Commit.rowAfter, RunWrite.rowAfter, if_true, Option.none_or]
                exact .created hcommit hcall hpc rfl rfl
            | update before state approved now =>
                have hid : before.id = id := by
                  simpa [RunWrite.row, RunRow.transition, Commit.subject?] using hsubject
                have hrow := sound.snapshots.updates index session before hcall
                  (by rw [hpc]; rfl)
                rw [← hid, hrow]
                simp only [Commit.rowAfter, RunWrite.rowAfter, if_true, Option.map_some]
                exact .transitioned hcommit hcall hpc rfl rfl
        | @claim index reply session now row events run hworker hpc =>
            have hid : row.id = id := by simpa [Commit.subject?] using hsubject
            have hrow := sound.snapshots.workers index session row hworker (by rw [hpc]; rfl)
            rw [← hid, hrow]
            simp only [Commit.rowAfter, if_true, Option.map_some]
            exact .claimed hcommit hworker hpc rfl
        | @heartbeat index reply session run step now hworker hpc hfree =>
            have hid : run.ref.id = id := by simpa [Commit.subject?] using hsubject
            rw [hid, Commit.rowAfter, if_pos rfl]
            cases s.db.run? id with
            | none => exact .same
            | some row => exact .heartbeat (hid ▸ hcommit) hworker hpc hid
        | @awaitApproval index reply session run step hworker hpc hfree =>
            have hid : run.ref.id = id := by simpa [Commit.subject?] using hsubject
            rw [hid, Commit.rowAfter, if_pos rfl]
            cases s.db.run? id with
            | none => exact .same
            | some row => exact .paused (hid ▸ hcommit) hworker hpc hid
        | @complete index reply session run hworker hpc hfree =>
            have hid : run.ref.id = id := by simpa [Commit.subject?] using hsubject
            rw [hid, Commit.rowAfter, if_pos rfl]
            cases s.db.run? id with
            | none => exact .same
            | some row => exact .completed (hid ▸ hcommit) hworker hpc hid
        | _ => exact .same
      · rw [rowAfter_of_ne hsubject]
        exact .same

/-! ## Unique keys of runs -/

structure RunsKeyed (db : Db) : Prop where
  ids : (db.runs.map RunRow.id).Nodup
  keys : (db.runs.map RunRow.key).Nodup

section

variable {env : Env} {s s' : State} {a : Action} {h : History State Action}

theorem runIds_next (hnext : next env s a = some s') :
    s'.db.runs.map RunRow.id = s.db.runs.map RunRow.id ++
      (((commitOf env s a).bind Commit.inserted?).map RunRow.id).toList := by
  obtain ⟨events, outbox, audits, hdb⟩ := next_db hnext
  rw [hdb]
  cases hcommit : commitOf env s a with
  | none => exact (List.append_nil _).symm
  | some change => exact runs_commit_map RunRow.id (fun h => h.id) _ change

theorem run?_isSome {db : Db} {id : Uuid} :
    (db.run? id).isSome = true ↔ id ∈ db.runs.map RunRow.id := by
  rw [← not_iff_not, ← run?_eq_none]
  simp

theorem inserted_commits {row : RunRow}
    (hinserted : (commitOf env s a).bind Commit.inserted? = some row) :
    ∃ index choice session writes run, a = .call index choice ∧
      commitOf env s a = some (.request writes) ∧ s.calls[index]? = some session ∧
        session.pc = .commit writes run ∧ writes.run = .insert row := by
  obtain ⟨change, hcommit, hrow⟩ := Option.bind_eq_some_iff.mp hinserted
  cases commitOf_commits hcommit with
  | @request index choice session writes run hcall hpc =>
      cases hwrite : writes.run with
      | insert new =>
          simp only [Commit.inserted?, RunWrite.inserted?, hwrite, Option.some.injEq] at hrow
          exact ⟨index, choice, session, writes, run, rfl, hcommit, hcall,
            hpc, by rw [hwrite, hrow]⟩
      | update => simp [Commit.inserted?, RunWrite.inserted?, hwrite] at hrow
  | _ => cases hrow

theorem runKeys_next (hnext : next env s a = some s') :
    s'.db.runs.map RunRow.key = s.db.runs.map RunRow.key ++
      (((commitOf env s a).bind Commit.inserted?).map RunRow.key).toList := by
  obtain ⟨events, outbox, audits, hdb⟩ := next_db hnext
  rw [hdb]
  cases hcommit : commitOf env s a with
  | none => exact (List.append_nil _).symm
  | some change => exact runs_commit_map RunRow.key RunRow.SameRequest.key _ change

theorem RunsKeyed.next (sound : Sound s) (keyed : RunsKeyed s.db)
    (hnext : next env s a = some s') : RunsKeyed s'.db := by
  have hids := runIds_next hnext
  have hkeys := runKeys_next hnext
  cases hinserted : (commitOf env s a).bind Commit.inserted? with
  | none =>
      rw [hinserted] at hids hkeys
      refine ⟨?_, ?_⟩
      · rw [hids]
        simpa using keyed.ids
      · rw [hkeys]
        simpa using keyed.keys
  | some row =>
      obtain ⟨index, choice, session, writes, stored, -, -, hcall, hpc, hwrite⟩ :=
        inserted_commits hinserted
      obtain ⟨hid, hkey⟩ := sound.snapshots.inserts index session writes row hcall
        (by rw [hpc]; rfl) hwrite
      have hid : row.id ∉ s.db.runs.map RunRow.id := run?_eq_none.mp hid
      have hkey : row.key ∉ s.db.runs.map RunRow.key := runByKey?_eq_none.mp hkey
      rw [hinserted] at hids hkeys
      refine ⟨?_, ?_⟩
      · rw [hids]
        simpa only [List.concat_eq_append, Option.map_some, Option.toList_some] using
          keyed.ids.concat hid
      · rw [hkeys]
        simpa only [List.concat_eq_append, Option.map_some, Option.toList_some] using
          keyed.keys.concat hkey

theorem run_runsKeyed (run : Run env h s) : RunsKeyed s.db := by
  refine @Exec.always _ _ _ _ (fun s => RunsKeyed s.db) ?_ ?_ _ _ run
  · intro s hs
    exact ⟨by simp [hs.runs], by simp [hs.runs]⟩
  · intro h s a s' run keyed hnext
    exact keyed.next (run_sound run) hnext

end

end DurableRuntime
