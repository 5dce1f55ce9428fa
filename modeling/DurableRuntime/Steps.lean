import DurableRuntime.ControlPlane.Moves
import DurableRuntime.Rows
import DurableRuntime.System
import DurableRuntime.Worker.Moves

/-!
# The steps of the system

`next`, inverted: `Step` gives every action with its guards, and three views
follow from it.  `next_db` says what becomes of the database, `WorkerCase` and
`CallCase` where a session of the new state comes from, and `Commits` which
session commits what.
-/

namespace DurableRuntime

open DurableRuntime.Foundation

/-- What can become of a delivery: a move, an error of a statement, or the end of its process. -/
inductive Worker.Turn (env : Env) (s : Shared) (session : Worker.Session) :
    Worker.Pc → Effect → Prop
  | move {reply pc effect} (hmove : Worker.Move env s session.id reply session.pc pc effect) :
      Worker.Turn env s session pc effect
  | error (hfail : session.pc.mayFail = true) :
      Worker.Turn env s session (.returned .error) .none
  | crash : Worker.Turn env s session .gone .none

inductive ControlPlane.Turn (env : Env) (s : Shared) (session : ControlPlane.Session) :
    ControlPlane.Session → Effect → Prop
  | move {choice moved effect}
      (hmove : ControlPlane.Move env s choice session moved effect) :
      ControlPlane.Turn env s session moved effect
  | error (hstatement : session.pc.isStatement = true) :
      ControlPlane.Turn env s session { session with pc := .done databaseError } .none

inductive Outbox.Turn (s : Shared) (session : Outbox.Session) : Outbox.Pc → Effect → Prop
  | move {reply pc effect}
      (hmove : Outbox.Move s session.limit reply session.pc pc effect) :
      Outbox.Turn s session pc effect
  | error (hrunning : session.pc.isRunning = true) : Outbox.Turn s session .failed .none

inductive Step (env : Env) (s : State) : Action → State → Prop
  | tick (elapsed : Nat) : Step env s (.tick elapsed) { s with clock := s.clock + elapsed }
  | createWorkflow {principal id body change}
      (hcreate : createWorkflow env s.toShared principal id body = some change) :
      Step env s (.createWorkflow principal id body)
        { s with db := (s.db.draw 0 0 1).commit change }
  | request (principal request) :
      Step env s (.request principal request)
        { s with calls := s.calls ++ [⟨principal, request, none, .route⟩] }
  | call {a index session moved effect} (hactor : actor a = some (.call index))
      (hcommit : commitOf env s a = effect.commit?) (hcall : s.calls[index]? = some session)
      (hturn : ControlPlane.Turn env s.toShared session moved effect) :
      Step env s a (s.moveCall index moved effect)
  | publishPending (limit) :
      Step env s (.publishPending limit)
        { s with publishers := s.publishers ++ [⟨limit, .claimBegin⟩] }
  | publisher {a index session pc effect} (hactor : actor a = some (.publisher index))
      (hcommit : commitOf env s a = effect.commit?)
      (hpublisher : s.publishers[index]? = some session)
      (hturn : Outbox.Turn s.toShared session pc effect) :
      Step env s a (s.movePublisher index session pc effect)
  | deliver {index workerId message} (hmessage : s.stream[index]? = some message)
      (hready : message.acked = false ∧ message.availableAt ≤ s.clock) :
      Step env s (.deliver index workerId)
        { s with
          stream := s.stream.modify index (redeliverAt (s.clock + ackWait))
          workers := s.workers ++ [⟨workerId, index, .received message.payload.runId⟩] }
  | worker {a index session pc effect} (hactor : actor a = some (.worker index))
      (hcommit : commitOf env s a = effect.commit?)
      (hworker : s.workers[index]? = some session)
      (hturn : Worker.Turn env s.toShared session pc effect) :
      Step env s a (s.moveWorker index session pc effect)

section

variable {env : Env} {s s' : State} {a : Action}

theorem next_step (h : next env s a = some s') : Step env s a s' := by
  cases a with
  | tick elapsed =>
      cases h
      exact .tick elapsed
  | createWorkflow principal id body =>
      simp only [next] at h
      split at h
      · cases h
      · rename_i hcreate
        cases h
        exact .createWorkflow hcreate
  | request principal request =>
      cases h
      exact .request principal request
  | call index choice =>
      simp only [next] at h
      split at h
      · cases h
      · rename_i hcall
        split at h
        · cases h
        · rename_i hstep
          cases h
          exact .call rfl (by simp [commitOf, hcall, hstep]) hcall
            (.move (ControlPlane.step_move hstep))
  | callError index =>
      simp only [next] at h
      split at h
      · cases h
      · rename_i hcall
        split at h
        · rename_i hstatement
          cases h
          exact .call rfl rfl hcall (.error hstatement)
        · cases h
  | publishPending limit =>
      cases h
      exact .publishPending limit
  | publisher index reply =>
      simp only [next] at h
      split at h
      · cases h
      · rename_i hpublisher
        split at h
        · cases h
        · rename_i hstep
          cases h
          exact .publisher rfl (by simp [commitOf, hpublisher, hstep]) hpublisher
            (.move (Outbox.step_move hstep))
  | publisherError index =>
      simp only [next] at h
      split at h
      · cases h
      · rename_i hpublisher
        split at h
        · rename_i hrunning
          cases h
          exact .publisher rfl rfl hpublisher (.error hrunning)
        · cases h
  | deliver index workerId =>
      simp only [next] at h
      split at h
      · cases h
      · rename_i hmessage
        split at h
        · rename_i hready
          cases h
          exact .deliver hmessage (by simpa using hready)
        · cases h
  | worker index reply =>
      simp only [next] at h
      split at h
      · cases h
      · rename_i hworker
        split at h
        · cases h
        · rename_i hstep
          cases h
          exact .worker rfl (by simp [commitOf, hworker, hstep]) hworker
            (.move (Worker.step_move hstep))
  | workerError index =>
      simp only [next] at h
      split at h
      · cases h
      · rename_i hworker
        split at h
        · rename_i hfail
          cases h
          exact .worker rfl rfl hworker (.error hfail)
        · cases h
  | crash index =>
      simp only [next] at h
      split at h
      · cases h
      · rename_i hworker
        cases h
        exact .worker rfl rfl hworker .crash

/-! ## The database -/

theorem apply_db (s : Shared) (effect : Effect) :
    ∃ events outbox audits,
      (s.apply effect).db = (s.db.draw events outbox audits).after effect.commit? := by
  cases effect with
  | draw events outbox audits => exact ⟨events, outbox, audits, rfl⟩
  | _ => exact ⟨0, 0, 0, rfl⟩

/-- A step draws identity values and carries out its commit; nothing else reaches the database. -/
theorem next_db (h : next env s a = some s') :
    ∃ events outbox audits,
      s'.db = (s.db.draw events outbox audits).after (commitOf env s a) := by
  cases next_step h with
  | createWorkflow hcreate => exact ⟨0, 0, 1, by simp [commitOf, hcreate, Db.after]⟩
  | call hactor hcommit hcall hturn =>
      rw [hcommit]
      exact apply_db s.toShared _
  | publisher hactor hcommit hpublisher hturn =>
      rw [hcommit]
      exact apply_db s.toShared _
  | worker hactor hcommit hworker hturn =>
      rw [hcommit]
      exact apply_db s.toShared _
  | _ => exact ⟨0, 0, 0, rfl⟩

theorem apply_clock (s : Shared) (effect : Effect) : (s.apply effect).clock = s.clock := by
  cases effect <;> rfl

theorem next_clock (h : next env s a = some s') : s.clock ≤ s'.clock := by
  cases next_step h with
  | tick elapsed => exact Int.le_add_of_nonneg_right (Int.natCast_nonneg elapsed)
  | call => exact Int.le_of_eq (apply_clock _ _).symm
  | publisher => exact Int.le_of_eq (apply_clock _ _).symm
  | worker => exact Int.le_of_eq (apply_clock _ _).symm
  | _ => exact Int.le_refl _

theorem next_extends (h : next env s a = some s') : s.db.Extends s'.db := by
  obtain ⟨events, outbox, audits, hdb⟩ := next_db h
  rw [hdb]
  exact (draw_extends s.db events outbox audits).trans (after_extends _ _)

/-- The columns of a run that come from its request stay what they are. -/
theorem sameRequest_next (h : next env s a = some s') {id : Uuid} {row row' : RunRow}
    (hrow : s.db.run? id = some row) (hrow' : s'.db.run? id = some row') :
    row.SameRequest row' := by
  obtain ⟨later, hlater, hsame⟩ := (next_extends h).runs id row hrow
  rw [hrow', Option.some.injEq] at hlater
  exact hlater ▸ hsame

/-- What a step does to the row of a run is what its commit does to it. -/
theorem next_run? (h : next env s a = some s') (id : Uuid) :
    s'.db.run? id =
      match commitOf env s a with
      | none => s.db.run? id
      | some change => change.rowAfter id (s.db.run? id) := by
  obtain ⟨events, outbox, audits, hdb⟩ := next_db h
  rw [hdb]
  cases commitOf env s a with
  | none => rfl
  | some change => exact run?_commit _ id change

/-- Every state of a run is extended by the ones after it. -/
theorem run_extends {h₁ h₂ : History State Action} {t : State}
    (run : Run env (h₁ ++ (s, a) :: h₂) t) :
    ∃ s', next env s a = some s' ∧ s.db.Extends s'.db ∧ s'.db.Extends t.db :=
  Exec.grows (R := fun s t => s.db.Extends t.db) (fun s => .refl s.db) Db.Extends.trans
    next_extends run

/-! ## Where the sessions of the new state come from -/

inductive WorkerCase (env : Env) (s s' : State) (a : Action) (index : Nat) :
    Worker.Session → Prop
  | kept {session} (hworker : s.workers[index]? = some session)
      (hactor : actor a ≠ some (.worker index)) : WorkerCase env s s' a index session
  | joined {workerId position message} (haction : a = .deliver position workerId)
      (hmessage : s.stream[position]? = some message) (hunacked : message.acked = false)
      (hnew : s.workers[index]? = none) :
      WorkerCase env s s' a index ⟨workerId, position, .received message.payload.runId⟩
  | turned {session pc effect} (hworker : s.workers[index]? = some session)
      (hactor : actor a = some (.worker index)) (hcommit : commitOf env s a = effect.commit?)
      (hturn : Worker.Turn env s.toShared session pc effect)
      (hstate : s' = s.moveWorker index session pc effect) :
      WorkerCase env s s' a index { session with pc }

theorem worker_case (h : next env s a = some s') {index : Nat} {session : Worker.Session}
    (hworker : s'.workers[index]? = some session) : WorkerCase env s s' a index session := by
  cases next_step h with
  | deliver hmessage hready =>
      rcases getElem?_snoc_some hworker with ⟨rfl, rfl⟩ | hworker
      · exact .joined rfl hmessage hready.1 (List.getElem?_eq_none_iff.mpr (Nat.le_refl _))
      · exact .kept hworker (by simp [actor])
  | @worker _ other old pc effect hactor hcommit hold hturn =>
      rcases getElem?_set_some hworker with ⟨rfl, rfl⟩ | ⟨hne, hworker⟩
      · exact .turned hold hactor hcommit hturn rfl
      · refine .kept hworker ?_
        rw [hactor]
        simpa using Ne.symm hne
  | tick => exact .kept hworker (by simp [actor])
  | createWorkflow => exact .kept hworker (by simp [actor])
  | request => exact .kept hworker (by simp [actor])
  | publishPending => exact .kept hworker (by simp [actor])
  | call hactor => exact .kept hworker (by simp [hactor])
  | publisher hactor => exact .kept hworker (by simp [hactor])

theorem worker_action {index : Nat} {reply : Worker.Reply} {old : Worker.Session}
    (h : next env s (.worker index reply) = some s') (hold : s.workers[index]? = some old) :
    ∃ pc effect, Worker.Move env s.toShared old.id reply old.pc pc effect ∧
      commitOf env s (.worker index reply) = effect.commit? ∧
        s'.workers[index]? = some { old with pc } := by
  simp only [next, hold] at h
  split at h
  · cases h
  · rename_i pc effect hstep
    cases h
    exact ⟨pc, effect, Worker.step_move hstep, by simp [commitOf, hold, hstep],
      List.getElem?_set_self (List.getElem?_eq_some_iff.mp hold).1⟩

theorem worker_persists (h : next env s a = some s') {index : Nat} {old : Worker.Session}
    (hold : s.workers[index]? = some old) : ∃ session, s'.workers[index]? = some session := by
  have hlt := (List.getElem?_eq_some_iff.mp hold).1
  have hlt' : index < s'.workers.length := by
    cases next_step h with
    | deliver => exact Nat.lt_of_lt_of_le hlt (by simp)
    | worker => simpa [State.moveWorker] using hlt
    | _ => exact hlt
  exact ⟨_, List.getElem?_eq_getElem hlt'⟩

/-- A worker that goes on has taken a move of its own. -/
theorem worker_moved (h : next env s a = some s') {index : Nat} {session : Worker.Session}
    (hactor : actor a = some (.worker index)) (hworker : s'.workers[index]? = some session)
    (herror : session.pc ≠ .returned .error) (hgone : session.pc ≠ .gone) :
    ∃ reply, a = .worker index reply := by
  have stopped : ∀ {old : Worker.Session} {pc : Worker.Pc}, s.workers[index]? = some old →
      s' = s.moveWorker index old pc .none → session.pc = pc := by
    rintro old pc hold rfl
    have hlt := (List.getElem?_eq_some_iff.mp hold).1
    simp only [State.moveWorker, List.getElem?_set_self hlt, Option.some.injEq] at hworker
    rw [← hworker]
  cases a with
  | worker other reply =>
      cases hactor
      exact ⟨reply, rfl⟩
  | workerError other =>
      cases hactor
      simp only [next] at h
      split at h
      · cases h
      · rename_i hold
        split at h
        · cases h
          exact absurd (stopped hold rfl) herror
        · cases h
  | crash other =>
      cases hactor
      simp only [next] at h
      split at h
      · cases h
      · rename_i hold
        cases h
        exact absurd (stopped hold rfl) hgone
  | _ => cases hactor

inductive CallCase (env : Env) (s s' : State) (a : Action) (index : Nat) :
    ControlPlane.Session → Prop
  | kept {session} (hcall : s.calls[index]? = some session)
      (hactor : actor a ≠ some (.call index)) : CallCase env s s' a index session
  | joined {principal request} (haction : a = .request principal request)
      (hnew : s.calls[index]? = none) :
      CallCase env s s' a index ⟨principal, request, none, .route⟩
  | turned {session moved effect} (hcall : s.calls[index]? = some session)
      (hactor : actor a = some (.call index)) (hcommit : commitOf env s a = effect.commit?)
      (hturn : ControlPlane.Turn env s.toShared session moved effect)
      (hstate : s' = s.moveCall index moved effect) : CallCase env s s' a index moved

theorem call_case (h : next env s a = some s') {index : Nat} {session : ControlPlane.Session}
    (hcall : s'.calls[index]? = some session) : CallCase env s s' a index session := by
  cases next_step h with
  | request principal request =>
      rcases getElem?_snoc_some hcall with ⟨rfl, rfl⟩ | hcall
      · exact .joined rfl (List.getElem?_eq_none_iff.mpr (Nat.le_refl _))
      · exact .kept hcall (by simp [actor])
  | @call _ other old moved effect hactor hcommit hold hturn =>
      rcases getElem?_set_some hcall with ⟨rfl, rfl⟩ | ⟨hne, hcall⟩
      · exact .turned hold hactor hcommit hturn rfl
      · refine .kept hcall ?_
        rw [hactor]
        simpa using Ne.symm hne
  | tick => exact .kept hcall (by simp [actor])
  | createWorkflow => exact .kept hcall (by simp [actor])
  | deliver => exact .kept hcall (by simp [actor])
  | publishPending => exact .kept hcall (by simp [actor])
  | worker hactor => exact .kept hcall (by simp [hactor])
  | publisher hactor => exact .kept hcall (by simp [hactor])

theorem call_action {index : Nat} {choice : Uuid} {session : ControlPlane.Session}
    (h : next env s (.call index choice) = some s') (hcall : s.calls[index]? = some session) :
    ∃ moved effect, ControlPlane.Move env s.toShared choice session moved effect ∧
      s'.calls[index]? = some moved := by
  simp only [next, hcall] at h
  split at h
  · cases h
  · rename_i moved effect hstep
    cases h
    exact ⟨moved, effect, ControlPlane.step_move hstep,
      List.getElem?_set_self (List.getElem?_eq_some_iff.mp hcall).1⟩

/-- A request whose statement has not failed has taken a move of its own. -/
theorem call_moved (h : next env s a = some s') {index : Nat} {session : ControlPlane.Session}
    (hactor : actor a = some (.call index)) (hcall : s'.calls[index]? = some session)
    (herror : session.pc ≠ .done databaseError) : ∃ choice, a = .call index choice := by
  cases a with
  | call other choice =>
      cases hactor
      exact ⟨choice, rfl⟩
  | callError other =>
      cases hactor
      simp only [next] at h
      split at h
      · cases h
      · rename_i old hold
        split at h
        · cases h
          have hlt := (List.getElem?_eq_some_iff.mp hold).1
          simp only [State.moveCall, List.getElem?_set_self hlt, Option.some.injEq] at hcall
          exact absurd (by rw [← hcall]) herror
        · cases h
  | _ => cases hactor

inductive PublisherCase (env : Env) (s s' : State) (a : Action) (index : Nat) :
    Outbox.Session → Prop
  | kept {session} (hpublisher : s.publishers[index]? = some session)
      (hactor : actor a ≠ some (.publisher index)) : PublisherCase env s s' a index session
  | joined {limit} (hnew : s.publishers[index]? = none) :
      PublisherCase env s s' a index ⟨limit, .claimBegin⟩
  | turned {session pc effect} (hpublisher : s.publishers[index]? = some session)
      (hactor : actor a = some (.publisher index))
      (hturn : Outbox.Turn s.toShared session pc effect)
      (hstate : s' = s.movePublisher index session pc effect) :
      PublisherCase env s s' a index { session with pc }

theorem publisher_case (h : next env s a = some s') {index : Nat} {session : Outbox.Session}
    (hpublisher : s'.publishers[index]? = some session) :
    PublisherCase env s s' a index session := by
  cases next_step h with
  | publishPending limit =>
      rcases getElem?_snoc_some hpublisher with ⟨rfl, rfl⟩ | hpublisher
      · exact .joined (List.getElem?_eq_none_iff.mpr (Nat.le_refl _))
      · exact .kept hpublisher (by simp [actor])
  | @publisher _ other old pc effect hactor hcommit hold hturn =>
      rcases getElem?_set_some hpublisher with ⟨rfl, rfl⟩ | ⟨hne, hpublisher⟩
      · exact .turned hold hactor hturn rfl
      · refine .kept hpublisher ?_
        rw [hactor]
        simpa using Ne.symm hne
  | tick => exact .kept hpublisher (by simp [actor])
  | createWorkflow => exact .kept hpublisher (by simp [actor])
  | deliver => exact .kept hpublisher (by simp [actor])
  | request => exact .kept hpublisher (by simp [actor])
  | worker hactor => exact .kept hpublisher (by simp [hactor])
  | call hactor => exact .kept hpublisher (by simp [hactor])

theorem publisher_action {index : Nat} {reply : Outbox.Reply} {old : Outbox.Session}
    (h : next env s (.publisher index reply) = some s')
    (hold : s.publishers[index]? = some old) :
    ∃ pc effect, Outbox.step s.toShared old.limit reply old.pc = some (pc, effect) ∧
      s'.publishers[index]? = some { old with pc } := by
  simp only [next, hold] at h
  split at h
  · cases h
  · rename_i pc effect hstep
    cases h
    exact ⟨pc, effect, hstep, List.getElem?_set_self (List.getElem?_eq_some_iff.mp hold).1⟩

theorem publisherError_action {index : Nat} {old : Outbox.Session}
    (h : next env s (.publisherError index) = some s')
    (hold : s.publishers[index]? = some old) :
    s'.publishers[index]? = some { old with pc := .failed } := by
  simp only [next, hold] at h
  split at h
  · cases h
    exact List.getElem?_set_self (List.getElem?_eq_some_iff.mp hold).1
  · cases h

/-- A publisher that has not failed has taken a move of its own. -/
theorem publisher_moved (h : next env s a = some s') {index : Nat} {session : Outbox.Session}
    (hactor : actor a = some (.publisher index))
    (hpublisher : s'.publishers[index]? = some session) (hfailed : session.pc ≠ .failed) :
    ∃ reply, a = .publisher index reply := by
  cases a with
  | publisher other reply =>
      cases hactor
      exact ⟨reply, rfl⟩
  | publisherError other =>
      cases hactor
      cases hold : s.publishers[index]? with
      | none => simp [next, hold] at h
      | some old =>
          rw [publisherError_action h hold, Option.some.injEq] at hpublisher
          exact absurd (by rw [← hpublisher]) hfailed
  | _ => cases hactor

theorem publisher_persists (h : next env s a = some s') {index : Nat} {old : Outbox.Session}
    (hold : s.publishers[index]? = some old) :
    ∃ session, s'.publishers[index]? = some session := by
  have hlt := (List.getElem?_eq_some_iff.mp hold).1
  have hlt' : index < s'.publishers.length := by
    cases next_step h with
    | publishPending => exact Nat.lt_of_lt_of_le hlt (by simp)
    | publisher => simpa [State.movePublisher] using hlt
    | _ => exact hlt
  exact ⟨_, List.getElem?_eq_getElem hlt'⟩

/-! ## Who commits what -/

inductive Commits (env : Env) (s : State) : Action → Commit → Prop
  | createWorkflow {principal id body workflow}
      (hschema : workflowDefinitionSchema body = some workflow)
      (hinsertable : definitionInsertable s.db (definitionRow principal id workflow) = true)
      (hheld : definitionHeld env (definitionRow principal id workflow) = true) :
      Commits env s (.createWorkflow principal id body)
        (.createWorkflow (definitionRow principal id workflow)
          (ControlPlane.auditRow s.toShared principal s.clock "workflow.created" id))
  | request {index choice session writes run} (hcall : s.calls[index]? = some session)
      (hpc : session.pc = .commit writes run) :
      Commits env s (.call index choice) (.request writes)
  | outboxAttempts {index reply session messages}
      (hpublisher : s.publishers[index]? = some session)
      (hpc : session.pc = .claimCommit messages) :
      Commits env s (.publisher index reply) (.outboxAttempts (messages.map (·.id)))
  | outboxPublished {index reply session now delivered}
      (hpublisher : s.publishers[index]? = some session)
      (hpc : session.pc = .marking now delivered []) :
      Commits env s (.publisher index reply) (.outboxPublished delivered now)
  | claim {index reply session now row events run}
      (hworker : s.workers[index]? = some session)
      (hpc : session.pc = .claimCommit now row events run) :
      Commits env s (.worker index reply) (.claim row.id session.id now events)
  | effect {index reply session run step} (hworker : s.workers[index]? = some session)
      (hpc : session.pc = .effect run step) (hfree : s.free (.run run.ref.id) = true)
      (habsent : s.db.effect? run.tenantId (Worker.effectKey run.ref.text step) = none) :
      Commits env s (.worker index reply) (.effect (Worker.effectRow run step))
  | stepResult {index reply session run step kind status safeLabel}
      (hworker : s.workers[index]? = some session)
      (hpc : session.pc = .record run step kind status safeLabel)
      (hfree : s.free (.run run.ref.id) = true) :
      Commits env s (.worker index reply)
        (.stepResult (Worker.stepResultRow env run step kind status safeLabel))
  | awaitApproval {index reply session run step} (hworker : s.workers[index]? = some session)
      (hpc : session.pc = .awaitApproval run step)
      (hfree : s.free (.run run.ref.id) = true) :
      Commits env s (.worker index reply) (.awaitApproval run.ref.id step)
  | heartbeat {index reply session run step now} (hworker : s.workers[index]? = some session)
      (hpc : session.pc = .heartbeatUpdate run step now)
      (hfree : s.free (.run run.ref.id) = true) :
      Commits env s (.worker index reply) (.heartbeat run.ref.id (step + 1) now)
  | complete {index reply session run} (hworker : s.workers[index]? = some session)
      (hpc : session.pc = .complete run) (hfree : s.free (.run run.ref.id) = true) :
      Commits env s (.worker index reply) (.complete run.ref.id)
  | event {index reply session run row after} (hworker : s.workers[index]? = some session)
      (hpc : session.pc = .eventCommit run row after)
      (hfree : s.free (.run run.ref.id) = true) :
      Commits env s (.worker index reply) (.event row)

theorem startCreate_commit {s : Shared} {session moved : ControlPlane.Session}
    {create : ControlPlane.CreateRun} {choice : Uuid} {effect : Effect}
    (h : ControlPlane.startCreate s session create choice = some (moved, effect)) :
    effect.commit? = none := by
  cases ControlPlane.startCreate_start h with
  | _ => rfl

theorem ControlPlane.Turn.same {s : Shared} {session moved : ControlPlane.Session}
    {effect : Effect} (hturn : ControlPlane.Turn env s session moved effect) :
    moved.principal = session.principal ∧ moved.request = session.request := by
  cases hturn with
  | error => exact ⟨rfl, rfl⟩
  | move hmove =>
      cases hmove with
      | start hpc hrequest hstart =>
          cases ControlPlane.startCreate_start hstart with
          | _ => exact ⟨rfl, rfl⟩
      | inner => exact ⟨rfl, rfl⟩

theorem consumeCredential_commit (env : Env) (s : Shared) (handle : Uuid)
    (delivery : Worker.Delivery) :
    (Worker.consumeCredential env s handle delivery).2.commit? = none := by
  unfold Worker.consumeCredential
  repeat' split
  all_goals rfl

theorem commitOf_commits {c : Commit} (h : commitOf env s a = some c) : Commits env s a c := by
  cases a with
  | createWorkflow principal id body =>
      simp only [commitOf, createWorkflow] at h
      split at h
      · split at h
        · cases h
        · rename_i workflow hschema
          split at h
          · rename_i hrow
            rw [Bool.and_eq_true] at hrow
            cases h
            exact .createWorkflow hschema hrow.2 hrow.1
          · cases h
      · cases h
  | call index choice =>
      simp only [commitOf, Option.bind_eq_some_iff] at h
      obtain ⟨session, hcall, ⟨moved, effect⟩, hstep, hcommit⟩ := h
      cases ControlPlane.step_move hstep with
      | start hpc hrequest hstart =>
          rw [startCreate_commit hstart] at hcommit
          cases hcommit
      | inner hmove =>
          generalize hpc : session.pc = pc at hmove
          cases hmove <;> cases hcommit
          exact .request hcall hpc
  | publisher index reply =>
      simp only [commitOf, Option.bind_eq_some_iff] at h
      obtain ⟨session, hpublisher, ⟨pc', effect⟩, hstep, hcommit⟩ := h
      have hmove := Outbox.step_move hstep
      generalize hpc : session.pc = pc at hmove
      cases hmove with
      | claimCommit messages =>
          cases hcommit
          exact .outboxAttempts hpublisher hpc
      | marked now delivered =>
          cases hcommit
          exact .outboxPublished hpublisher hpc
      | _ => cases hcommit
  | worker index reply =>
      simp only [commitOf, Option.bind_eq_some_iff] at h
      obtain ⟨session, hworker, ⟨pc', effect⟩, hstep, hcommit⟩ := h
      have hmove := Worker.step_move hstep
      generalize hpc : session.pc = pc at hmove
      cases hmove with
      | consume run step handle prompt delivery =>
          rw [consumeCredential_commit] at hcommit
          cases hcommit
      | claimCommit =>
          cases hcommit
          exact .claim hworker hpc
      | effectCommitted hfree habsent =>
          cases hcommit
          exact .effect hworker hpc hfree habsent
      | record hfree =>
          cases hcommit
          exact .stepResult hworker hpc hfree
      | awaitApproval hfree =>
          cases hcommit
          exact .awaitApproval hworker hpc hfree
      | heartbeatUpdate hfree =>
          cases hcommit
          exact .heartbeat hworker hpc hfree
      | complete hfree =>
          cases hcommit
          exact .complete hworker hpc hfree
      | eventCommit hfree =>
          cases hcommit
          exact .event hworker hpc hfree
      | _ => cases hcommit
  | _ => cases h

end

end DurableRuntime
