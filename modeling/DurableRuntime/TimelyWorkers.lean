import DurableRuntime.Fencing

/-!
# Workers that keep their leases

A claim leaves a lease of thirty seconds, and every heartbeat renews it.  A
worker that makes its next update before its lease has run out keeps the run to
itself: nobody claims the run in between, and the workers that had it before
have nothing left to write to its row.
-/

namespace DurableRuntime

open DurableRuntime.Foundation

namespace Worker

/-- The run whose row the execution is still to update.  After its last update only an event
is left. -/
def Pc.working? : Pc → Option LeasedRun
  | event _ _ _ .ret | eventCommit _ _ .ret => none
  | pc => pc.executing?

def Session.Works (session : Session) (runId : Uuid) : Prop :=
  ∃ run, session.pc.working? = some run ∧ run.ref.id = runId

end Worker

/-- The time from which a claim or a heartbeat counts the lease that it writes. -/
def renewed? (env : Env) (s : State) (a : Action) : Option Int :=
  match commitOf env s a with
  | some (.claim _ _ now _) | some (.heartbeat _ _ now) => some now
  | _ => none

/-- The time of the last claim or heartbeat of a worker. -/
def renewal? (env : Env) (index : Nat) (h : History State Action) : Option Int :=
  h.foldl
    (fun last p =>
      if actor p.2 = some (.worker index) then (renewed? env p.1 p.2).or last else last)
    none

/-- Thirty seconds after its last claim or heartbeat no worker has an update of its run left. -/
def Timely (env : Env) (h : History State Action) (s : State) : Prop :=
  ∀ index session runId instant, s.workers[index]? = some session → session.Works runId →
    renewal? env index h = some instant → s.clock ≤ instant + leaseInterval

/-- The lease in the row is the worker's own; a request may have cancelled the run meanwhile. -/
structure HoldsLease (env : Env) (h : History State Action) (index : Nat)
    (session : Worker.Session) (row : RunRow) : Prop where
  state : row.state = .running ∨ row.state = .cancelled
  owner : row.leaseOwner = some session.id
  expiry : ∃ instant, renewal? env index h = some instant ∧
    row.leaseExpiresAt = some (instant + leaseInterval)

/-- One worker at a time works on the run, and nobody claims it meanwhile. -/
structure Guarded (env : Env) (h : History State Action) (s : State) (id : Uuid) : Prop where
  unique : ∀ (i j : Nat) (session other : Worker.Session), s.workers[i]? = some session →
    s.workers[j]? = some other → session.Works id → other.Works id → i = j
  lease : ∀ (index : Nat) (session : Worker.Session), s.workers[index]? = some session →
    session.Works id → ∃ row, s.db.run? id = some row ∧ HoldsLease env h index session row
  cursor : ∀ (index : Nat) (session : Worker.Session) run step row,
    s.workers[index]? = some session → session.pc.stage.cursor? = some (run, step) →
      run.ref.id = id → s.db.run? id = some row → row.currentStep ≤ step
  claims : ∀ (index : Nat) (session : Worker.Session) (row : RunRow),
    s.workers[index]? = some session → session.pc.lockedRow? = some row → row.id = id →
      ∀ other ∈ s.workers, ¬other.Works id

/-- The transaction of a claim has started before it selects. -/
def ClaimsStarted (s : State) : Prop :=
  ∀ (index : Nat) (session : Worker.Session) ref now, s.workers[index]? = some session →
    session.pc = .claimSelect ref now → now ≤ s.clock

/-! ## Moves of a working session -/

namespace Worker

variable {env : Env} {s : Shared} {session : Session} {pc : Pc} {effect : Effect}

theorem working_of_branch (hbranch : pc.isBranch = true) : pc.working? = pc.executing? := by
  cases pc <;> first | rfl | cases hbranch

theorem lockedRow?_of_branch (hbranch : pc.isBranch = true) : pc.lockedRow? = none := by
  cases pc <;> first | rfl | cases hbranch

theorem executing_of_working {run : LeasedRun} (h : pc.working? = some run) :
    pc.executing? = some run := by
  unfold Pc.working? at h
  split at h
  · cases h
  · cases h
  · exact h

theorem working_of_cursor {run : LeasedRun} {index : Nat}
    (h : pc.stage.cursor? = some (run, index)) : pc.working? = some run := by
  have hexecuting := cursor_executing h
  unfold Pc.working?
  split
  · cases h
  · cases h
  · exact hexecuting

/-- A session works on a run from the commit of its claim on. -/
theorem Turn.working (hturn : Turn env s session pc effect) {run : LeasedRun}
    (h : pc.working? = some run) :
    session.pc.working? = some run ∨ ∃ now row events,
      session.pc = .claimCommit now row events run ∧
        effect = .commit (.claim row.id session.id now events) := by
  cases hturn with
  | error => cases h
  | crash => cases h
  | move hmove =>
      generalize session.pc = old at hmove
      cases hmove with
      | received runId =>
          unfold process at h
          repeat' split at h
          all_goals cases h
      | claimCommit now row events run =>
          cases h
          exact .inr ⟨now, row, events, rfl, rfl⟩
      | execute run =>
          rw [working_of_branch (execute_branch run), execute_executing] at h
          exact .inl h
      | loop run index =>
          rw [working_of_branch (loop_branch env run index), loop_executing] at h
          exact .inl h
      | consume run index handle prompt delivery =>
          rw [working_of_branch (withCredential_branch env run index prompt _),
            withCredential_executing] at h
          exact .inl h
      | @record _ run index kind status safeLabel hfree => cases status <;> exact .inl h
      | event run eventType detail after =>
          cases after with
          | ret => cases h
          | advance index => exact .inl h
      | @eventCommit _ run row after hfree =>
          cases after with
          | ret => cases h
          | advance index => exact .inl h
      | claimBegin => cases h
      | claimEmpty => cases h
      | claimFound => cases h
      | claimUpdate => cases h
      | claimEvents => cases h
      | claimUndecodable => cases h
      | terminate => cases h
      | awaitApproval => cases h
      | complete => cases h
      | nak => cases h
      | ack => cases h
      | _ => exact .inl h

/-- The run that a claim has locked is the claimable one that its `select` has found. -/
theorem Turn.locks (hturn : Turn env s session pc effect) {row : RunRow}
    (h : pc.lockedRow? = some row) :
    session.pc.lockedRow? = some row ∨ ∃ ref now, session.pc = .claimSelect ref now ∧
      s.db.run? row.id = some row ∧ isClaimable now row = true := by
  cases hturn with
  | error => cases h
  | crash => cases h
  | move hmove =>
      generalize session.pc = old at hmove
      cases hmove with
      | claimFound hselect =>
          cases h
          obtain ⟨-, hrow, hid, -, hclaimable⟩ := claimable_free hselect
          exact .inr ⟨_, _, rfl, hid ▸ hrow, hclaimable⟩
      | claimUpdate => exact .inl h
      | claimEvents => exact .inl h
      | received runId =>
          unfold process at h
          repeat' split at h
          all_goals cases h
      | execute run =>
          rw [lockedRow?_of_branch (execute_branch run)] at h
          cases h
      | loop run index =>
          rw [lockedRow?_of_branch (loop_branch env run index)] at h
          cases h
      | consume run index handle prompt delivery =>
          rw [lockedRow?_of_branch (withCredential_branch env run index prompt _)] at h
          cases h
      | @record _ run index kind status safeLabel hfree => cases status <;> cases h
      | @eventCommit _ run row after hfree => cases after <;> cases h
      | _ => cases h

theorem Turn.selects (hturn : Turn env s session pc effect) {ref : RunRef} {now : Int}
    (h : pc = .claimSelect ref now) : now = s.clock := by
  cases hturn with
  | error => cases h
  | crash => cases h
  | move hmove =>
      generalize session.pc = old at hmove
      subst h
      generalize hpc : Pc.claimSelect ref now = new at hmove
      cases hmove with
      | claimBegin =>
          cases hpc
          rfl
      | received runId =>
          unfold process at hpc
          repeat' split at hpc
          all_goals cases hpc
      | execute run =>
          have hbranch := execute_branch run
          rw [← hpc] at hbranch
          cases hbranch
      | loop run index =>
          have hbranch := loop_branch env run index
          rw [← hpc] at hbranch
          cases hbranch
      | consume run index handle prompt delivery =>
          have hbranch := withCredential_branch env run index prompt
            (consumeCredential env s handle delivery).1
          rw [← hpc] at hbranch
          cases hbranch
      | @record _ run index kind status safeLabel hfree => cases status <;> cases hpc
      | @eventCommit _ run row after hfree => cases after <;> cases hpc
      | _ => cases hpc

end Worker

section

variable {env : Env} {s s' : State} {a : Action} {h : History State Action} {id : Uuid}

theorem works_of_cursor {session : Worker.Session} {run : Worker.LeasedRun} {step : Nat}
    (hcursor : session.pc.stage.cursor? = some (run, step)) : session.Works run.ref.id :=
  ⟨run, Worker.working_of_cursor hcursor, rfl⟩

theorem renewal?_snoc (index : Nat) :
    renewal? env index (h ++ [(s, a)]) =
      if actor a = some (.worker index) then (renewed? env s a).or (renewal? env index h)
      else renewal? env index h := by
  simp [renewal?, List.foldl_append]

theorem run_claimsStarted (run : Run env h s) : ClaimsStarted s := by
  refine run.always ?_ ?_
  · intro s hs index session ref now hworker
    simp [hs.workers] at hworker
  · intro h s a s' run started hnext index session ref now hworker hpc
    have hclock := next_clock hnext
    cases worker_case hnext hworker with
    | kept hold hactor => exact Int.le_trans (started index _ ref now hold hpc) hclock
    | joined => cases hpc
    | turned hold hactor hcommit hturn hstate =>
        rw [hturn.selects hpc]
        exact hclock

/-- Who works on a run after a step worked on it before, or has just claimed it. -/
theorem works_next (run : Run env h s) (hnext : next env s a = some s') {index : Nat}
    {session : Worker.Session} (hworker : s'.workers[index]? = some session)
    (hworks : session.Works id) :
    (∃ old, s.workers[index]? = some old ∧ old.Works id ∧ old.id = session.id) ∨
      ∃ old now row events leased, s.workers[index]? = some old ∧ old.id = session.id ∧
        actor a = some (.worker index) ∧ old.pc = .claimCommit now row events leased ∧
          row.id = id ∧ commitOf env s a = some (.claim id session.id now events) := by
  obtain ⟨leased, hworking, hid⟩ := hworks
  cases worker_case hnext hworker with
  | kept hold hactor => exact .inl ⟨session, hold, ⟨leased, hworking, hid⟩, rfl⟩
  | joined => cases hworking
  | @turned old pc effect hold hactor hcommit hturn hstate =>
      rcases hturn.working hworking with hmine | ⟨now, row, events, hpc, rfl⟩
      · exact .inl ⟨old, hold, ⟨leased, hmine, hid⟩, rfl⟩
      · have hshape := (run_shaped run).workers index old hold
        rw [hpc] at hshape
        have hrow : row.id = id := hshape.1.id.trans hid
        refine .inr ⟨old, now, row, events, leased, hold, rfl, hactor, hpc, hrow, ?_⟩
        rw [hcommit, ← hrow]
        rfl

theorem Guarded.unique_next (run : Run env h s) (guarded : Guarded env h s id)
    (hnext : next env s a = some s') :
    ∀ (i j : Nat) (session other : Worker.Session), s'.workers[i]? = some session →
      s'.workers[j]? = some other → session.Works id → other.Works id → i = j := by
  intro i j session other hworker hother hworks hworks'
  rcases works_next run hnext hworker hworks with ⟨old, hold, holds, -⟩ |
    ⟨old, now, row, events, leased, hold, -, hactor, hpc, hid, -⟩
  · rcases works_next run hnext hother hworks' with ⟨old', hold', holds', -⟩ |
      ⟨old', now, row, events, leased, hold', -, -, hpc, hid, -⟩
    · exact guarded.unique i j old old' hold hold' holds holds'
    · have hidle := guarded.claims j old' row hold' (by rw [hpc]; rfl) hid
      exact absurd holds (hidle old (List.mem_of_getElem? hold))
  · rcases works_next run hnext hother hworks' with ⟨old', hold', holds', -⟩ |
      ⟨old', now', row', events', leased', hold', -, hactor', hpc', hid', -⟩
    · have hidle := guarded.claims i old row hold (by rw [hpc]; rfl) hid
      exact absurd holds' (hidle old' (List.mem_of_getElem? hold'))
    · rw [hactor, Option.some.injEq, Holder.worker.injEq] at hactor'
      exact hactor'

/-- A run that somebody works on cannot be claimed, as long as nobody is late. -/
theorem Guarded.not_claimable (guarded : Guarded env h s id) (htimely : Timely env h s)
    {index : Nat} {session : Worker.Session} {row : RunRow} {now : Int}
    (hworker : s.workers[index]? = some session) (hworks : session.Works id)
    (hrow : s.db.run? id = some row) (hnow : now ≤ s.clock) :
    Worker.isClaimable now row = false := by
  obtain ⟨row', hrow', hlease⟩ := guarded.lease index session hworker hworks
  rw [hrow, Option.some.injEq] at hrow'
  subst hrow'
  obtain ⟨instant, hrenewal, hexpiry⟩ := hlease.expiry
  have hlate := htimely index session id instant hworker hworks hrenewal
  have hexpired : ¬instant + leaseInterval < now := by omega
  rcases hlease.state with hstate | hstate
  · simp [Worker.isClaimable, hstate, hexpiry, hexpired]
  · simp [Worker.isClaimable, hstate]

theorem not_works_of_locked {session : Worker.Session} {row : RunRow}
    (hlocked : session.pc.lockedRow? = some row) : ¬session.Works id := by
  rintro ⟨run, hworking, -⟩
  have hexecuting := Worker.executing_of_working hworking
  cases hpc : session.pc <;> simp_all [Worker.Pc.lockedRow?, Worker.Pc.executing?]

theorem Guarded.claims_next (run : Run env h s) (guarded : Guarded env h s id)
    (htimely : Timely env h s) (hnext : next env s a = some s') {index : Nat}
    {session : Worker.Session} {row : RunRow} (hworker : s'.workers[index]? = some session)
    (hlocked : session.pc.lockedRow? = some row) (hid : row.id = id) :
    ∀ other ∈ s'.workers, ¬other.Works id := by
  intro other hother hworks
  obtain ⟨j, hother⟩ := List.mem_iff_getElem?.mp hother
  have locked := (run_sound run).locked
  rcases works_next run hnext hother hworks with ⟨old', hold', holds', -⟩ |
    ⟨old', now', row', events, leased, hold', -, hactor', hpc', hid', -⟩
  · have hmem := List.mem_of_getElem? hold'
    cases worker_case hnext hworker with
    | kept hold hactor => exact guarded.claims index _ row hold hlocked hid old' hmem holds'
    | joined => cases hlocked
    | turned hold hactor hcommit hturn hstate =>
        rcases hturn.locks hlocked with hmine | ⟨ref, now, hpc, hrow, hclaimable⟩
        · exact guarded.claims index _ row hold hmine hid old' hmem holds'
        · have hnow := run_claimsStarted run index _ ref now hold hpc
          rw [guarded.not_claimable htimely hold' holds' (hid ▸ hrow) hnow] at hclaimable
          cases hclaimable
  · cases worker_case hnext hworker with
    | kept hold hactor =>
        have hlock := locked.worker_row hold hlocked
        have hlockedRow' : old'.pc.lockedRow? = some row' := by rw [hpc']; rfl
        have hlock' := locked.worker_row hold' hlockedRow'
        rw [hid', ← hid, hlock, Option.some.injEq] at hlock'
        exact hactor (hlock' ▸ hactor')
    | joined => cases hlocked
    | turned hold hactor hcommit hturn hstate =>
        rw [hactor, Option.some.injEq, Holder.worker.injEq] at hactor'
        rw [hactor', hother, Option.some.injEq] at hworker
        exact not_works_of_locked (hworker ▸ hlocked) hworks

/-- Whoever commits a heartbeat, a pause or the end of the run is the one who works on it. -/
theorem Guarded.commits_own (guarded : Guarded env h s id) {index : Nat}
    {session : Worker.Session} (hworker : s.workers[index]? = some session)
    (hworks : session.Works id)
    (hcommit : (∃ step now, commitOf env s a = some (.heartbeat id step now)) ∨
      (∃ step, commitOf env s a = some (.awaitApproval id step)) ∨
        commitOf env s a = some (.complete id)) :
    actor a = some (.worker index) := by
  rcases hcommit with ⟨step, now, hcommit⟩ | ⟨step, hcommit⟩ | hcommit
  · cases commitOf_commits hcommit with
    | @heartbeat j reply other run step now hother hpc hfree =>
        rw [guarded.unique index j session other hworker hother hworks ⟨run, by rw [hpc]; rfl, rfl⟩]
        rfl
  · cases commitOf_commits hcommit with
    | @awaitApproval j reply other run step hother hpc hfree =>
        rw [guarded.unique index j session other hworker hother hworks ⟨run, by rw [hpc]; rfl, rfl⟩]
        rfl
  · cases commitOf_commits hcommit with
    | @complete j reply other run hother hpc hfree =>
        rw [guarded.unique index j session other hworker hother hworks ⟨run, by rw [hpc]; rfl, rfl⟩]
        rfl

/-- Without a heartbeat of its own the lease of a working session counts from the same time. -/
theorem renewal?_kept {index : Nat} {session : Worker.Session}
    (hworker : s.workers[index]? = some session) (hworks : session.Works id)
    (hbeat : ∀ step now, commitOf env s a ≠ some (.heartbeat id step now)) :
    renewal? env index (h ++ [(s, a)]) = renewal? env index h := by
  rw [renewal?_snoc]
  split
  · rename_i hactor
    have hnone : renewed? env s a = none := by
      unfold renewed?
      split
      · rename_i runId owner now events hcommit
        exfalso
        cases commitOf_commits hcommit with
        | @claim j reply other now row events run hother hpc =>
            rw [actor, Option.some.injEq, Holder.worker.injEq] at hactor
            subst hactor
            rw [hworker, Option.some.injEq] at hother
            subst hother
            have hlockedRow : session.pc.lockedRow? = some row := by rw [hpc]; rfl
            exact not_works_of_locked hlockedRow hworks
      · rename_i runId step now hcommit
        exfalso
        cases commitOf_commits hcommit with
        | @heartbeat j reply other run step now hother hpc hfree =>
            rw [actor, Option.some.injEq, Holder.worker.injEq] at hactor
            subst hactor
            rw [hworker, Option.some.injEq] at hother
            subst hother
            obtain ⟨run', hworking, hid⟩ := hworks
            rw [hpc] at hworking
            cases hworking
            exact hbeat (step + 1) now (hid ▸ hcommit)
      · rfl
    rw [hnone, Option.none_or]
  · rfl

/-- All that a transition can do to a run that somebody works on is to cancel it. -/
theorem cancelled_of_transition (sound : Sound s) {index : Nat} {session : ControlPlane.Session}
    {writes : Writes} {stored : ControlPlane.StoredRun} {row : RunRow}
    {state : RunState} {approved : Bool} {now : Int} (hcall : s.calls[index]? = some session)
    (hpc : session.pc = .commit writes stored)
    (hwrite : writes.run = .update row state approved now)
    (hstate : row.state = .running ∨ row.state = .cancelled) :
    state = .cancelled ∧ approved = false := by
  obtain ⟨args, hargs, rfl, rfl, hallowed⟩ := sound.update_args hcall hpc hwrite
  rcases hargs with rfl | rfl
  · exfalso
    rcases hstate with hstate | hstate
    · rw [hstate] at hallowed
      revert hallowed
      decide
    · rw [hstate] at hallowed
      revert hallowed
      decide
  · exact ⟨rfl, rfl⟩

/-- A pause, and the end of the run, leave the worker without further updates. -/
theorem not_works_of_last (hnext : next env s a = some s') {index : Nat}
    {session : Worker.Session} (hworker : s'.workers[index]? = some session)
    (hactor : actor a = some (.worker index)) {change : Commit}
    (hcommit : commitOf env s a = some change)
    (hlast : (∃ step, change = .awaitApproval id step) ∨ change = .complete id) :
    ¬session.Works id := by
  rintro ⟨run, hworking, -⟩
  cases worker_case hnext hworker with
  | kept hold hother => exact hother hactor
  | joined => cases hworking
  | @turned old pc effect hold hactor hcommit' hturn hstate =>
      rw [hcommit] at hcommit'
      cases hturn with
      | error => cases hworking
      | crash => cases hworking
      | move hmove =>
          generalize old.pc = before at hmove
          cases hmove with
          | awaitApproval => cases hworking
          | complete => cases hworking
          | consume run index handle prompt delivery =>
              rw [consumeCredential_commit] at hcommit'
              cases hcommit'
          | _ => rcases hlast with ⟨step, rfl⟩ | rfl <;> cases hcommit'

theorem Guarded.lease_next (run : Run env h s) (guarded : Guarded env h s id)
    (hnext : next env s a = some s') {index : Nat} {session : Worker.Session}
    (hworker : s'.workers[index]? = some session) (hworks : session.Works id) :
    ∃ row, s'.db.run? id = some row ∧ HoldsLease env (h ++ [(s, a)]) index session row := by
  have sound := run_sound run
  rcases works_next run hnext hworker hworks with ⟨old, hold, holds, howner⟩ |
    ⟨old, now, row, events, leased, hold, howner, hactor, hpc, hid, hcommit⟩
  · obtain ⟨row, hrow, hlease⟩ := guarded.lease index old hold holds
    by_cases hbeat : ∃ step now, commitOf env s a = some (.heartbeat id step now)
    · obtain ⟨step, now, hcommit⟩ := hbeat
      have hactor := guarded.commits_own hold holds (.inl ⟨step, now, hcommit⟩)
      refine ⟨row.heartbeat step now, ?_, hlease.state, howner ▸ hlease.owner, now, ?_, rfl⟩
      · rw [next_run? hnext, hcommit, hrow]
        simp [Commit.rowAfter]
      · rw [renewal?_snoc, if_pos hactor, renewed?, hcommit]
        rfl
    · have hbeat' : ∀ step now, commitOf env s a ≠ some (.heartbeat id step now) :=
        fun step now hcommit => hbeat ⟨step, now, hcommit⟩
      have hrenewal := renewal?_kept (h := h) hold holds hbeat'
      obtain ⟨instant, hrenewed, hexpiry⟩ := hlease.expiry
      have hsame : HoldsLease env (h ++ [(s, a)]) index session row :=
        ⟨hlease.state, howner ▸ hlease.owner, instant, hrenewal.trans hrenewed, hexpiry⟩
      have hstep := row_step sound hnext id
      rw [hrow] at hstep
      generalize s'.db.run? id = after at hstep
      cases hstep with
      | same => exact ⟨row, rfl, hsame⟩
      | transitioned hcommit hcall hpc hwrite hid =>
          obtain ⟨rfl, rfl⟩ := cancelled_of_transition sound hcall hpc hwrite hlease.state
          exact ⟨_, rfl, .inr rfl, hsame.owner, hsame.expiry⟩
      | claimed hcommit hother hpc hid =>
          exact absurd holds (guarded.claims _ _ row hother (by rw [hpc]; rfl) hid old
            (List.mem_of_getElem? hold))
      | heartbeat hcommit => exact absurd hcommit (hbeat' _ _)
      | paused hcommit =>
          have hactor := guarded.commits_own hold holds (.inr (.inl ⟨_, hcommit⟩))
          exact absurd hworks (not_works_of_last hnext hworker hactor hcommit (.inl ⟨_, rfl⟩))
      | completed hcommit =>
          have hactor := guarded.commits_own hold holds (.inr (.inr hcommit))
          exact absurd hworks (not_works_of_last hnext hworker hactor hcommit (.inr rfl))
  · refine ⟨row.claim session.id now, ?_, ?_⟩
    · have hrow := sound.snapshots.workers index old row hold (by rw [hpc]; rfl)
      rw [next_run? hnext, hcommit, ← hid, hrow]
      simp [Commit.rowAfter]
    · refine ⟨.inl rfl, rfl, now, ?_, rfl⟩
      rw [renewal?_snoc, if_pos hactor, renewed?, hcommit]
      rfl

/-- Only its own heartbeats move a run on that somebody works on. -/
theorem Guarded.step_kept (run : Run env h s) (guarded : Guarded env h s id)
    (hnext : next env s a = some s') {index : Nat} {session : Worker.Session} {row row' : RunRow}
    (hworker : s.workers[index]? = some session) (hworks : session.Works id)
    (hrow : s.db.run? id = some row) (hrow' : s'.db.run? id = some row')
    (hbeat : ∀ step now, commitOf env s a ≠ some (.heartbeat id step now))
    (hpause : ∀ step, commitOf env s a ≠ some (.awaitApproval id step)) :
    row'.currentStep = row.currentStep := by
  have sound := run_sound run
  obtain ⟨found, hfound, hlease⟩ := guarded.lease index session hworker hworks
  rw [hrow, Option.some.injEq] at hfound
  subst hfound
  have hstep := row_step sound hnext id
  rw [hrow, hrow'] at hstep
  cases hstep with
  | same => rfl
  | transitioned hcommit hcall hpc hwrite hid =>
      obtain ⟨rfl, rfl⟩ := cancelled_of_transition sound hcall hpc hwrite hlease.state
      rfl
  | claimed => rfl
  | heartbeat hcommit => exact absurd hcommit (hbeat _ _)
  | paused hcommit => exact absurd hcommit (hpause _)
  | completed => rfl

theorem Guarded.cursor_next (run : Run env h s) (guarded : Guarded env h s id)
    (hnext : next env s a = some s') {index : Nat} {session : Worker.Session}
    {leased : Worker.LeasedRun} {step : Nat} {row' : RunRow}
    (hworker : s'.workers[index]? = some session)
    (hcursor : session.pc.stage.cursor? = some (leased, step)) (hid : leased.ref.id = id)
    (hrow' : s'.db.run? id = some row') : row'.currentStep ≤ step := by
  subst hid
  have sound := run_sound run
  cases worker_case hnext hworker with
  | joined => cases hcursor
  | kept hold hactor =>
      have hworks := works_of_cursor hcursor
      obtain ⟨row, hrow, -⟩ := guarded.lease index session hold hworks
      have hsame := guarded.step_kept run hnext hold hworks hrow hrow'
        (fun step now hcommit =>
          hactor (guarded.commits_own hold hworks (.inl ⟨step, now, hcommit⟩)))
        (fun step hcommit =>
          hactor (guarded.commits_own hold hworks (.inr (.inl ⟨step, hcommit⟩))))
      rw [hsame]
      exact guarded.cursor index session leased step row hold hcursor rfl hrow
  | @turned old pc effect hold hactor hcommit hturn hstate =>
      have hshape := sound.shaped.workers index old hold
      generalize hchange : effect.commit? = change at hcommit
      have hmove := hchange ▸ hturn.stage hshape
      cases hmove.cursor hcursor with
      | same hmine hheartbeat hpause =>
          have hworks := works_of_cursor hmine
          obtain ⟨row, hrow, -⟩ := guarded.lease index old hold hworks
          have hsame := guarded.step_kept run hnext hold hworks hrow hrow'
            (fun step now hcommit' => hheartbeat _ _ _ (hcommit.symm.trans hcommit'))
            (fun step hcommit' => hpause _ _ (hcommit.symm.trans hcommit'))
          rw [hsame]
          exact guarded.cursor index old leased step row hold hmine rfl hrow
      | @advanced leased index' now hmine =>
          have hworks : old.Works leased.ref.id :=
            @works_of_cursor _ _ index' (by rw [hmine]; rfl)
          obtain ⟨row, hrow, -⟩ := guarded.lease index old hold hworks
          rw [next_run? hnext, hcommit, hrow] at hrow'
          simp only [Commit.rowAfter, if_true, Option.map_some, Option.some.injEq] at hrow'
          subst hrow'
          exact Nat.le_refl _
      | claimed leased owner now events hmine =>
          obtain ⟨row, run', hpc, rfl, hid⟩ := hturn.claims hchange
          cases hcursor
          rw [hpc] at hshape
          have hrow := sound.snapshots.workers index old row hold (by rw [hpc]; rfl)
          rw [hid] at hrow
          rw [next_run? hnext, hcommit, hrow] at hrow'
          simp only [Commit.rowAfter, if_true, Option.map_some, Option.some.injEq] at hrow'
          subst hrow'
          exact Nat.le_of_eq hshape.1.currentStep.symm

theorem Guarded.next (run : Run env h s) (guarded : Guarded env h s id)
    (htimely : Timely env h s) (hnext : next env s a = some s') :
    Guarded env (h ++ [(s, a)]) s' id where
  unique := guarded.unique_next run hnext
  lease := fun _ _ => guarded.lease_next run hnext
  cursor := fun _ _ _ _ _ => guarded.cursor_next run hnext
  claims := fun _ _ _ => guarded.claims_next run htimely hnext

/-- Workers that are never late work on a run one at a time. -/
theorem run_guarded (run : Run env h s) (htimely : Within (fun past s _ => Timely env past s) h)
    (id : Uuid) : Guarded env h s id := by
  refine @Exec.invariant_within _ _ _ _ (fun past s _ => Timely env past s)
    (fun h s => Guarded env h s id) ?_ ?_ _ _ run htimely
  · intro s hs
    exact ⟨by simp [hs.workers], by simp [hs.workers], by simp [hs.workers],
      by simp [hs.workers]⟩
  · intro h s a s' run hw guarded htimely hnext
    exact guarded.next run htimely hnext

/-! ## Workers that have lost their run -/

/-- Nothing but an event and the acknowledgement is left to do. -/
def Worker.Pc.isRetired : Worker.Pc → Bool
  | event _ _ _ .ret | eventCommit _ _ .ret | returned _ | gone => true
  | _ => false

theorem Worker.retired_of_executes {session : Worker.Session} (hexecutes : session.Executes id)
    (hworks : ¬session.Works id) : session.pc.isRetired = true := by
  obtain ⟨run, hexecuting, hid⟩ := hexecutes
  unfold Worker.Session.Works Worker.Pc.working? at hworks
  split at hworks
  · rename_i hpc
    rw [hpc]
    rfl
  · rename_i hpc
    rw [hpc]
    rfl
  · exact absurd ⟨run, hexecuting, hid⟩ hworks

theorem Worker.Turn.retired {s : Shared} {session : Worker.Session} {pc : Worker.Pc}
    {effect : Effect} (hturn : Worker.Turn env s session pc effect)
    (h : session.pc.isRetired = true) :
    pc.isRetired = true ∧ ∀ change, effect.commit? = some change → ∃ row, change = .event row := by
  cases hturn with
  | error => exact ⟨rfl, by simp [Effect.commit?]⟩
  | crash => exact ⟨rfl, by simp [Effect.commit?]⟩
  | move hmove =>
      generalize session.pc = old at hmove h
      cases hmove with
      | event run eventType detail after =>
          cases after with
          | ret => exact ⟨rfl, by simp [Effect.commit?]⟩
          | advance => cases h
      | @eventCommit _ run row after hfree =>
          cases after with
          | ret => exact ⟨rfl, by simp [Effect.commit?]⟩
          | advance => cases h
      | nak => exact ⟨rfl, by simp [Effect.commit?]⟩
      | ack => exact ⟨rfl, by simp [Effect.commit?]⟩
      | _ => cases h

/-- A worker that lost the run to another one leaves its row as it is. -/
def RowFenced (env : Env) (h : History State Action) (s : State) (a : Action) : Prop :=
  ∀ index runId s', actor a = some (.worker index) → Superseded env h index runId →
    next env s a = some s' →
      (s'.db.run? runId).map RunRow.lease = (s.db.run? runId).map RunRow.lease

def RetiredAt (index : Nat) (s : State) : Prop :=
  ∃ session, s.workers[index]? = some session ∧ session.pc.isRetired = true

theorem RetiredAt.next {index : Nat} (retired : RetiredAt index s)
    (hnext : next env s a = some s') : RetiredAt index s' := by
  obtain ⟨session, hworker, hretired⟩ := retired
  obtain ⟨session', hworker'⟩ := worker_persists hnext hworker
  refine ⟨session', hworker', ?_⟩
  cases worker_case hnext hworker' with
  | kept hold hactor =>
      rw [hworker, Option.some.injEq] at hold
      exact hold ▸ hretired
  | joined haction hmessage hunacked hnew =>
      rw [hworker] at hnew
      cases hnew
  | turned hold hactor hcommit hturn hstate =>
      rw [hworker, Option.some.injEq] at hold
      exact (hturn.retired (hold ▸ hretired)).1

theorem retiredAt_of_superseded (run : Run env h s)
    (htimely : Within (fun past s _ => Timely env past s) h) {index : Nat}
    (hsuperseded : Superseded env h index id) : RetiredAt index s := by
  obtain ⟨⟨t, b⟩, hp, hclaimed, hother, session, hworker, hexecutes⟩ := hsuperseded
  obtain ⟨h₁, h₂, rfl⟩ := List.append_of_mem hp
  have hbase : RetiredAt index t := by
    obtain ⟨t', run₁, -, -⟩ := run.split
    have guarded := run_guarded run₁ htimely.of_append id
    refine ⟨session, hworker, Worker.retired_of_executes hexecutes ?_⟩
    unfold claimed? at hclaimed
    split at hclaimed
    · rename_i runId owner now events hcommit
      cases hclaimed
      cases commitOf_commits hcommit with
      | @claim j reply claimer now row events leased hclaimer hpc =>
          exact guarded.claims j claimer row hclaimer (by rw [hpc]; rfl) rfl session
            (List.mem_of_getElem? hworker)
    · cases hclaimed
  exact run.always_since (P := RetiredAt index) (fun _ hnext => hbase.next hnext)
    (fun _ retired hnext => retired.next hnext)

theorem rowFenced_of_timely (run : Run env h s)
    (htimely : Within (fun past s _ => Timely env past s) h) : RowFenced env h s a := by
  intro index runId s' hactor hsuperseded hnext
  obtain ⟨session, hworker, hretired⟩ := retiredAt_of_superseded run htimely hsuperseded
  obtain ⟨session', hworker'⟩ := worker_persists hnext hworker
  rw [next_run? hnext]
  cases worker_case hnext hworker' with
  | kept hold hother => exact absurd hactor hother
  | joined haction =>
      rw [haction] at hactor
      cases hactor
  | turned hold hactor' hcommit hturn hstate =>
      rw [hworker, Option.some.injEq] at hold
      have hevents := (hturn.retired (hold ▸ hretired)).2
      cases hchange : commitOf env s a with
      | none => rfl
      | some change =>
          obtain ⟨row, rfl⟩ := hevents change (hcommit.symm.trans hchange)
          rfl

theorem Guarded.neverBack (run : Run env h s) (guarded : ∀ id, Guarded env h s id) :
    NeverBack env s a := by
  intro s' id row row' hnext hrow hrow'
  have hstep := row_step (run_sound run) hnext id
  rw [hrow, hrow'] at hstep
  cases hstep with
  | transitioned =>
      simp only [RunRow.transition]
      split <;> omega
  | @heartbeat index reply session leased step now row hcommit hworker hpc hid =>
      exact Nat.le_succ_of_le
        ((guarded id).cursor index session leased step row hworker (by rw [hpc]; rfl) hid hrow)
  | @paused index reply session leased step row hcommit hworker hpc hid =>
      exact (guarded id).cursor index session leased step row hworker
        (by rw [hpc]; rfl) hid hrow
  | _ => exact Nat.le_refl _

/-! ## The lease protocol -/

structure LeasesRespected (env : Env) (h : History State Action) (s : State) : Prop where
  alone : ∀ id (i j : Nat) (session other : Worker.Session), s.workers[i]? = some session →
    s.workers[j]? = some other → session.Works id → other.Works id → i = j
  holder : ∀ id (index : Nat) (session : Worker.Session), s.workers[index]? = some session →
    session.Works id → ∃ row, s.db.run? id = some row ∧ HoldsLease env h index session row
  fenced : Within (RowFenced env) h
  neverBack : Within (fun _ => NeverBack env) h

/--
As long as no worker lets thirty seconds pass after its last claim or heartbeat
while it still has an update of its run to make, each run has one worker at a
time, the lease in its row is that worker's, the workers that lost it leave the
row alone, and `current_step` never goes back.
-/
theorem leasesRespected_of_timely (run : Run env h s)
    (htimely : Within (fun past s _ => Timely env past s) h) : LeasesRespected env h s where
  alone := fun id => (run_guarded run htimely id).unique
  holder := fun id => (run_guarded run htimely id).lease
  fenced := by
    rintro h₁ t b h₂ rfl
    obtain ⟨t', run₁, -, -⟩ := run.split
    exact rowFenced_of_timely run₁ htimely.of_append
  neverBack := by
    rintro h₁ t b h₂ rfl
    obtain ⟨t', run₁, -, -⟩ := run.split
    exact Guarded.neverBack run₁ (run_guarded run₁ htimely.of_append)

end

def timelyTest (env : Env) (h : History State Action) (s : State) : Bool :=
  s.workers.zipIdx.all fun p =>
    p.1.pc.working?.all fun _ =>
      (renewal? env p.2 h).all fun instant => s.clock ≤ instant + leaseInterval

theorem timely_of_test {env : Env} {h : History State Action} {s : State}
    (htest : timelyTest env h s = true) : Timely env h s := by
  rintro index session runId instant hworker ⟨run, hworking, -⟩ hrenewal
  have hmem : (session, index) ∈ s.workers.zipIdx := by
    rw [List.mem_zipIdx_iff_getElem?]
    exact hworker
  have hall := List.all_eq_true.mp htest _ hmem
  simpa [hworking, hrenewal] using hall

/-- The worker that crashed in its second step is replaced after its lease has run out. -/
theorem takenOver_leasesRespected : ∃ h t, Run Scenario.env h t ∧
    ((t.db.run? Scenario.runId).any fun row =>
      row.attemptCount = 2 && row.state = .succeeded) = true ∧
        LeasesRespected Scenario.env h t := by
  obtain ⟨h, t, run, htest⟩ := Scenario.exists_run 5 takenOver
    (fun h t => ((t.db.run? Scenario.runId).any fun row =>
        row.attemptCount = 2 && row.state = .succeeded) &&
      checks (fun past s _ => timelyTest Scenario.env past s) [] h)
    (by decide +kernel)
  rw [Bool.and_eq_true] at htest
  refine ⟨h, t, run, htest.1, leasesRespected_of_timely run ?_⟩
  have hchecked := within_of_checks (C := fun past s _ => Timely Scenario.env past s)
    (fun _ _ _ => timely_of_test) within_nil htest.2
  simpa using hchecked

end DurableRuntime
