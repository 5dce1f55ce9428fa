import DurableRuntime.StateMachine

/-!
# The lease columns of a run

A claim sets `lease_owner` and `lease_expires_at`, and every update with which a
worker leaves `running` clears both.  The control plane is not granted the two
columns, so a run that is cancelled while a worker holds it keeps its lease.
The step heartbeat extends `lease_expires_at` whatever the row says.
-/

namespace DurableRuntime

open DurableRuntime.Foundation

def RunState.isHeld : RunState → Bool
  | .leased | .running => true
  | _ => false

def RunRow.LeaseSet (row : RunRow) : Prop :=
  row.leaseOwner.isSome = true ∧ row.leaseExpiresAt.isSome = true

def RunRow.LeaseCleared (row : RunRow) : Prop :=
  row.leaseOwner = none ∧ row.leaseExpiresAt = none

instance (row : RunRow) : Decidable row.LeaseCleared :=
  inferInstanceAs (Decidable (_ ∧ _))

/-- Both columns are set in `leased` and `running`, and null in every other state. -/
def LeasesMatchStates (s : State) : Prop :=
  ∀ id row, s.db.run? id = some row →
    if row.state.isHeld then row.LeaseSet else row.LeaseCleared

/-- A cancellation that commits for a run in `leased` or `running`. -/
def CancelsHeld (env : Env) (id : Uuid) (s : State) (a : Action) : Prop :=
  ∃ writes before approved now, commitOf env s a = some (.request writes) ∧
    writes.run = .update before .cancelled approved now ∧ before.id = id ∧
      before.state.isHeld = true

/-- What a row says of its lease: only a run cancelled while held keeps one it has left. -/
inductive RunRow.LeaseKept (env : Env) (h : History State Action) (row : RunRow) : Prop
  | held : row.state.isHeld = true → row.LeaseSet → LeaseKept env h row
  | cleared : row.state.isHeld = false → row.LeaseCleared → LeaseKept env h row
  | cancelled : row.state = .cancelled → row.LeaseSet →
      (∃ p ∈ h, CancelsHeld env row.id p.1 p.2) → LeaseKept env h row

def LeaseKept (env : Env) (id : Uuid) (h : History State Action) (s : State) : Prop :=
  ∀ row, s.db.run? id = some row → row.LeaseKept env h

/-- A step heartbeat of the run that commits finds a lease to extend. -/
def ExtendsLease (env : Env) (id : Uuid) (s : State) (a : Action) : Prop :=
  match commitOf env s a with
  | some (.heartbeat runId _ _) =>
      runId = id → ∀ row ∈ s.db.run? id, row.leaseExpiresAt.isSome = true
  | _ => True

instance (env : Env) (id : Uuid) (s : State) (a : Action) :
    Decidable (ExtendsLease env id s a) := by
  unfold ExtendsLease
  split <;> infer_instance

section

variable {env : Env} {s s' : State} {a : Action} {h : History State Action}

theorem RunRow.LeaseKept.snoc {row : RunRow} (hkept : row.LeaseKept env h) (p : State × Action) :
    row.LeaseKept env (h ++ [p]) := by
  cases hkept with
  | held hstate hset => exact .held hstate hset
  | cleared hstate hcleared => exact .cleared hstate hcleared
  | cancelled hstate hset hcancel =>
      obtain ⟨q, hq, hcancels⟩ := hcancel
      exact .cancelled hstate hset ⟨q, List.mem_append_left _ hq, hcancels⟩

/-- A row that has a lease to extend has its owner too. -/
theorem RunRow.LeaseKept.set {row : RunRow} (hkept : row.LeaseKept env h)
    (hlease : row.leaseExpiresAt.isSome = true) : row.LeaseSet := by
  cases hkept with
  | held _ hset => exact hset
  | cleared _ hcleared =>
      rw [hcleared.2] at hlease
      cases hlease
  | cancelled _ hset _ => exact hset

theorem RunRow.LeaseKept.heartbeat {row : RunRow} (hkept : row.LeaseKept env h)
    (hlease : row.leaseExpiresAt.isSome = true) (step : Nat) (now : Int) :
    (row.heartbeat step now).LeaseKept env h := by
  have hset : (row.heartbeat step now).LeaseSet := ⟨(hkept.set hlease).1, rfl⟩
  cases hkept with
  | held hstate _ => exact .held hstate hset
  | cleared _ hcleared =>
      rw [hcleared.2] at hlease
      cases hlease
  | cancelled hstate _ hcancel => exact .cancelled hstate hset hcancel

/-- An approval or a cancellation moves the state and keeps the columns. -/
theorem RunRow.LeaseKept.transition {row : RunRow} {state : RunState} {approved : Bool} {now : Int}
    (hkept : row.LeaseKept env h) (hnotleased : row.state ≠ .leased)
    (hstate : state = .queued ∨ state = .cancelled)
    (hallowed : state ∈ allowedTransitions row.state)
    {p : State × Action}
    (hcancel : state = .cancelled → row.state.isHeld = true → CancelsHeld env row.id p.1 p.2) :
    (row.transition state approved now).LeaseKept env (h ++ [p]) := by
  cases hkept with
  | held hheld hset =>
      have hrunning : row.state = .running := by
        revert hheld hnotleased
        cases row.state <;> decide
      rcases hstate with rfl | rfl
      · rw [hrunning] at hallowed
        exact absurd hallowed (by decide)
      · exact .cancelled rfl hset ⟨p, by simp, hcancel rfl hheld⟩
  | cleared _ hcleared =>
      rcases hstate with rfl | rfl
      · exact .cleared rfl hcleared
      · exact .cleared rfl hcleared
  | cancelled hcancelled =>
      rw [hcancelled] at hallowed
      cases hallowed

theorem leaseKept_next {id : Uuid} (run : Run env h s) (hkept : LeaseKept env id h s)
    (hextends : ExtendsLease env id s a) (hnext : next env s a = some s') :
    LeaseKept env id (h ++ [(s, a)]) s' := by
  intro row' hrow'
  have sound := run_sound run
  have hstep := row_step sound hnext id
  rw [hrow'] at hstep
  cases hold : s.db.run? id with
  | none =>
      rw [hold] at hstep
      cases hstep with
      | created hcommit hcall hpc hwrite hid =>
          obtain ⟨create, id, now, budgetCents, -, rfl⟩ := sound.insert_eq hcall hpc hwrite
          exact .cleared rfl ⟨rfl, rfl⟩
  | some row =>
      have hrow := hkept row hold
      rw [hold] at hstep
      cases hstep with
      | same => exact hrow.snoc _
      | @transitioned index choice session writes stored _ state approved now hcommit hcall hpc
          hwrite hid =>
          obtain ⟨args, hargs, rfl, -, hallowed⟩ := sound.update_args hcall hpc hwrite
          refine hrow.transition (run_noneLeased run id row hold) ?_ hallowed ?_
          · rcases hargs with rfl | rfl
            · exact .inl rfl
            · exact .inr rfl
          · intro hcancelled hheld
            rw [hcancelled] at hwrite
            exact ⟨writes, row, approved, now, hcommit, hwrite, rfl, hheld⟩
      | claimed => exact .held rfl ⟨rfl, rfl⟩
      | heartbeat hcommit hworker hpc hid =>
          rw [ExtendsLease, hcommit] at hextends
          exact (hrow.heartbeat (hextends rfl row hold) _ _).snoc _
      | paused => exact .cleared rfl ⟨rfl, rfl⟩
      | completed => exact .cleared rfl ⟨rfl, rfl⟩

/-- Whatever the heartbeats find, a run that is held has both columns set. -/
theorem run_leaseSet (run : Run env h s) {id : Uuid} {row : RunRow}
    (hrow : s.db.run? id = some row) (hheld : row.state.isHeld = true) : row.LeaseSet := by
  refine @Exec.always _ _ _ _ (fun s => ∀ id row, s.db.run? id = some row →
    row.state.isHeld = true → row.LeaseSet) ?_ ?_ _ _ run id row hrow hheld
  · intro s hs id row hrow
    simp [Db.run?, hs.runs] at hrow
  · intro h s a s' run ih hnext id row' hrow' hheld
    have sound := run_sound run
    have hstep := row_step sound hnext id
    rw [hrow'] at hstep
    cases hold : s.db.run? id with
    | none =>
        rw [hold] at hstep
        cases hstep with
        | created hcommit hcall hpc hwrite hid =>
            obtain ⟨create, id, now, budgetCents, -, rfl⟩ := sound.insert_eq hcall hpc hwrite
            cases hheld
    | some row =>
        have hset := ih id row hold
        rw [hold] at hstep
        cases hstep with
        | same => exact hset hheld
        | transitioned hcommit hcall hpc hwrite hid =>
            obtain ⟨args, rfl | rfl, rfl, -, -⟩ := sound.update_args hcall hpc hwrite
            · cases hheld
            · cases hheld
        | claimed => exact ⟨rfl, rfl⟩
        | heartbeat => exact ⟨(hset hheld).1, rfl⟩
        | paused => cases hheld
        | completed => cases hheld

/--
A held run has both columns set.  Where every step heartbeat of a run finds a
lease to extend, the run has both null when it is not held, unless it was
cancelled while it was.
-/
theorem leaseColumns (run : Run env h s) :
    (∀ id row, s.db.run? id = some row → row.state.isHeld = true → row.LeaseSet) ∧
      ∀ id, Within (fun _ => ExtendsLease env id) h → LeaseKept env id h s := by
  constructor
  · intro id row hrow hheld
    exact run_leaseSet run hrow hheld
  · intro id hextends
    refine run.invariant_within ?_ ?_ hextends
    · intro s hs row hrow
      simp [Db.run?, hs.runs] at hrow
    · intro h s a s' run _ hkept hstep hnext
      exact leaseKept_next run hkept hstep hnext

end

/-! ## Leases that outlive their run -/

/-- A run of one read-only step, cancelled after its step has begun. -/
def cancelledHolding : List Action :=
  Scenario.createActions [Scenario.dataRead] ++ Scenario.publishActions 0 ++
    Scenario.claimActions 0 0 ++ Scenario.workerActions 0 2 ++
    Scenario.transitionActions (.cancel Scenario.runId.text) 1 9

theorem cancelledHolding_leaseColumns : ∃ h t row, Run Scenario.env h t ∧
    t.db.run? Scenario.runId = some row ∧ row.state = .cancelled ∧ row.LeaseSet ∧
      row.LeaseKept Scenario.env h := by
  obtain ⟨h, t, run, htest⟩ := Scenario.exists_run 5 cancelledHolding
    (fun h t => (t.db.run? Scenario.runId).any (fun row => row.state = .cancelled &&
        row.leaseOwner.isSome && row.leaseExpiresAt.isSome) &&
      h.all fun p => ExtendsLease Scenario.env Scenario.runId p.1 p.2) (by decide +kernel)
  simp only [Bool.and_eq_true, List.all_eq_true, decide_eq_true_eq, Option.any_eq_true] at htest
  obtain ⟨⟨row, hrow, ⟨hcancelled, howner⟩, hexpires⟩, hextends⟩ := htest
  exact ⟨h, t, row, run, hrow, hcancelled, ⟨howner, hexpires⟩,
    (leaseColumns run).2 Scenario.runId (within_iff.mpr hextends) row hrow⟩

theorem not_leasesMatchStates : ¬∀ env h s, Run env h s → LeasesMatchStates s := by
  intro hall
  obtain ⟨h, t, run, htest⟩ := Scenario.exists_run 5 cancelledHolding
    (fun _ t => (t.db.run? Scenario.runId).any fun row => row.state = .cancelled &&
      row.leaseOwner.isSome) (by decide +kernel)
  simp only [Option.any_eq_true, Bool.and_eq_true, decide_eq_true_eq] at htest
  obtain ⟨row, hrow, hcancelled, howner⟩ := htest
  have hmatch := hall Scenario.env h t run Scenario.runId row hrow
  rw [hcancelled] at hmatch
  have hnone : row.leaseOwner = none := hmatch.1
  rw [hnone] at howner
  cases howner

end DurableRuntime
