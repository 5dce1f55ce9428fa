import DurableRuntime.Executions
import DurableRuntime.Scenario
import DurableRuntime.StateMachine

/-!
# Cancellation

A cancellation is a transition of the run row, and the loop of a worker never
reads that row: an execution that was leased before goes on with its remaining
steps.  What a cancellation does stop is the leasing of new work, until a worker
that was still executing overwrites the state by pausing for approval.
-/

namespace DurableRuntime

open DurableRuntime.Foundation

/-- The run that an action moves to `cancelled`. -/
def cancelled? (env : Env) (s : State) (a : Action) : Option Uuid :=
  match commitOf env s a with
  | some (.request writes) =>
      match writes.run with
      | .update before .cancelled _ _ => some before.id
      | _ => none
  | _ => none

/-- The run and step for which an action inserts a result or an effect. -/
def inserted? (env : Env) (s : State) (a : Action) : Option (Uuid × Nat) :=
  match commitOf env s a with
  | some (.stepResult row) => some (row.runId, row.stepIndex)
  | some (.effect row) => some (row.runId, row.stepIndex)
  | _ => none

/-- The action works on the step: it begins it, calls out for it or inserts a row for it. -/
def WorksOn (env : Env) (s : State) (a : Action) (runId : Uuid) (step : Nat) : Prop :=
  (∃ run, begun? s a = some (run, step) ∧ run.ref.id = runId) ∨
    called? s a = some (runId, step) ∨ inserted? env s a = some (runId, step)

/-- After a cancellation no step begins, and none that begins later is worked on. -/
structure StopsAtCancel (env : Env) (h : History State Action) : Prop where
  begins : ∀ cancel first, [cancel, first].Sublist h → ∀ run step,
    cancelled? env cancel.1 cancel.2 = some run.ref.id → begun? first.1 first.2 ≠ some (run, step)
  work : ∀ cancel first last, [cancel, first, last].Sublist h → ∀ run step,
    cancelled? env cancel.1 cancel.2 = some run.ref.id →
      begun? first.1 first.2 = some (run, step) → actor last.2 = actor first.2 →
        called? last.1 last.2 ≠ some (run.ref.id, step) ∧
          inserted? env last.1 last.2 ≠ some (run.ref.id, step)

/--
No new work is leased: nobody claims the run any more, and whoever works on it
was executing it when the cancellation committed.
-/
structure NoNewWork (env : Env) (s : State) (later : History State Action) (runId : Uuid) :
    Prop where
  claims : ∀ p ∈ later, claimed? env p.1 p.2 ≠ some runId
  work : ∀ p ∈ later, ∀ step, WorksOn env p.1 p.2 runId step →
    ∃ index session, actor p.2 = some (.worker index) ∧ s.workers[index]? = some session ∧
      session.Executes runId

section

variable {env : Env} {s s' : State} {a : Action} {h : History State Action} {runId : Uuid}

theorem cancelled_commit (h : cancelled? env s a = some runId) :
    ∃ writes before approved now, commitOf env s a = some (.request writes) ∧
      writes.run = .update before .cancelled approved now ∧ before.id = runId := by
  unfold cancelled? at h
  split at h
  · rename_i writes hcommit
    split at h
    · rename_i before approved now hwrite
      cases h
      exact ⟨writes, before, approved, now, hcommit, hwrite, rfl⟩
    · cases h
  · cases h

/-- Work on a step is done by a worker that executes its run. -/
theorem WorksOn.executes {step : Nat} (h : WorksOn env s a runId step) :
    ∃ index session, actor a = some (.worker index) ∧ s.workers[index]? = some session ∧
      session.Executes runId := by
  rcases h with ⟨run, hbegun, hid⟩ | hcalled | hinserted
  · obtain ⟨index, reply, session, rfl, hworker, hpc, -⟩ := begun_worker hbegun
    exact ⟨index, session, rfl, hworker, run, by rw [hpc]; rfl, hid⟩
  · obtain ⟨index, reply, session, run, rfl, hworker, hcalls, hid⟩ := called_worker hcalled
    exact ⟨index, session, rfl, hworker, run,
      Worker.cursor_executing (Worker.calls_cursor hcalls), hid⟩
  · unfold inserted? at hinserted
    split at hinserted
    · rename_i row hcommit
      cases hinserted
      cases commitOf_commits hcommit with
      | stepResult hworker hpc hfree =>
          exact ⟨_, _, rfl, hworker, _, by rw [hpc]; rfl, rfl⟩
    · rename_i row hcommit
      cases hinserted
      cases commitOf_commits hcommit with
      | effect hworker hpc hfree habsent =>
          exact ⟨_, _, rfl, hworker, _, by rw [hpc]; rfl, rfl⟩
    · cases hinserted

/-! ## Since the cancellation -/

/-- The state since a cancellation that no pause has overwritten. -/
structure Over (s : State) (runId : Uuid) (t : State) : Prop where
  row : ∃ row, t.db.run? runId = some row ∧ row.state.isTerminal = true
  executions : ∀ (index : Nat) (session : Worker.Session), t.workers[index]? = some session →
    session.Executes runId → ∃ old, s.workers[index]? = some old ∧ old.Executes runId

theorem Over.unclaimed {t : State} {b : Action} {k : History State Action} (run : Run env k t)
    (ended : Over s runId t) : claimed? env t b ≠ some runId := by
  intro hclaimed
  unfold claimed? at hclaimed
  split at hclaimed
  · rename_i id owner now events hcommit
    cases hclaimed
    have sound := run_sound run
    obtain ⟨row, hrow, hterminal⟩ := ended.row
    cases commitOf_commits hcommit with
    | claim hworker hpc =>
        have hpending := sound.claim_state hworker hpc
        have hstored := sound.snapshots.workers _ _ _ hworker (by rw [hpc]; rfl)
        rw [hrow, Option.some.injEq] at hstored
        rw [hstored, RunState.isTerminal_of_isPending hpending] at hterminal
        cases hterminal
  · cases hclaimed

theorem Over.start (run : Run env h s) (hcancel : cancelled? env s a = some runId)
    (hnext : next env s a = some s') : Over s runId s' := by
  have sound := run_sound run
  obtain ⟨writes, before, approved, now, hcommit, hwrite, rfl⟩ := cancelled_commit hcancel
  constructor
  · cases commitOf_commits hcommit with
    | request hcall hpc =>
        obtain ⟨write, event, outbox, audit⟩ := writes
        cases hwrite
        have hrow := sound.snapshots.updates _ _ before hcall (by rw [hpc]; rfl)
        refine ⟨before.transition .cancelled approved now, ?_, rfl⟩
        rw [next_run? hnext, hcommit, hrow]
        exact if_pos rfl
  · intro index session hworker hexecutes
    rcases executes_next run hnext hworker hexecutes with hold | ⟨-, hclaimed⟩
    · exact hold
    · simp [claimed?, hcommit] at hclaimed

theorem Over.next {t t' : State} {b : Action} {k : History State Action} (run : Run env k t)
    (ended : Over s runId t) (hpause : ∀ step, paused? env t b ≠ some (runId, step))
    (hnext : next env t b = some t') : Over s runId t' := by
  have sound := run_sound run
  constructor
  · obtain ⟨row, hrow, hterminal⟩ := ended.row
    obtain ⟨row', hrow', -⟩ := (next_extends hnext).runs runId row hrow
    refine ⟨row', hrow', ?_⟩
    have hstep := row_step sound hnext runId
    rw [hrow, hrow'] at hstep
    cases hstep with
    | same => exact hterminal
    | heartbeat => exact hterminal
    | completed => rfl
    | @paused index reply session leased step row hcommit =>
        exact absurd (by simp [paused?, hcommit]) (hpause step)
    | claimed hcommit hworker hpc hid =>
        rw [RunState.isTerminal_of_isPending (sound.claim_state hworker hpc)] at hterminal
        cases hterminal
    | transitioned hcommit hcall hpc hwrite hid =>
        obtain ⟨args, hargs, rfl, -, hallowed⟩ := sound.update_args hcall hpc hwrite
        rw [(allowedTransitions_eq_nil row.state).mpr hterminal] at hallowed
        cases hallowed
  · intro index session hworker hexecutes
    rcases executes_next run hnext hworker hexecutes with ⟨old, hold, hexecutes'⟩ |
      ⟨-, hclaimed⟩
    · exact ended.executions index old hold hexecutes'
    · exact absurd hclaimed (ended.unclaimed run)

/-- No step of the history pauses the run. -/
def Unpaused (env : Env) (runId : Uuid) (later : History State Action) : Prop :=
  ∀ p ∈ later, ∀ step, paused? env p.1 p.2 ≠ some (runId, step)

def OverUnlessPaused (env : Env) (s : State) (runId : Uuid) (later : History State Action)
    (t : State) : Prop :=
  Unpaused env runId later → Over s runId t

theorem over_of_cancelled {t : State} {later : History State Action}
    (run : Run env (h ++ (s, a) :: later) t) (hcancel : cancelled? env s a = some runId) :
    OverUnlessPaused env s runId later t := by
  refine Exec.since ?_ ?_ run
  · intro s' run hnext _
    exact .start run hcancel hnext
  · intro later t b t' run ih hnext hpause
    have hlast := hpause (t, b) (by simp)
    exact (ih fun p hp => hpause p (by simp [hp])).next run hlast hnext

/--
Once a run is cancelled no new work is leased for it, as long as no worker that
was still executing pauses it for approval.
-/
theorem noNewWork_of_cancelled {t : State} {later : History State Action}
    (run : Run env (h ++ (s, a) :: later) t) (hcancel : cancelled? env s a = some runId)
    (hpause : Unpaused env runId later) : NoNewWork env s later runId := by
  have at_step : ∀ p ∈ later, ∃ k, Run env k p.1 ∧ Over s runId p.1 := by
    intro p hp
    obtain ⟨before, after, rfl⟩ := List.append_of_mem hp
    rw [← List.cons_append, ← List.append_assoc] at run
    obtain ⟨t', run', -, -⟩ := run.split
    exact ⟨_, run', over_of_cancelled run' hcancel fun q hq => hpause q (by simp [hq])⟩
  constructor
  · intro p hp
    obtain ⟨k, run', hover⟩ := at_step p hp
    exact hover.unclaimed run'
  · intro p hp step hworks
    obtain ⟨k, run', hover⟩ := at_step p hp
    obtain ⟨index, session, hactor, hworker, hexecutes⟩ := hworks.executes
    obtain ⟨old, hold, hexecutes'⟩ := hover.executions index session hworker hexecutes
    exact ⟨index, old, hactor, hold, hexecutes'⟩

end

/-! ## A step after the cancellation -/

/-- A run of two steps, cancelled when its first step has been recorded. -/
def cancelledBetween : List Action :=
  Scenario.createActions [Scenario.dataRead, Scenario.dataRead] ++ Scenario.publishActions 0 ++
    Scenario.claimActions 0 0 ++ Scenario.workerActions 0 3 ++
    Scenario.transitionActions (.cancel Scenario.runId.text) 1 9 ++ Scenario.workerActions 0 4

/-- What happens in `cancelledBetween` from its cancellation on. -/
def cancelledBetweenTest : History State Action → Bool
  | [] => false
  | cancel :: later =>
      cancelled? Scenario.env cancel.1 cancel.2 = some Scenario.runId &&
        (later.any fun p => inserted? Scenario.env p.1 p.2 = some (Scenario.runId, 1)) &&
          later.all fun p => (paused? Scenario.env p.1 p.2).isNone

theorem cancelledBetween_noNewWork : ∃ before s a later t,
    Run Scenario.env (before ++ (s, a) :: later) t ∧
      (later.any fun p => inserted? Scenario.env p.1 p.2 = some (Scenario.runId, 1)) = true ∧
        NoNewWork Scenario.env s later Scenario.runId := by
  obtain ⟨h, t, run, htest⟩ := Scenario.exists_run 5 cancelledBetween
    (fun h _ => cancelledBetweenTest (h.drop 43)) (by decide +kernel)
  rw [← List.take_append_drop 43 h] at run
  generalize h.drop 43 = rest at run htest
  cases rest with
  | nil => cases htest
  | cons cancel later =>
      simp only [cancelledBetweenTest, Bool.and_eq_true, decide_eq_true_eq, List.all_eq_true,
        Option.isNone_iff_eq_none] at htest
      obtain ⟨⟨hcancel, hinserted⟩, hpause⟩ := htest
      refine ⟨h.take 43, cancel.1, cancel.2, later, t, run, hinserted, ?_⟩
      refine noNewWork_of_cancelled run hcancel ?_
      intro p hp step
      simp [hpause p hp]

def beginsStep (p : State × Action) (runId : Uuid) (step : Nat) : Bool :=
  (begun? p.1 p.2).any fun begun => begun.1.ref.id = runId && begun.2 = step

theorem not_stopsAtCancel : ¬∀ env h s, Run env h s → StopsAtCancel env h := by
  intro hall
  obtain ⟨h, t, run, htest⟩ := Scenario.exists_run 5 cancelledBetween
    (fun h _ => picks
      [fun p => cancelled? Scenario.env p.1 p.2 = some Scenario.runId,
        fun p => beginsStep p Scenario.runId 1 && actor p.2 = some (.worker 0),
        fun p => inserted? Scenario.env p.1 p.2 = some (Scenario.runId, 1) &&
          actor p.2 = some (.worker 0)] h)
    (by decide +kernel)
  obtain ⟨steps, hsub, hsteps⟩ := sublist_of_picks htest
  cases hsteps with
  | cons hcancel hsteps =>
  cases hsteps with
  | cons hfirst hsteps =>
  cases hsteps with
  | cons hlast hsteps =>
  cases hsteps with
  | nil =>
  simp only [beginsStep, Bool.and_eq_true, decide_eq_true_eq, Option.any_eq_true]
    at hcancel hfirst hlast
  obtain ⟨⟨⟨leased, step⟩, hbegun, hid, rfl⟩, hactor⟩ := hfirst
  obtain ⟨hinserted, hactor'⟩ := hlast
  have hstops := (hall Scenario.env h t run).work _ _ _ hsub leased 1 (by rw [hcancel, hid]) hbegun
    (by rw [hactor, hactor'])
  exact hstops.2 (by rw [hinserted, hid])

end DurableRuntime
