import DurableRuntime.Executions
import DurableRuntime.StateMachine

/-!
# Fencing

The updates of a worker are keyed by the run id alone, so a worker whose lease
has been taken over still moves the row.  As long as every claim finds the run
without another live execution, one worker at a time writes the row, and
`current_step` never goes back.
-/

namespace DurableRuntime

open DurableRuntime.Foundation

/-- The worker executed the run already when another worker's later claim committed. -/
def Superseded (env : Env) (h : History State Action) (index : Nat) (runId : Uuid) : Prop :=
  ∃ p ∈ h, claimed? env p.1 p.2 = some runId ∧ actor p.2 ≠ some (.worker index) ∧
    ∃ session, p.1.workers[index]? = some session ∧ session.Executes runId

/-- The columns that a lease protects. -/
def RunRow.lease (row : RunRow) : RunState × Nat × Option String × Option Int :=
  (row.state, row.currentStep, row.leaseOwner, row.leaseExpiresAt)

structure LeaseUntouched (s s' : State) (runId : Uuid) : Prop where
  row : (s'.db.run? runId).map RunRow.lease = (s.db.run? runId).map RunRow.lease
  events : (s'.db.events.filter fun event => event.runId = runId) =
    s.db.events.filter fun event => event.runId = runId

def Fenced (env : Env) (h : History State Action) (s : State) (a : Action) : Prop :=
  ∀ index runId s', actor a = some (.worker index) → Superseded env h index runId →
    next env s a = some s' → LeaseUntouched s s' runId

def NeverBack (env : Env) (s : State) (a : Action) : Prop :=
  ∀ s' id row row', next env s a = some s' → s.db.run? id = some row →
    s'.db.run? id = some row' → row.currentStep ≤ row'.currentStep

def StaleFenced (env : Env) (h : History State Action) : Prop :=
  Within (Fenced env) h ∧ Within (fun _ => NeverBack env) h

/-- A claim commits only when no worker is executing the run. -/
def ClaimsExclusive (env : Env) (s : State) (a : Action) : Prop :=
  ∀ runId, claimed? env s a = some runId → ∀ session ∈ s.workers, ¬session.Executes runId

/-! ## One execution at a time -/

structure Exclusive (s : State) : Prop where
  unique : ∀ (i j : Nat) (session other : Worker.Session) id, s.workers[i]? = some session →
    s.workers[j]? = some other → session.Executes id → other.Executes id → i = j
  loop : ∀ (index : Nat) (session : Worker.Session) run step row,
    s.workers[index]? = some session → session.pc.stage.cursor? = some (run, step) →
      s.db.run? run.ref.id = some row → row.currentStep ≤ step ∧ row.state ≠ .awaitingApproval

/-- A claim of the run commits only when no worker is executing it. -/
def ClaimsAlone (env : Env) (id : Uuid) (s : State) (a : Action) : Prop :=
  claimed? env s a = some id → ∀ session ∈ s.workers, ¬session.Executes id

/-- What `Exclusive` asks of one run. -/
structure Alone (s : State) (id : Uuid) : Prop where
  unique : ∀ (i j : Nat) (session other : Worker.Session), s.workers[i]? = some session →
    s.workers[j]? = some other → session.Executes id → other.Executes id → i = j
  loop : ∀ (index : Nat) (session : Worker.Session) run step row,
    s.workers[index]? = some session → session.pc.stage.cursor? = some (run, step) →
      run.ref.id = id → s.db.run? id = some row →
        row.currentStep ≤ step ∧ row.state ≠ .awaitingApproval

section

variable {env : Env} {s s' : State} {a : Action} {h : History State Action} {id : Uuid}

theorem executes_of_cursor {session : Worker.Session} {run : Worker.LeasedRun} {step : Nat}
    (hcursor : session.pc.stage.cursor? = some (run, step)) : session.Executes run.ref.id :=
  ⟨run, Worker.cursor_executing hcursor, rfl⟩

theorem claimed_commit {index : Nat} {reply : Worker.Reply} {owner : String}
    {now : Int} {events : List EventRow}
    (hcommit : commitOf env s (.worker index reply) = some (.claim id owner now events)) :
    claimed? env s (.worker index reply) = some id := by
  simp [claimed?, hcommit]

theorem Alone.unique_next (run : Run env h s) (alone : Alone s id)
    (hclaims : ClaimsAlone env id s a) (hnext : next env s a = some s') :
    ∀ (i j : Nat) (session other : Worker.Session), s'.workers[i]? = some session →
      s'.workers[j]? = some other → session.Executes id → other.Executes id → i = j := by
  intro i j session other hworker hother hexecutes hexecutes'
  rcases executes_next run hnext hworker hexecutes with ⟨old, hold, holdExecutes⟩ |
    ⟨hactor, hclaimed⟩
  · rcases executes_next run hnext hother hexecutes' with ⟨old', hold', holdExecutes'⟩ |
      ⟨-, hclaimed⟩
    · exact alone.unique i j old old' hold hold' holdExecutes holdExecutes'
    · exact absurd holdExecutes (hclaims hclaimed old (List.mem_of_getElem? hold))
  · rcases executes_next run hnext hother hexecutes' with ⟨old', hold', holdExecutes'⟩ |
      ⟨hactor', -⟩
    · exact absurd holdExecutes' (hclaims hclaimed old' (List.mem_of_getElem? hold'))
    · rw [hactor] at hactor'
      simpa using hactor'

/-- Nobody but the executing worker moves the row of a run that is in the loop. -/
theorem Alone.kept (run : Run env h s) {leased : Worker.LeasedRun}
    (alone : Alone s leased.ref.id) (hclaims : ClaimsAlone env leased.ref.id s a)
    (hnext : next env s a = some s') {index : Nat} {session : Worker.Session} {step : Nat}
    {row' : RunRow} (hworker : s.workers[index]? = some session)
    (hactor : actor a ≠ some (.worker index))
    (hcursor : session.pc.stage.cursor? = some (leased, step))
    (hrow' : s'.db.run? leased.ref.id = some row') :
    row'.currentStep ≤ step ∧ row'.state ≠ .awaitingApproval := by
  have sound := run_sound run
  have hexecutes := executes_of_cursor hcursor
  obtain ⟨row, -, hrow, -⟩ := run_agrees run hworker (Worker.cursor_executing hcursor)
  have hbefore := alone.loop index session leased step row hworker hcursor rfl hrow
  have other : ∀ {j : Nat} {reply : Worker.Reply} {session' : Worker.Session}
      {leased' : Worker.LeasedRun}, a = .worker j reply → s.workers[j]? = some session' →
        session'.pc.executing? = some leased' → leased'.ref.id = leased.ref.id → False := by
    rintro j reply session' leased' rfl hworker' hexecuting hid
    have heq := alone.unique j index session' session hworker' hworker
      ⟨leased', hexecuting, hid⟩ hexecutes
    exact hactor (by rw [heq]; rfl)
  have hstep := row_step sound hnext leased.ref.id
  rw [hrow, hrow'] at hstep
  cases hstep with
  | same => exact hbefore
  | claimed hcommit hworker' hpc hid =>
      exact absurd hexecutes
        (hclaims (claimed_commit hcommit) session (List.mem_of_getElem? hworker))
  | transitioned hcommit hcall hpc hwrite hid =>
      obtain ⟨args, hargs, rfl, rfl, hallowed⟩ := sound.update_args hcall hpc hwrite
      rcases hargs with rfl | rfl
      · have hnotleased := run_noneLeased run _ row hrow
        have hnotawaiting := hbefore.2
        exfalso
        revert hallowed hnotleased hnotawaiting
        cases row.state <;> decide
      · exact ⟨hbefore.1, by simp [RunRow.transition, ControlPlane.cancelArgs]⟩
  | heartbeat hcommit hworker' hpc hid =>
      exact (other rfl hworker' (by rw [hpc]; rfl) hid).elim
  | paused hcommit hworker' hpc hid => exact (other rfl hworker' (by rw [hpc]; rfl) hid).elim
  | completed hcommit hworker' hpc hid =>
      exact (other rfl hworker' (by rw [hpc]; rfl) hid).elim

/-- The executing worker itself leaves the row behind its own step. -/
theorem Alone.turned (run : Run env h s) {leased : Worker.LeasedRun}
    (alone : Alone s leased.ref.id) (hnext : next env s a = some s') {index : Nat}
    {session : Worker.Session} {pc : Worker.Pc} {effect : Effect} {step : Nat} {row' : RunRow}
    (hworker : s.workers[index]? = some session) (hactor : actor a = some (.worker index))
    (hcommit : commitOf env s a = effect.commit?)
    (hturn : Worker.Turn env s.toShared session pc effect)
    (hcursor : pc.stage.cursor? = some (leased, step))
    (hrow' : s'.db.run? leased.ref.id = some row') :
    row'.currentStep ≤ step ∧ row'.state ≠ .awaitingApproval := by
  have sound := run_sound run
  have hshape := sound.shaped.workers index session hworker
  have same : ∀ {reply : Worker.Reply} {j : Nat} {other : Worker.Session},
      a = .worker j reply → s.workers[j]? = some other → other = session := by
    rintro reply j other rfl hother
    cases hactor
    rw [hworker, Option.some.injEq] at hother
    exact hother.symm
  generalize hchange : effect.commit? = change at hcommit
  have hmove := hchange ▸ hturn.stage hshape
  cases hmove.cursor hcursor with
  | same hold hheartbeat hpause =>
      obtain ⟨row, -, hrow, -⟩ := run_agrees run hworker (Worker.cursor_executing hold)
      have hbefore := alone.loop index session leased step row hworker hold rfl hrow
      have hstep := row_step sound hnext leased.ref.id
      rw [hrow, hrow'] at hstep
      cases hstep with
      | same => exact hbefore
      | transitioned => cases hactor
      | claimed hcommit' hworker' hpc hid =>
          rw [same rfl hworker'] at hpc
          rw [hpc] at hold
          cases hold
      | heartbeat hcommit' => exact absurd (hcommit.symm.trans hcommit') (hheartbeat _ _ _)
      | paused hcommit' => exact absurd (hcommit.symm.trans hcommit') (hpause _ _)
      | completed hcommit' hworker' hpc hid =>
          rw [same rfl hworker'] at hpc
          rw [hpc] at hold
          cases hold
  | @advanced leased index' now hold =>
      have hcursor' : session.pc.stage.cursor? = some (leased, index') := by
        rw [hold]
        rfl
      obtain ⟨row, -, hrow, -⟩ := run_agrees run hworker (Worker.cursor_executing hcursor')
      have hbefore := alone.loop index session leased index' row hworker hcursor' rfl hrow
      rw [next_run? hnext, hcommit, hrow] at hrow'
      simp only [Commit.rowAfter, if_true, Option.map_some, Option.some.injEq] at hrow'
      subst hrow'
      exact ⟨Nat.le_refl _, hbefore.2⟩
  | claimed leased owner now events hold =>
      obtain ⟨row, run', hpc, rfl, hid⟩ := hturn.claims hchange
      cases hcursor
      rw [hpc] at hshape
      have hrow := sound.snapshots.workers index session row hworker (by rw [hpc]; rfl)
      rw [hid] at hrow
      rw [next_run? hnext, hcommit, hrow] at hrow'
      simp only [Commit.rowAfter, if_true, Option.map_some, Option.some.injEq] at hrow'
      subst hrow'
      exact ⟨Nat.le_of_eq hshape.1.currentStep.symm, by simp [RunRow.claim]⟩

theorem Alone.next (run : Run env h s) (alone : Alone s id) (hclaims : ClaimsAlone env id s a)
    (hnext : next env s a = some s') : Alone s' id := by
  refine ⟨alone.unique_next run hclaims hnext, ?_⟩
  rintro index session leased step row' hworker hcursor rfl hrow'
  cases worker_case hnext hworker with
  | kept hold hactor => exact alone.kept run hclaims hnext hold hactor hcursor hrow'
  | joined => cases hcursor
  | turned hold hactor hcommit hturn hstate =>
      exact alone.turned run hnext hold hactor hcommit hturn hcursor hrow'

/-- A run that is claimed only when nobody executes it has one execution at a time. -/
theorem run_alone (run : Run env h s) (hclaims : Within (fun _ => ClaimsAlone env id) h) :
    Alone s id := by
  refine @Exec.always_within _ _ _ _ (fun _ => ClaimsAlone env id) (fun s => Alone s id) ?_ ?_
    _ _ run hclaims
  · intro s hs
    exact ⟨by simp [hs.workers], by simp [hs.workers]⟩
  · intro h s a s' run alone hstep hnext
    exact alone.next run hstep hnext

theorem run_exclusive (run : Run env h s) (hclaims : Within (fun _ => ClaimsExclusive env) h) :
    Exclusive s := by
  have alone : ∀ id, Alone s id := fun id =>
    run_alone run (hclaims.mono fun _ _ _ hstep => hstep id)
  refine ⟨?_, ?_⟩
  · intro i j session other id
    exact (alone id).unique i j session other
  · intro index session leased step row hworker hcursor
    exact (alone leased.ref.id).loop index session leased step row hworker hcursor rfl

theorem neverBack_of_alone (run : Run env h s) (alone : Alone s id)
    (hnext : next env s a = some s') {row row' : RunRow} (hrow : s.db.run? id = some row)
    (hrow' : s'.db.run? id = some row') : row.currentStep ≤ row'.currentStep := by
  have sound := run_sound run
  have hstep := row_step sound hnext id
  rw [hrow, hrow'] at hstep
  cases hstep with
  | transitioned =>
      simp only [RunRow.transition]
      split <;> omega
  | @heartbeat index reply session leased step now row hcommit hworker hpc hid =>
      have hbefore := alone.loop index session leased step row hworker (by rw [hpc]; rfl) hid hrow
      exact Nat.le_succ_of_le hbefore.1
  | @paused index reply session leased step row hcommit hworker hpc hid =>
      exact (alone.loop index session leased step row hworker (by rw [hpc]; rfl) hid hrow).1
  | _ => exact Nat.le_refl _

theorem Exclusive.alone (exclusive : Exclusive s) (id : Uuid) : Alone s id := by
  constructor
  · intro i j session other
    exact exclusive.unique i j session other id
  · rintro index session leased step row hworker hcursor rfl
    exact exclusive.loop index session leased step row hworker hcursor

theorem neverBack_of_exclusive (run : Run env h s) (exclusive : Exclusive s) :
    NeverBack env s a := by
  intro s' id row row' hnext hrow hrow'
  exact neverBack_of_alone run (exclusive.alone id) hnext hrow hrow'

/--
In the runs whose claims all find the run without a live execution, no
superseded worker is left to write anything, and `current_step` never goes back.
-/
theorem staleFenced_of_claimsExclusive (run : Run env h s)
    (hclaims : Within (fun _ => ClaimsExclusive env) h) : StaleFenced env h := by
  constructor
  · rintro h₁ t b h₂ rfl index id t' - ⟨p, hp, hclaimed, -, session, hworker, hexecutes⟩ -
    have hall := within_iff.mp hclaims p (by simp [hp])
    exact absurd hexecutes (hall id hclaimed session (List.mem_of_getElem? hworker))
  · rintro h₁ t b h₂ rfl
    obtain ⟨t', run₁, -, -⟩ := run.split
    exact neverBack_of_exclusive run₁ (run_exclusive run₁ hclaims.of_append)

end

/-! ## A stale heartbeat -/

/-- The worker of two steps crashes in the second; another one finishes the run. -/
def takenOver : List Action :=
  Scenario.createActions [Scenario.dataRead, Scenario.dataRead] ++ Scenario.publishActions 0 ++
    Scenario.claimActions 0 0 ++ Scenario.workerActions 0 6 ++ [.crash 0, .tick 120000000] ++
    Scenario.claimActions 0 1 ++ Scenario.workerActions 1 9

/-- The first worker stalls before its first heartbeat, and goes on when the second is done. -/
def staleHeartbeat : List Action :=
  Scenario.createActions [Scenario.dataRead, Scenario.dataRead] ++ Scenario.publishActions 0 ++
    Scenario.claimActions 0 0 ++ Scenario.workerActions 0 3 ++ [.tick 120000000] ++
    Scenario.claimActions 0 1 ++ Scenario.workerActions 1 9 ++ Scenario.workerActions 0 2

def claimsExclusiveTest (env : Env) (s : State) (a : Action) : Bool :=
  (claimed? env s a).all fun id =>
    s.workers.all fun session => session.pc.executing?.all fun run => run.ref.id ≠ id

theorem claimsExclusive_of_test {env : Env} {s : State} {a : Action}
    (htest : claimsExclusiveTest env s a = true) : ClaimsExclusive env s a := by
  rintro id hclaimed session hworker ⟨run, hexecuting, rfl⟩
  simp only [claimsExclusiveTest, hclaimed, Option.all_some, List.all_eq_true] at htest
  simpa [hexecuting] using htest session hworker

theorem takenOver_staleFenced : ∃ h t, Run Scenario.env h t ∧
    ((t.db.run? Scenario.runId).any fun row =>
      row.attemptCount = 2 && row.state = .succeeded) = true ∧ StaleFenced Scenario.env h := by
  obtain ⟨h, t, run, htest⟩ := Scenario.exists_run 5 takenOver
    (fun h t => ((t.db.run? Scenario.runId).any fun row =>
        row.attemptCount = 2 && row.state = .succeeded) &&
      h.all fun p => claimsExclusiveTest Scenario.env p.1 p.2)
    (by decide +kernel)
  rw [Bool.and_eq_true, List.all_eq_true] at htest
  refine ⟨h, t, run, htest.1, staleFenced_of_claimsExclusive run (within_iff.mpr ?_)⟩
  exact fun p hp => claimsExclusive_of_test (htest.2 p hp)

/-- The step of the run's row before an action and after it. -/
def stepsAround (env : Env) (s : State) (a : Action) : Option (Nat × Nat) := do
  let s' ← next env s a
  let row ← s.db.run? Scenario.runId
  let row' ← s'.db.run? Scenario.runId
  some (row.currentStep, row'.currentStep)

/-- The stale heartbeat takes the run from step 2 back to step 1. -/
theorem not_staleFenced : ¬∀ env h s, Run env h s → StaleFenced env h := by
  intro hall
  obtain ⟨h, t, run, htest⟩ := Scenario.exists_run 5 staleHeartbeat
    (fun h _ => h.any fun p => stepsAround Scenario.env p.1 p.2 = some (2, 1))
    (by decide +kernel)
  simp only [List.any_eq_true, decide_eq_true_eq] at htest
  obtain ⟨⟨s, a⟩, hp, hsteps⟩ := htest
  simp only [stepsAround, Option.bind_eq_bind, Option.bind_eq_some_iff, Option.some.injEq,
    Prod.mk.injEq] at hsteps
  obtain ⟨s', hnext, row, hrow, row', hrow', htwo, hone⟩ := hsteps
  have hle := (hall Scenario.env h t run).2.of_mem hp s' Scenario.runId row row' hnext hrow hrow'
  omega

end DurableRuntime
