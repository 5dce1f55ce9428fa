import DurableRuntime.Executions
import DurableRuntime.Scenario
import DurableRuntime.StateMachine

/-!
# Step results

A worker moves `current_step` past a step after its result was committed, but an
approve adds one to whatever index the row holds.  Where no approve passes a step
without a result, the steps in front of `current_step` all have one.
-/

namespace DurableRuntime

open DurableRuntime.Foundation

/-- The first steps of the run, as many as counted, have a result. -/
def Db.Recorded (db : Db) (tenantId runId : Uuid) (count : Nat) : Prop :=
  ∀ step, step < count → (db.stepResult? tenantId runId step).isSome = true

structure StepsRecorded (s : State) : Prop where
  current : ∀ id row, s.db.run? id = some row → s.db.Recorded row.tenantId id row.currentStep
  succeeded : ∀ id row workflow, s.db.run? id = some row → row.state = .succeeded →
    s.db.WorkflowOf id workflow → s.db.Recorded row.tenantId id workflow.steps.length

/-- An approve that commits moves on from a step that has a result. -/
def ApprovesRecorded (env : Env) (s : State) (a : Action) : Prop :=
  ∀ id row, approvedRun? env s a = some id → s.db.run? id = some row →
    (s.db.stepResult? row.tenantId id row.currentStep).isSome = true

section

variable {db db' : Db} {tenantId runId : Uuid} {count : Nat}

theorem isSome_extends (hextends : db.Extends db')
    (h : (db.stepResult? tenantId runId count).isSome = true) :
    (db'.stepResult? tenantId runId count).isSome = true := by
  obtain ⟨result, hresult⟩ := Option.isSome_iff_exists.mp h
  rw [hextends.stepResult? hresult]
  rfl

theorem Db.Recorded.extends (h : db.Recorded tenantId runId count) (hextends : db.Extends db') :
    db'.Recorded tenantId runId count :=
  fun step hstep => isSome_extends hextends (h step hstep)

theorem Db.Recorded.succ (h : db.Recorded tenantId runId count)
    (hlast : (db.stepResult? tenantId runId count).isSome = true) :
    db.Recorded tenantId runId (count + 1) := by
  intro step hstep
  rcases Nat.lt_succ_iff_lt_or_eq.mp hstep with hlt | rfl
  · exact h step hlt
  · exact hlast

end

/-! ## Workers -/

namespace Worker

variable {env : Env} {s : Shared} {session : Session} {pc : Pc} {effect : Effect}
  {run : LeasedRun}

/-- The step whose result is committed while the heartbeat is still to count it. -/
def Stage.ended? : Stage → Option (LeasedRun × Nat)
  | ended run index | beating run index _ => some (run, index)
  | _ => none

/-- A step is over from the commit of its result on. -/
theorem StageMove.ended {clock : Int} {old new : Stage} {commit : Option Commit} {index : Nat}
    (hmove : StageMove clock old commit new) (h : new.ended? = some (run, index)) :
    old.ended? = some (run, index) ∨ ∃ row, commit = some (.stepResult row) ∧
      row.key = (run.tenantId, run.ref.id, index) := by
  cases hmove with
  | beat => exact .inl h
  | record _ _ hkey hstatus =>
      cases h
      exact .inr ⟨_, rfl, hkey⟩
  | _ => cases h

theorem loop_complete {index : Nat} {other : LeasedRun}
    (h : loop env other index = .complete run) :
    other = run ∧ other.definition.steps.length ≤ index := by
  unfold loop at h
  split at h
  · rename_i hnone
    cases h
    exact ⟨rfl, List.getElem?_eq_none_iff.mp hnone⟩
  · split at h
    · cases h
    · unfold executeStep executeTool executeProviderModel at h
      repeat' split at h
      all_goals cases h

/-- The completion follows the loop condition that found no step any more. -/
theorem Turn.completes (hturn : Turn env s session pc effect) (hpc : pc = .complete run) :
    ∃ index, session.pc = .loop run index ∧ run.definition.steps.length ≤ index := by
  cases hturn with
  | error => cases hpc
  | crash => cases hpc
  | move hmove =>
      generalize session.pc = old at hmove
      cases hmove with
      | loop other index =>
          obtain ⟨rfl, hlength⟩ := loop_complete hpc
          exact ⟨index, rfl, hlength⟩
      | received runId =>
          unfold process at hpc
          repeat' split at hpc
          all_goals cases hpc
      | execute other =>
          unfold execute at hpc
          split at hpc <;> cases hpc
      | consume other index handle prompt delivery =>
          unfold withCredential at hpc
          repeat' split at hpc
          all_goals cases hpc
      | @record _ run index kind status safeLabel hfree => cases status <;> cases hpc
      | @eventCommit _ run row after hfree => cases after <;> cases hpc
      | _ => cases hpc

end Worker

/-! ## The results in front of a worker -/

structure Progress (s : State) : Prop where
  rows : ∀ id row, s.db.run? id = some row → s.db.Recorded row.tenantId id row.currentStep
  succeeded : ∀ id row definition, s.db.run? id = some row → row.state = .succeeded →
    s.db.interpreted? id = some definition →
      s.db.Recorded row.tenantId id definition.steps.length
  cursors : ∀ (index : Nat) (session : Worker.Session) run step,
    s.workers[index]? = some session → session.pc.stage.cursor? = some (run, step) →
      s.db.Recorded run.tenantId run.ref.id step
  ends : ∀ (index : Nat) (session : Worker.Session) run step,
    s.workers[index]? = some session → session.pc.stage.ended? = some (run, step) →
      (s.db.stepResult? run.tenantId run.ref.id step).isSome = true
  completes : ∀ (index : Nat) (session : Worker.Session) run,
    s.workers[index]? = some session → session.pc = .complete run →
      s.db.Recorded run.tenantId run.ref.id run.definition.steps.length

section

variable {env : Env} {s s' : State} {a : Action} {h : History State Action}

theorem Progress.rows_next (run : Run env h s) (progress : Progress s)
    (happroves : ApprovesRecorded env s a) (hnext : next env s a = some s') {id : Uuid}
    {row' : RunRow} (hrow' : s'.db.run? id = some row') :
    s'.db.Recorded row'.tenantId id row'.currentStep := by
  have sound := run_sound run
  have hextends := next_extends hnext
  have hstep := row_step sound hnext id
  cases hrow : s.db.run? id with
  | none =>
      rw [hrow, hrow'] at hstep
      cases hstep with
      | created hcommit hcall hpc hwrite hid =>
          obtain ⟨create, id, now, budgetCents, -, rfl⟩ := sound.insert_eq hcall hpc hwrite
          intro step hlt
          simp [ControlPlane.newRun] at hlt
  | some row =>
      have before := (progress.rows id row hrow).extends hextends
      rw [hrow, hrow'] at hstep
      cases hstep with
      | same => exact before
      | claimed => exact before
      | completed => exact before
      | transitioned hcommit hcall hpc hwrite hid =>
          obtain ⟨args, hargs, rfl, rfl, -⟩ := sound.update_args hcall hpc hwrite
          rcases hargs with rfl | rfl
          · have happroved := approved_transition hcommit hwrite
            rw [hid] at happroved
            exact before.succ (isSome_extends hextends (happroves id row happroved hrow))
          · exact before
      | @heartbeat index reply session leased step now row hcommit hworker hpc hid =>
          subst hid
          have hagrees := run_agrees run hworker (by rw [hpc]; rfl)
          have hcursor := progress.cursors index session leased step hworker (by rw [hpc]; rfl)
          have hlast := progress.ends index session leased step hworker (by rw [hpc]; rfl)
          rw [← hagrees.tenant hrow] at hcursor hlast
          exact (hcursor.succ hlast).extends hextends
      | @paused index reply session leased step row hcommit hworker hpc hid =>
          subst hid
          have hagrees := run_agrees run hworker (by rw [hpc]; rfl)
          have hcursor := progress.cursors index session leased step hworker (by rw [hpc]; rfl)
          rw [← hagrees.tenant hrow] at hcursor
          exact hcursor.extends hextends

theorem Progress.succeeded_next (run : Run env h s) (progress : Progress s)
    (hnext : next env s a = some s') {id : Uuid} {row' : RunRow}
    {definition : Worker.Definition} (hrow' : s'.db.run? id = some row')
    (hsucceeded : row'.state = .succeeded)
    (hinterpreted : s'.db.interpreted? id = some definition) :
    s'.db.Recorded row'.tenantId id definition.steps.length := by
  have sound := run_sound run
  have hextends := next_extends hnext
  have hstep := row_step sound hnext id
  cases hrow : s.db.run? id with
  | none =>
      rw [hrow, hrow'] at hstep
      cases hstep with
      | created hcommit hcall hpc hwrite hid =>
          obtain ⟨create, id, now, budgetCents, -, rfl⟩ := sound.insert_eq hcall hpc hwrite
          cases hsucceeded
  | some row =>
      rw [interpreted_next (run_referenced run) hnext hrow] at hinterpreted
      have before : row.state = .succeeded →
          s'.db.Recorded row.tenantId id definition.steps.length := fun hstate =>
        (progress.succeeded id row definition hrow hstate hinterpreted).extends hextends
      rw [hrow, hrow'] at hstep
      cases hstep with
      | same => exact before hsucceeded
      | heartbeat => exact before hsucceeded
      | claimed => cases hsucceeded
      | paused => cases hsucceeded
      | transitioned hcommit hcall hpc hwrite hid =>
          obtain ⟨args, rfl | rfl, rfl, -⟩ := sound.update_args hcall hpc hwrite
          · cases hsucceeded
          · cases hsucceeded
      | @completed index reply session leased row hcommit hworker hpc hid =>
          subst hid
          have hagrees := run_agrees run hworker (by rw [hpc]; rfl)
          have hall := progress.completes index session leased hworker hpc
          rw [hagrees.interpreted, Option.some.injEq] at hinterpreted
          subst hinterpreted
          rw [← hagrees.tenant hrow] at hall
          exact hall.extends hextends

theorem Progress.cursors_next (run : Run env h s) (progress : Progress s)
    (hnext : next env s a = some s') {index : Nat} {session : Worker.Session}
    {leased : Worker.LeasedRun} {step : Nat} (hworker : s'.workers[index]? = some session)
    (hcursor : session.pc.stage.cursor? = some (leased, step)) :
    s'.db.Recorded leased.tenantId leased.ref.id step := by
  have sound := run_sound run
  have hextends := next_extends hnext
  cases worker_case hnext hworker with
  | kept hold hactor => exact (progress.cursors index _ leased step hold hcursor).extends hextends
  | joined => cases hcursor
  | @turned session pc effect hold hactor hcommit hturn hstate =>
      have hshape := sound.shaped.workers index session hold
      generalize hchange : effect.commit? = change at hcommit
      have hmove := hchange ▸ hturn.stage hshape
      cases hmove.cursor hcursor with
      | same hold' =>
          exact (progress.cursors index session leased step hold hold').extends hextends
      | advanced hold' =>
          have hbefore := progress.cursors index session leased _ hold (by rw [hold']; rfl)
          have hlast := progress.ends index session leased _ hold (by rw [hold']; rfl)
          exact (hbefore.succ hlast).extends hextends
      | claimed leased owner now events =>
          obtain ⟨row, run', hpc, rfl, -⟩ := hturn.claims hchange
          cases hcursor
          rw [hpc] at hshape
          obtain ⟨hleases, -, -⟩ := hshape
          have hrow := sound.snapshots.workers index session row hold (by rw [hpc]; rfl)
          rw [hleases.id] at hrow
          have before := progress.rows _ row hrow
          rw [← hleases.currentStep, ← hleases.tenantId] at before
          exact before.extends hextends

theorem Progress.ends_next (run : Run env h s) (progress : Progress s)
    (hnext : next env s a = some s') {index : Nat} {session : Worker.Session}
    {leased : Worker.LeasedRun} {step : Nat} (hworker : s'.workers[index]? = some session)
    (hended : session.pc.stage.ended? = some (leased, step)) :
    (s'.db.stepResult? leased.tenantId leased.ref.id step).isSome = true := by
  have hextends := next_extends hnext
  cases worker_case hnext hworker with
  | kept hold hactor =>
      exact isSome_extends hextends (progress.ends index _ leased step hold hended)
  | joined => cases hended
  | @turned session pc effect hold hactor hcommit hturn hstate =>
      have hshape := (run_sound run).shaped.workers index session hold
      rcases (hturn.stage hshape).ended hended with hbefore | ⟨row, hrecorded, hkey⟩
      · exact isSome_extends hextends (progress.ends index session leased step hold hbefore)
      · simp only [StepResultRow.key, Prod.mk.injEq] at hkey
        obtain ⟨htenant, hrun, hstep⟩ := hkey
        obtain ⟨events, outbox, audits, hdb⟩ := next_db hnext
        rw [hdb, hcommit, hrecorded, ← htenant, ← hrun, ← hstep]
        exact Option.isSome_iff_exists.mpr (stepResult?_commit _ row)

theorem Progress.next (run : Run env h s) (progress : Progress s)
    (happroves : ApprovesRecorded env s a) (hnext : next env s a = some s') : Progress s' where
  rows := fun _ _ hrow' => progress.rows_next run happroves hnext hrow'
  succeeded := fun _ _ _ hrow' hsucceeded hinterpreted =>
    progress.succeeded_next run hnext hrow' hsucceeded hinterpreted
  cursors := fun _ _ _ _ hworker hcursor => progress.cursors_next run hnext hworker hcursor
  ends := fun _ _ _ _ hworker hended => progress.ends_next run hnext hworker hended
  completes := by
    intro index session leased hworker hpc
    have hextends := next_extends hnext
    cases worker_case hnext hworker with
    | kept hold hactor => exact (progress.completes index _ leased hold hpc).extends hextends
    | joined => cases hpc
    | @turned session pc effect hold hactor hcommit hturn hstate =>
        obtain ⟨step, hloop, hlength⟩ := hturn.completes hpc
        have before := progress.cursors index session leased step hold (by rw [hloop]; rfl)
        intro i hi
        exact isSome_extends hextends (before i (Nat.lt_of_lt_of_le hi hlength))

theorem run_progress (run : Run env h s)
    (happroves : Within (fun _ => ApprovesRecorded env) h) : Progress s := by
  refine run.always_within ?_ ?_ happroves
  · intro s hs
    exact ⟨by simp [Db.run?, hs.runs], by simp [Db.run?, hs.runs], by simp [hs.workers],
      by simp [hs.workers], by simp [hs.workers]⟩
  · intro h s a s' run progress hstep hnext
    exact progress.next run hstep hnext

/--
In the runs that approve no step without a result, every step in front of
`current_step` has one, and so has every step of a succeeded run.
-/
theorem stepsRecorded_of_approvesRecorded (run : Run env h s)
    (happroves : Within (fun _ => ApprovesRecorded env) h) : StepsRecorded s := by
  have progress := run_progress run happroves
  refine ⟨progress.rows, ?_⟩
  intro id row workflow hrow hsucceeded hworkflow
  have hall := progress.succeeded id row _ hrow hsucceeded hworkflow.interpreted
  simpa [decoded] using hall

end

/-! ## An approval that is passed by -/

/-- A ticket behind an approval, up to the completion of the run. -/
def ticketCompleted : List Action :=
  Scenario.createActions [Scenario.approval, Scenario.ticketWrite] ++
    Scenario.publishActions 0 ++ Scenario.claimActions 0 0 ++ Scenario.workerActions 0 7 ++
    Scenario.transitionActions (.approve Scenario.runId.text) 1 10 ++
    Scenario.publishActions 1 ++ Scenario.claimActions 1 1 ++ Scenario.workerActions 1 8

/--
The first worker's pause falls between the first approve and the heartbeat of the
third worker; the second approve then adds one to the index of an approval that
no worker has come to.
-/
def approvedUnreached : List Action :=
  Scenario.createActions [Scenario.approval, Scenario.dataRead, Scenario.approval] ++
    Scenario.publishActions 0 ++ Scenario.claimActions 0 0 ++ Scenario.workerActions 0 3 ++
    [.tick 120000000] ++ Scenario.claimActions 0 1 ++ Scenario.workerActions 1 7 ++
    Scenario.transitionActions (.approve Scenario.runId.text) 1 10 ++
    Scenario.publishActions 1 ++ Scenario.claimActions 1 2 ++ Scenario.workerActions 2 3 ++
    Scenario.workerActions 0 1 ++ Scenario.workerActions 2 2 ++
    Scenario.transitionActions (.approve Scenario.runId.text) 2 10

def approvesRecordedTest (env : Env) (s : State) (a : Action) : Bool :=
  (approvedRun? env s a).all fun id => (s.db.run? id).all fun row =>
    (s.db.stepResult? row.tenantId id row.currentStep).isSome

theorem approvesRecorded_of_test {env : Env} {s : State} {a : Action}
    (htest : approvesRecordedTest env s a = true) : ApprovesRecorded env s a := by
  simp only [approvesRecordedTest, Option.all_eq_true] at htest
  exact fun id row happroved hrow => htest id happroved row hrow

theorem ticketCompleted_stepsRecorded : ∃ h t, Run Scenario.env h t ∧
    endsIn t .succeeded = true ∧ StepsRecorded t := by
  obtain ⟨h, t, run, htest⟩ := Scenario.exists_run 5 ticketCompleted
    (fun h t => endsIn t .succeeded && h.all fun p => approvesRecordedTest Scenario.env p.1 p.2)
    (by decide +kernel)
  rw [Bool.and_eq_true, List.all_eq_true] at htest
  refine ⟨h, t, run, htest.1, stepsRecorded_of_approvesRecorded run (within_iff.mpr ?_)⟩
  exact fun p hp => approvesRecorded_of_test (htest.2 p hp)

theorem not_stepsRecorded : ¬∀ env h s, Run env h s → StepsRecorded s := by
  intro hall
  obtain ⟨h, t, run, htest⟩ := Scenario.exists_run 5 approvedUnreached
    (fun _ t => (t.db.run? Scenario.runId).any fun row => row.currentStep = 3 &&
      (t.db.stepResult? row.tenantId Scenario.runId 2).isNone)
    (by decide +kernel)
  simp only [Option.any_eq_true, Bool.and_eq_true, decide_eq_true_eq, Option.isNone_iff_eq_none]
    at htest
  obtain ⟨row, hrow, hcurrent, hmissing⟩ := htest
  have hrecorded := (hall Scenario.env h t run).current Scenario.runId row hrow 2 (by omega)
  rw [hmissing] at hrecorded
  cases hrecorded

end DurableRuntime
