import DurableRuntime.Scenario
import DurableRuntime.Transactions

/-!
# The run state machine

The control plane asserts every transition against the table of allowed ones on
the row it has locked, and a claim starts from a state that may be leased.  The
worker's other updates assert nothing: they are legal exactly when they find the
run `running`, or in the very state they write.
-/

namespace DurableRuntime

open DurableRuntime.Foundation

def isClaim (env : Env) (s : State) (a : Action) : Bool :=
  match commitOf env s a with
  | some (.claim _ _ _ _) => true
  | _ => false

/-- A change that the table allows; a claim makes its moves to `leased` and to `running` at once. -/
def LegalChange (claim : Bool) (source target : RunState) : Prop :=
  source = target ∨ target ∈ allowedTransitions source ∨
    (claim = true ∧ RunState.leased ∈ allowedTransitions source ∧ target = .running)

def LegalStep (env : Env) (s : State) (a : Action) : Prop :=
  ∀ s' id row row', next env s a = some s' → s.db.run? id = some row →
    s'.db.run? id = some row' → LegalChange (isClaim env s a) row.state row'.state

/-- A run found in a terminal state is in that state ever after. -/
def TerminalAbsorbing (h : History State Action) (t : State) : Prop :=
  ∀ s a, (s, a) ∈ h → ∀ id row row', s.db.run? id = some row →
    row.state.isTerminal = true → t.db.run? id = some row' → row'.state = row.state

def ObeysStateMachine (env : Env) (h : History State Action) (t : State) : Prop :=
  Within (fun _ => LegalStep env) h ∧ TerminalAbsorbing h t

/-- The state that an update of a worker writes, apart from the one of its claim. -/
def Commit.workerState? : Commit → Option (Uuid × RunState)
  | .awaitApproval runId _ => some (runId, .awaitingApproval)
  | .terminate runId state _ => some (runId, state)
  | .complete runId => some (runId, .succeeded)
  | _ => none

def workerStates : List RunState := [.awaitingApproval, .succeeded, .failed, .uncertain]

/-- The state updates of the workers find the run running, or change nothing. -/
def WritesFromRunning (env : Env) (s : State) (a : Action) : Prop :=
  ∀ write ∈ (commitOf env s a).bind Commit.workerState?, ∀ row ∈ s.db.run? write.1,
    row.state = .running ∨ row.state = write.2

instance (env : Env) (s : State) (a : Action) : Decidable (WritesFromRunning env s a) :=
  inferInstanceAs (Decidable (∀ write ∈ (commitOf env s a).bind Commit.workerState?, _))

/-! ## Every change but the workers' is legal -/

theorem isTerminal_legal {claim : Bool} {source target : RunState}
    (h : LegalChange claim source target) (hterminal : source.isTerminal = true) :
    target = source := by
  have hnone := (allowedTransitions_eq_nil source).mpr hterminal
  rcases h with rfl | hallowed | ⟨-, hleased, -⟩
  · rfl
  · rw [hnone] at hallowed
    cases hallowed
  · rw [hnone] at hleased
    cases hleased

section

variable {env : Env} {s s' : State} {a : Action} {h : History State Action}

/-- The intermediate state of a claim is never written. -/
def NoneLeased (s : State) : Prop :=
  ∀ id row, s.db.run? id = some row → row.state ≠ .leased

theorem run_noneLeased (run : Run env h s) : NoneLeased s := by
  refine run.always ?_ ?_
  · intro s hs id row hrow
    simp [Db.run?, hs.runs] at hrow
  · intro h s a s' run ih hnext id row' hrow'
    have sound := run_sound run
    have hstep := row_step sound hnext id
    rw [hrow'] at hstep
    cases hold : s.db.run? id with
    | none =>
        rw [hold] at hstep
        cases hstep with
        | created hcommit hcall hpc hwrite hid =>
            obtain ⟨create, id, now, budgetCents, -, rfl⟩ := sound.insert_eq hcall hpc hwrite
            simp [ControlPlane.newRun]
    | some row =>
        have hrow := ih id row hold
        rw [hold] at hstep
        cases hstep with
        | same => exact hrow
        | transitioned hcommit hcall hpc hwrite hid =>
            obtain ⟨args, rfl | rfl, rfl, -, -⟩ := sound.update_args hcall hpc hwrite
            · simp [RunRow.transition, ControlPlane.approveArgs]
            · simp [RunRow.transition, ControlPlane.cancelArgs]
        | claimed => simp [RunRow.claim]
        | heartbeat => exact hrow
        | paused => simp [RunRow.awaitApproval]
        | completed => simp [RunRow.complete]

theorem workerState_next {change : Commit} {id : Uuid} {target : RunState} {row : RunRow}
    (hnext : next env s a = some s') (hcommit : commitOf env s a = some change)
    (hstate : change.workerState? = some (id, target)) (hrow : s.db.run? id = some row) :
    ∃ row', s'.db.run? id = some row' ∧ row'.state = target := by
  rw [next_run? hnext, hcommit, hrow]
  cases change with
  | awaitApproval =>
      cases hstate
      exact ⟨_, if_pos rfl, rfl⟩
  | terminate =>
      cases hstate
      exact ⟨_, if_pos rfl, rfl⟩
  | complete =>
      cases hstate
      exact ⟨_, if_pos rfl, rfl⟩
  | _ => cases hstate

theorem workerState_mem {change : Commit} {id : Uuid} {target : RunState}
    (hcommit : commitOf env s a = some change)
    (hstate : change.workerState? = some (id, target)) : target ∈ workerStates := by
  cases commitOf_commits hcommit with
  | awaitApproval =>
      cases hstate
      decide
  | complete =>
      cases hstate
      decide
  | _ => cases hstate

theorem WritesFromRunning.found {change : Commit} {id : Uuid} {target : RunState} {row : RunRow}
    (h : WritesFromRunning env s a) (hcommit : commitOf env s a = some change)
    (hstate : change.workerState? = some (id, target)) (hrow : s.db.run? id = some row) :
    row.state = .running ∨ row.state = target :=
  h (id, target) (by rw [hcommit]; exact hstate) row hrow

/-- The worker's updates are legal from `running` and from the state they write. -/
theorem allowed_of_running {source target : RunState}
    (htarget : target ∈ allowedTransitions .running)
    (h : source = .running ∨ source = target) {claim : Bool} :
    LegalChange claim source target := by
  rcases h with rfl | rfl
  · exact .inr (.inl htarget)
  · exact .inl rfl

theorem legalStep_of_writesFromRunning (run : Run env h s)
    (hwrites : WritesFromRunning env s a) : LegalStep env s a := by
  intro s' id row row' hnext hrow hrow'
  have sound := run_sound run
  have hstep := row_step sound hnext id
  rw [hrow, hrow'] at hstep
  cases hstep with
  | same => exact .inl rfl
  | transitioned hcommit hcall hpc hwrite hid =>
      obtain ⟨args, -, -, -, hallowed⟩ := sound.update_args hcall hpc hwrite
      exact .inr (.inl hallowed)
  | heartbeat => exact .inl rfl
  | claimed hcommit hworker hpc hid =>
      have hpending := sound.claim_state hworker hpc
      cases hstate : row.state with
      | queued => exact .inr (.inr ⟨by simp [isClaim, hcommit], by decide, rfl⟩)
      | leased => exact .inr (.inl (by simp [RunRow.claim, allowedTransitions]))
      | running => exact .inl rfl
      | _ => simp [hstate, RunState.isPending] at hpending
  | paused hcommit hworker hpc hid =>
      exact allowed_of_running (by decide) (hwrites.found hcommit rfl hrow)
  | completed hcommit hworker hpc hid =>
      exact allowed_of_running (by decide) (hwrites.found hcommit rfl hrow)

/-- Conversely, from any other state an update of a worker is illegal. -/
theorem writesFromRunning_of_legalStep (run : Run env h s) (hnext : next env s a = some s')
    (hlegal : LegalStep env s a) : WritesFromRunning env s a := by
  rintro ⟨id, target⟩ hwrite row hrow
  obtain ⟨change, hcommit, hstate⟩ := Option.bind_eq_some_iff.mp hwrite
  have hnotleased := run_noneLeased run id row hrow
  have hnotclaim : isClaim env s a = false := by
    cases change with
    | claim => cases hstate
    | _ => simp [isClaim, hcommit]
  have hworker := workerState_mem hcommit hstate
  obtain ⟨row', hrow', rfl⟩ := workerState_next hnext hcommit hstate hrow
  have hchange := hlegal s' id row row' hnext hrow hrow'
  rw [hnotclaim] at hchange
  change row.state = .running ∨ row.state = row'.state
  rcases hchange with hsame | htable | ⟨hclaim, -, -⟩
  · exact .inr hsame
  · -- apart from `running`, only `leased` leads to a state that workers write
    revert htable hworker hnotleased
    cases row.state <;> cases row'.state <;> decide
  · cases hclaim

theorem absorbing_of_legal (run : Run env h s)
    (hlegal : Within (fun _ => LegalStep env) h) : TerminalAbsorbing h s := by
  refine run.invariant_within ?_ ?_ hlegal
  · intro s hs s₀ a₀ hp
    cases hp
  · intro h s a s' run _ ih hstep hnext s₀ a₀ hp id row row' hrow hterminal hrow'
    rcases List.mem_append.mp hp with hold | hlast
    · obtain ⟨h₁, h₂, rfl⟩ := List.append_of_mem hold
      obtain ⟨t, -, hfirst, hrest⟩ := run_extends run
      obtain ⟨middle, hmiddle, -⟩ := (hfirst.trans hrest).runs id row hrow
      have hsame := ih s₀ a₀ hold id row middle hrow hterminal hmiddle
      rw [← hsame] at hterminal ⊢
      exact isTerminal_legal (hstep s' id middle row' hnext hmiddle hrow') hterminal
    · simp only [List.mem_singleton, Prod.mk.injEq] at hlast
      obtain ⟨rfl, rfl⟩ := hlast
      exact isTerminal_legal (hstep s' id row row' hnext hrow hrow') hterminal

/--
The runtime obeys the state machine exactly in the runs in which every
`awaiting_approval`, `failed`, `uncertain` and `succeeded` that a worker writes
finds the run running, or already in that state.
-/
theorem obeysStateMachine_iff (run : Run env h s) :
    ObeysStateMachine env h s ↔ Within (fun _ => WritesFromRunning env) h := by
  constructor
  · rintro ⟨hlegal, -⟩ h₁ t b h₂ rfl
    obtain ⟨t', run₁, hnext, -⟩ := run.split
    exact writesFromRunning_of_legalStep run₁ hnext (hlegal h₁ t b h₂ rfl)
  · intro hwrites
    have hlegal : Within (fun _ => LegalStep env) h := by
      intro h₁ t b h₂ heq
      subst heq
      obtain ⟨t', run₁, -, -⟩ := run.split
      exact legalStep_of_writesFromRunning run₁ (hwrites h₁ t b h₂ rfl)
    exact ⟨hlegal, absorbing_of_legal run hlegal⟩

end

/-! ## A cancelled run that succeeds -/

/-- A run of one read-only step, worked off without interference. -/
def undisturbed : List Action :=
  Scenario.createActions [Scenario.dataRead] ++ Scenario.publishActions 0 ++
    Scenario.claimActions 0 0 ++ Scenario.workerActions 0 10

/-- The same run, cancelled after its step has begun. -/
def cancelledMidway : List Action :=
  Scenario.createActions [Scenario.dataRead] ++ Scenario.publishActions 0 ++
    Scenario.claimActions 0 0 ++ Scenario.workerActions 0 2 ++
    Scenario.transitionActions (.cancel Scenario.runId.text) 1 9 ++ Scenario.workerActions 0 5

def endsIn (t : State) (state : RunState) : Bool :=
  (t.db.run? Scenario.runId).any fun row => row.state = state

theorem undisturbed_obeysStateMachine : ∃ h t, Run Scenario.env h t ∧
    endsIn t .succeeded = true ∧ ObeysStateMachine Scenario.env h t := by
  obtain ⟨h, t, run, htest⟩ := Scenario.exists_run 5 undisturbed
    (fun h t => endsIn t .succeeded && h.all fun p => WritesFromRunning Scenario.env p.1 p.2)
    (by decide +kernel)
  simp only [Bool.and_eq_true, List.all_eq_true, decide_eq_true_eq] at htest
  exact ⟨h, t, run, htest.1, (obeysStateMachine_iff run).mpr (within_iff.mpr htest.2)⟩

theorem not_obeysStateMachine :
    ¬∀ env h s, Run env h s → ObeysStateMachine env h s := by
  intro hall
  obtain ⟨h, t, run, htest⟩ := Scenario.exists_run 5 cancelledMidway
    (fun h t => endsIn t .succeeded && h.any fun p => endsIn p.1 .cancelled)
    (by decide +kernel)
  simp only [endsIn, Bool.and_eq_true, List.any_eq_true, Option.any_eq_true,
    decide_eq_true_eq] at htest
  obtain ⟨⟨row', hrow', hsucceeded⟩, ⟨s, a⟩, hp, row, hrow, hcancelled⟩ := htest
  have hsame := (hall Scenario.env h t run).2 s a hp Scenario.runId row row' hrow
    (by simp [hcancelled, RunState.isTerminal]) hrow'
  rw [hsucceeded, hcancelled] at hsame
  cases hsame

end DurableRuntime
