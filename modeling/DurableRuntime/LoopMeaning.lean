import DurableRuntime.ProviderCalls
import DurableRuntime.Worker.Solo
import DurableRuntime.Worker.Stages

/-!
# The meaning of the loop

What `execute` is for: the steps in order, up to the first one whose outcome is
not ok.  An approval pauses the run and the end completes it.  The update with
which `fail` and `uncertain` would end it is refused by the database, so that an
execution that should end there returns an error and leaves the run running.
-/

namespace DurableRuntime.Worker

open DurableRuntime.Foundation

inductive StepOutcome where
  | ok
  | failed (code : String)
  | uncertain (code : String)
  | paused
  deriving DecidableEq

/-- How an execution ends: not begun, with all steps done, or at a step. -/
inductive Ending where
  | refused
  | succeeded
  | stopped (index : Nat) (outcome : StepOutcome)

def endingFrom (outcomes : Nat → StepOutcome) : Nat → Nat → Ending
  | 0, _ => .succeeded
  | remaining + 1, index =>
      match outcomes index with
      | .ok => endingFrom outcomes remaining (index + 1)
      | outcome => .stopped index outcome

/-- The reference meaning of `execute` for the outcomes of its steps. -/
def LeasedRun.meaning (run : LeasedRun) (outcomes : Nat → StepOutcome) : Ending :=
  if supportedWorkflowSchema run.definition.schemaVersion then
    endingFrom outcomes (run.definition.steps.length - run.currentStep) run.currentStep
  else .refused

namespace Ending

def state : Ending → RunState
  | refused | stopped _ (.failed _) => .failed
  | succeeded => .succeeded
  | stopped _ (.uncertain _) => .uncertain
  | stopped _ _ => .awaitingApproval

def eventType : Ending → EventType
  | refused | stopped _ (.failed _) => .failed
  | succeeded => .succeeded
  | stopped _ (.uncertain _) => .uncertain
  | stopped _ _ => .approvalRequested

/-- The error code of a run that fails or ends uncertain. -/
def code? : Ending → Option String
  | refused => some "unsupported_workflow_schema"
  | stopped _ (.failed code) | stopped _ (.uncertain code) => some code
  | _ => none

/-- The step at which an execution stops. -/
def last? : Ending → Option Nat
  | stopped index _ => some index
  | _ => none

/-- The steps that are begun. -/
def begun (run : LeasedRun) : Ending → List Nat
  | refused => []
  | succeeded => List.range' run.currentStep (run.definition.steps.length - run.currentStep)
  | stopped index _ => List.range' run.currentStep (index + 1 - run.currentStep)

end Ending

/-! ## What an execution shows -/

/-- The step that a position is in as long as the outcome of the step is open. -/
def Pc.step? : Pc → Option Nat
  | loop _ index | consume _ index _ _ | provider _ index _ _ | fetch _ index _
  | effect _ index => some index
  | _ => none

/-- The outcome of the step that has led to a position. -/
def Pc.outcome? : Pc → Option StepOutcome
  | record _ _ _ .succeeded _ => some .ok
  | record _ _ _ .awaitingApproval _ => some .paused
  | terminate _ .failed code _ => some (.failed code)
  | terminate _ .uncertain code _ => some (.uncertain code)
  | _ => none

/-- The step that a move ends, with its outcome. -/
def settled? (env : Env) (owner : String) (p : Solo × Answer) : Option (Nat × StepOutcome) :=
  match p.1.pc.step?, soloNext env owner p.1 p.2 with
  | some index, some t => t.pc.outcome?.map fun outcome => (index, outcome)
  | _, _ => none

/-- The steps of an execution have had these outcomes. -/
def Yields (env : Env) (owner : String) (outcomes : Nat → StepOutcome)
    (h : History Solo Answer) : Prop :=
  ∀ p ∈ h, ∀ index outcome, settled? env owner p = some (index, outcome) →
    outcomes index = outcome

def begins? (p : Solo × Answer) : Option Nat :=
  match p.1.pc with
  | .loop run index => if index < run.definition.steps.length then some index else none
  | _ => none

/-- The step for which the next move makes an external call or inserts a row. -/
def Pc.works? : Pc → Option Nat
  | consume _ index _ _ | provider _ index _ _ | fetch _ index _ | effect _ index
  | record _ index _ _ _ => some index
  | _ => none

/-- An execution that has returned has done what the outcomes of its steps mean. -/
structure MeaningKept (run : LeasedRun) (outcomes : Nat → StepOutcome) (s : Shared)
    (h : History Solo Answer) (t : Solo) : Prop where
  row : ∃ row, t.shared.db.run? run.ref.id = some row ∧
    row.state = (run.meaning outcomes).state ∧
      (∀ code, (run.meaning outcomes).code? = some code → row.lastErrorCode = some code) ∧
        ∀ index, (run.meaning outcomes).last? = some index → row.currentStep = index
  event : ∃ event, t.shared.db.events = s.db.events ++ [event] ∧ event.runId = run.ref.id ∧
    event.eventType = (run.meaning outcomes).eventType ∧
      ∀ code, (run.meaning outcomes).code? = some code → event.detail = code
  begun : h.filterMap begins? = (run.meaning outcomes).begun run
  works : ∀ p ∈ h, ∀ index, p.1.pc.works? = some index → index ∈ (run.meaning outcomes).begun run
  current : ∀ index, (run.meaning outcomes).last? = some index → ∀ p ∈ h, ∀ row,
    p.1.shared.db.run? run.ref.id = some row → row.currentStep ≤ index

/-! ## The reference meaning -/

section

variable {outcomes : Nat → StepOutcome} {run : LeasedRun}

theorem endingFrom_succeeded_iff {remaining start : Nat} :
    endingFrom outcomes remaining start = .succeeded ↔
      ∀ i, start ≤ i → i < start + remaining → outcomes i = .ok := by
  induction remaining generalizing start with
  | zero =>
      simp only [endingFrom, true_iff]
      intro i hi hlt
      omega
  | succ remaining ih =>
      have hhead : ∀ i, start ≤ i → i = start ∨ start + 1 ≤ i := by omega
      rw [endingFrom]
      cases houtcome : outcomes start with
      | ok =>
          rw [ih]
          constructor
          · intro hok i hi hlt
            rcases hhead i hi with rfl | hi
            · exact houtcome
            · exact hok i hi (by omega)
          · intro hok i hi hlt
            exact hok i (by omega) (by omega)
      | _ =>
          simp only [reduceCtorEq, false_iff]
          intro hok
          rw [hok start (Nat.le_refl _) (by omega)] at houtcome
          cases houtcome

theorem endingFrom_stopped {remaining start index : Nat} (hle : start ≤ index)
    (hlt : index < start + remaining) (hok : ∀ i, start ≤ i → i < index → outcomes i = .ok)
    (hstop : outcomes index ≠ .ok) :
    endingFrom outcomes remaining start = .stopped index (outcomes index) := by
  induction remaining generalizing start with
  | zero => omega
  | succ remaining ih =>
      rw [endingFrom]
      by_cases heq : start = index
      · subst heq
        cases houtcome : outcomes start with
        | ok => exact absurd houtcome hstop
        | _ => rfl
      · rw [hok start (Nat.le_refl _) (by omega)]
        apply ih (by omega) (by omega)
        intro i hi hlt
        exact hok i (by omega) hlt

/-- A run succeeds if all its steps do, and only then. -/
theorem meaning_succeeded_iff :
    run.meaning outcomes = .succeeded ↔
      supportedWorkflowSchema run.definition.schemaVersion = true ∧
        ∀ i, run.currentStep ≤ i → i < run.definition.steps.length → outcomes i = .ok := by
  unfold LeasedRun.meaning
  split
  · rename_i hsupported
    rw [endingFrom_succeeded_iff]
    constructor
    · intro hok
      refine ⟨hsupported, ?_⟩
      intro i hi hlt
      exact hok i hi (by omega)
    · rintro ⟨-, hok⟩ i hi hlt
      exact hok i hi (by omega)
  · rename_i hunsupported
    simp [hunsupported]

theorem meaning_stopped {index : Nat}
    (hsupported : supportedWorkflowSchema run.definition.schemaVersion = true)
    (hle : run.currentStep ≤ index) (hlt : index < run.definition.steps.length)
    (hok : ∀ i, run.currentStep ≤ i → i < index → outcomes i = .ok)
    (hstop : outcomes index ≠ .ok) : run.meaning outcomes = .stopped index (outcomes index) := by
  rw [LeasedRun.meaning, if_pos hsupported]
  exact endingFrom_stopped hle (by omega) hok hstop

end

/-! ## Where an execution stands -/

/-- The run row, and no new event so far. -/
structure RowAt (run : LeasedRun) (s : Shared) (state : RunState) (step : Nat) (t : Shared) :
    Prop where
  row : ∃ row, t.db.run? run.ref.id = some row ∧ row.state = state ∧ row.currentStep = step
  events : t.db.events = s.db.events

/-- The steps before the index were all ok, and those before `next` have begun. -/
structure Upto (run : LeasedRun) (outcomes : Nat → StepOutcome) (index next : Nat)
    (h : History Solo Answer) : Prop where
  le : run.currentStep ≤ index
  ok : ∀ i, run.currentStep ≤ i → i < index → outcomes i = .ok
  begun : h.filterMap begins? = List.range' run.currentStep (next - run.currentStep)
  works : ∀ p ∈ h, ∀ i, p.1.pc.works? = some i →
    i ∈ List.range' run.currentStep (next - run.currentStep)
  current : ∀ p ∈ h, ∀ row, p.1.shared.db.run? run.ref.id = some row → row.currentStep ≤ index

/-- What `MeaningKept` says of the history. -/
structure Past (run : LeasedRun) (ending : Ending) (h : History Solo Answer) : Prop where
  begun : h.filterMap begins? = ending.begun run
  works : ∀ p ∈ h, ∀ i, p.1.pc.works? = some i → i ∈ ending.begun run
  current : ∀ index, ending.last? = some index → ∀ p ∈ h, ∀ row,
    p.1.shared.db.run? run.ref.id = some row → row.currentStep ≤ index

/-- A step that waits for calls or for the ledger. -/
def Pc.within? : Pc → Option (LeasedRun × Nat)
  | consume run index _ _ | provider run index _ _ | fetch run index _ | effect run index =>
      some (run, index)
  | _ => none

/-- The last update of an execution that pauses or completes the run. -/
inductive LastUpdate (run : LeasedRun) : Ending → Pc → Prop
  | succeeded : LastUpdate run .succeeded (.complete run)
  | paused (index : Nat) : LastUpdate run (.stopped index .paused) (.awaitApproval run index)

/-- The event of an ending, about to be drawn or to be committed. -/
inductive LastEvent (run : LeasedRun) (ending : Ending) : Pc → Prop
  | draw (detail : String) : LastEvent run ending (.event run ending.eventType detail .ret)
  | commit {row : EventRow} (hrun : row.runId = run.ref.id)
      (htype : row.eventType = ending.eventType) : LastEvent run ending (.eventCommit run row .ret)

/-- After a step that is ok, up to the next one. -/
def Pc.ended? : Pc → Option (LeasedRun × Nat)
  | record run index _ .succeeded _ | heartbeat run index | heartbeatUpdate run index _ =>
      some (run, index)
  | _ => none

inductive Standing (run : LeasedRun) (outcomes : Nat → StepOutcome) (s : Shared)
    (h : History Solo Answer) (t : Solo) : Prop
  | execute (hpc : t.pc = .execute run)
      (hupto : Upto run outcomes run.currentStep run.currentStep h)
      (hrow : RowAt run s .running run.currentStep t.shared)
  | between {index} (hsupported : supportedWorkflowSchema run.definition.schemaVersion = true)
      (hpc : t.pc = .loop run index)
      (hbound : index - run.currentStep ≤ run.definition.steps.length - run.currentStep)
      (hupto : Upto run outcomes index index h)
      (hrow : RowAt run s .running index t.shared)
  | within {index} (hsupported : supportedWorkflowSchema run.definition.schemaVersion = true)
      (hindex : index < run.definition.steps.length) (hpc : t.pc.within? = some (run, index))
      (hupto : Upto run outcomes index (index + 1) h)
      (hrow : RowAt run s .running index t.shared)
  | ended {index} (hsupported : supportedWorkflowSchema run.definition.schemaVersion = true)
      (hindex : index < run.definition.steps.length) (hpc : t.pc.ended? = some (run, index))
      (hok : outcomes index = .ok) (hupto : Upto run outcomes index (index + 1) h)
      (hrow : RowAt run s .running index t.shared)
  | pausing {index kind label}
      (hmeaning : run.meaning outcomes = .stopped index .paused)
      (hpc : t.pc = .record run index kind .awaitingApproval label)
      (hupto : Upto run outcomes index (index + 1) h)
      (hrow : RowAt run s .running index t.shared)
  | updating {step} (hcode : (run.meaning outcomes).code? = none)
      (hpc : LastUpdate run (run.meaning outcomes) t.pc)
      (hpast : Past run (run.meaning outcomes) h)
      (hstep : ∀ index, (run.meaning outcomes).last? = some index → step = index)
      (hrow : RowAt run s .running step t.shared)
  | noting {step} (hcode : (run.meaning outcomes).code? = none)
      (hpc : LastEvent run (run.meaning outcomes) t.pc)
      (hpast : Past run (run.meaning outcomes) h)
      (hstep : ∀ index, (run.meaning outcomes).last? = some index → step = index)
      (hrow : RowAt run s (run.meaning outcomes).state step t.shared)
  | closed (hcode : (run.meaning outcomes).code? = none) (hpc : t.pc = .returned .ok)
      (hkept : MeaningKept run outcomes s h t)
  | failing {code step} (hcode : (run.meaning outcomes).code? = some code)
      (hpc : (∃ state after, t.pc = .terminate run state code after) ∨ t.pc = .returned .error)
      (hrow : RowAt run s .running step t.shared)
  | gone (hpc : t.pc = .gone)

section

variable {env : Env} {owner : String} {run : LeasedRun} {outcomes : Nat → StepOutcome}
  {s : Shared} {t t' : Solo} {answer : Answer} {h : History Solo Answer} {index fresh : Nat}

/-! ## The history grows -/

/-- A position at which no step begins, with a step that is at work among those begun. -/
theorem Upto.snoc (hupto : Upto run outcomes index fresh h) {state : RunState}
    (hrow : RowAt run s state index t.shared) (hbegins : begins? (t, answer) = none)
    (hworks : ∀ i, t.pc.works? = some i → i = index ∧ fresh = index + 1) :
    Upto run outcomes index fresh (h ++ [(t, answer)]) := by
  have hle := hupto.le
  refine ⟨hupto.le, hupto.ok, ?_, ?_, ?_⟩
  · rw [List.filterMap_append, hupto.begun]
    simp [hbegins]
  · intro p hp i hi
    rcases List.mem_append.mp hp with hold | hlast
    · exact hupto.works p hold i hi
    · rw [List.mem_singleton] at hlast
      subst hlast
      obtain ⟨rfl, rfl⟩ := hworks i hi
      rw [List.mem_range'_1]
      omega
  · intro p hp row hfound
    rcases List.mem_append.mp hp with hold | hlast
    · exact hupto.current p hold row hfound
    · rw [List.mem_singleton] at hlast
      subst hlast
      obtain ⟨row', hrow', -, hstep⟩ := hrow.row
      rw [hfound, Option.some.injEq] at hrow'
      subst hrow'
      omega

theorem Upto.begin (hupto : Upto run outcomes index index h) {state : RunState}
    (hrow : RowAt run s state index t.shared)
    (hpc : t.pc = .loop run index) (hindex : index < run.definition.steps.length) :
    Upto run outcomes index (index + 1) (h ++ [(t, answer)]) := by
  have hle := hupto.le
  have hsucc : index + 1 - run.currentStep = index - run.currentStep + 1 := by omega
  have hadd : run.currentStep + (index - run.currentStep) = index := by omega
  have hsteps : List.range' run.currentStep (index + 1 - run.currentStep) =
      List.range' run.currentStep (index - run.currentStep) ++ [index] := by
    rw [hsucc, List.range'_1_concat, hadd]
  refine ⟨hupto.le, hupto.ok, ?_, ?_, ?_⟩
  · rw [List.filterMap_append, hupto.begun, hsteps]
    simp [begins?, hpc, hindex]
  · intro p hp i hi
    rw [hsteps]
    rcases List.mem_append.mp hp with hold | hlast
    · exact List.mem_append_left _ (hupto.works p hold i hi)
    · rw [List.mem_singleton] at hlast
      subst hlast
      rw [hpc] at hi
      cases hi
  · intro p hp row hfound
    rcases List.mem_append.mp hp with hold | hlast
    · exact hupto.current p hold row hfound
    · rw [List.mem_singleton] at hlast
      subst hlast
      obtain ⟨row', hrow', -, hstep⟩ := hrow.row
      rw [hfound, Option.some.injEq] at hrow'
      subst hrow'
      omega

/-- A step that is ok is left behind. -/
theorem Upto.advance (hupto : Upto run outcomes index (index + 1) h)
    (hok : outcomes index = .ok) : Upto run outcomes (index + 1) (index + 1) h := by
  have hle := hupto.le
  refine ⟨by omega, ?_, hupto.begun, hupto.works, ?_⟩
  · intro i hi hlt
    by_cases heq : i = index
    · rw [heq, hok]
    · exact hupto.ok i hi (by omega)
  · intro p hp row hrow
    have hcurrent := hupto.current p hp row hrow
    omega

theorem Past.snoc {ending : Ending} (hpast : Past run ending h) {state : RunState} {step : Nat}
    (hrow : RowAt run s state step t.shared)
    (hstep : ∀ index, ending.last? = some index → step = index)
    (hbegins : begins? (t, answer) = none) (hworks : t.pc.works? = none) :
    Past run ending (h ++ [(t, answer)]) := by
  refine ⟨?_, ?_, ?_⟩
  · rw [List.filterMap_append, hpast.begun]
    simp [hbegins]
  · intro p hp i hi
    rcases List.mem_append.mp hp with hold | hlast
    · exact hpast.works p hold i hi
    · rw [List.mem_singleton] at hlast
      subst hlast
      rw [hworks] at hi
      cases hi
  · intro index hlast p hp row hfound
    rcases List.mem_append.mp hp with hold | hnew
    · exact hpast.current index hlast p hold row hfound
    · rw [List.mem_singleton] at hnew
      subst hnew
      obtain ⟨row', hrow', -, hsame⟩ := hrow.row
      rw [hfound, Option.some.injEq] at hrow'
      subst hrow'
      rw [hsame, hstep index hlast]

/-! ## What a move leads to -/

/-- The position after the start of a step, or after a call inside it. -/
inductive SettleCase (run : LeasedRun) (index : Nat) : Pc → Prop
  | record {kind label} : SettleCase run index (.record run index kind .succeeded label)
  | failed {code} : SettleCase run index (.terminate run .failed code (.advance index))
  | uncertain {code} : SettleCase run index (.terminate run .uncertain code (.advance index))
  | within {pc} (hpc : pc.within? = some (run, index)) : SettleCase run index pc

inductive LoopCase (run : LeasedRun) (index : Nat) : Pc → Prop
  | done (hdone : run.definition.steps.length ≤ index) : LoopCase run index (.complete run)
  | undecodable (hindex : index < run.definition.steps.length) :
      LoopCase run index (.terminate run .failed "invalid_workflow_step" .ret)
  | paused (hindex : index < run.definition.steps.length) :
      LoopCase run index (.record run index .approval .awaitingApproval "approval-required")
  | settles {pc} (hindex : index < run.definition.steps.length)
      (hsettle : SettleCase run index pc) : LoopCase run index pc

theorem executeProviderModel_case (env : Env) (run : LeasedRun) (index : Nat) (current : Step) :
    SettleCase run index (executeProviderModel env run index current) := by
  unfold executeProviderModel
  repeat' split
  · exact .uncertain
  · exact .uncertain
  · exact .within rfl

theorem withCredential_case (env : Env) (run : LeasedRun) (index : Nat) (prompt : String)
    (credential : Option String) :
    SettleCase run index (withCredential env run index prompt credential) := by
  unfold withCredential
  repeat' split
  · exact .uncertain
  · exact .uncertain
  · exact .within rfl
  · exact .uncertain

theorem executeTool_case (env : Env) (run : LeasedRun) (index : Nat) (current : Step) :
    SettleCase run index (executeTool env run index current) := by
  unfold executeTool
  repeat' split
  · exact .record
  · exact .within rfl
  · exact .within rfl
  · exact .failed
  · exact .failed

theorem executeStep_case (env : Env) (run : LeasedRun) (index : Nat) (current : Step)
    (hkind : current.kind ≠ "approval") :
    SettleCase run index (executeStep env run index current) := by
  unfold executeStep
  rw [if_neg hkind]
  split
  · split
    · exact .record
    · split
      · exact .failed
      · exact executeProviderModel_case env run index current
  · split
    · split
      · exact .failed
      · exact .record
    · split
      · exact executeTool_case env run index current
      · exact .failed

theorem loop_case (env : Env) (run : LeasedRun) (index : Nat) :
    LoopCase run index (loop env run index) := by
  unfold loop
  split
  · rename_i hnone
    exact .done (List.getElem?_eq_none_iff.mp hnone)
  · rename_i raw hraw
    have hindex := (List.getElem?_eq_some_iff.mp hraw).1
    split
    · exact .undecodable hindex
    · rename_i current hcurrent
      by_cases hkind : current.kind = "approval"
      · unfold executeStep
        rw [if_pos hkind]
        exact .paused hindex
      · exact .settles hindex (executeStep_case env run index current hkind)

theorem soloNext_loop (hpc : t.pc = .loop run index)
    (hnext : soloNext env owner t answer = some t') :
    t'.pc = loop env run index ∧ t'.shared = wait t.shared answer.elapsed := by
  unfold soloNext at hnext
  rw [hpc] at hnext
  cases hnext
  exact ⟨rfl, rfl⟩

/-- The row of a run and the events. -/
def Untouched (runId : Uuid) (s s' : Shared) : Prop :=
  s'.db.run? runId = s.db.run? runId ∧ s'.db.events = s.db.events

theorem RowAt.untouched {state : RunState} {step : Nat} {u : Shared}
    (hrow : RowAt run s state step t.shared) (hsame : Untouched run.ref.id t.shared u) :
    RowAt run s state step u := by
  obtain ⟨hrun, hevents⟩ := hsame
  exact ⟨by rw [hrun]; exact hrow.row, by rw [hevents]; exact hrow.events⟩

theorem within_case (hwithin : t.pc.within? = some (run, index))
    (hnext : soloNext env owner t answer = some t') :
    Untouched run.ref.id t.shared t'.shared ∧ SettleCase run index t'.pc := by
  obtain ⟨effect, hmove, hshared⟩ := soloNext_move hnext
  rw [hshared]
  generalize t.pc = old at hmove hwithin
  generalize t'.pc = new at hmove ⊢
  generalize answer.reply old = reply at hmove
  cases hmove with
  | consume other step handle prompt delivery =>
      cases hwithin
      refine ⟨?_, withCredential_case _ _ _ _ _⟩
      unfold consumeCredential
      repeat' split
      all_goals exact ⟨rfl, rfl⟩
  | providerAnswered =>
      cases hwithin
      exact ⟨⟨rfl, rfl⟩, .record⟩
  | providerFailed =>
      cases hwithin
      exact ⟨⟨rfl, rfl⟩, .uncertain⟩
  | fetched =>
      cases hwithin
      exact ⟨⟨rfl, rfl⟩, .record⟩
  | fetchFailed =>
      cases hwithin
      exact ⟨⟨rfl, rfl⟩, .failed⟩
  | effectReplayed =>
      cases hwithin
      exact ⟨⟨rfl, rfl⟩, .record⟩
  | effectCommitted =>
      cases hwithin
      exact ⟨⟨rfl, rfl⟩, .record⟩
  | _ => cases hwithin

theorem outcome_of_settled (hnext : soloNext env owner t answer = some t')
    (hyields : Yields env owner outcomes (h ++ [(t, answer)])) (hstep : t.pc.step? = some index)
    {outcome : StepOutcome} (houtcome : t'.pc.outcome? = some outcome) :
    outcomes index = outcome := by
  apply hyields (t, answer) (by simp)
  simp [settled?, hstep, hnext, houtcome]

theorem step_of_within (hwithin : t.pc.within? = some (run, index)) : t.pc.step? = some index := by
  generalize t.pc = pc at hwithin ⊢
  cases pc <;> cases hwithin <;> rfl

/-! ## One move of an execution -/

/-- A step that has settled on ok, on a failure or not yet. -/
theorem Standing.settle (hsupported : supportedWorkflowSchema run.definition.schemaVersion = true)
    (hindex : index < run.definition.steps.length)
    (hupto : Upto run outcomes index (index + 1) (h ++ [(t, answer)]))
    (hrow : RowAt run s .running index t'.shared) (hcase : SettleCase run index t'.pc)
    (houtcome : ∀ outcome, t'.pc.outcome? = some outcome → outcomes index = outcome) :
    Standing run outcomes s (h ++ [(t, answer)]) t' := by
  generalize hpc : t'.pc = pc at hcase
  rw [hpc] at houtcome
  cases hcase with
  | record =>
      exact .ended hsupported hindex (by rw [hpc]; rfl) (houtcome .ok rfl) hupto hrow
  | @failed code =>
      have hfailed := houtcome (.failed code) rfl
      have hmeaning := meaning_stopped hsupported hupto.le hindex hupto.ok (by simp [hfailed])
      exact .failing (by rw [hmeaning, hfailed]; rfl) (.inl ⟨_, _, hpc⟩) hrow
  | @uncertain code =>
      have huncertain := houtcome (.uncertain code) rfl
      have hmeaning := meaning_stopped hsupported hupto.le hindex hupto.ok (by simp [huncertain])
      exact .failing (by rw [hmeaning, huncertain]; rfl) (.inl ⟨_, _, hpc⟩) hrow
  | within hwithin =>
      exact .within hsupported hindex (by rw [hpc, hwithin]) hupto hrow

theorem Standing.execute_next (hpc : t.pc = .execute run)
    (hupto : Upto run outcomes run.currentStep run.currentStep h)
    (hrow : RowAt run s .running run.currentStep t.shared)
    (hnext : soloNext env owner t answer = some t') :
    Standing run outcomes s (h ++ [(t, answer)]) t' := by
  unfold soloNext at hnext
  rw [hpc] at hnext
  cases hnext
  have hupto' : Upto run outcomes run.currentStep run.currentStep (h ++ [(t, answer)]) :=
    hupto.snoc hrow (by simp [begins?, hpc]) (by simp [hpc, Pc.works?])
  have hrow' : RowAt run s .running run.currentStep (wait t.shared answer.elapsed) :=
    ⟨hrow.row, hrow.events⟩
  by_cases hsupported : supportedWorkflowSchema run.definition.schemaVersion = true
  · exact .between hsupported (by simp [Worker.execute, hsupported]) (by omega) hupto' hrow'
  · have hmeaning : run.meaning outcomes = .refused := by simp [LeasedRun.meaning, hsupported]
    have hpc' : (⟨(wait t.shared answer.elapsed).apply .none, Worker.execute run⟩ : Solo).pc =
        .terminate run .failed "unsupported_workflow_schema" .ret := by
      simp [Worker.execute, hsupported, fail]
    exact .failing (by rw [hmeaning]; rfl) (.inl ⟨_, _, hpc'⟩) hrow'

theorem past_of_upto {outcome : StepOutcome} (hupto : Upto run outcomes index (index + 1) h) :
    Past run (.stopped index outcome) h := by
  refine ⟨hupto.begun, hupto.works, ?_⟩
  intro last hlast
  cases hlast
  exact hupto.current

theorem Standing.between_next
    (hsupported : supportedWorkflowSchema run.definition.schemaVersion = true)
    (hpc : t.pc = .loop run index)
    (hbound : index - run.currentStep ≤ run.definition.steps.length - run.currentStep)
    (hupto : Upto run outcomes index index h)
    (hrow : RowAt run s .running index t.shared)
    (hnext : soloNext env owner t answer = some t')
    (hyields : Yields env owner outcomes (h ++ [(t, answer)])) :
    Standing run outcomes s (h ++ [(t, answer)]) t' := by
  obtain ⟨hpc', hshared⟩ := soloNext_loop hpc hnext
  have hrow' : RowAt run s .running index t'.shared := by
    rw [hshared]
    exact ⟨hrow.row, hrow.events⟩
  have houtcome : ∀ outcome, t'.pc.outcome? = some outcome → outcomes index = outcome :=
    fun outcome => outcome_of_settled hnext hyields (by rw [hpc]; rfl)
  have hcase := loop_case env run index
  rw [← hpc'] at hcase
  generalize hnew : t'.pc = pc at hcase
  rw [hnew] at houtcome
  cases hcase with
  | done hdone =>
      have hbegins : begins? (t, answer) = none := by simp [begins?, hpc, hdone]
      have hupto' : Upto run outcomes index index (h ++ [(t, answer)]) :=
        hupto.snoc hrow hbegins (by simp [hpc, Pc.works?])
      have hall : index - run.currentStep = run.definition.steps.length - run.currentStep := by
        omega
      have hmeaning : run.meaning outcomes = .succeeded := by
        rw [meaning_succeeded_iff]
        refine ⟨hsupported, ?_⟩
        intro i hi hlt
        exact hupto.ok i hi (by omega)
      refine .updating ?_ ?_ ?_ ?_ hrow'
      · rw [hmeaning]
        rfl
      · rw [hmeaning, hnew]
        exact .succeeded
      · rw [hmeaning]
        refine ⟨?_, ?_, ?_⟩
        · rw [hupto'.begun, hall]
          rfl
        · have hworks := hupto'.works
          rw [hall] at hworks
          exact hworks
        · intro index hlast
          cases hlast
      · intro index hlast
        rw [hmeaning] at hlast
        cases hlast
  | undecodable hindex =>
      have hfailed := houtcome _ rfl
      have hmeaning := meaning_stopped hsupported hupto.le hindex hupto.ok (by rw [hfailed]; simp)
      exact .failing (by rw [hmeaning, hfailed]; rfl) (.inl ⟨_, _, hnew⟩) hrow'
  | paused hindex =>
      have hpaused := houtcome _ rfl
      have hmeaning := meaning_stopped hsupported hupto.le hindex hupto.ok (by rw [hpaused]; simp)
      rw [hpaused] at hmeaning
      exact .pausing hmeaning hnew (hupto.begin hrow hpc hindex) hrow'
  | settles hindex hsettle =>
      refine Standing.settle hsupported hindex (hupto.begin hrow hpc hindex) hrow' ?_ ?_
      · rw [hnew]
        exact hsettle
      · rw [hnew]
        exact houtcome

theorem Standing.within_next
    (hsupported : supportedWorkflowSchema run.definition.schemaVersion = true)
    (hindex : index < run.definition.steps.length) (hpc : t.pc.within? = some (run, index))
    (hupto : Upto run outcomes index (index + 1) h)
    (hrow : RowAt run s .running index t.shared)
    (hnext : soloNext env owner t answer = some t')
    (hyields : Yields env owner outcomes (h ++ [(t, answer)])) :
    Standing run outcomes s (h ++ [(t, answer)]) t' := by
  obtain ⟨hsame, hcase⟩ := within_case hpc hnext
  refine Standing.settle hsupported hindex ?_ (hrow.untouched hsame) hcase
    fun outcome => outcome_of_settled hnext hyields (step_of_within hpc)
  refine hupto.snoc hrow ?_ ?_
  · generalize hold : t.pc = pc at hpc
    cases pc <;> cases hpc <;> simp [begins?, hold]
  · generalize t.pc = pc at hpc
    intro i hi
    cases pc <;> cases hpc <;> cases hi <;> exact ⟨rfl, rfl⟩

theorem ended_quiet (hpc : t.pc.ended? = some (run, index)) :
    begins? (t, answer) = none ∧ ∀ i, t.pc.works? = some i → i = index := by
  unfold begins?
  generalize t.pc = pc at hpc
  cases pc with
  | record other step kind status label =>
      cases status <;> cases hpc
      exact ⟨rfl, fun i hi => (Option.some.inj hi).symm⟩
  | heartbeat =>
      cases hpc
      exact ⟨rfl, nofun⟩
  | heartbeatUpdate =>
      cases hpc
      exact ⟨rfl, nofun⟩
  | _ => cases hpc

theorem Standing.ended_next
    (hsupported : supportedWorkflowSchema run.definition.schemaVersion = true)
    (hindex : index < run.definition.steps.length) (hpc : t.pc.ended? = some (run, index))
    (hok : outcomes index = .ok) (hupto : Upto run outcomes index (index + 1) h)
    (hrow : RowAt run s .running index t.shared)
    (hnext : soloNext env owner t answer = some t') :
    Standing run outcomes s (h ++ [(t, answer)]) t' := by
  obtain ⟨effect, hmove, hshared⟩ := soloNext_move hnext
  obtain ⟨hbegins, hworks⟩ := @ended_quiet run t answer index hpc
  have hupto' : Upto run outcomes index (index + 1) (h ++ [(t, answer)]) :=
    hupto.snoc hrow hbegins fun i hi => ⟨hworks i hi, rfl⟩
  generalize answer.reply t.pc = reply at hmove
  generalize t.pc = old at hmove hpc
  generalize hnew : t'.pc = pc at hmove
  cases hmove with
  | @record _ _ step kind status label hfree =>
      cases status <;> cases hpc
      refine .ended hsupported hindex (by rw [hnew]; rfl) hok hupto' ?_
      rw [hshared]
      exact ⟨hrow.row, hrow.events⟩
  | heartbeat =>
      cases hpc
      refine .ended hsupported hindex (by rw [hnew]; rfl) hok hupto' ?_
      rw [hshared]
      exact ⟨hrow.row, hrow.events⟩
  | @heartbeatUpdate _ _ _ now hfree =>
      cases hpc
      refine .between hsupported hnew (by omega) (hupto'.advance hok) ?_
      obtain ⟨row, hfound, hstate, -⟩ := hrow.row
      refine ⟨⟨row.heartbeat (index + 1) now, ?_, hstate, rfl⟩, ?_⟩
      · rw [hshared]
        change (t.shared.db.commit _).run? run.ref.id = _
        rw [run?_commit, hfound]
        simp [Commit.rowAfter]
      · rw [hshared]
        exact hrow.events
  | _ => cases hpc

theorem Standing.pausing_next {kind : ResultKind} {label : String}
    (hmeaning : run.meaning outcomes = .stopped index .paused)
    (hpc : t.pc = .record run index kind .awaitingApproval label)
    (hupto : Upto run outcomes index (index + 1) h)
    (hrow : RowAt run s .running index t.shared)
    (hnext : soloNext env owner t answer = some t') :
    Standing run outcomes s (h ++ [(t, answer)]) t' := by
  obtain ⟨effect, hmove, hshared⟩ := soloNext_move hnext
  generalize answer.reply t.pc = reply at hmove
  generalize hnew : t'.pc = pc at hmove
  have hupto' : Upto run outcomes index (index + 1) (h ++ [(t, answer)]) := by
    refine hupto.snoc hrow (by simp [begins?, hpc]) ?_
    intro i hi
    rw [hpc] at hi
    cases hi
    exact ⟨rfl, rfl⟩
  rw [hpc] at hmove
  cases hmove with
  | record hfree =>
      have hrow' : RowAt run s .running index t'.shared := by
        rw [hshared]
        exact ⟨hrow.row, hrow.events⟩
      refine .updating ?_ ?_ ?_ ?_ hrow'
      · rw [hmeaning]
        rfl
      · rw [hmeaning, hnew]
        exact .paused index
      · rw [hmeaning]
        exact past_of_upto hupto'
      · intro last hlast
        rw [hmeaning] at hlast
        cases hlast
        rfl

/-- The update of `fail` or `uncertain` is refused, and the worker returns the error. -/
theorem Standing.failing_next {code : String} {step : Nat}
    (hcode : (run.meaning outcomes).code? = some code)
    (hpc : (∃ state after, t.pc = .terminate run state code after) ∨ t.pc = .returned .error)
    (hrow : RowAt run s .running step t.shared)
    (hnext : soloNext env owner t answer = some t') :
    Standing run outcomes s (h ++ [(t, answer)]) t' := by
  obtain ⟨effect, hmove, hshared⟩ := soloNext_move hnext
  generalize answer.reply t.pc = reply at hmove
  generalize hnew : t'.pc = pc at hmove
  rcases hpc with ⟨state, after, hpc⟩ | hpc
  · rw [hpc] at hmove
    cases hmove with
    | terminate =>
        have hrow' : RowAt run s .running step t'.shared := by
          rw [hshared]
          exact ⟨hrow.row, hrow.events⟩
        exact .failing hcode (.inr hnew) hrow'
  · rw [hpc] at hmove
    cases hmove with
    | nak => exact .gone hnew
    | ack houtcome => exact absurd rfl houtcome

theorem LastUpdate.quiet {ending : Ending} (hpc : LastUpdate run ending t.pc) :
    begins? (t, answer) = none ∧ t.pc.works? = none := by
  unfold begins?
  generalize t.pc = pc at hpc
  cases hpc <;> exact ⟨rfl, rfl⟩

theorem LastEvent.quiet {ending : Ending} (hpc : LastEvent run ending t.pc) :
    begins? (t, answer) = none ∧ t.pc.works? = none := by
  unfold begins?
  generalize t.pc = pc at hpc
  cases hpc <;> exact ⟨rfl, rfl⟩

theorem Standing.updating_next {step : Nat} (hcode : (run.meaning outcomes).code? = none)
    (hpc : LastUpdate run (run.meaning outcomes) t.pc)
    (hpast : Past run (run.meaning outcomes) h)
    (hstep : ∀ index, (run.meaning outcomes).last? = some index → step = index)
    (hrow : RowAt run s .running step t.shared)
    (hnext : soloNext env owner t answer = some t') :
    Standing run outcomes s (h ++ [(t, answer)]) t' := by
  obtain ⟨effect, hmove, hshared⟩ := soloNext_move hnext
  obtain ⟨hbegins, hworks⟩ := @LastUpdate.quiet _ _ answer _ hpc
  have hpast' : Past run (run.meaning outcomes) (h ++ [(t, answer)]) :=
    hpast.snoc hrow hstep hbegins hworks
  obtain ⟨row, hfound, -, hcurrent⟩ := hrow.row
  have hevents := hrow.events
  generalize answer.reply t.pc = reply at hmove
  generalize t.pc = old at hmove hpc
  generalize hnew : t'.pc = pc at hmove
  generalize hending : run.meaning outcomes = ending at hpc hpast' hstep
  have updated : ∀ {change : Commit} {row' : RunRow},
      t'.shared = (wait t.shared answer.elapsed).apply (.commit change) →
        change.rowAfter run.ref.id (some row) = some row' → row'.state = ending.state →
          row'.currentStep = step → (t.shared.db.commit change).events = t.shared.db.events →
            RowAt run s ending.state step t'.shared := by
    intro change row' hshared hafter hstate hcurrent hsame
    refine ⟨⟨row', ?_, hstate, hcurrent⟩, ?_⟩
    · rw [hshared]
      change (t.shared.db.commit _).run? run.ref.id = _
      rw [run?_commit, hfound, hafter]
    · rw [hshared]
      exact hsame.trans hevents
  have noting : LastEvent run ending t'.pc → RowAt run s ending.state step t'.shared →
      Standing run outcomes s (h ++ [(t, answer)]) t' := by
    intro hevent hrow'
    rw [← hending] at hevent hpast' hrow' hstep
    exact .noting hcode hevent hpast' hstep hrow'
  cases hpc with
  | succeeded =>
      cases hmove with
      | complete hfree =>
          refine noting ?_ (@updated _ row.complete hshared (by simp [Commit.rowAfter]) rfl
            hcurrent rfl)
          rw [hnew]
          exact .draw _
  | paused index =>
      cases hmove with
      | awaitApproval hfree =>
          refine noting ?_ (@updated _ (row.awaitApproval index) hshared
            (by simp [Commit.rowAfter]) rfl (hstep index rfl).symm rfl)
          rw [hnew]
          exact .draw _

theorem Standing.noting_next {step : Nat} (hcode : (run.meaning outcomes).code? = none)
    (hpc : LastEvent run (run.meaning outcomes) t.pc)
    (hpast : Past run (run.meaning outcomes) h)
    (hstep : ∀ index, (run.meaning outcomes).last? = some index → step = index)
    (hrow : RowAt run s (run.meaning outcomes).state step t.shared)
    (hnext : soloNext env owner t answer = some t') :
    Standing run outcomes s (h ++ [(t, answer)]) t' := by
  obtain ⟨effect, hmove, hshared⟩ := soloNext_move hnext
  obtain ⟨hbegins, hworks⟩ := @LastEvent.quiet _ _ answer _ hpc
  have hpast' : Past run (run.meaning outcomes) (h ++ [(t, answer)]) :=
    hpast.snoc hrow hstep hbegins hworks
  generalize answer.reply t.pc = reply at hmove
  generalize t.pc = old at hmove hpc
  generalize hnew : t'.pc = pc at hmove
  cases hpc with
  | draw detail =>
      cases hmove with
      | event =>
          refine .noting hcode ?_ hpast' hstep ?_
          · rw [hnew]
            exact .commit rfl rfl
          · rw [hshared]
            exact ⟨hrow.row, hrow.events⟩
  | @commit event hrun htype =>
      cases hmove with
      | eventCommit hfree =>
          refine .closed hcode hnew ⟨?_, ?_, hpast'.begun, hpast'.works, hpast'.current⟩
          · obtain ⟨row, hfound, hstate, hcurrent⟩ := hrow.row
            refine ⟨row, ?_, hstate, by simp [hcode], ?_⟩
            · rw [hshared]
              exact hfound
            · intro index hlast
              rw [hcurrent, hstep index hlast]
          · refine ⟨event, ?_, hrun, htype, by simp [hcode]⟩
            rw [hshared, ← hrow.events]
            rfl

theorem Standing.next (standing : Standing run outcomes s h t)
    (hnext : soloNext env owner t answer = some t')
    (hyields : Yields env owner outcomes (h ++ [(t, answer)])) :
    Standing run outcomes s (h ++ [(t, answer)]) t' := by
  cases standing with
  | execute hpc hupto hrow => exact .execute_next hpc hupto hrow hnext
  | between hsupported hpc hbound hupto hrow =>
      exact .between_next hsupported hpc hbound hupto hrow hnext hyields
  | within hsupported hindex hpc hupto hrow =>
      exact .within_next hsupported hindex hpc hupto hrow hnext hyields
  | ended hsupported hindex hpc hok hupto hrow =>
      exact .ended_next hsupported hindex hpc hok hupto hrow hnext
  | pausing hmeaning hpc hupto hrow => exact .pausing_next hmeaning hpc hupto hrow hnext
  | updating hcode hpc hpast hstep hrow => exact .updating_next hcode hpc hpast hstep hrow hnext
  | noting hcode hpc hpast hstep hrow => exact .noting_next hcode hpc hpast hstep hrow hnext
  | failing hcode hpc hrow => exact .failing_next hcode hpc hrow hnext
  | closed hcode hpc hkept =>
      refine .gone ?_
      unfold soloNext at hnext
      rw [hpc] at hnext
      cases hnext
      rfl
  | gone hpc =>
      unfold soloNext at hnext
      rw [hpc] at hnext
      cases hnext

/-! ## Each step settles once -/

/-- A position at which all steps before the index, and no other, may have settled. -/
def Pc.reached? : Pc → Option Nat
  | execute _ => some 0
  | loop _ index | consume _ index _ _ | provider _ index _ _ | fetch _ index _
  | effect _ index => some index
  | record _ index _ .succeeded _ | heartbeat _ index | heartbeatUpdate _ index _
  | event _ _ _ (.advance index) | eventCommit _ _ (.advance index) => some (index + 1)
  | _ => none

theorem SettleCase.reached {pc : Pc} (hcase : SettleCase run index pc) {n : Nat}
    (hreached : pc.reached? = some n) : index ≤ n ∧ (pc.outcome? ≠ none → index < n) := by
  cases hcase with
  | within hpc =>
      cases pc <;> cases hpc <;> cases hreached <;> simp [Pc.outcome?]
  | record =>
      cases hreached
      simp
  | _ => cases hreached

theorem reached_next (hnext : soloNext env owner t answer = some t')
    (hexecuting : t.pc.executing? = some run) {n : Nat} (hreached : t'.pc.reached? = some n) :
    ∃ m, t.pc.reached? = some m ∧ m ≤ n ∧
      ∀ i outcome, settled? env owner (t, answer) = some (i, outcome) → i = m ∧ m < n := by
  have settled : ∀ {m : Nat}, t.pc.reached? = some m → m ≤ n →
      (t'.pc.outcome? ≠ none → t.pc.step? = some m → m < n) →
      (t.pc.step? = none ∨ t.pc.step? = some m) →
        ∃ m, t.pc.reached? = some m ∧ m ≤ n ∧
          ∀ i outcome, settled? env owner (t, answer) = some (i, outcome) → i = m ∧ m < n := by
    intro m hm hle hlt hstep
    refine ⟨m, hm, hle, ?_⟩
    intro i outcome hsettled
    unfold settled? at hsettled
    rw [hnext] at hsettled
    rcases hstep with hnone | hsome
    · rw [hnone] at hsettled
      cases hsettled
    · rw [hsome] at hsettled
      obtain ⟨found, hfound, hpair⟩ := Option.map_eq_some_iff.mp hsettled
      cases hpair
      exact ⟨rfl, hlt (by rw [hfound]; simp) hsome⟩
  obtain ⟨effect, hmove, -⟩ := soloNext_move hnext
  generalize t.pc = old at hmove hexecuting settled ⊢
  generalize t'.pc = new at hmove hreached settled
  generalize answer.reply old = reply at hmove
  cases hmove with
  | execute run => exact settled rfl (Nat.zero_le _) (by simp [Pc.step?]) (.inl rfl)
  | loop other index =>
      have hcase := loop_case env other index
      generalize loop env other index = pc at hcase hreached settled
      cases hcase with
      | settles hindex hsettle =>
          obtain ⟨hle, hlt⟩ := hsettle.reached hreached
          exact settled rfl hle (fun hsome _ => hlt hsome) (.inr rfl)
      | _ => cases hreached
  | consume other index handle prompt delivery =>
      have hcase := withCredential_case env other index prompt
        (consumeCredential env (wait t.shared answer.elapsed) handle delivery).1
      obtain ⟨hle, hlt⟩ := hcase.reached hreached
      exact settled rfl hle (fun hsome _ => hlt hsome) (.inr rfl)
  | @record _ other index kind status label hfree =>
      cases status <;> cases hreached
      exact settled rfl (Nat.le_refl _) (by simp [Pc.step?]) (.inl rfl)
  | heartbeat =>
      cases hreached
      exact settled rfl (Nat.le_refl _) (by simp [Pc.step?]) (.inl rfl)
  | @heartbeatUpdate _ other index now hfree =>
      cases hreached
      exact settled (m := index + 1) rfl (Nat.le_refl _) (by simp [Pc.step?]) (.inl rfl)
  | event other eventType detail after =>
      cases after <;> cases hreached
      exact settled rfl (Nat.le_refl _) (by simp [Pc.step?]) (.inl rfl)
  | @eventCommit _ other row after hfree =>
      cases after <;> cases hreached
      exact settled rfl (Nat.le_refl _) (by simp [Pc.step?]) (.inl rfl)
  | terminate => cases hreached
  | providerFailed => cases hreached
  | fetchFailed => cases hreached
  | awaitApproval => cases hreached
  | complete => cases hreached
  | received => cases hexecuting
  | claimBegin => cases hexecuting
  | claimEmpty => cases hexecuting
  | claimFound => cases hexecuting
  | claimUpdate => cases hexecuting
  | claimEvents => cases hexecuting
  | claimUndecodable => cases hexecuting
  | claimCommit => cases hexecuting
  | nak => cases hexecuting
  | ack => cases hexecuting
  | _ =>
      cases hreached
      exact settled rfl (Nat.le_succ _) (fun _ _ => Nat.lt_succ_self _) (.inr rfl)

theorem Pc.reached_of_step {pc : Pc} (hstep : pc.step? = some index) :
    pc.reached? = some index := by
  cases pc <;> cases hstep <;> rfl

theorem step_of_settled {p : Solo × Answer} {outcome : StepOutcome}
    (hsettled : settled? env owner p = some (index, outcome)) : p.1.pc.step? = some index := by
  unfold settled? at hsettled
  cases hstep : p.1.pc.step? with
  | none =>
      rw [hstep] at hsettled
      cases hsettled
  | some found =>
      rw [hstep] at hsettled
      cases hnext : soloNext env owner p.1 p.2 with
      | none =>
          rw [hnext] at hsettled
          cases hsettled
      | some t =>
          rw [hnext] at hsettled
          obtain ⟨found', hfound', hpair⟩ := Option.map_eq_some_iff.mp hsettled
          cases hpair
          rfl

/-- The outcomes so far, and no step from the reached one on has settled. -/
structure Settled (env : Env) (owner : String) (run : LeasedRun) (h : History Solo Answer)
    (t : Solo) : Prop where
  yields : ∃ outcomes, Yields env owner outcomes h
  place : t.pc.executing? = some run ∨ (∃ outcome, t.pc = .returned outcome) ∨ t.pc = .gone
  before : ∀ n, t.pc.reached? = some n → ∀ p ∈ h, ∀ i outcome,
    settled? env owner p = some (i, outcome) → i < n

theorem Settled.next (inv : Settled env owner run h t)
    (hnext : soloNext env owner t answer = some t') :
    Settled env owner run (h ++ [(t, answer)]) t' := by
  have hyields : ∃ outcomes, Yields env owner outcomes (h ++ [(t, answer)]) := by
    obtain ⟨outcomes, hyields⟩ := inv.yields
    cases hsettled : settled? env owner (t, answer) with
    | none =>
        refine ⟨outcomes, ?_⟩
        intro p hp i outcome hp'
        rcases List.mem_append.mp hp with hold | hlast
        · exact hyields p hold i outcome hp'
        · rw [List.mem_singleton] at hlast
          rw [hlast, hsettled] at hp'
          cases hp'
    | some pair =>
        obtain ⟨index, result⟩ := pair
        have hreached := Pc.reached_of_step (step_of_settled hsettled)
        refine ⟨Function.update outcomes index result, ?_⟩
        intro p hp i outcome hp'
        rcases List.mem_append.mp hp with hold | hlast
        · have hlt := inv.before index hreached p hold i outcome hp'
          rw [Function.update_of_ne (by omega)]
          exact hyields p hold i outcome hp'
        · rw [List.mem_singleton] at hlast
          rw [hlast, hsettled] at hp'
          cases hp'
          exact Function.update_self _ _ _
  rcases inv.place with hexecuting | ⟨outcome, hreturned⟩ | hgone
  · refine ⟨hyields, ?_, ?_⟩
    · rcases soloNext_executing hnext hexecuting with hexecuting' | hreturned
      · exact .inl hexecuting'
      · exact .inr (.inl hreturned)
    · intro n hreached p hp i outcome hsettled
      obtain ⟨m, hm, hle, hlast⟩ := reached_next hnext hexecuting hreached
      rcases List.mem_append.mp hp with hold | hnew
      · have hlt := inv.before m hm p hold i outcome hsettled
        omega
      · rw [List.mem_singleton] at hnew
        subst hnew
        obtain ⟨rfl, hlt⟩ := hlast i outcome hsettled
        exact hlt
  · have hgone : t'.pc = .gone := by
      obtain ⟨effect, hmove, -⟩ := soloNext_move hnext
      rw [hreturned] at hmove
      generalize t'.pc = pc at hmove
      generalize answer.reply _ = reply at hmove
      cases hmove <;> rfl
    refine ⟨hyields, .inr (.inr hgone), ?_⟩
    intro n hreached
    rw [hgone] at hreached
    cases hreached
  · unfold soloNext at hnext
    rw [hgone] at hnext
    cases hnext

theorem solo_settled (hrun : SoloRun env owner run s h t) : Settled env owner run h t := by
  refine hrun.invariant ?_ ?_
  · rintro t rfl
    exact ⟨⟨fun _ => .ok, by simp [Yields]⟩, .inl rfl, by simp⟩
  · intro h t answer t' _ inv hnext
    exact inv.next hnext

/-! ## The whole execution -/

theorem solo_standing (hleased : Leased run s) (hrun : SoloRun env owner run s h t)
    (hyields : Yields env owner outcomes h) : Standing run outcomes s h t := by
  induction hrun with
  | start hstart =>
      subst hstart
      obtain ⟨row, hfound, hstate, hstep⟩ := hleased.row
      refine .execute rfl ⟨Nat.le_refl _, ?_, ?_, ?_, ?_⟩ ⟨⟨row, hfound, hstate, hstep⟩, rfl⟩
      · intro i hi hlt
        omega
      · simp
      · simp
      · simp
  | @step h t answer t' hrun hnext ih =>
      have hbefore : Yields env owner outcomes h := by
        intro p hp
        exact hyields p (List.mem_append_left _ hp)
      exact (ih hbefore).next hnext hyields

/-- A run that should have failed is still running. -/
theorem Standing.code_none (standing : Standing run outcomes s h t) {outcome : Outcome}
    (hpc : t.pc = .returned outcome) (hkept : MeaningKept run outcomes s h t) :
    (run.meaning outcomes).code? = none := by
  cases standing with
  | closed hcode => exact hcode
  | failing hcode _ hrow =>
      obtain ⟨row, hfound, hstate, -⟩ := hrow.row
      obtain ⟨row', hfound', hstate', -⟩ := hkept.row
      rw [hfound, Option.some.injEq] at hfound'
      rw [← hfound', hstate] at hstate'
      generalize run.meaning outcomes = ending at hstate'
      cases ending with
      | stopped index outcome => cases outcome <;> cases hstate'
      | _ => cases hstate'
  | updating hcode => exact hcode
  | noting hcode => exact hcode
  | execute hother => cases hpc.symm.trans hother
  | between _ hother => cases hpc.symm.trans hother
  | pausing _ hother => cases hpc.symm.trans hother
  | gone hother => cases hpc.symm.trans hother
  | ended _ _ hended =>
      rw [hpc] at hended
      cases hended
  | within _ _ hwithin =>
      rw [hpc] at hwithin
      cases hwithin

/-- An execution whose steps do not fail has done what they mean. -/
theorem Standing.kept (standing : Standing run outcomes s h t) {outcome : Outcome}
    (hpc : t.pc = .returned outcome) (hcode : (run.meaning outcomes).code? = none) :
    MeaningKept run outcomes s h t := by
  cases standing with
  | closed _ _ hkept => exact hkept
  | failing hcode' =>
      rw [hcode] at hcode'
      cases hcode'
  | updating _ hlast =>
      rw [hpc] at hlast
      generalize run.meaning outcomes = ending at hlast
      cases hlast
  | noting _ hlast =>
      rw [hpc] at hlast
      generalize run.meaning outcomes = ending at hlast
      cases hlast
  | execute hother => cases hpc.symm.trans hother
  | between _ hother => cases hpc.symm.trans hother
  | pausing _ hother => cases hpc.symm.trans hother
  | gone hother => cases hpc.symm.trans hother
  | ended _ _ hended =>
      rw [hpc] at hended
      cases hended
  | within _ _ hwithin =>
      rw [hpc] at hwithin
      cases hwithin

/--
However the calls of a leased run are answered, its execution returns, and its
steps have had some outcomes.  It has done what these outcomes mean exactly when
they mean no failure: the schema is supported, and the first step that is not ok,
if there is one, is an approval.
-/
theorem loopMeaning (hleased : Leased run s) :
    (∀ answers : Nat → Answer, ∃ count h t,
      replay (soloNext env owner) ⟨s, .execute run⟩ ((List.range count).map answers) = some (h, t) ∧
        ∃ outcome, t.pc = .returned outcome) ∧
    ∀ h t outcome, SoloRun env owner run s h t → t.pc = .returned outcome →
      (∃ outcomes, Yields env owner outcomes h) ∧
        ∀ outcomes, Yields env owner outcomes h →
          (MeaningKept run outcomes s h t ↔ (run.meaning outcomes).code? = none) := by
  constructor
  · intro answers
    obtain ⟨count, h, t, -, hreplay, hreturned⟩ :=
      @solo_returns ⟨s, .execute run⟩ run env owner answers hleased.unlocked rfl
    exact ⟨count, h, t, hreplay, hreturned⟩
  · intro h t outcome hrun hreturned
    refine ⟨(solo_settled hrun).yields, ?_⟩
    intro outcomes hyields
    have standing := solo_standing hleased hrun hyields
    exact ⟨standing.code_none hreturned, standing.kept hreturned⟩

/-! ## Two executions -/

def yieldsTest (env : Env) (owner : String) (outcomes : Nat → StepOutcome)
    (h : History Solo Answer) : Bool :=
  h.all fun p =>
    match settled? env owner p with
    | some (index, outcome) => outcomes index = outcome
    | none => true

theorem yields_of_test (htest : yieldsTest env owner outcomes h = true) :
    Yields env owner outcomes h := by
  intro p hp index outcome hsettled
  have hall := List.all_eq_true.mp htest p hp
  rw [hsettled] at hall
  exact of_decide_eq_true hall

/-- A run of the small deployment that `claim` has left to a worker. -/
def leasedOf (steps : List Json) : LeasedRun where
  ref := ⟨Scenario.runId.text, Scenario.runId⟩
  tenantId := Scenario.tenantId
  currentStep := 0
  input := []
  definition := ⟨"1", [], steps⟩
  credentialHandle := none

def running : Shared where
  clock := 0
  db :=
    { (Scenario.start 1).db with
      runs := [
        { id := Scenario.runId, tenantId := Scenario.tenantId, workflowId := Scenario.workflowId,
          idempotencyKey := "idempotency-key-1", state := .running, input := .obj [],
          budgetCents := 100, createdAt := 0, updatedAt := 0, currentStep := 0,
          leaseOwner := some "worker", leaseExpiresAt := some 30000000, attemptCount := 1,
          lastErrorCode := none, terminalEvidence := .obj [], providerCredentialHandle := none }] }
  broker := ⟨[], 900000⟩
  locks := fun _ => none

theorem leased_running (steps : List Json) : Leased (leasedOf steps) running :=
  ⟨rfl, _, rfl, rfl, rfl⟩

def quiet : Answer := ⟨1, .answered, .failed, .failed⟩

def Pc.returned? : Pc → Option Outcome
  | returned outcome => some outcome
  | _ => none

def returnsWith (outcome : Outcome) (outcomes : Nat → StepOutcome) (h : History Solo Answer)
    (t : Solo) : Bool :=
  yieldsTest Scenario.env "worker" outcomes h && t.pc.returned? = some outcome

theorem exists_soloRun (run : LeasedRun) (count : Nat) (outcome : Outcome)
    (outcomes : Nat → StepOutcome) (test : Solo → Bool)
    (htest : (replay (soloNext Scenario.env "worker") ⟨running, .execute run⟩
      (List.replicate count quiet)).any
        (fun p => returnsWith outcome outcomes p.1 p.2 && test p.2) = true) :
    ∃ h t, SoloRun Scenario.env "worker" run running h t ∧ t.pc = .returned outcome ∧
      Yields Scenario.env "worker" outcomes h ∧ test t = true := by
  obtain ⟨h, t, hrun, htest⟩ : ∃ h t, SoloRun Scenario.env "worker" run running h t ∧
      (returnsWith outcome outcomes h t && test t) = true :=
    @exec_of_replay Solo Answer (fun t => t = ⟨running, .execute run⟩)
      (soloNext Scenario.env "worker") _ rfl _
      (fun h t => returnsWith outcome outcomes h t && test t) htest
  simp only [returnsWith, Bool.and_eq_true, decide_eq_true_eq] at htest
  obtain ⟨⟨hyields, hreturned⟩, htest⟩ := htest
  refine ⟨h, t, hrun, ?_, yields_of_test hyields, htest⟩
  generalize t.pc = pc at hreturned
  cases pc <;> cases hreturned
  rfl

def pausesSecond (index : Nat) : StepOutcome := if index = 1 then .paused else .ok

/-- A read of data and an approval: the execution pauses at the approval. -/
theorem pausesSecond_loopMeaning :
    Leased (leasedOf [Scenario.dataRead, Scenario.approval]) running ∧
      ∃ h t,
        SoloRun Scenario.env "worker" (leasedOf [Scenario.dataRead, Scenario.approval])
            running h t ∧
          Yields Scenario.env "worker" pausesSecond h ∧
            MeaningKept (leasedOf [Scenario.dataRead, Scenario.approval]) pausesSecond
              running h t := by
  have hleased := leased_running [Scenario.dataRead, Scenario.approval]
  obtain ⟨h, t, hrun, hreturned, hyields, -⟩ :=
    exists_soloRun (leasedOf [Scenario.dataRead, Scenario.approval]) 10 .ok pausesSecond
      (fun _ => true) (by decide +kernel)
  have hiff := ((loopMeaning hleased).2 h t .ok hrun hreturned).2 pausesSecond hyields
  exact ⟨hleased, h, t, hrun, hyields, hiff.mpr rfl⟩

/-- A model step without a credential is uncertain, and the run goes on running. -/
theorem not_loopMeaning :
    ¬ ∀ (env : Env) (owner : String) (run : LeasedRun) (s : Shared), Leased run s →
      ∀ outcomes h t outcome, SoloRun env owner run s h t → t.pc = .returned outcome →
        Yields env owner outcomes h → MeaningKept run outcomes s h t := by
  intro hall
  obtain ⟨h, t, hrun, hreturned, hyields, htest⟩ :=
    exists_soloRun (leasedOf [modelStep]) 3 .error
      (fun _ => .uncertain "provider_credential_unavailable")
      (fun t => (t.shared.db.run? Scenario.runId).any fun row => row.state = .running)
      (by decide +kernel)
  obtain ⟨row, hfound, hstate, -⟩ :=
    (hall _ _ _ _ (leased_running [modelStep]) _ h t _ hrun hreturned hyields).row
  change t.shared.db.run? Scenario.runId = some row at hfound
  rw [hfound] at htest
  have hrunning : row.state = .running := of_decide_eq_true htest
  rw [hrunning] at hstate
  cases hstate

end

end DurableRuntime.Worker
