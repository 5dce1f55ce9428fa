import DurableRuntime.Shapes

/-!
# The stages of an execution

An abstraction of the worker's positions: which step an execution is at, and
whether that step is still to begin, in progress, over, or an approval.  Every
move of a worker is a `StageMove` that makes the same commit, so what the loop
does to a run is read off these moves instead of the positions themselves.
-/

namespace DurableRuntime.Worker

/-- The step at an index as the loop decodes it. -/
def Definition.stepAt (definition : Definition) (index : Nat) : Option Step :=
  (definition.steps[index]?).bind unmarshalStep

def Definition.approvalAt (definition : Definition) (index : Nat) : Bool :=
  (definition.stepAt index).any fun current => current.kind = "approval"

/--
`between`: the loop condition is next; `within`: in a step that is no approval;
`ended`: that step is over and the heartbeat is next; `beating`: the heartbeat
has been sent; `pausing`: in an approval; `leaving`: only final updates and
events are left.
-/
inductive Stage where
  | outside
  | between (run : LeasedRun) (index : Nat)
  | within (run : LeasedRun) (index : Nat)
  | ended (run : LeasedRun) (index : Nat)
  | beating (run : LeasedRun) (index : Nat) (now : Int)
  | pausing (run : LeasedRun) (index : Nat)
  | leaving (run : LeasedRun)

def After.stage (run : LeasedRun) : After → Stage
  | .ret => .leaving run
  | .advance index => .within run index

def Pc.stage : Pc → Stage
  | execute run => .between run run.currentStep
  | loop run index => .between run index
  | consume run index _ _ | provider run index _ _ | fetch run index _ | effect run index =>
      .within run index
  | record run index _ .succeeded _ => .within run index
  | record run index _ .awaitingApproval _ => .pausing run index
  | awaitApproval run index => .pausing run index
  | heartbeat run index => .ended run index
  | heartbeatUpdate run index now => .beating run index now
  | terminate run _ _ after | event run _ _ after | eventCommit run _ after => after.stage run
  | complete run => .leaving run
  | _ => .outside

inductive StageMove (clock : Int) : Stage → Option Commit → Stage → Prop
  | outside : StageMove clock .outside none .outside
  | claim (run : LeasedRun) (owner : String) (now : Int) (events : List EventRow) :
      StageMove clock .outside (some (.claim run.ref.id owner now events))
        (.between run run.currentStep)
  | between (run : LeasedRun) (index : Nat) :
      StageMove clock (.between run index) none (.between run index)
  | begin {run : LeasedRun} {index : Nat} (hindex : index < run.definition.steps.length)
      (hstep : run.definition.approvalAt index = false) :
      StageMove clock (.between run index) none (.within run index)
  | beginApproval {run : LeasedRun} {index : Nat}
      (hindex : index < run.definition.steps.length)
      (hstep : run.definition.approvalAt index = true) :
      StageMove clock (.between run index) none (.pausing run index)
  | leave (run : LeasedRun) (index : Nat) :
      StageMove clock (.between run index) none (.leaving run)
  | inside (run : LeasedRun) (index : Nat) :
      StageMove clock (.within run index) none (.within run index)
  | effect (run : LeasedRun) (index : Nat) :
      StageMove clock (.within run index) (some (.effect (effectRow run index)))
        (.within run index)
  | record (run : LeasedRun) (index : Nat) {row : StepResultRow}
      (hkey : row.key = (run.tenantId, run.ref.id, index)) (hstatus : row.status = .succeeded) :
      StageMove clock (.within run index) (some (.stepResult row)) (.ended run index)
  | beat (run : LeasedRun) (index : Nat) :
      StageMove clock (.ended run index) none (.beating run index clock)
  | heartbeat (run : LeasedRun) (index : Nat) (now : Int) :
      StageMove clock (.beating run index now) (some (.heartbeat run.ref.id (index + 1) now))
        (.between run (index + 1))
  | recordApproval (run : LeasedRun) (index : Nat) {row : StepResultRow}
      (hkey : row.key = (run.tenantId, run.ref.id, index))
      (hstatus : row.status = .awaitingApproval) :
      StageMove clock (.pausing run index) (some (.stepResult row)) (.pausing run index)
  | pause (run : LeasedRun) (index : Nat) :
      StageMove clock (.pausing run index) (some (.awaitApproval run.ref.id index))
        (.leaving run)
  | complete (run : LeasedRun) :
      StageMove clock (.leaving run) (some (.complete run.ref.id)) (.leaving run)
  | leaving (run : LeasedRun) : StageMove clock (.leaving run) none (.leaving run)
  | noteLast {run : LeasedRun} {row : EventRow} (hrun : row.runId = run.ref.id) :
      StageMove clock (.leaving run) (some (.event row)) .outside
  | stop (stage : Stage) : StageMove clock stage none .outside

/-! ## Every turn is a stage move -/

variable {env : Env} {s : Shared} {session : Session} {pc : Pc} {effect : Effect}

theorem stage_executeProviderModel (env : Env) (run : LeasedRun) (index : Nat) (current : Step) :
    (executeProviderModel env run index current).stage = .within run index := by
  unfold executeProviderModel
  repeat' split
  all_goals rfl

theorem stage_withCredential (env : Env) (run : LeasedRun) (index : Nat) (prompt : String)
    (credential : Option String) :
    (withCredential env run index prompt credential).stage = .within run index := by
  unfold withCredential
  repeat' split
  all_goals rfl

theorem stage_executeTool (env : Env) (run : LeasedRun) (index : Nat) (current : Step) :
    (executeTool env run index current).stage = .within run index := by
  unfold executeTool
  repeat' split
  all_goals rfl

theorem stage_executeStep (env : Env) (run : LeasedRun) (index : Nat) (current : Step) :
    (executeStep env run index current).stage =
      if current.kind = "approval" then .pausing run index else .within run index := by
  unfold executeStep
  split
  · rfl
  · repeat' split
    all_goals first | rfl | exact stage_executeProviderModel env run index current |
      exact stage_executeTool env run index current

theorem loop_stage (clock : Int) (env : Env) (run : LeasedRun) (index : Nat) :
    StageMove clock (.between run index) none (loop env run index).stage := by
  unfold loop
  split
  · exact .leave run index
  · rename_i raw hraw
    have hindex := (List.getElem?_eq_some_iff.mp hraw).1
    split
    · exact .leave run index
    · rename_i current hcurrent
      have happroval : run.definition.approvalAt index = decide (current.kind = "approval") := by
        simp [Definition.approvalAt, Definition.stepAt, hraw, hcurrent]
      rw [stage_executeStep]
      split
      · rename_i hkind
        exact .beginApproval hindex (by simp [happroval, hkind])
      · rename_i hkind
        exact .begin hindex (by simp [happroval, hkind])

theorem Turn.stage (hshape : Shaped session.pc) (hturn : Turn env s session pc effect) :
    StageMove s.clock session.pc.stage effect.commit? pc.stage := by
  cases hturn with
  | error => exact .stop _
  | crash => exact .stop _
  | move hmove =>
      generalize session.pc = old at hmove hshape
      cases hmove with
      | received runId =>
          unfold process
          repeat' split
          all_goals exact .outside
      | claimCommit now row events run =>
          obtain ⟨hleases, -, -⟩ := hshape
          rw [hleases.id]
          exact .claim run _ _ _
      | execute run =>
          unfold execute
          split
          · exact .between run _
          · exact .leave run _
      | loop run index => exact loop_stage _ env run index
      | consume run index handle prompt delivery =>
          rw [consumeCredential_commit, stage_withCredential]
          exact .inside run index
      | providerAnswered => exact .inside _ _
      | providerFailed => exact .inside _ _
      | fetched => exact .inside _ _
      | fetchFailed => exact .inside _ _
      | effectReplayed => exact .inside _ _
      | effectCommitted => exact .effect _ _
      | @record _ run index kind status safeLabel hfree =>
          cases status with
          | succeeded => exact .record run index rfl rfl
          | awaitingApproval => exact .recordApproval run index rfl rfl
      | awaitApproval => exact .pause _ _
      | heartbeat => exact .beat _ _
      | heartbeatUpdate => exact .heartbeat _ _ _
      | terminate => exact .stop _
      | complete => exact .complete _
      | event run eventType detail after =>
          obtain ⟨-, rfl⟩ := hshape
          exact .leaving run
      | eventCommit =>
          obtain ⟨hrun, -, rfl⟩ := hshape
          exact .noteLast hrun
      | _ => exact .outside

end DurableRuntime.Worker
