import DurableRuntime.Identity
import DurableRuntime.Worker.Stages

/-!
# Executions

The facts about executing workers that several properties share: a worker inside
a step is where its definition says it can be, it interprets the definition of
the run it updates, and a step begins when the loop condition admits it.
-/

namespace DurableRuntime

open DurableRuntime.Foundation

namespace Worker

namespace Stage

/-- The execution that a stage belongs to. -/
def run? : Stage → Option LeasedRun
  | outside => none
  | between run _ | within run _ | ended run _ | beating run _ _ | pausing run _ | leaving run =>
      some run

/-- The step that an execution is at, as long as it is in the loop. -/
def cursor? : Stage → Option (LeasedRun × Nat)
  | between run index | within run index | ended run index | beating run index _
  | pausing run index => some (run, index)
  | outside | leaving _ => none

/-- Approvals are in progress at approval steps only, and other steps at the others. -/
def Placed : Stage → Prop
  | within run index | ended run index | beating run index _ =>
      index < run.definition.steps.length ∧ run.definition.approvalAt index = false
  | pausing run index =>
      index < run.definition.steps.length ∧ run.definition.approvalAt index = true
  | _ => True

end Stage

theorem stage_run (pc : Pc) : pc.stage.run? = pc.executing? := by
  cases pc with
  | record run index kind status label => cases status <;> rfl
  | terminate run state code after => cases after <;> rfl
  | event run eventType detail after => cases after <;> rfl
  | eventCommit run row after => cases after <;> rfl
  | _ => rfl

theorem cursor_executing {pc : Pc} {run : LeasedRun} {index : Nat}
    (h : pc.stage.cursor? = some (run, index)) : pc.executing? = some run := by
  rw [← stage_run]
  cases hstage : pc.stage <;> simp_all [Stage.cursor?, Stage.run?]

theorem StageMove.placed {clock : Int} {old new : Stage} {commit : Option Commit}
    (hmove : StageMove clock old commit new) (h : old.Placed) : new.Placed := by
  cases hmove with
  | begin hindex hstep => exact ⟨hindex, hstep⟩
  | beginApproval hindex hstep => exact ⟨hindex, hstep⟩
  | inside => exact h
  | effect => exact h
  | record => exact h
  | beat => exact h
  | recordApproval => exact h
  | _ => trivial

/-- An execution starts with the commit of its claim. -/
theorem StageMove.run {clock : Int} {old new : Stage} {commit : Option Commit}
    (hmove : StageMove clock old commit new) {run : LeasedRun} (h : new.run? = some run) :
    old.run? = some run ∨
      ∃ owner now events, commit = some (.claim run.ref.id owner now events) := by
  cases hmove with
  | claim run owner now events =>
      cases h
      exact .inr ⟨owner, now, events, rfl⟩
  | outside => cases h
  | noteLast => cases h
  | stop => cases h
  | _ => exact .inl h

/-- A cursor is set by a claim and moved on by a heartbeat; a pause clears it. -/
inductive Cursor (old : Stage) : Option Commit → LeasedRun → Nat → Prop
  | same {commit run index} (hold : old.cursor? = some (run, index))
      (hheartbeat : ∀ id step now, commit ≠ some (.heartbeat id step now))
      (hpause : ∀ id step, commit ≠ some (.awaitApproval id step)) :
      Cursor old commit run index
  | claimed (run owner now events) (hold : old = .outside) :
      Cursor old (some (.claim run.ref.id owner now events)) run run.currentStep
  | advanced {run index now} (hold : old = .beating run index now) :
      Cursor old (some (.heartbeat run.ref.id (index + 1) now)) run (index + 1)

theorem StageMove.cursor {clock : Int} {old new : Stage} {commit : Option Commit}
    (hmove : StageMove clock old commit new) {run : LeasedRun} {index : Nat}
    (h : new.cursor? = some (run, index)) : Cursor old commit run index := by
  cases hmove with
  | claim run owner now events =>
      cases h
      exact .claimed run owner now events rfl
  | heartbeat run index now =>
      cases h
      exact .advanced rfl
  | outside => cases h
  | leave => cases h
  | pause => cases h
  | complete => cases h
  | leaving => cases h
  | noteLast => cases h
  | stop => cases h
  | _ => exact .same h (by simp) (by simp)

theorem Turn.claims {env : Env} {s : Shared} {session : Session} {pc : Pc} {effect : Effect}
    (hturn : Turn env s session pc effect) {id : Uuid} {owner : String} {now : Int}
    {events : List EventRow} (hcommit : effect.commit? = some (.claim id owner now events)) :
    ∃ row run, session.pc = .claimCommit now row events run ∧ pc = .execute run ∧
      row.id = id := by
  cases hturn with
  | error => cases hcommit
  | crash => cases hcommit
  | move hmove =>
      generalize session.pc = old at hmove
      cases hmove with
      | claimCommit now row events run =>
          cases hcommit
          exact ⟨row, run, rfl, rfl, rfl⟩
      | consume run index handle prompt delivery =>
          rw [consumeCredential_commit] at hcommit
          cases hcommit
      | _ => cases hcommit

theorem approvalAt_decoded {workflow : WorkflowDefinition} {index : Nat} :
    (decoded workflow).approvalAt index = true ↔
      ∃ reason, workflow.steps[index]? = some (.approval reason) := by
  unfold Definition.approvalAt Definition.stepAt decoded
  simp only [List.getElem?_map]
  cases hstep : workflow.steps[index]? with
  | none => simp
  | some step =>
      simp only [Option.map_some, Option.bind_some, unmarshalStep_toJson, Option.any_some]
      cases step <;> simp [stepOf]

theorem loop_effect {env : Env} {run other : LeasedRun} {index step : Nat}
    (h : loop env run index = .effect other step) :
    other = run ∧ step = index ∧
      ∃ current, run.definition.stepAt index = some current ∧ current.kind = "tool" ∧
        current.tool = "mock_ticket_write" := by
  unfold loop executeStep executeTool executeProviderModel at h
  unfold Definition.stepAt
  repeat' split at h
  all_goals cases h
  rename_i raw hraw _ current hcurrent _ _ _ hkind _ htool
  exact ⟨rfl, rfl, current, by simp [hraw, hcurrent], hkind, htool⟩

theorem loop_ticket {env : Env} {run : LeasedRun} {index : Nat} {current : Step}
    (hstep : run.definition.stepAt index = some current) (hkind : current.kind = "tool")
    (htool : current.tool = "mock_ticket_write") : loop env run index = .effect run index := by
  unfold Definition.stepAt at hstep
  obtain ⟨raw, hraw, hcurrent⟩ := Option.bind_eq_some_iff.mp hstep
  simp [loop, hraw, hcurrent, executeStep, executeTool, hkind, htool]

theorem stepAt_decoded (workflow : WorkflowDefinition) (index : Nat) :
    (decoded workflow).stepAt index = (workflow.steps[index]?).map stepOf := by
  unfold Definition.stepAt decoded
  simp only [List.getElem?_map]
  cases workflow.steps[index]? with
  | none => rfl
  | some step => simp [unmarshalStep_toJson]

/-- The ticket steps of a definition, as the worker reads it. -/
theorem ticket_decoded {workflow : WorkflowDefinition} {index : Nat} {current : Step}
    (hstep : (decoded workflow).stepAt index = some current) (hkind : current.kind = "tool")
    (htool : current.tool = "mock_ticket_write") :
    ∃ flag, workflow.steps[index]? = some (.tool .mockTicketWrite flag) := by
  rw [stepAt_decoded] at hstep
  obtain ⟨step, hfound, rfl⟩ := Option.map_eq_some_iff.mp hstep
  cases step with
  | tool name flag =>
      cases name with
      | mockTicketWrite => exact ⟨flag, hfound⟩
      | _ => simp [stepOf, Tool.text] at htool
  | _ => simp [stepOf] at hkind

/-- A worker writes an effect where its loop has sent it. -/
theorem Turn.effect {env : Env} {s : Shared} {session : Session} {pc : Pc} {effect : Effect}
    (hturn : Turn env s session pc effect) {run : LeasedRun} {step : Nat}
    (hpc : pc = .effect run step) : loop env run step = .effect run step := by
  cases hturn with
  | error => cases hpc
  | crash => cases hpc
  | move hmove =>
      generalize session.pc = old at hmove
      cases hmove with
      | received runId =>
          unfold process at hpc
          repeat' split at hpc
          all_goals cases hpc
      | execute run =>
          unfold execute at hpc
          split at hpc <;> cases hpc
      | loop run index =>
          obtain ⟨rfl, rfl, -⟩ := loop_effect hpc
          exact hpc
      | consume run index handle prompt delivery =>
          unfold withCredential at hpc
          repeat' split at hpc
          all_goals cases hpc
      | @record _ run index kind status safeLabel hfree => cases status <;> cases hpc
      | @eventCommit _ run row after hfree => cases after <;> cases hpc
      | _ => cases hpc

end Worker

/-- The delivery executes the run: its claim has committed and it has not returned. -/
def Worker.Session.Executes (session : Worker.Session) (runId : Uuid) : Prop :=
  ∃ run, session.pc.executing? = some run ∧ run.ref.id = runId

/-- The run that an action claims. -/
def claimed? (env : Env) (s : State) (a : Action) : Option Uuid :=
  match commitOf env s a with
  | some (.claim runId _ _ _) => some runId
  | _ => none

/-- The run that an action approves. -/
def approvedRun? (env : Env) (s : State) (a : Action) : Option Uuid :=
  match commitOf env s a with
  | some (.request writes) =>
      match writes.run with
      | .update before _ true _ => some before.id
      | _ => none
  | _ => none

/-- The run and the step that an action pauses for approval, the last commit of `awaitApproval`. -/
def paused? (env : Env) (s : State) (a : Action) : Option (Uuid × Nat) :=
  match commitOf env s a with
  | some (.awaitApproval runId index) => some (runId, index)
  | _ => none

/-- The step that an action begins: the loop condition has admitted its index. -/
def begun? (s : State) : Action → Option (Worker.LeasedRun × Nat)
  | .worker index _ =>
      match s.workers[index]? with
      | some ⟨_, _, .loop run step⟩ =>
          if step < run.definition.steps.length then some (run, step) else none
      | _ => none
  | _ => none

/-- The new run that a position is about to commit. -/
def ControlPlane.Pc.creating? : ControlPlane.Pc → Option Uuid
  | .commit writes _ =>
      match writes.run with
      | .insert row => some row.id
      | .update _ _ _ _ => none
  | _ => none

/-- The new run that a step commits for a request. -/
def createdBy (index : Nat) (p : State × Action) : Option Uuid :=
  match p.2 with
  | .call other _ =>
      if other = index then (p.1.calls[index]?).bind fun session => session.pc.creating? else none
  | _ => none

/-- The new run of a request, whether or not its handler has learned of the commit. -/
def createdRun? (index : Nat) (h : History State Action) : Option Uuid :=
  h.findSome? (createdBy index)

/-- The step for which an execution is about to make a call to another host. -/
def Worker.Pc.calls? : Worker.Pc → Option (Worker.LeasedRun × Nat)
  | consume run index _ _ | provider run index _ _ | fetch run index _ => some (run, index)
  | _ => none

/-- The run and step for which an action makes an external call. -/
def called? (s : State) : Action → Option (Uuid × Nat)
  | .worker index _ =>
      match s.workers[index]? with
      | some ⟨_, _, .consume run step _ _⟩ | some ⟨_, _, .provider run step _ _⟩
      | some ⟨_, _, .fetch run step _⟩ => some (run.ref.id, step)
      | _ => none
  | _ => none

section

variable {env : Env} {s s' : State} {a : Action} {h : History State Action}

theorem begun_worker {run : Worker.LeasedRun} {step : Nat}
    (hbegun : begun? s a = some (run, step)) :
    ∃ index reply session, a = .worker index reply ∧ s.workers[index]? = some session ∧
      session.pc = .loop run step ∧ step < run.definition.steps.length := by
  unfold begun? at hbegun
  split at hbegun
  · split at hbegun
    · rename_i hworker
      split at hbegun
      · rename_i hindex
        cases hbegun
        exact ⟨_, _, _, rfl, hworker, rfl, hindex⟩
      · cases hbegun
    · cases hbegun
  · cases hbegun

theorem Worker.calls_cursor {pc : Worker.Pc} {run : Worker.LeasedRun} {step : Nat}
    (h : pc.calls? = some (run, step)) : pc.stage.cursor? = some (run, step) := by
  cases pc <;> first | exact h | cases h

theorem called_worker {id : Uuid} {step : Nat} (hcalled : called? s a = some (id, step)) :
    ∃ index reply session run, a = .worker index reply ∧ s.workers[index]? = some session ∧
      session.pc.calls? = some (run, step) ∧ run.ref.id = id := by
  unfold called? at hcalled
  split at hcalled
  · split at hcalled
    · rename_i hworker
      cases hcalled
      exact ⟨_, _, _, _, rfl, hworker, rfl, rfl⟩
    · rename_i hworker
      cases hcalled
      exact ⟨_, _, _, _, rfl, hworker, rfl, rfl⟩
    · rename_i hworker
      cases hcalled
      exact ⟨_, _, _, _, rfl, hworker, rfl, rfl⟩
    · cases hcalled
  · cases hcalled

theorem paused_commit {id : Uuid} {step : Nat} (h : paused? env s a = some (id, step)) :
    commitOf env s a = some (.awaitApproval id step) := by
  unfold paused? at h
  split at h
  · rename_i hcommit
    cases h
    exact hcommit
  · cases h

theorem approved_transition {index : Nat} {choice : Uuid} {writes : Writes} {row : RunRow}
    {state : RunState} {now : Int}
    (hcommit : commitOf env s (.call index choice) = some (.request writes))
    (hwrite : writes.run = .update row state true now) :
    approvedRun? env s (.call index choice) = some row.id := by
  simp [approvedRun?, hcommit, hwrite]

theorem ControlPlane.Pc.creating?_commit {pc : ControlPlane.Pc} {id : Uuid}
    (h : pc.creating? = some id) :
    ∃ writes run row, pc = .commit writes run ∧ writes.run = .insert row ∧ row.id = id := by
  cases pc with
  | commit writes run =>
      simp only [ControlPlane.Pc.creating?] at h
      split at h
      · rename_i row hwrite
        exact ⟨writes, run, row, rfl, hwrite, Option.some.inj h⟩
      · cases h
  | _ => cases h

theorem createdRun?_snoc (index : Nat) (p : State × Action) :
    createdRun? index (h ++ [p]) = (createdRun? index h).or (createdBy index p) := by
  simp [createdRun?, List.findSome?_append]

theorem createdBy_call {index : Nat} {choice : Uuid} {session : ControlPlane.Session}
    (hcall : s.calls[index]? = some session) :
    createdBy index (s, .call index choice) = session.pc.creating? := by
  simp [createdBy, hcall]

theorem createdBy_other {index : Nat} (hother : ∀ choice, a ≠ .call index choice) :
    createdBy index (s, a) = none := by
  unfold createdBy
  cases a with
  | call other choice =>
      refine if_neg ?_
      rintro rfl
      exact hother choice rfl
  | _ => rfl

theorem createdBy_commit {index : Nat} {id : Uuid} (hcreated : createdBy index (s, a) = some id) :
    ∃ choice session writes run row, a = .call index choice ∧ s.calls[index]? = some session ∧
      session.pc = .commit writes run ∧ writes.run = .insert row ∧ row.id = id := by
  unfold createdBy at hcreated
  split at hcreated
  · split at hcreated
    · rename_i choice haction hsame
      subst hsame
      obtain ⟨session, hcall, hcreating⟩ := Option.bind_eq_some_iff.mp hcreated
      obtain ⟨writes, run, row, hpc, hwrite, hid⟩ := ControlPlane.Pc.creating?_commit hcreating
      exact ⟨choice, session, writes, run, row, haction, hcall, hpc, hwrite, hid⟩
    · cases hcreated
  · cases hcreated

/-- Every executing worker is placed. -/
def Placed (s : State) : Prop :=
  ∀ (index : Nat) (session : Worker.Session), s.workers[index]? = some session →
    session.pc.stage.Placed

theorem run_placed (run : Run env h s) : Placed s := by
  refine run.always ?_ ?_
  · intro s hs index session hworker
    simp [hs.workers] at hworker
  · intro h s a s' run placed hnext index session hworker
    cases worker_case hnext hworker with
    | kept hold hactor => exact placed index _ hold
    | joined => trivial
    | turned hold hactor hcommit hturn hstate =>
        have hshape := (run_shaped run).workers index _ hold
        exact (hturn.stage hshape).placed (placed index _ hold)

theorem run_agrees (run : Run env h s) {index : Nat} {session : Worker.Session}
    {leased : Worker.LeasedRun} (hworker : s.workers[index]? = some session)
    (hexecuting : session.pc.executing? = some leased) : Worker.Agrees s.db leased :=
  (run_informed run).workers index session leased hworker (Worker.leased?_of_executing hexecuting)

/-- Workers write effects at ticket steps. -/
theorem run_writes (run : Run env h s) {index : Nat} {session : Worker.Session}
    {leased : Worker.LeasedRun} {step : Nat} (hworker : s.workers[index]? = some session)
    (hpc : session.pc = .effect leased step) :
    Worker.loop env leased step = .effect leased step := by
  have writes : ∀ (index : Nat) (session : Worker.Session), s.workers[index]? = some session →
      ∀ leased step, session.pc = .effect leased step →
        Worker.loop env leased step = .effect leased step := by
    refine @Exec.always _ _ _ _ (fun s => ∀ (index : Nat) (session : Worker.Session),
      s.workers[index]? = some session → ∀ leased step, session.pc = .effect leased step →
        Worker.loop env leased step = .effect leased step) ?_ ?_ _ _ run
    · intro s hs
      simp [hs.workers]
    · intro h s a s' _ writes hnext index session hworker leased step hpc
      cases worker_case hnext hworker with
      | kept hold hactor => exact writes index _ hold leased step hpc
      | joined => cases hpc
      | turned hold hactor hcommit hturn hstate => exact hturn.effect hpc
  exact writes index session hworker leased step hpc

/-- Only the worker that has claimed a run executes it. -/
theorem executes_next (run : Run env h s) (hnext : next env s a = some s') {index : Nat}
    {session : Worker.Session} {id : Uuid} (hworker : s'.workers[index]? = some session)
    (hexecutes : session.Executes id) :
    (∃ old, s.workers[index]? = some old ∧ old.Executes id) ∨
      (actor a = some (.worker index) ∧ claimed? env s a = some id) := by
  obtain ⟨leased, hexecuting, hid⟩ := hexecutes
  cases worker_case hnext hworker with
  | kept hold hactor => exact .inl ⟨session, hold, leased, hexecuting, hid⟩
  | joined => cases hexecuting
  | @turned old pc effect hold hactor hcommit hturn hstate =>
      have hshape := (run_shaped run).workers index old hold
      rw [← Worker.stage_run] at hexecuting
      rcases (hturn.stage hshape).run hexecuting with hmine | ⟨owner, now, events, hclaim⟩
      · rw [Worker.stage_run] at hmine
        exact .inl ⟨old, hold, leased, hmine, hid⟩
      · refine .inr ⟨hactor, ?_⟩
        simp [claimed?, hcommit, hclaim, hid]

end

end DurableRuntime
