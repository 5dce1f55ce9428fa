import DurableRuntime.Accounting
import DurableRuntime.ApprovalGate
import DurableRuntime.Fencing

/-!
# Side effects and approvals

The schema asks for an approval in front of the steps that declare themselves
side-effecting, and the worker writes a ticket wherever the tool says so.  Where
the two agree on a step, its effect waits for the approval: a run that one
worker executes at a time is approved at the step it is paused at, and never
comes back to it.
-/

namespace DurableRuntime

open DurableRuntime.Foundation

/-- The step directly follows an approval step. -/
def WorkflowDefinition.ApprovalBefore (workflow : WorkflowDefinition) (index : Nat) : Prop :=
  ∃ k reason, index = k + 1 ∧ workflow.steps[k]? = some (.approval reason)

/-- Every step at which the worker can write an effect row directly follows an approval. -/
def EffectsPreceded (env : Env) (workflow : WorkflowDefinition) : Prop :=
  ∀ run index, run.definition = decoded workflow →
    Worker.loop env run index = .effect run index → workflow.ApprovalBefore index

/-- So does every ticket step that is not declared side-effecting. -/
def UndeclaredPreceded (workflow : WorkflowDefinition) : Prop :=
  ∀ index : Nat, workflow.steps[index]? = some (.tool .mockTicketWrite false) →
    workflow.ApprovalBefore index

/-- The loop of a worker has come to the step. -/
def Reaches (p : State × Action) (runId : Uuid) (step : Nat) : Prop :=
  ∃ run, begun? p.1 p.2 = some (run, step) ∧ run.ref.id = runId

/-- The run was approved while paused at the step, and has not reached the step again. -/
def ApprovedSince (env : Env) (h : History State Action) (runId : Uuid) (step : Nat) : Prop :=
  ∃ h₁ s a h₂, h = h₁ ++ (s, a) :: h₂ ∧ approvedRun? env s a = some runId ∧
    PausedAt env h₁ s runId step ∧ ∀ p ∈ h₂, ¬Reaches p runId step

/-- The effect of a run that one worker at a time has executed was approved. -/
def ApprovedEffect (env : Env) (past : History State Action) (s : State) (a : Action) : Prop :=
  ∀ row workflow, commitOf env s a = some (.effect row) → Accepted workflow →
    s.db.WorkflowOf row.runId workflow → Within (fun _ => ClaimsAlone env row.runId) past →
      ∃ k reason, row.stepIndex = k + 1 ∧ workflow.steps[k]? = some (.approval reason) ∧
        ApprovedSince env past row.runId k

/-- The effect is of a step that is declared side-effecting, or follows an approval anyway. -/
def DeclaredEffect (env : Env) (past : History State Action) (s : State) (a : Action) : Prop :=
  ∀ row workflow, commitOf env s a = some (.effect row) → Accepted workflow →
    s.db.WorkflowOf row.runId workflow → Within (fun _ => ClaimsAlone env row.runId) past →
      workflow.steps[row.stepIndex]? = some (.tool .mockTicketWrite false) →
        workflow.ApprovalBefore row.stepIndex

/-! ## Definitions whose effects follow approvals -/

theorem effectsPreceded_iff (env : Env) {workflow : WorkflowDefinition}
    (haccepted : Accepted workflow) :
    EffectsPreceded env workflow ↔ UndeclaredPreceded workflow := by
  constructor
  · intro hpreceded index hstep
    have hread : (decoded workflow).stepAt index =
        some (Worker.stepOf (.tool .mockTicketWrite false)) := by
      rw [Worker.stepAt_decoded, hstep]
      rfl
    exact hpreceded ⟨⟨"", 0⟩, 0, 0, [], decoded workflow, none⟩ index rfl
      (Worker.loop_ticket hread rfl rfl)
  · intro hundeclared run index hdefinition hloop
    obtain ⟨-, -, current, hstep, hkind, htool⟩ := Worker.loop_effect hloop
    rw [hdefinition] at hstep
    obtain ⟨flag, hticket⟩ := Worker.ticket_decoded hstep hkind htool
    cases flag with
    | false => exact hundeclared index hticket
    | true => exact approval_before_sideEffect haccepted.refined hticket

section

variable {env : Env} {s s' t : State} {a : Action} {h : History State Action} {id : Uuid}

/-! ## Approvals of a run that one worker executes -/

/-- An approve finds the run as it was paused. -/
theorem approved_row (run : Run env h s) (happroved : approvedRun? env s a = some id)
    {row : RunRow} (hrow : s.db.run? id = some row) : row.state = .awaitingApproval := by
  have sound := run_sound run
  obtain ⟨index, choice, session, writes, stored, before, state, now, -, -, hcall, hpc, hwrite,
    rfl⟩ := approved_request happroved
  have hbefore := sound.snapshots.updates index session before hcall (by
    rw [hpc, ControlPlane.lockedRow?_writes rfl, hwrite])
  rw [hrow, Option.some.injEq] at hbefore
  subst hbefore
  obtain ⟨args, hargs, rfl, happroves, hallowed⟩ := sound.update_args hcall hpc hwrite
  have hnotleased := run_noneLeased run _ row hrow
  rcases hargs with rfl | rfl
  · revert hallowed hnotleased
    cases row.state <;> decide
  · cases happroves

/-- A run that awaits approval has been paused at the step of its row. -/
theorem run_paused (run : Run env h s) (halone : Within (fun _ => ClaimsAlone env id) h)
    {row : RunRow} (hrow : s.db.run? id = some row) (hstate : row.state = .awaitingApproval) :
    ∃ p ∈ h, paused? env p.1 p.2 = some (id, row.currentStep) := by
  have paused : ∀ row, s.db.run? id = some row → row.state = .awaitingApproval →
      ∃ p ∈ h, paused? env p.1 p.2 = some (id, row.currentStep) := by
    refine @Exec.invariant_within _ _ _ _ (fun _ => ClaimsAlone env id)
      (fun h s => ∀ row, s.db.run? id = some row → row.state = .awaitingApproval →
        ∃ p ∈ h, paused? env p.1 p.2 = some (id, row.currentStep)) ?_ ?_ _ _ run halone
    · intro s hs row hrow
      simp [Db.run?, Table.lookup, hs.runs] at hrow
    · intro h s a s' run halone paused _ hnext row' hrow' hstate'
      have later : ∀ {step : Nat}, (∃ p ∈ h, paused? env p.1 p.2 = some (id, step)) →
          ∃ p ∈ h ++ [(s, a)], paused? env p.1 p.2 = some (id, step) := by
        rintro step ⟨p, hp, hpaused⟩
        exact ⟨p, List.mem_append_left _ hp, hpaused⟩
      have sound := run_sound run
      have hstep := row_step sound hnext id
      rw [hrow'] at hstep
      cases hrow : s.db.run? id with
      | none =>
          rw [hrow] at hstep
          cases hstep with
          | created hcommit hcall hpc hwrite hid =>
              obtain ⟨create, id, now, budgetCents, -, rfl⟩ := sound.insert_eq hcall hpc hwrite
              cases hstate'
      | some row =>
          rw [hrow] at hstep
          cases hstep with
          | same => exact later (paused row' hrow hstate')
          | claimed => cases hstate'
          | completed => cases hstate'
          | transitioned hcommit hcall hpc hwrite hid =>
              obtain ⟨args, hargs, rfl, rfl, -⟩ := sound.update_args hcall hpc hwrite
              rcases hargs with rfl | rfl <;> cases hstate'
          | heartbeat hcommit hworker hpc hid =>
              have hbefore := (run_alone run halone).loop _ _ _ _ row hworker
                (by rw [hpc]; rfl) hid hrow
              exact absurd hstate' hbefore.2
          | paused hcommit hworker hpc hid =>
              refine ⟨(s, _), List.mem_append_right _ (List.mem_singleton_self _), ?_⟩
              simp [paused?, hcommit, RunRow.awaitApproval]
  exact paused row hrow hstate

theorem approvesRequestedOf_of_alone (run : Run env h s)
    (halone : Within (fun _ => ClaimsAlone env id) h) : Within (ApprovesRequestedOf env id) h := by
  rintro h₁ t b h₂ rfl row workflow reason happroved hrow hworkflow hstep
  obtain ⟨t', run₁, -, -⟩ := run.split
  exact run_paused run₁ halone.of_append hrow (approved_row run₁ happroved hrow)

/-- The run has gone past the step. -/
def Behind (id : Uuid) (step : Nat) (s : State) : Prop :=
  ∃ row, s.db.run? id = some row ∧ step < row.currentStep

theorem behind_of_approved (hnext : next env s a = some s')
    (happroved : approvedRun? env s a = some id) {step : Nat} (hpaused : PausedAt env h s id step) :
    Behind id step s' := by
  obtain ⟨row, hrow, -, hstep, -⟩ := hpaused.row
  obtain ⟨index, choice, session, writes, stored, before, state, now, rfl, hcommit, hcall, hpc,
    hwrite, hid⟩ := approved_request happroved
  refine ⟨row.transition state true now, ?_, ?_⟩
  · rw [next_run? hnext, hcommit, hrow]
    simp [Commit.rowAfter, RunWrite.rowAfter, hwrite, hid]
  · simp [RunRow.transition, hstep]

theorem Behind.next (run : Run env h s) (alone : Alone s id) (hnext : next env s a = some s')
    {step : Nat} (behind : Behind id step s) : Behind id step s' := by
  obtain ⟨row, hrow, hstep⟩ := behind
  obtain ⟨row', hrow', -⟩ := (next_extends hnext).runs id row hrow
  have hle := neverBack_of_alone run alone hnext hrow hrow'
  exact ⟨row', hrow', by omega⟩

theorem Behind.not_reaches (alone : Alone s id) {step : Nat} (behind : Behind id step s) :
    ¬Reaches (s, a) id step := by
  obtain ⟨row, hrow, hstep⟩ := behind
  rintro ⟨leased, hbegun, rfl⟩
  obtain ⟨worker, reply, session, -, hworker, hpc, -⟩ := begun_worker hbegun
  have hcursor := alone.loop worker session leased step row hworker (by rw [hpc]; rfl) rfl hrow
  omega

/-- After the approval at a step the run does not come back to the step. -/
theorem approvedSince_of_approvedAt (run : Run env h t)
    (halone : Within (fun _ => ClaimsAlone env id) h) {step : Nat}
    (happroved : ApprovedAt env h id step) : ApprovedSince env h id step := by
  obtain ⟨h₁, s, a, h₂, rfl, hcommit, hpaused⟩ := happroved
  refine ⟨h₁, s, a, h₂, rfl, hcommit, hpaused, ?_⟩
  have hbehind : Within (fun _ => ClaimsAlone env id) (h₁ ++ (s, a) :: h₂) → Behind id step t ∧
      ∀ p ∈ h₂, ¬Reaches p id step := by
    refine @Exec.since _ _ _ _ (fun h₂ t => Within (fun _ => ClaimsAlone env id)
      (h₁ ++ (s, a) :: h₂) → Behind id step t ∧ ∀ p ∈ h₂, ¬Reaches p id step) _ _ _ ?_ ?_ _ _ run
    · intro s' _ hnext _
      exact ⟨behind_of_approved hnext hcommit hpaused, by simp⟩
    · intro h₂ t b t' run hbehind hnext halone
      have hsplit : h₁ ++ (s, a) :: (h₂ ++ [(t, b)]) = (h₁ ++ (s, a) :: h₂) ++ [(t, b)] := by simp
      rw [hsplit] at halone
      obtain ⟨behind, hquiet⟩ := hbehind halone.of_append
      have alone := run_alone run halone.of_append
      refine ⟨behind.next run alone hnext, ?_⟩
      intro p hp
      rcases List.mem_append.mp hp with hold | hlast
      · exact hquiet p hold
      · rw [List.mem_singleton] at hlast
        subst hlast
        exact behind.not_reaches alone
  exact (hbehind halone).2

theorem declaredEffect_approved (run : Run env h s) (hdeclared : DeclaredEffect env h s a) :
    ApprovedEffect env h s a := by
  intro row workflow hcommit haccepted hworkflow halone
  have before := hdeclared row workflow hcommit haccepted hworkflow halone
  cases commitOf_commits hcommit with
  | @effect worker reply session leased step hworker hpc hfree habsent =>
      change s.db.WorkflowOf leased.ref.id workflow at hworkflow
      have hdefinition := (run_agrees run hworker (by rw [hpc]; rfl)).interpreted
      rw [hworkflow.interpreted, Option.some.injEq] at hdefinition
      obtain ⟨-, -, current, hcurrent, hkind, htool⟩ :=
        Worker.loop_effect (run_writes run hworker hpc)
      rw [← hdefinition] at hcurrent
      obtain ⟨flag, hticket⟩ := Worker.ticket_decoded hcurrent hkind htool
      have happroval : workflow.ApprovalBefore step := by
        cases flag with
        | false => exact before hticket
        | true => exact approval_before_sideEffect haccepted.refined hticket
      obtain ⟨k, reason, hindex, hreason⟩ := happroval
      refine ⟨k, reason, hindex, hreason, approvedSince_of_approvedAt run halone ?_⟩
      have gate := run_gateOf run (approvesRequestedOf_of_alone run halone)
      refine gate.workers worker session leased step hworker (by rw [hpc]; rfl) rfl k ?_ ?_
      · omega
      · rw [← hdefinition]
        exact Worker.approvalAt_decoded.mpr ⟨reason, hreason⟩

end

/--
The steps with effects follow approvals exactly if the ticket steps that are not
declared side-effecting do; and the effects of a run that one worker at a time
executes were approved since exactly if each is of a declared step or follows an
approval anyway.
-/
theorem sideEffectsApproved (env : Env) :
    (∀ workflow, Accepted workflow →
      (EffectsPreceded env workflow ↔ UndeclaredPreceded workflow)) ∧
        ∀ h t, Run env h t → (Within (ApprovedEffect env) h ↔ Within (DeclaredEffect env) h) := by
  constructor
  · intro workflow haccepted
    exact effectsPreceded_iff env haccepted
  · intro h t run
    constructor
    · intro happroved
      refine happroved.mono ?_
      intro past s a heffect row workflow hcommit haccepted hworkflow halone _
      obtain ⟨k, reason, hindex, hreason, -⟩ :=
        heffect row workflow hcommit haccepted hworkflow halone
      exact ⟨k, reason, hindex, hreason⟩
    · rintro hdeclared h₁ s a h₂ rfl
      obtain ⟨s', run₁, -⟩ := run.split
      exact declaredEffect_approved run₁ (hdeclared h₁ s a h₂ rfl)

/-! ## A ticket that is not declared -/

/-- The step that an effect row is about directly follows an approval. -/
def effectFollowsTest (env : Env) (s : State) (a : Action) : Bool :=
  match commitOf env s a with
  | some (.effect row) =>
      match row.stepIndex with
      | 0 => false
      | k + 1 => (s.db.interpreted? row.runId).any fun definition => definition.approvalAt k
  | _ => true

theorem declaredEffect_of_test {env : Env} {past : History State Action} {s : State} {a : Action}
    (htest : effectFollowsTest env s a = true) : DeclaredEffect env past s a := by
  intro row workflow hcommit _ hworkflow _ _
  simp only [effectFollowsTest, hcommit] at htest
  rw [hworkflow.interpreted] at htest
  split at htest
  · cases htest
  · rename_i k hindex
    rw [Option.any_some] at htest
    obtain ⟨reason, hreason⟩ := Worker.approvalAt_decoded.mp htest
    exact ⟨k, reason, hindex, hreason⟩

theorem approvedTicket_sideEffectsApproved : ∃ h t, Run Scenario.env h t ∧
    (h.any fun p => commitsEffect Scenario.env p.1 p.2 1) = true ∧
      Within (ApprovedEffect Scenario.env) h := by
  obtain ⟨h, t, run, htest⟩ := Scenario.exists_run 5 approvedTicket
    (fun h _ => (h.any fun p => commitsEffect Scenario.env p.1 p.2 1) &&
      h.all fun p => effectFollowsTest Scenario.env p.1 p.2) (by decide +kernel)
  simp only [Bool.and_eq_true, List.all_eq_true] at htest
  refine ⟨h, t, run, htest.1, ((sideEffectsApproved Scenario.env).2 h t run).mpr ?_⟩
  rintro h₁ s a h₂ rfl
  exact declaredEffect_of_test (htest.2 (s, a) (by simp))

def undeclaredTicket : Json := .obj [("kind", .str "tool"), ("tool", .str "mock_ticket_write")]

/-- A definition of one ticket write, which leaves `sideEffect` to its default. -/
def ticketWithoutApproval : List Action :=
  Scenario.createActions [undeclaredTicket] ++ Scenario.publishActions 0 ++
    Scenario.claimActions 0 0 ++ Scenario.workerActions 0 3

theorem not_sideEffectsApproved :
    (¬∀ env workflow, Accepted workflow → EffectsPreceded env workflow) ∧
      ¬∀ env h t, Run env h t → Within (ApprovedEffect env) h := by
  constructor
  · intro hall
    have haccepted : Accepted
        ⟨"1", "demo", "v1", [.tool .mockTicketWrite false], 100, ["example.com"]⟩ :=
      ⟨Scenario.workflow [undeclaredTicket], by decide +kernel⟩
    have hpreceded := (effectsPreceded_iff Scenario.env haccepted).mp (hall _ _ haccepted)
    obtain ⟨k, reason, hindex, -⟩ := hpreceded 0 rfl
    cases hindex
  · intro hall
    obtain ⟨h, t, run, htest⟩ := Scenario.exists_run 5 ticketWithoutApproval
      (fun h _ => (h.any fun p => commitsEffect Scenario.env p.1 p.2 0) &&
        h.all fun p => claimsExclusiveTest Scenario.env p.1 p.2) (by decide +kernel)
    simp only [Bool.and_eq_true, List.any_eq_true, List.all_eq_true] at htest
    obtain ⟨⟨⟨s, a⟩, hp, heffect⟩, halone⟩ := htest
    obtain ⟨h₁, h₂, rfl⟩ := List.append_of_mem hp
    obtain ⟨s', run₁, -⟩ := run.split
    unfold commitsEffect at heffect
    split at heffect
    · rename_i row hcommit
      have hindex : row.stepIndex = 0 := of_decide_eq_true heffect
      obtain ⟨workflow, haccepted, hworkflow⟩ :
          ∃ workflow, Accepted workflow ∧ s.db.WorkflowOf row.runId workflow := by
        cases commitOf_commits hcommit with
        | effect hworker hpc hfree habsent =>
            obtain ⟨workflow, haccepted, hworkflow, -⟩ :=
              (run_informed run₁).workflow (run_agrees run₁ hworker (by rw [hpc]; rfl))
            exact ⟨workflow, haccepted, hworkflow⟩
      obtain ⟨k, reason, hk, -⟩ := hall Scenario.env _ t run h₁ s a h₂ rfl row workflow hcommit
        haccepted hworkflow (within_iff.mpr fun p hp hclaimed =>
          claimsExclusive_of_test (halone p (by simp [hp])) _ hclaimed)
      rw [hindex] at hk
      cases hk
    · cases heffect

end DurableRuntime
