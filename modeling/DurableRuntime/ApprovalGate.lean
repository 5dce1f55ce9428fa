import DurableRuntime.Executions
import DurableRuntime.Scenario
import DurableRuntime.StateMachine

/-!
# The approval gate

An approval is passed by the one update that adds one to `current_step`, and it
adds one to whatever the row says.  As long as every approve finds the row at a
step whose pause has been committed, no step begins before each approval in
front of it was requested and granted.
-/

namespace DurableRuntime

open DurableRuntime.Foundation

/-- The run is paused at a step whose approval has been requested. -/
structure PausedAt (env : Env) (h : History State Action) (s : State) (runId : Uuid)
    (step : Nat) : Prop where
  row : ∃ row, s.db.run? runId = some row ∧ row.state = .awaitingApproval ∧
    row.currentStep = step ∧ ∃ result, s.db.stepResult? row.tenantId runId step = some result ∧
      result.status = .awaitingApproval
  requested : ∃ p ∈ h, paused? env p.1 p.2 = some (runId, step)

/-- Some approve committed while the run was paused at the step. -/
def ApprovedAt (env : Env) (h : History State Action) (runId : Uuid) (step : Nat) : Prop :=
  ∃ h₁ s a h₂, h = h₁ ++ (s, a) :: h₂ ∧ approvedRun? env s a = some runId ∧
    PausedAt env h₁ s runId step

def GatedBegin (env : Env) (h : History State Action) (s : State) (a : Action) : Prop :=
  ∀ run index workflow, begun? s a = some (run, index) → s.db.WorkflowOf run.ref.id workflow →
    ∀ k reason, k < index → workflow.steps[k]? = some (.approval reason) →
      ApprovedAt env h run.ref.id k

def GatedEffect (env : Env) (h : History State Action) (s : State) (a : Action) : Prop :=
  ∀ row workflow tool, commitOf env s a = some (.effect row) → Accepted workflow →
    s.db.WorkflowOf row.runId workflow →
      workflow.steps[row.stepIndex]? = some (.tool tool true) →
        ∃ k reason, row.stepIndex = k + 1 ∧ workflow.steps[k]? = some (.approval reason) ∧
          ApprovedAt env h row.runId k

def ApprovalGate (env : Env) (h : History State Action) : Prop :=
  Within (GatedBegin env) h ∧ Within (GatedEffect env) h

/-- An approve that finds the row at an approval step finds its pause committed. -/
def ApprovesRequested (env : Env) (h : History State Action) (s : State) (a : Action) : Prop :=
  ∀ runId row workflow reason, approvedRun? env s a = some runId →
    s.db.run? runId = some row → s.db.WorkflowOf runId workflow →
      workflow.steps[row.currentStep]? = some (.approval reason) →
        ∃ p ∈ h, paused? env p.1 p.2 = some (runId, row.currentStep)

/-! ## Requested approvals have their result -/

section

variable {env : Env} {s s' : State} {a : Action} {h : History State Action}

structure Requested (env : Env) (h : History State Action) (s : State) : Prop where
  runs : ∀ result ∈ s.db.stepResults, ∃ row, s.db.run? result.runId = some row
  status : ∀ result ∈ s.db.stepResults, ∀ definition,
    s.db.interpreted? result.runId = some definition →
      definition.approvalAt result.stepIndex = true → result.status = .awaitingApproval
  workers : ∀ (index : Nat) (session : Worker.Session) run step,
    s.workers[index]? = some session → session.pc = .awaitApproval run step →
      ∃ result, s.db.stepResult? run.tenantId run.ref.id step = some result
  pauses : ∀ p ∈ h, ∀ id step, paused? env p.1 p.2 = some (id, step) →
    ∃ row result, s.db.run? id = some row ∧
      s.db.stepResult? row.tenantId id step = some result ∧ result.status = .awaitingApproval

/-- The result a worker records for an approval step says so. -/
theorem record_status (run : Run env h s) {index : Nat} {session : Worker.Session}
    {leased : Worker.LeasedRun} {step : Nat} {kind : ResultKind} {status : ResultStatus}
    {label : String} (hworker : s.workers[index]? = some session)
    (hpc : session.pc = .record leased step kind status label)
    (happroval : leased.definition.approvalAt step = true) : status = .awaitingApproval := by
  have hplaced := run_placed run index session hworker
  rw [hpc] at hplaced
  cases status with
  | awaitingApproval => rfl
  | succeeded =>
      have hother := hplaced.2
      rw [happroval] at hother
      cases hother

theorem Worker.Turn.awaitApproval_result {session : Worker.Session} {pc : Worker.Pc}
    {effect : Effect} (hturn : Worker.Turn env s.toShared session pc effect)
    {run : Worker.LeasedRun} {step : Nat} (hpc : pc = .awaitApproval run step) :
    ∃ row, effect = .commit (.stepResult row) ∧
      row.key = (run.tenantId, run.ref.id, step) := by
  cases hturn with
  | error => cases hpc
  | crash => cases hpc
  | move hmove =>
      generalize session.pc = old at hmove
      cases hmove with
      | @record _ run index kind status safeLabel hfree =>
          cases status <;> cases hpc
          exact ⟨_, rfl, rfl⟩
      | received runId =>
          have hbranch := Worker.process_branch runId
          rw [hpc] at hbranch
          cases hbranch
      | execute run =>
          have hbranch := Worker.execute_branch run
          rw [hpc] at hbranch
          cases hbranch
      | loop run index =>
          have hbranch := Worker.loop_branch env run index
          rw [hpc] at hbranch
          cases hbranch
      | consume run index handle prompt delivery =>
          have hbranch := Worker.withCredential_branch env run index prompt
            (Worker.consumeCredential env s.toShared handle delivery).1
          rw [hpc] at hbranch
          cases hbranch
      | @eventCommit _ run row after hfree => cases after <;> cases hpc
      | _ => cases hpc

theorem Requested.next (run : Run env h s) (requested : Requested env h s)
    (hnext : next env s a = some s') : Requested env (h ++ [(s, a)]) s' := by
  have hextends := next_extends hnext
  obtain ⟨events, outbox, audits, hdb⟩ := next_db hnext
  have newResult : ∀ result ∈ s'.db.stepResults, result ∈ s.db.stepResults ∨
      commitOf env s a = some (.stepResult result) := by
    intro result hresult
    rw [hdb] at hresult
    cases hcommit : commitOf env s a with
    | none =>
        rw [hcommit] at hresult
        exact .inl hresult
    | some change =>
        rw [hcommit] at hresult
        rcases mem_stepResults_commit hresult with hold | rfl
        · exact .inl hold
        · exact .inr rfl
  have kept : ∀ {id : Uuid} {row : RunRow}, s.db.run? id = some row →
      ∃ row', s'.db.run? id = some row' ∧ row'.tenantId = row.tenantId := by
    intro id row hrow
    obtain ⟨row', hrow', hsame⟩ := hextends.runs id row hrow
    exact ⟨row', hrow', hsame.tenantId⟩
  refine ⟨?_, ?_, ?_, ?_⟩
  · intro result hresult
    rcases newResult result hresult with hold | hcommit
    · obtain ⟨row, hrow⟩ := requested.runs result hold
      obtain ⟨row', hrow', -⟩ := kept hrow
      exact ⟨row', hrow'⟩
    · cases commitOf_commits hcommit with
      | stepResult hworker hpc hfree =>
          obtain ⟨row, definition, hrow, -⟩ := run_agrees run hworker (by rw [hpc]; rfl)
          obtain ⟨row', hrow', -⟩ := kept hrow
          exact ⟨row', hrow'⟩
  · intro result hresult definition hinterpreted happroval
    rcases newResult result hresult with hold | hcommit
    · obtain ⟨row, hrow⟩ := requested.runs result hold
      rw [interpreted_next (run_referenced run) hnext hrow] at hinterpreted
      exact requested.status result hold definition hinterpreted happroval
    · cases commitOf_commits hcommit with
      | stepResult hworker hpc hfree =>
          have hagrees := run_agrees run hworker (by rw [hpc]; rfl)
          have hdefinition := (hagrees.extends hextends).interpreted
          simp only [Worker.stepResultRow] at hinterpreted
          rw [hdefinition, Option.some.injEq] at hinterpreted
          subst hinterpreted
          exact record_status run hworker hpc happroval
  · intro index session leased step hworker hpc
    cases worker_case hnext hworker with
    | kept hold hactor =>
        obtain ⟨result, hresult⟩ := requested.workers index _ leased step hold hpc
        exact ⟨result, hextends.stepResult? hresult⟩
    | joined => cases hpc
    | turned hold hactor hcommit hturn hstate =>
        obtain ⟨row, rfl, hkey⟩ := hturn.awaitApproval_result hpc
        simp only [StepResultRow.key, Prod.mk.injEq] at hkey
        obtain ⟨htenant, hrun, hstep⟩ := hkey
        rw [hdb, hcommit, ← htenant, ← hrun, ← hstep]
        exact stepResult?_commit _ row
  · intro p hp id step hpaused
    rcases List.mem_append.mp hp with hold | hlast
    · obtain ⟨row, result, hrow, hresult, hstatus⟩ := requested.pauses p hold id step hpaused
      obtain ⟨row', hrow', htenant⟩ := kept hrow
      refine ⟨row', result, hrow', ?_, hstatus⟩
      rw [htenant]
      exact hextends.stepResult? hresult
    · rw [List.mem_singleton] at hlast
      subst hlast
      cases commitOf_commits (paused_commit hpaused) with
      | @awaitApproval index reply session leased _ hworker hpc hfree =>
          obtain ⟨result, hresult⟩ := requested.workers index session leased step hworker hpc
          obtain ⟨-, hrun, hstep⟩ := stepResult?_eq hresult
          have hplaced := run_placed run index session hworker
          rw [hpc] at hplaced
          have hagrees := run_agrees run hworker (by rw [hpc]; rfl)
          have hstatus := requested.status result (Table.lookup_mem hresult) leased.definition
            (by rw [hrun]; exact hagrees.interpreted) (by rw [hstep]; exact hplaced.2)
          obtain ⟨row, -, hrow, htenant, -⟩ := hagrees
          obtain ⟨row', hrow', hsame⟩ := kept hrow
          refine ⟨row', result, hrow', ?_, hstatus⟩
          rw [hsame, htenant]
          exact hextends.stepResult? hresult

theorem run_requested (run : Run env h s) : Requested env h s := by
  refine run.invariant ?_ ?_
  · intro s hs
    exact ⟨by simp [hs.stepResults], by simp [hs.stepResults], by simp [hs.workers], by simp⟩
  · intro h s a s' run requested hnext
    exact requested.next run hnext

end

/-! ## Approvals in front of a step -/

theorem ApprovedAt.snoc {env : Env} {h : History State Action} {runId : Uuid} {step : Nat}
    (happroved : ApprovedAt env h runId step) (p : State × Action) :
    ApprovedAt env (h ++ [p]) runId step := by
  obtain ⟨h₁, s, a, h₂, rfl, hrest⟩ := happroved
  exact ⟨h₁, s, a, h₂ ++ [p], by simp, hrest⟩

/-- Every approval in front of the index has been requested and granted. -/
def Gated (env : Env) (h : History State Action) (runId : Uuid)
    (definition : Worker.Definition) (index : Nat) : Prop :=
  ∀ k, k < index → definition.approvalAt k = true → ApprovedAt env h runId k

structure Gate (env : Env) (h : History State Action) (s : State) : Prop where
  rows : ∀ id row definition, s.db.run? id = some row →
    s.db.interpreted? id = some definition → Gated env h id definition row.currentStep
  workers : ∀ (index : Nat) (session : Worker.Session) run step,
    s.workers[index]? = some session → session.pc.stage.cursor? = some (run, step) →
      Gated env h run.ref.id run.definition step

/-- What `ApprovesRequested` asks of the approves of one run. -/
def ApprovesRequestedOf (env : Env) (id : Uuid) (h : History State Action) (s : State)
    (a : Action) : Prop :=
  ∀ row workflow reason, approvedRun? env s a = some id → s.db.run? id = some row →
    s.db.WorkflowOf id workflow → workflow.steps[row.currentStep]? = some (.approval reason) →
      ∃ p ∈ h, paused? env p.1 p.2 = some (id, row.currentStep)

/-- What `Gate` says of one run. -/
structure GateOf (env : Env) (id : Uuid) (h : History State Action) (s : State) : Prop where
  row : ∀ row definition, s.db.run? id = some row →
    s.db.interpreted? id = some definition → Gated env h id definition row.currentStep
  workers : ∀ (index : Nat) (session : Worker.Session) run step,
    s.workers[index]? = some session → session.pc.stage.cursor? = some (run, step) →
      run.ref.id = id → Gated env h id run.definition step

section

variable {env : Env} {s s' : State} {a : Action} {h : History State Action} {runId : Uuid}
  {definition : Worker.Definition} {index : Nat}

theorem Gated.snoc (gated : Gated env h runId definition index) (p : State × Action) :
    Gated env (h ++ [p]) runId definition index :=
  fun k hk happroval => (gated k hk happroval).snoc p

/-- A step that is no approval does not have to be passed. -/
theorem Gated.succ (gated : Gated env h runId definition index)
    (hother : definition.approvalAt index = false) :
    Gated env h runId definition (index + 1) := by
  intro k hk happroval
  rcases Nat.lt_succ_iff_lt_or_eq.mp hk with hlt | rfl
  · exact gated k hlt happroval
  · rw [hother] at happroval
    cases happroval

/-- Under the condition an approve passes the approval that the row is paused at. -/
theorem approvedAt_last (run : Run env h s) {id : Uuid}
    (hrequested : ApprovesRequestedOf env id h s a) {row : RunRow}
    (happroved : approvedRun? env s a = some id)
    (hrow : s.db.run? id = some row) (hstate : row.state = .awaitingApproval)
    (hinterpreted : s.db.interpreted? id = some definition)
    (happroval : definition.approvalAt row.currentStep = true) :
    ApprovedAt env (h ++ [(s, a)]) id row.currentStep := by
  obtain ⟨workflow, hworkflow, rfl⟩ : ∃ workflow, s.db.WorkflowOf id workflow ∧
      definition = decoded workflow := by
    obtain ⟨stored, hstored, -⟩ := (run_referenced run).rows id row hrow
    obtain ⟨workflow, -, hjson⟩ := (run_informed run).definitions stored
      (Table.lookup_mem hstored)
    have hworkflow : s.db.WorkflowOf id workflow := ⟨row, stored, hrow, hstored, hjson⟩
    rw [hworkflow.interpreted, Option.some.injEq] at hinterpreted
    exact ⟨workflow, hworkflow, hinterpreted.symm⟩
  obtain ⟨reason, hstep⟩ := Worker.approvalAt_decoded.mp happroval
  obtain ⟨p, hp, hpaused⟩ := hrequested row workflow reason happroved hrow hworkflow hstep
  obtain ⟨other, result, hother, hresult, hstatus⟩ :=
    (run_requested run).pauses p hp id _ hpaused
  rw [hrow, Option.some.injEq] at hother
  subst hother
  exact ⟨h, s, a, [], rfl, happroved, ⟨row, hrow, hstate, rfl, result, hresult, hstatus⟩,
    p, hp, hpaused⟩

theorem GateOf.next (run : Run env h s) {id : Uuid} (gate : GateOf env id h s)
    (hrequested : ApprovesRequestedOf env id h s a) (hnext : next env s a = some s') :
    GateOf env id (h ++ [(s, a)]) s' := by
  have sound := run_sound run
  constructor
  · intro row' definition hrow' hinterpreted
    cases hrow : s.db.run? id with
    | none =>
        have hstep := row_step sound hnext id
        rw [hrow, hrow'] at hstep
        cases hstep with
        | created hcommit hcall hpc hwrite hid =>
            obtain ⟨create, id, now, budgetCents, -, rfl⟩ := sound.insert_eq hcall hpc hwrite
            intro k hk
            simp [ControlPlane.newRun] at hk
    | some row =>
        rw [interpreted_next (run_referenced run) hnext hrow] at hinterpreted
        have gated := gate.row row definition hrow hinterpreted
        have hstep := row_step sound hnext id
        rw [hrow, hrow'] at hstep
        cases hstep with
        | same => exact gated.snoc _
        | claimed => exact gated.snoc _
        | completed => exact gated.snoc _
        | @transitioned index choice session writes stored row state approved now hcommit hcall
            hpc hwrite hid =>
            obtain ⟨args, hargs, rfl, rfl, hallowed⟩ := sound.update_args hcall hpc hwrite
            rcases hargs with rfl | rfl
            · have happroved := approved_transition hcommit hwrite
              rw [hid] at happroved
              have hstate : row.state = .awaitingApproval := by
                have hnotleased := run_noneLeased run id row hrow
                revert hallowed hnotleased
                cases row.state <;> decide
              intro k hk happroval
              rcases Nat.lt_succ_iff_lt_or_eq.mp hk with hlt | rfl
              · exact (gated k hlt happroval).snoc _
              · exact approvedAt_last run hrequested happroved hrow hstate hinterpreted happroval
            · exact gated.snoc _
        | @heartbeat index reply session leased step now row hcommit hworker hpc hid =>
            subst hid
            have hagrees := run_agrees run hworker (by rw [hpc]; rfl)
            rw [hagrees.interpreted, Option.some.injEq] at hinterpreted
            subst hinterpreted
            have hplaced := run_placed run index session hworker
            have hcursor := gate.workers index session leased step hworker (by rw [hpc]; rfl) rfl
            rw [hpc] at hplaced
            exact (hcursor.succ hplaced.2).snoc _
        | @paused index reply session leased step row hcommit hworker hpc hid =>
            subst hid
            have hagrees := run_agrees run hworker (by rw [hpc]; rfl)
            rw [hagrees.interpreted, Option.some.injEq] at hinterpreted
            subst hinterpreted
            exact (gate.workers index session leased step hworker (by rw [hpc]; rfl) rfl).snoc _
  · rintro index session leased step hworker hcursor rfl
    cases worker_case hnext hworker with
    | kept hold hactor => exact (gate.workers index _ leased step hold hcursor rfl).snoc _
    | joined => cases hcursor
    | @turned session pc effect hold hactor hcommit hturn hstate =>
        have hshape := sound.shaped.workers index session hold
        have hplaced := run_placed run index session hold
        generalize hchange : effect.commit? = change at hcommit
        have hmove := hchange ▸ hturn.stage hshape
        cases hmove.cursor hcursor with
        | same hold' => exact (gate.workers index session leased step hold hold' rfl).snoc _
        | advanced hold' =>
            have gated := gate.workers index session leased _ hold (by rw [hold']; rfl) rfl
            rw [hold'] at hplaced
            exact (gated.succ hplaced.2).snoc _
        | claimed leased owner now events =>
            obtain ⟨row, run', hpc, rfl, -⟩ := hturn.claims hchange
            cases hcursor
            rw [hpc] at hshape
            obtain ⟨hleases, -, -⟩ := hshape
            have hrow := sound.snapshots.workers index session row hold (by rw [hpc]; rfl)
            have hagrees := (run_informed run).workers index session leased hold
              (by rw [hpc]; rfl)
            rw [hleases.id] at hrow
            have gated := gate.row row _ hrow hagrees.interpreted
            rw [← hleases.currentStep] at gated
            exact gated.snoc _

theorem run_gateOf (run : Run env h s) {id : Uuid}
    (hrequested : Within (ApprovesRequestedOf env id) h) : GateOf env id h s := by
  refine run.invariant_within ?_ ?_ hrequested
  · intro s hs
    exact ⟨by simp [Db.run?, hs.runs], by simp [hs.workers]⟩
  · intro h s a s' run _ gate hstep hnext
    exact gate.next run hstep hnext

theorem run_gate (run : Run env h s) (hrequested : Within (ApprovesRequested env) h) :
    Gate env h s := by
  have gate : ∀ id, GateOf env id h s := fun id =>
    run_gateOf run (hrequested.mono fun _ _ _ hstep => hstep id)
  constructor
  · intro id
    exact (gate id).row
  · intro index session leased step hworker hcursor
    exact (gate leased.ref.id).workers index session leased step hworker hcursor rfl

theorem gatedBegin_of_gate (run : Run env h s) (gate : Gate env h s) :
    GatedBegin env h s a := by
  intro leased index workflow hbegun hworkflow k reason hk hstep
  obtain ⟨worker, reply, session, rfl, hworker, hpc, -⟩ := begun_worker hbegun
  have hagrees := run_agrees run hworker (by rw [hpc]; rfl)
  have hdefinition := hagrees.interpreted
  rw [hworkflow.interpreted, Option.some.injEq] at hdefinition
  refine gate.workers worker session leased index hworker (by rw [hpc]; rfl) k hk ?_
  rw [← hdefinition]
  exact Worker.approvalAt_decoded.mpr ⟨reason, hstep⟩

theorem gatedEffect_of_gate (run : Run env h s) (gate : Gate env h s) :
    GatedEffect env h s a := by
  intro row workflow tool hcommit haccepted hworkflow htool
  cases commitOf_commits hcommit with
  | @effect worker reply session leased step hworker hpc hfree habsent =>
      obtain ⟨k, reason, hindex, happroval⟩ :=
        approval_before_sideEffect haccepted.refined htool
      refine ⟨k, reason, hindex, happroval, ?_⟩
      change s.db.WorkflowOf leased.ref.id workflow at hworkflow
      have hdefinition := (run_agrees run hworker (by rw [hpc]; rfl)).interpreted
      rw [hworkflow.interpreted, Option.some.injEq] at hdefinition
      refine gate.workers worker session leased step hworker (by rw [hpc]; rfl) k ?_ ?_
      · change k < (Worker.effectRow leased step).stepIndex
        rw [hindex]
        exact Nat.lt_succ_self k
      · rw [← hdefinition]
        exact Worker.approvalAt_decoded.mpr ⟨reason, happroval⟩

/--
In the runs whose approves find the row at a step that has been paused for, no
step begins and no side effect is committed past an approval that was not
requested and granted.
-/
theorem approvalGate_of_requested (run : Run env h s)
    (hrequested : Within (ApprovesRequested env) h) : ApprovalGate env h := by
  constructor
  · rintro h₁ t b h₂ rfl
    obtain ⟨t', run₁, -, -⟩ := run.split
    exact gatedBegin_of_gate run₁ (run_gate run₁ hrequested.of_append)
  · rintro h₁ t b h₂ rfl
    obtain ⟨t', run₁, -, -⟩ := run.split
    exact gatedEffect_of_gate run₁ (run_gate run₁ hrequested.of_append)

end

/-! ## An approval that nobody was asked for -/

/-- A ticket write behind one approval, which is requested and granted. -/
def approvedTicket : List Action :=
  Scenario.createActions [Scenario.approval, Scenario.ticketWrite] ++
    Scenario.publishActions 0 ++ Scenario.claimActions 0 0 ++ Scenario.workerActions 0 7 ++
    Scenario.transitionActions (.approve Scenario.runId.text) 1 10 ++
    Scenario.publishActions 1 ++ Scenario.claimActions 1 1 ++ Scenario.workerActions 1 3

/--
Worker 0 stalls before it pauses at step 0, worker 1 pauses there in its place,
and worker 2 is past the first approval and at the heartbeat of step 1 when
worker 0 goes on.  Its pause and that heartbeat leave the run awaiting approval
at step 2, where nobody has paused, and the next approve passes step 2.
-/
def approvalSkipped : List Action :=
  Scenario.createActions
      [Scenario.approval, Scenario.dataRead, Scenario.approval, Scenario.ticketWrite] ++
    Scenario.publishActions 0 ++ Scenario.claimActions 0 0 ++ Scenario.workerActions 0 3 ++
    [.tick 120000000] ++ Scenario.claimActions 0 1 ++ Scenario.workerActions 1 7 ++
    Scenario.transitionActions (.approve Scenario.runId.text) 1 10 ++
    Scenario.publishActions 1 ++ Scenario.claimActions 1 2 ++ Scenario.workerActions 2 3 ++
    Scenario.workerActions 0 1 ++ Scenario.workerActions 2 2 ++
    Scenario.transitionActions (.approve Scenario.runId.text) 2 10 ++
    Scenario.publishActions 2 ++ Scenario.claimActions 2 3 ++ Scenario.workerActions 3 3

def approvesRequestedTest (env : Env) (h : History State Action) (s : State) (a : Action) :
    Bool :=
  (approvedRun? env s a).all fun id =>
    (s.db.run? id).all fun row =>
      h.any fun p => paused? env p.1 p.2 = some (id, row.currentStep)

theorem approvesRequested_of_test {env : Env} {h : History State Action} {s : State}
    {a : Action} (htest : approvesRequestedTest env h s a = true) :
    ApprovesRequested env h s a := by
  intro id row workflow reason happroved hrow _ _
  simpa [approvesRequestedTest, happroved, hrow] using htest

def commitsEffect (env : Env) (s : State) (a : Action) (step : Nat) : Bool :=
  match commitOf env s a with
  | some (.effect row) => row.stepIndex = step
  | _ => false

theorem approvedTicket_approvalGate : ∃ h t, Run Scenario.env h t ∧
    (h.any fun p => commitsEffect Scenario.env p.1 p.2 1) = true ∧
      ApprovalGate Scenario.env h := by
  obtain ⟨h, t, run, htest⟩ := Scenario.exists_run 5 approvedTicket
    (fun h _ => (h.any fun p => commitsEffect Scenario.env p.1 p.2 1) &&
      checks (approvesRequestedTest Scenario.env) [] h)
    (by decide +kernel)
  rw [Bool.and_eq_true] at htest
  refine ⟨h, t, run, htest.1, approvalGate_of_requested run ?_⟩
  exact within_of_checks (fun _ _ _ => approvesRequested_of_test) within_nil htest.2

/-- The step that an action begins, with the workflow step it interprets there. -/
def beginsPast (s : State) (a : Action) (step approvalStep : Nat) : Bool :=
  (begun? s a).any fun begun => begun.2 = step && begun.1.definition.approvalAt approvalStep

theorem not_approvalGate : ¬∀ env h s, Run env h s → ApprovalGate env h := by
  intro hall
  obtain ⟨h, t, run, htest⟩ := Scenario.exists_run 5 approvalSkipped
    (fun h _ => (h.any fun p => beginsPast p.1 p.2 3 2) &&
      h.all fun p => (paused? Scenario.env p.1 p.2).all fun paused => paused.2 ≠ 2)
    (by decide +kernel)
  simp only [Bool.and_eq_true, List.any_eq_true, List.all_eq_true] at htest
  obtain ⟨⟨⟨s, a⟩, hp, hbegins⟩, hnone⟩ := htest
  obtain ⟨h₁, h₂, s', rfl, run₁, hnext⟩ := run.of_mem hp
  simp only [beginsPast, Option.any_eq_true, Bool.and_eq_true, decide_eq_true_eq] at hbegins
  obtain ⟨⟨leased, step⟩, hbegun, rfl, happroval⟩ := hbegins
  obtain ⟨worker, reply, session, -, hworker, hpc, -⟩ := begun_worker hbegun
  have hagrees := run_agrees run₁ hworker (by rw [hpc]; rfl)
  obtain ⟨workflow, -, hworkflow, hdefinition⟩ := (run_informed run₁).workflow hagrees
  rw [hdefinition] at happroval
  obtain ⟨reason, hstep⟩ := Worker.approvalAt_decoded.mp happroval
  have hbegin := (hall Scenario.env _ t run).1 h₁ s a h₂ rfl leased 3 workflow hbegun hworkflow
  obtain ⟨h₃, s₁, a₁, h₄, rfl, -, hpausedAt⟩ := hbegin 2 reason (by decide) hstep
  obtain ⟨p, hp', hpaused⟩ := hpausedAt.requested
  have hother := hnone p (by simp [hp'])
  simp [hpaused] at hother

end DurableRuntime
