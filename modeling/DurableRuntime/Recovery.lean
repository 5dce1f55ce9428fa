import DurableRuntime.EffectLedger
import DurableRuntime.Executions
import DurableRuntime.Foundation.Continuations

/-!
# Recovery

An execution starts at the `current_step` that its claim found, without a look
at the results.  A step whose result was committed is executed again when the
crash fell in front of the heartbeat: its call to another host is repeated.  A
step that makes no such call changes nothing then, and the execution comes to
the heartbeat that the crash has cost.
-/

namespace DurableRuntime

open DurableRuntime.Foundation

/-- The worker carries out the step without a call to another host. -/
def WorkflowStep.isLocal : WorkflowStep → Bool
  | .model .openaiCompatible _ | .tool .allowlistedHttpFetch _ => false
  | _ => true

/-- The way of an execution from its claim, through a step, to the heartbeat of the step. -/
inductive Worker.Onward (run : LeasedRun) (step : Nat) : Pc → Pc → Prop
  | enter (hstep : run.currentStep = step) : Onward run step (.execute run) (.loop run step)
  | write : Onward run step (.loop run step) (.effect run step)
  | carryOut {kind label} :
      Onward run step (.loop run step) (.record run step kind .succeeded label)
  | written {kind label} :
      Onward run step (.effect run step) (.record run step kind .succeeded label)
  | recorded {kind label} :
      Onward run step (.record run step kind .succeeded label) (.heartbeat run step)

/-- A worker is on its way through a step that makes no call and has its result already. -/
structure Redoes (s : State) (index : Nat) (session : Worker.Session) (run : Worker.LeasedRun)
    (step : Nat) : Prop where
  worker : s.workers[index]? = some session
  position : ∃ pc, Worker.Onward run step session.pc pc
  localStep : ∃ workflow current, s.db.WorkflowOf run.ref.id workflow ∧
    workflow.steps[step]? = some current ∧ current.isLocal = true
  result : ∃ result, s.db.stepResult? run.tenantId run.ref.id step = some result ∧
    result.status = .succeeded

namespace Worker

/-- The claim of the delivery is behind it. -/
def Pc.isClaimed : Pc → Bool
  | returned _ | gone => true
  | pc => pc.executing?.isSome

/-- The step is one of those that make such a call. -/
def Definition.CallsAt (definition : Definition) (index : Nat) : Prop :=
  ∃ current, definition.stepAt index = some current ∧
    ((current.kind = "model" ∧ current.provider = "openai_compatible") ∨
      (current.kind = "tool" ∧ current.tool = "allowlisted_http_fetch"))

def Definition.TicketAt (definition : Definition) (index : Nat) : Prop :=
  ∃ current, definition.stepAt index = some current ∧ current.kind = "tool" ∧
    current.tool = "mock_ticket_write"

variable {env : Env} {s : Shared} {session : Session} {pc : Pc} {effect : Effect}
  {run other : LeasedRun} {index step : Nat}

theorem isClaimed_of_executing {run : LeasedRun} (h : pc.executing? = some run) :
    pc.isClaimed = true := by
  cases pc <;> first | rfl | cases h

theorem Turn.isClaimed (hturn : Turn env s session pc effect)
    (h : session.pc.isClaimed = true) : pc.isClaimed = true := by
  cases hturn with
  | error => rfl
  | crash => rfl
  | move hmove =>
      generalize session.pc = old at hmove h
      cases hmove with
      | execute run => exact isClaimed_of_executing (execute_executing run)
      | loop run index => exact isClaimed_of_executing (loop_executing env run index)
      | consume run index handle prompt delivery =>
          exact isClaimed_of_executing (withCredential_executing env run index prompt _)
      | @record _ run index kind status safeLabel hfree => cases status <;> rfl
      | @eventCommit _ run row after hfree => cases after <;> rfl
      | _ => first | rfl | cases h

/-! ## Steps that call out, and steps that write a ticket -/

theorem Definition.not_callsAt_ticket {definition : Definition}
    (hticket : definition.TicketAt index) : ¬definition.CallsAt index := by
  rintro ⟨current, hstep, hcalls⟩
  obtain ⟨other, hother, hkind, htool⟩ := hticket
  rw [hstep, Option.some.injEq] at hother
  subst hother
  rcases hcalls with ⟨hmodel, -⟩ | ⟨-, hfetch⟩
  · rw [hkind] at hmodel
    exact absurd hmodel (by decide)
  · rw [htool] at hfetch
    exact absurd hfetch (by decide)

theorem loop_calls (h : (loop env run index).calls? = some (other, step)) :
    other = run ∧ step = index ∧ run.definition.CallsAt index := by
  unfold loop executeStep executeTool executeProviderModel at h
  unfold Definition.CallsAt Definition.stepAt
  repeat' split at h
  all_goals cases h
  · rename_i raw hraw _ current hcurrent _ hkind _ hprovider _ _ _ _
    exact ⟨rfl, rfl, current, by simp [hraw, hcurrent], .inl ⟨hkind, by simpa using hprovider⟩⟩
  · rename_i raw hraw _ current hcurrent _ _ _ hkind _ _ htool _
    exact ⟨rfl, rfl, current, by simp [hraw, hcurrent], .inr ⟨hkind, htool⟩⟩

theorem Turn.calls (hturn : Turn env s session pc effect) (h : pc.calls? = some (run, step)) :
    session.pc.calls? = some (run, step) ∨ run.definition.CallsAt step := by
  cases hturn with
  | error => cases h
  | crash => cases h
  | move hmove =>
      generalize session.pc = old at hmove
      cases hmove with
      | received runId =>
          unfold process at h
          repeat' split at h
          all_goals cases h
      | execute other =>
          unfold execute at h
          split at h <;> cases h
      | loop other index =>
          obtain ⟨rfl, rfl, hcalls⟩ := loop_calls h
          exact .inr hcalls
      | consume other index handle prompt delivery =>
          unfold withCredential at h
          repeat' split at h
          all_goals cases h
          exact .inl rfl
      | @record _ other index kind status safeLabel hfree => cases status <;> cases h
      | @eventCommit _ other row after hfree => cases after <;> cases h
      | _ => cases h

/-- The result of a ticket step is recorded after the ledger's statement. -/
theorem Turn.records {kind : ResultKind} {label : String} (hturn : Turn env s session pc effect)
    (hpc : pc = .record run step kind .succeeded label) (hticket : run.definition.TicketAt step) :
    session.pc.calls? = some (run, step) ∨ session.pc = .effect run step ∧
      ((s.db.effect? run.tenantId (effectKey run.ref.text step)).isSome = true ∨
        effect = .commit (.effect (effectRow run step))) := by
  cases hturn with
  | error => cases hpc
  | crash => cases hpc
  | move hmove =>
      generalize session.pc = old at hmove
      cases hmove with
      | received runId =>
          unfold process at hpc
          repeat' split at hpc
          all_goals cases hpc
      | execute other =>
          unfold execute at hpc
          split at hpc <;> cases hpc
      | loop other index =>
          obtain ⟨rfl, rfl⟩ : other = run ∧ index = step := by
            have hmove := loop_stage s.clock env other index
            rw [hpc] at hmove
            cases hmove
            exact ⟨rfl, rfl⟩
          obtain ⟨current, hcurrent, hkind, htool⟩ := hticket
          rw [loop_ticket hcurrent hkind htool] at hpc
          cases hpc
      | consume other index handle prompt delivery =>
          unfold withCredential at hpc
          repeat' split at hpc
          all_goals cases hpc
      | providerAnswered =>
          cases hpc
          exact .inl rfl
      | fetched =>
          cases hpc
          exact .inl rfl
      | effectReplayed hfree hfound =>
          cases hpc
          exact .inr ⟨rfl, .inl hfound⟩
      | effectCommitted hfree habsent =>
          cases hpc
          exact .inr ⟨rfl, .inr rfl⟩
      | @record _ other index kind status safeLabel hfree => cases status <;> cases hpc
      | @eventCommit _ other row after hfree => cases after <;> cases hpc
      | _ => cases hpc

/-- A step that is no approval and makes no call is carried out at once, or writes its ticket. -/
theorem loop_local {workflow : WorkflowDefinition} {current : WorkflowStep}
    (hdefinition : run.definition = decoded workflow)
    (hstep : workflow.steps[index]? = some current) (hlocal : current.isLocal = true)
    (happroval : run.definition.approvalAt index = false) :
    Onward run index (.loop run index) (loop env run index) := by
  have hread : run.definition.steps[index]? = some current.toJson := by
    simp [hdefinition, decoded, hstep]
  have hloop : loop env run index = executeStep env run index (stepOf current) := by
    simp only [loop, hread, unmarshalStep_toJson]
  rw [hloop]
  cases current with
  | model provider prompt =>
      cases provider with
      | mock => exact .carryOut
      | openaiCompatible => cases hlocal
  | transform operation input => cases operation <;> exact .carryOut
  | tool name flag =>
      cases name with
      | allowlistedHttpFetch => cases hlocal
      | mockTicketWrite => exact .write
      | mockDataRead => exact .carryOut
  | approval reason =>
      rw [hdefinition, Bool.eq_false_iff, ne_eq, approvalAt_decoded] at happroval
      exact absurd ⟨reason, hstep⟩ happroval

end Worker

section

variable {env : Env} {s s' t : State} {a : Action} {h : History State Action}

/-- Calls are made in the steps that make them. -/
def CallsPlaced (s : State) : Prop :=
  ∀ (index : Nat) (session : Worker.Session) run step, s.workers[index]? = some session →
    session.pc.calls? = some (run, step) → run.definition.CallsAt step

theorem run_callsPlaced (run : Run env h s) : CallsPlaced s := by
  refine run.always ?_ ?_
  · intro s hs
    simp [CallsPlaced, hs.workers]
  · intro h s a s' run placed hnext index session leased step hworker hcalls
    cases worker_case hnext hworker with
    | kept hold hactor => exact placed index _ leased step hold hcalls
    | joined => cases hcalls
    | turned hold hactor hcommit hturn hstate =>
        rcases hturn.calls hcalls with hbefore | hplaced
        · exact placed index _ leased step hold hbefore
        · exact hplaced

/-- A succeeded result is of a step that is no approval, and a ticket has its effect. -/
structure Backed (s : State) : Prop where
  pending : ∀ (index : Nat) (session : Worker.Session) run step kind label,
    s.workers[index]? = some session → session.pc = .record run step kind .succeeded label →
      run.definition.TicketAt step → ∃ row ∈ s.db.effects, row.At run.tenantId run.ref.id step
  results : ∀ result ∈ s.db.stepResults, result.status = .succeeded →
    ∃ definition, s.db.interpreted? result.runId = some definition ∧
      definition.approvalAt result.stepIndex = false ∧
        (definition.TicketAt result.stepIndex →
          ∃ row ∈ s.db.effects, row.At result.tenantId result.runId result.stepIndex)

theorem interpreted_kept (run : Run env h s) (hnext : next env s a = some s') {id : Uuid}
    {definition : Worker.Definition} (hdefinition : s.db.interpreted? id = some definition) :
    s'.db.interpreted? id = some definition := by
  obtain ⟨row, hrow, -⟩ := Option.bind_eq_some_iff.mp hdefinition
  rw [interpreted_next (run_referenced run) hnext hrow, hdefinition]

theorem Backed.next (run : Run env h s) (backed : Backed s) (hnext : next env s a = some s') :
    Backed s' := by
  have kept : ∀ {tenantId runId : Uuid} {step : Nat},
      (∃ row ∈ s.db.effects, row.At tenantId runId step) →
        ∃ row ∈ s'.db.effects, row.At tenantId runId step := by
    rintro tenantId runId step ⟨row, hrow, hat⟩
    exact ⟨row, (next_extends hnext).effects.subset hrow, hat⟩
  constructor
  · intro index session leased step kind label hworker hpc hticket
    cases worker_case hnext hworker with
    | kept hold hactor => exact kept (backed.pending _ _ _ _ _ _ hold hpc hticket)
    | joined => cases hpc
    | turned hold hactor hcommit hturn hstate =>
        rcases hturn.records hpc hticket with hcalls | ⟨hpc', heffect⟩
        · have hplaced := run_callsPlaced run index _ leased step hold hcalls
          exact absurd hplaced (Worker.Definition.not_callsAt_ticket hticket)
        · refine effect_at (run_named run) hnext hold hpc' ?_
            (run_ledger (run.step hnext)).canonical
          rcases heffect with hfound | rfl
          · exact .inl hfound
          · exact .inr hcommit
  · intro result hresult hstatus
    have old : result ∈ s.db.stepResults → ∃ definition,
        s'.db.interpreted? result.runId = some definition ∧
          definition.approvalAt result.stepIndex = false ∧
            (definition.TicketAt result.stepIndex →
              ∃ row ∈ s'.db.effects, row.At result.tenantId result.runId result.stepIndex) := by
      intro hold
      obtain ⟨definition, hdefinition, happroval, hticket⟩ := backed.results result hold hstatus
      exact ⟨definition, interpreted_kept run hnext hdefinition, happroval,
        fun h => kept (hticket h)⟩
    obtain ⟨events, outbox, audits, hdb⟩ := next_db hnext
    rw [hdb] at hresult
    cases hcommit : commitOf env s a with
    | none =>
        rw [hcommit] at hresult
        exact old hresult
    | some change =>
        rw [hcommit] at hresult
        rcases mem_stepResults_commit hresult with hold | rfl
        · exact old hold
        · cases commitOf_commits hcommit with
          | @stepResult index reply session leased step kind status label hworker hpc hfree =>
              cases hstatus
              have hagrees := run_agrees run hworker (by rw [hpc]; rfl)
              have hplaced := run_placed run index session hworker
              rw [hpc] at hplaced
              exact ⟨leased.definition, interpreted_kept run hnext hagrees.interpreted, hplaced.2,
                fun h => kept (backed.pending _ _ _ _ _ _ hworker hpc h)⟩

theorem run_backed (run : Run env h s) : Backed s := by
  refine run.always ?_ ?_
  · intro s hs
    exact ⟨by simp [hs.workers], by simp [hs.stepResults]⟩
  · intro h s a s' run backed hnext
    exact backed.next run hnext

/-! ## A step that is executed again -/

/-- What holds where a local step is executed again. -/
structure Repeatable (s : Shared) (run : Worker.LeasedRun) (step : Nat) : Prop where
  version : Worker.supportedWorkflowSchema run.definition.schemaVersion = true
  loop : ∀ env, Worker.Onward run step (.loop run step) (Worker.loop env run step)
  ticket : ∀ env, Worker.loop env run step = .effect run step →
    (s.db.effect? run.tenantId (Worker.effectKey run.ref.text step)).isSome = true
  result : (s.db.stepResult? run.tenantId run.ref.id step).isSome = true

namespace Worker.Onward

variable {leased : Worker.LeasedRun} {step : Nat} {pc pc' : Worker.Pc}

theorem executing (h : Onward leased step pc pc') : pc.executing? = some leased := by
  cases h <;> rfl

theorem held (h : Onward leased step pc pc') : pc'.held = [] := by
  cases h <;> rfl

theorem goesOn (h : Onward leased step pc pc') :
    pc' = .heartbeat leased step ∨ ∃ pc'', Onward leased step pc' pc'' := by
  cases h with
  | enter => exact .inr ⟨_, .write⟩
  | write => exact .inr ⟨.record leased step .tool .succeeded "", .written⟩
  | carryOut => exact .inr ⟨_, .recorded⟩
  | written => exact .inr ⟨_, .recorded⟩
  | recorded => exact .inl rfl

end Worker.Onward

theorem Redoes.repeatable (run : Run env h t) {index : Nat} {session : Worker.Session}
    {leased : Worker.LeasedRun} {step : Nat} (redoes : Redoes t index session leased step) :
    Repeatable t.toShared leased step := by
  obtain ⟨pc, honward⟩ := redoes.position
  have hexecuting := honward.executing
  have hagrees := run_agrees run redoes.worker hexecuting
  obtain ⟨accepted, haccepted, -, hdecoded⟩ := (run_informed run).workflow hagrees
  obtain ⟨workflow, current, hworkflow, hcurrent, hlocal⟩ := redoes.localStep
  have hdefinition : leased.definition = decoded workflow := by
    have hinterpreted := hagrees.interpreted
    rw [hworkflow.interpreted, Option.some.injEq] at hinterpreted
    exact hinterpreted.symm
  obtain ⟨result, hresult, hstatus⟩ := redoes.result
  obtain ⟨htenant, hrun, hstep⟩ := stepResult?_eq hresult
  obtain ⟨definition, hinterpreted, happroval, hticket⟩ :=
    (run_backed run).results result (Table.lookup_mem hresult) hstatus
  rw [hrun, hagrees.interpreted, Option.some.injEq] at hinterpreted
  subst hinterpreted
  rw [htenant, hrun, hstep] at hticket
  rw [hstep] at happroval
  refine ⟨?_, fun env => Worker.loop_local hdefinition hcurrent hlocal happroval, ?_, ?_⟩
  · rw [hdecoded, decoded, haccepted.schemaVersion]
    rfl
  · intro env hloop
    obtain ⟨-, -, hstepAt⟩ := Worker.loop_effect hloop
    obtain ⟨row, hrow, htenant', hrun', hstep'⟩ := hticket hstepAt
    refine Table.lookup_isSome.mpr ⟨row, hrow, ?_⟩
    rw [EffectRow.key, (run_ledger run).canonical row hrow, htenant', hrun', hstep',
      (run_named run).canonical redoes.worker hexecuting]
  · rw [hresult]
    rfl

theorem stepResult_again {db : Db} {row : StepResultRow}
    (h : (db.stepResult? row.tenantId row.runId row.stepIndex).isSome = true) :
    db.commit (.stepResult row) = db := by
  change (Table.lookup StepResultRow.key row.key db.stepResults).isSome = true at h
  simp [Db.commit, Table.insertIfAbsent, h]

/-- A move on the way through a step that is redone changes neither database nor broker. -/
theorem Repeatable.move {s : Shared} {leased : Worker.LeasedRun} {step : Nat}
    (repeatable : Repeatable s leased step) {owner : String} {reply : Worker.Reply}
    {pc target pc' : Worker.Pc} {effect : Effect} (honward : Worker.Onward leased step pc target)
    (hwrites : pc = .effect leased step → Worker.loop env leased step = .effect leased step)
    (hmove : Worker.Move env s owner reply pc pc' effect) :
    Worker.Onward leased step pc pc' ∧ (s.apply effect).db = s.db ∧
      (s.apply effect).broker = s.broker := by
  cases honward with
  | enter hstep =>
      cases hmove with
      | execute run =>
          rw [Worker.execute, if_pos repeatable.version, hstep]
          exact ⟨.enter hstep, rfl, rfl⟩
  | write =>
      cases hmove with
      | loop run index => exact ⟨repeatable.loop env, rfl, rfl⟩
  | carryOut =>
      cases hmove with
      | loop run index => exact ⟨repeatable.loop env, rfl, rfl⟩
  | written =>
      cases hmove with
      | effectReplayed hfree hfound => exact ⟨.written, rfl, rfl⟩
      | effectCommitted hfree habsent =>
          have hfound := repeatable.ticket env (hwrites rfl)
          rw [habsent] at hfound
          cases hfound
  | recorded =>
      cases hmove with
      | record hfree => exact ⟨.recorded, stepResult_again repeatable.result, rfl⟩

theorem Redoes.moved (run : Run env h t) {index : Nat} {session : Worker.Session}
    {leased : Worker.LeasedRun} {step : Nat} (redoes : Redoes t index session leased step)
    {reply : Worker.Reply} {t' : State} (hnext : next env t (.worker index reply) = some t') :
    ∃ pc effect, t' = t.moveWorker index session pc effect ∧ t'.db = t.db ∧
      t'.broker = t.broker ∧ t'.workers[index]? = some { session with pc } ∧
        Worker.Onward leased step session.pc pc := by
  obtain ⟨target, honward⟩ := redoes.position
  have hworker := redoes.worker
  simp only [next, hworker] at hnext
  split at hnext
  · cases hnext
  · rename_i pc effect hstep
    cases hnext
    obtain ⟨honward', hdb, hbroker⟩ := (redoes.repeatable run).move honward
      (fun hpc => run_writes run hworker hpc) (Worker.step_move hstep)
    exact ⟨pc, effect, rfl, hdb, hbroker,
      List.getElem?_set_self (List.getElem?_eq_some_iff.mp hworker).1, honward'⟩

theorem Redoes.goesOn (run : Run env h t) {index : Nat} {session : Worker.Session}
    {leased : Worker.LeasedRun} {step : Nat} (redoes : Redoes t index session leased step)
    {reply : Worker.Reply} {t' : State} (hnext : next env t (.worker index reply) = some t')
    {pc : Worker.Pc} (hworker : t'.workers[index]? = some { session with pc })
    (hpc : pc ≠ .heartbeat leased step) : Redoes t' index { session with pc } leased step := by
  obtain ⟨pc', effect, -, hdb, -, hworker', honward⟩ := redoes.moved run hnext
  rw [hworker, Option.some.injEq, Worker.Session.mk.injEq] at hworker'
  obtain ⟨-, -, rfl⟩ := hworker'
  refine ⟨hworker, honward.goesOn.resolve_left hpc, ?_, ?_⟩
  · rw [hdb]
    exact redoes.localStep
  · rw [hdb]
    exact redoes.result

/-- With the run unlocked, each move on the way is possible. -/
theorem Redoes.moves {index : Nat} {session : Worker.Session} {leased : Worker.LeasedRun}
    {step : Nat} (redoes : Redoes t index session leased step)
    (hunlocked : t.locks (.run leased.ref.id) = none) :
    ∃ t', next env t (.worker index .none) = some t' := by
  have hfree : t.free (.run leased.ref.id) = true := by simp [Shared.free, hunlocked]
  obtain ⟨target, honward⟩ := redoes.position
  have hstep : (Worker.step env t.toShared session.id .none session.pc).isSome = true := by
    generalize session.pc = pc at honward
    cases honward with
    | written =>
        simp only [Worker.step, hfree, if_true]
        split <;> rfl
    | recorded => simp [Worker.step, hfree]
    | _ => rfl
  obtain ⟨⟨pc, effect⟩, hstep⟩ := Option.isSome_iff_exists.mp hstep
  exact ⟨t.moveWorker index session pc effect, by simp [next, redoes.worker, hstep]⟩

end

/-! ## A fetch that is made again -/

end DurableRuntime
