import DurableRuntime.CredentialUse
import DurableRuntime.Delivery
import DurableRuntime.SideEffects

/-!
# Runs that complete

A worker that is left alone takes a run from step to step, and stops only for
approvals.  The one thing a step can use up is the credential: the first step
that calls the provider consumes it, and a second one finds it gone.  Each move
that is made for the run brings it nearer to its end, and once nothing is left
that could bring a worker to it, the run has succeeded.
-/

namespace DurableRuntime

open DurableRuntime.Foundation

/-! ## What a run needs -/

namespace WorkflowDefinition

def callsProvider (workflow : WorkflowDefinition) (index : Nat) : Bool :=
  match workflow.steps[index]? with
  | some (.model .openaiCompatible _) => true
  | _ => false

def isApproval (workflow : WorkflowDefinition) (index : Nat) : Bool :=
  match workflow.steps[index]? with
  | some (.approval _) => true
  | _ => false

/-- At most one step calls the provider. -/
def CallsProviderOnce (workflow : WorkflowDefinition) : Prop :=
  ∀ i j, workflow.callsProvider i = true → workflow.callsProvider j = true → i = j

end WorkflowDefinition

namespace Worker

/-- Every setting that the worker and its credential call read has a value they work with. -/
structure Configured (env : Env) : Prop where
  internalUrl : env.controlPlaneInternalUrl ≠ ""
  internalToken : env.workerInternalToken ≠ ""
  controlToken : env.controlInternalToken ≠ ""
  sameToken : receivedHeader env.workerInternalToken = some env.controlInternalToken
  consumeUrl : ∀ handle, (env.parseUrl (consumeUrl env handle)).isSome = true
  openaiBaseUrl : env.openaiBaseUrl ≠ ""
  openaiModel : env.openaiModel ≠ ""
  providerUrl : providerUrlAllowed env = true

/-- The external call, if the move makes one, is answered well. -/
def Reply.Good (env : Env) : Reply → Prop
  | .none => True
  | .consume delivery => delivery = .answered
  | .provider reply => callOpenAICompatible env reply = true
  | .fetch reply => fetchFailure env reply = Option.none

end Worker

/-- `input.url` is an https URL of an allowed host. -/
def InputAllowed (env : Env) (workflow : WorkflowDefinition) (input : Json) : Prop :=
  ∃ members url, Worker.unmarshalInput input = some members ∧
    Json.member? "url" members = some (.str url) ∧
      Worker.validateURL env url workflow.allowedHosts = true

/--
A step that leaves the run to one worker: no second worker claims it meanwhile,
no claim finds the queued run locked by somebody else, its worker neither
crashes nor meets a database error, every external call is answered well, whoever
decides about the run approves, and until the run is finished its credential is
alive, of a size that the worker can read, and one that a header can carry.
-/
structure Undisturbed (env : Env) (id : Uuid) (past : History State Action) (s : State)
    (a : Action) : Prop where
  alone : ClaimsAlone env id s a
  found : emptyClaim? s a = some id → ∀ row, s.db.run? id = some row → row.state ≠ .queued
  steady : ∀ index session, s.workers[index]? = some session → session.Executes id →
    a ≠ .workerError index ∧ a ≠ .crash index
  answered : ∀ index reply session, a = .worker index reply →
    s.workers[index]? = some session → session.Executes id → reply.Good env
  approved : ∀ writes row state approves now, commitOf env s a = some (.request writes) →
    writes.run = .update row state approves now → row.id = id → approves = true
  credential : ∀ row handle deposit, s.db.run? id = some row → row.state.isTerminal = false →
    row.providerCredentialHandle = some handle → lastDeposit env handle past = some deposit →
      s.dateNow < deposit.issuedAt + s.broker.ttlMs ∧
        Worker.credentialReadable deposit.credential = true ∧
          Worker.validHeaderFieldValue deposit.credential.replaced = true

/-- The run and the step for which the action is a request to the provider. -/
def providerCall? (s : State) : Action → Option (Uuid × Nat)
  | .worker index _ =>
      match s.workers[index]? with
      | some ⟨_, _, .provider run step _ _⟩ => some (run.ref.id, step)
      | _ => none
  | _ => none

namespace Worker

/-- Where the loop goes at the step of an accepted definition. -/
inductive Begins (workflow : WorkflowDefinition) (run : LeasedRun) (index : Nat) : Pc → Prop
  | complete (hpast : workflow.steps.length ≤ index) :
      Begins workflow run index (.complete run)
  | approval (happroval : workflow.isApproval index = true) :
      Begins workflow run index
        (.record run index .approval .awaitingApproval "approval-required")
  | consume {handle} (hcalls : workflow.callsProvider index = true)
      (hhandle : run.credentialHandle = some handle) (prompt : String) :
      Begins workflow run index (.consume run index handle prompt)
  | fetch (hcalls : workflow.callsProvider index = false) (target : String) :
      Begins workflow run index (.fetch run index target)
  | effect (hcalls : workflow.callsProvider index = false) :
      Begins workflow run index (.effect run index)
  | record (hcalls : workflow.callsProvider index = false) (kind : ResultKind) (label : String) :
      Begins workflow run index (.record run index kind .succeeded label)

theorem loop_begins {env : Env} {workflow : WorkflowDefinition} {run : LeasedRun} {index : Nat}
    (hconfigured : Configured env) (hdefinition : run.definition = decoded workflow)
    (hhandle : run.credentialHandle.isSome = true)
    (hurl : validateURL env (inputUrl run) workflow.allowedHosts = true) :
    Begins workflow run index (loop env run index) := by
  have hsteps : run.definition.steps[index]? =
      (workflow.steps[index]?).map WorkflowStep.toJson := by
    rw [hdefinition, decoded, List.getElem?_map]
  unfold loop
  rw [hsteps]
  cases hstep : workflow.steps[index]? with
  | none => exact .complete (List.getElem?_eq_none_iff.mp hstep)
  | some step =>
      simp only [Option.map_some, unmarshalStep_toJson]
      cases step with
      | approval reason =>
          have happroval : workflow.isApproval index = true := by
            simp [WorkflowDefinition.isApproval, hstep]
          exact .approval happroval
      | transform operation input =>
          have hcalls : workflow.callsProvider index = false := by
            simp [WorkflowDefinition.callsProvider, hstep]
          cases operation <;> exact .record hcalls _ _
      | tool tool sideEffect =>
          have hcalls : workflow.callsProvider index = false := by
            simp [WorkflowDefinition.callsProvider, hstep]
          cases tool with
          | mockDataRead => exact .record hcalls _ _
          | mockTicketWrite => exact .effect hcalls
          | allowlistedHttpFetch =>
              have hfetch : executeStep env run index
                  (stepOf (.tool .allowlistedHttpFetch sideEffect)) =
                    .fetch run index (inputUrl run) := by
                simp [executeStep, executeTool, stepOf, Tool.text, hdefinition, decoded, hurl]
              rw [hfetch]
              exact .fetch hcalls _
      | model provider prompt =>
          cases provider with
          | mock =>
              have hcalls : workflow.callsProvider index = false := by
                simp [WorkflowDefinition.callsProvider, hstep]
              exact .record hcalls _ _
          | openaiCompatible =>
              have hcalls : workflow.callsProvider index = true := by
                simp [WorkflowDefinition.callsProvider, hstep]
              obtain ⟨handle, hsome⟩ := Option.isSome_iff_exists.mp hhandle
              have hconsume : executeStep env run index (stepOf (.model .openaiCompatible prompt)) =
                  .consume run index handle prompt := by
                have hreachable := hconfigured.consumeUrl handle
                simp [executeStep, executeProviderModel, stepOf, ModelProvider.text, hsome,
                  hconfigured.internalUrl, hconfigured.internalToken,
                  Option.isNone_eq_false_iff.mpr hreachable]
              rw [hconsume]
              exact .consume hcalls hsome prompt

end Worker

section

variable {env : Env} {s s' : State} {a : Action} {h : History State Action} {id : Uuid}
  {workflow : WorkflowDefinition} {row row' : RunRow}

/-! ## The input of a leased run -/

/-- What a worker takes for the input of its run is the stored one. -/
def Inputs (s : State) : Prop :=
  ∀ (index : Nat) (session : Worker.Session) run, s.workers[index]? = some session →
    session.pc.leased? = some run → ∃ row, s.db.run? run.ref.id = some row ∧
      Worker.unmarshalInput row.input = some run.input

theorem Worker.leasedRun_input {ref : Worker.RunRef} {definition : DefinitionRow}
    {run : Worker.LeasedRun} (hdecode : Worker.leasedRun ref row definition = some run) :
    Worker.unmarshalInput row.input = some run.input := by
  simp only [Worker.leasedRun, Option.bind_eq_bind, Option.bind_eq_some_iff] at hdecode
  obtain ⟨workflow, -, input, hinput, hrun⟩ := hdecode
  cases hrun
  exact hinput

theorem run_inputs (run : Run env h s) : Inputs s := by
  refine run.always ?_ ?_
  · intro s hs index session run hworker
    simp [hs.workers] at hworker
  · intro h s a s' run inputs hnext index session leased hworker hleased
    have later : ∀ {row : RunRow}, s.db.run? leased.ref.id = some row →
        Worker.unmarshalInput row.input = some leased.input →
        ∃ row, s'.db.run? leased.ref.id = some row ∧
          Worker.unmarshalInput row.input = some leased.input := by
      intro row hrow hinput
      obtain ⟨row', hrow', hsame⟩ := (next_extends hnext).runs _ row hrow
      exact ⟨row', hrow', by rw [hsame.input, hinput]⟩
    cases worker_case hnext hworker with
    | kept hold hactor =>
        obtain ⟨row, hrow, hinput⟩ := inputs index _ leased hold hleased
        exact later hrow hinput
    | joined => cases hleased
    | turned hold hactor hcommit hturn hstate =>
        rcases hturn.leased? hleased with hmine | ⟨ref, now, row, definition, hpc, hdecode⟩
        · obtain ⟨row, hrow, hinput⟩ := inputs index _ leased hold hmine
          exact later hrow hinput
        · have sound := run_sound run
          have hshape := sound.shaped.workers index _ hold
          have hrow := sound.snapshots.workers index _ row hold (by rw [hpc]; rfl)
          rw [hpc] at hshape
          rw [(Worker.leasedRun_leases hshape.1 hdecode).1.id] at hrow
          exact later hrow (Worker.leasedRun_input hdecode)

/-! ## Results of steps that are no approvals -/

/-- What the definition and the row ask of a run that is to complete. -/
structure Suits (env : Env) (workflow : WorkflowDefinition) (row : RunRow) : Prop where
  accepted : Accepted workflow
  once : workflow.CallsProviderOnce
  credential : row.providerCredentialHandle.isSome = true
  input : InputAllowed env workflow row.input

/--
The results of the steps below `recorded` are there, the steps below `called`
have called their provider, and the credential is left for the steps from
`fresh` on.
-/
structure Ready (env : Env) (h : History State Action) (s : State)
    (workflow : WorkflowDefinition) (row : RunRow) (recorded called fresh : Nat) : Prop where
  results : ∀ index, index < recorded → index < workflow.steps.length →
    workflow.isApproval index = false →
      ∃ result, s.db.stepResult? row.tenantId row.id index = some result
  calls : ∀ index, index < called → workflow.callsProvider index = true →
    ∃ p ∈ h, providerCall? p.1 p.2 = some (row.id, index)
  unspent : ∀ index, fresh ≤ index → workflow.callsProvider index = true →
    ∀ handle, row.providerCredentialHandle = some handle →
      ∀ p ∈ h, effectOf env p.1 p.2 ≠ .consume handle

theorem Suits.before (suits : Suits env workflow row') (hsame : row.SameRequest row') :
    Suits env workflow row where
  accepted := suits.accepted
  once := suits.once
  credential := by rw [← hsame.handle, suits.credential]
  input := hsame.input ▸ suits.input

/-- The run has reached a step, and everything before it is done. -/
abbrev Reached (env : Env) (h : History State Action) (s : State)
    (workflow : WorkflowDefinition) (row : RunRow) (index : Nat) : Prop :=
  Ready env h s workflow row index index index

/-- How a worker stands that executes the run. -/
inductive Stands (env : Env) (h : History State Action) (s : State)
    (workflow : WorkflowDefinition) (row : RunRow) : Worker.Pc → Prop
  | execute {run} (running : row.state = .running)
      (reached : Reached env h s workflow row run.currentStep) :
      Stands env h s workflow row (.execute run)
  | loop {run index} (running : row.state = .running)
      (reached : Reached env h s workflow row index) :
      Stands env h s workflow row (.loop run index)
  | consume {run index handle prompt} (running : row.state = .running)
      (hcalls : workflow.callsProvider index = true)
      (hhandle : row.providerCredentialHandle = some handle)
      (reached : Reached env h s workflow row index) :
      Stands env h s workflow row (.consume run index handle prompt)
  | provider {run index credential prompt} (running : row.state = .running)
      (hcalls : workflow.callsProvider index = true)
      (ready : Ready env h s workflow row index index (index + 1)) :
      Stands env h s workflow row (.provider run index credential prompt)
  | fetch {run index target} (running : row.state = .running)
      (hcalls : workflow.callsProvider index = false)
      (reached : Reached env h s workflow row index) :
      Stands env h s workflow row (.fetch run index target)
  | effect {run index} (running : row.state = .running)
      (hcalls : workflow.callsProvider index = false)
      (reached : Reached env h s workflow row index) :
      Stands env h s workflow row (.effect run index)
  | record {run index kind label} (running : row.state = .running)
      (ready : Ready env h s workflow row index (index + 1) (index + 1)) :
      Stands env h s workflow row (.record run index kind .succeeded label)
  | recordApproval {run index kind label} (running : row.state = .running)
      (happroval : workflow.isApproval index = true)
      (reached : Reached env h s workflow row index) :
      Stands env h s workflow row (.record run index kind .awaitingApproval label)
  | awaitApproval {run index} (running : row.state = .running)
      (happroval : workflow.isApproval index = true)
      (reached : Reached env h s workflow row index) :
      Stands env h s workflow row (.awaitApproval run index)
  | heartbeat {run index} (running : row.state = .running)
      (reached : Reached env h s workflow row (index + 1)) :
      Stands env h s workflow row (.heartbeat run index)
  | heartbeatUpdate {run index now} (running : row.state = .running)
      (reached : Reached env h s workflow row (index + 1)) :
      Stands env h s workflow row (.heartbeatUpdate run index now)
  | complete {run} (running : row.state = .running)
      (reached : Reached env h s workflow row workflow.steps.length) :
      Stands env h s workflow row (.complete run)
  | event (run eventType detail) :
      Stands env h s workflow row (.event run eventType detail .ret)
  | eventCommit (run event) : Stands env h s workflow row (.eventCommit run event .ret)

/-! ## How far a run still has to go -/

/-- The moves that an execution has before it, with what follows the approval it may pause for. -/
def Worker.Pc.remaining (length : Nat) : Worker.Pc → Nat
  | execute run => 8 * (length - run.currentStep) + 5
  | loop _ index => 8 * (length - index) + 4
  | consume _ index _ _ => 8 * (length - index) + 3
  | provider _ index _ _ | fetch _ index _ | effect _ index => 8 * (length - index) + 2
  | record _ index _ .succeeded _ => 8 * (length - index) + 1
  | record _ index _ .awaitingApproval _ => 8 * (length - index) + 3
  | awaitApproval _ index => 8 * (length - index) + 2
  | heartbeat _ index => 8 * (length - index)
  | heartbeatUpdate _ index _ => 8 * (length - index) - 1
  | complete _ => 3
  | event _ _ _ _ => 2
  | eventCommit _ _ _ => 1
  | _ => 0

/-- The moves that are left for a run which no worker has claimed. -/
def RunRow.remaining (length : Nat) (row : RunRow) : Nat :=
  match row.state with
  | .queued => 8 * (length - row.currentStep) + 6
  | .awaitingApproval => 8 * (length - row.currentStep) - 1
  | _ => 0

/-- The action is made for the run: by a worker that executes it, or to claim or approve it. -/
def worksFor (env : Env) (id : Uuid) (p : State × Action) : Bool :=
  (match actor p.2 with
    | some (.worker index) => (p.1.workers[index]?).any fun session =>
        session.pc.executing?.any fun run => run.ref.id = id
    | _ => false) ||
    claimed? env p.1 p.2 = some id || approvedRun? env p.1 p.2 = some id

/-- The actions made for the run so far, and those that are left, are few enough. -/
structure Budgeted (env : Env) (h : History State Action) (s : State) (length : Nat)
    (row : RunRow) : Prop where
  spent : h.countP (worksFor env row.id) + row.remaining length ≤ 8 * length + 6
  workers : ∀ (index : Nat) (session : Worker.Session), s.workers[index]? = some session →
    session.Executes row.id →
      h.countP (worksFor env row.id) + row.remaining length + session.pc.remaining length ≤
        8 * length + 6

/-- A position of an execution before its last event. -/
def Worker.Pc.isBusy : Worker.Pc → Bool
  | .event _ _ _ _ | .eventCommit _ _ _ => false
  | pc => pc.executing?.isSome

inductive RowStands (env : Env) (h : History State Action) (s : State)
    (workflow : WorkflowDefinition) (row : RunRow) : Prop
  | queued (hstate : row.state = .queued)
      (reached : Reached env h s workflow row row.currentStep)
  | paused (hstate : row.state = .awaitingApproval)
      (happroval : workflow.isApproval row.currentStep = true)
      (reached : Reached env h s workflow row row.currentStep)
  | running (hstate : row.state = .running) {index : Nat} {session : Worker.Session}
      (hworker : s.workers[index]? = some session) (hexecutes : session.Executes row.id)
      (hbusy : session.pc.isBusy = true)
  | succeeded (hstate : row.state = .succeeded)
      (reached : Reached env h s workflow row workflow.steps.length)

structure OnCourse (env : Env) (h : History State Action) (s : State)
    (workflow : WorkflowDefinition) (row : RunRow) : Prop where
  state : RowStands env h s workflow row
  workers : ∀ (index : Nat) (session : Worker.Session), s.workers[index]? = some session →
    session.Executes row.id → Stands env h s workflow row session.pc
  budgeted : Budgeted env h s workflow.steps.length row

section

variable {recorded called fresh index : Nat}

theorem WorkflowDefinition.lt_of_callsProvider (hcalls : workflow.callsProvider index = true) :
    index < workflow.steps.length := by
  unfold WorkflowDefinition.callsProvider at hcalls
  split at hcalls
  · rename_i hstep
    exact (List.getElem?_eq_some_iff.mp hstep).1
  · cases hcalls

theorem WorkflowDefinition.lt_of_isApproval (happroval : workflow.isApproval index = true) :
    index < workflow.steps.length := by
  unfold WorkflowDefinition.isApproval at happroval
  split at happroval
  · rename_i hstep
    exact (List.getElem?_eq_some_iff.mp hstep).1
  · cases happroval

theorem WorkflowDefinition.not_callsProvider (happroval : workflow.isApproval index = true) :
    workflow.callsProvider index = false := by
  unfold WorkflowDefinition.isApproval at happroval
  split at happroval
  · rename_i hstep
    simp [WorkflowDefinition.callsProvider, hstep]
  · cases happroval

/--
A step takes nothing back; it may consume the credential when no step from
`later` on needs it.
-/
theorem Ready.later (ready : Ready env h s workflow row recorded called fresh) {later : Nat}
    (hnext : next env s a = some s') (hsame : row.SameRequest row') (hfresh : fresh ≤ later)
    (hleft : ∀ index, later ≤ index → workflow.callsProvider index = true →
      ∀ handle, row.providerCredentialHandle = some handle →
        effectOf env s a ≠ .consume handle) :
    Ready env (h ++ [(s, a)]) s' workflow row' recorded called later := by
  constructor
  · intro index hindex hlength hother
    obtain ⟨result, hresult⟩ := ready.results index hindex hlength hother
    refine ⟨result, ?_⟩
    rw [hsame.tenantId, hsame.id]
    exact (next_extends hnext).stepResult? hresult
  · intro index hindex hcalls
    obtain ⟨p, hp, hcalled⟩ := ready.calls index hindex hcalls
    refine ⟨p, List.mem_append_left _ hp, ?_⟩
    rw [hsame.id]
    exact hcalled
  · intro index hindex hcalls handle hhandle p hp
    rw [hsame.handle] at hhandle
    rcases List.mem_append.mp hp with hold | hlast
    · exact ready.unspent index (Nat.le_trans hfresh hindex) hcalls handle hhandle p hold
    · rw [List.mem_singleton] at hlast
      subst hlast
      exact hleft index hindex hcalls handle hhandle

/-- One more step has its result, if it needs one. -/
theorem Ready.recorded_succ (ready : Ready env h s workflow row recorded called fresh)
    (hresult : workflow.isApproval recorded = false →
      ∃ result, s.db.stepResult? row.tenantId row.id recorded = some result) :
    Ready env h s workflow row (recorded + 1) called fresh where
  results index hindex hlength hother := by
    rcases Nat.lt_succ_iff_lt_or_eq.mp hindex with hlt | rfl
    · exact ready.results index hlt hlength hother
    · exact hresult hother
  calls := ready.calls
  unspent := ready.unspent

/-- One more step has called its provider, if it has one. -/
theorem Ready.called_succ (ready : Ready env h s workflow row recorded called fresh)
    (hcalled : workflow.callsProvider called = true →
      ∃ p ∈ h, providerCall? p.1 p.2 = some (row.id, called)) :
    Ready env h s workflow row recorded (called + 1) fresh where
  results := ready.results
  calls index hindex hcalls := by
    rcases Nat.lt_succ_iff_lt_or_eq.mp hindex with hlt | rfl
    · exact ready.calls index hlt hcalls
    · exact hcalled hcalls
  unspent := ready.unspent

theorem Ready.fresh_succ (ready : Ready env h s workflow row recorded called fresh) :
    Ready env h s workflow row recorded called (fresh + 1) where
  results := ready.results
  calls := ready.calls
  unspent later hlater := ready.unspent later (Nat.le_of_succ_le hlater)

/-- A step without a provider has called all it has to call. -/
theorem Reached.uncalled (reached : Reached env h s workflow row index)
    (hcalls : workflow.callsProvider index = false) :
    Ready env h s workflow row index (index + 1) (index + 1) := by
  refine (Ready.called_succ reached ?_).fresh_succ
  intro htrue
  rw [hcalls] at htrue
  cases htrue

/-- An approval is behind the run without a result of its own. -/
theorem Reached.approved (reached : Reached env h s workflow row index)
    (happroval : workflow.isApproval index = true) :
    Reached env h s workflow row (index + 1) := by
  refine (reached.uncalled (WorkflowDefinition.not_callsProvider happroval)).recorded_succ ?_
  intro hother
  rw [happroval] at hother
  cases hother

/-- Past the last step everything is done. -/
theorem Reached.past (reached : Reached env h s workflow row index)
    (hpast : workflow.steps.length ≤ index) :
    Reached env h s workflow row workflow.steps.length where
  results later hlater := reached.results later (by omega)
  calls later hlater := reached.calls later (by omega)
  unspent later hlater hcalls := by
    have hlt := WorkflowDefinition.lt_of_callsProvider hcalls
    omega

end

/-! ## A move of the worker -/

theorem worker_step {index : Nat} {reply : Worker.Reply} {session : Worker.Session}
    (hnext : next env s (.worker index reply) = some s')
    (hworker : s.workers[index]? = some session) :
    ∃ pc effect, Worker.Move env s.toShared session.id reply session.pc pc effect ∧
      effectOf env s (.worker index reply) = effect ∧
        commitOf env s (.worker index reply) = effect.commit? ∧
          s'.workers[index]? = some { session with pc } := by
  simp only [next, hworker] at hnext
  split at hnext
  · cases hnext
  · rename_i pc effect hstep
    cases hnext
    exact ⟨pc, effect, Worker.step_move hstep, by simp [effectOf, hworker, hstep],
      by simp [commitOf, hworker, hstep],
      List.getElem?_set_self (List.getElem?_eq_some_iff.mp hworker).1⟩

/-- The credential that a consume call of the run gets is the one that was issued. -/
theorem consume_answered (hconfigured : Worker.Configured env) (run : Run env h s)
    (hundisturbed : Undisturbed env row.id h s a) (hrow : s.db.run? row.id = some row)
    (hrunning : row.state = .running) {handle : Uuid}
    (hhandle : row.providerCredentialHandle = some handle)
    (hunspent : ∀ p ∈ h, effectOf env p.1 p.2 ≠ .consume handle) :
    ∃ credential, Worker.consumeCredential env s.toShared handle .answered =
        (some credential, .consume handle) ∧ Worker.validHeaderFieldValue credential = true := by
  obtain ⟨deposit, hlast, hyields⟩ := consume_yields run hrow hhandle hunspent
  obtain ⟨hlive, hreadable, hsendable⟩ := hundisturbed.credential row handle deposit hrow
    (by rw [hrunning]; rfl) hhandle hlast
  refine ⟨deposit.credential.replaced, ?_, hsendable⟩
  simp [Worker.consumeCredential, hconfigured.controlToken, hconfigured.sameToken, hyields hlive,
    hreadable, Option.filter]

/-- What a worker that executes the run works with. -/
structure Informs (env : Env) (workflow : WorkflowDefinition) (row : RunRow)
    (leased : Worker.LeasedRun) : Prop where
  id : leased.ref.id = row.id
  tenantId : leased.tenantId = row.tenantId
  definition : leased.definition = decoded workflow
  handle : leased.credentialHandle = row.providerCredentialHandle
  input : Worker.validateURL env (Worker.inputUrl leased) workflow.allowedHosts = true

theorem informs (run : Run env h s) (hrow : s.db.run? row.id = some row)
    (hworkflow : s.db.WorkflowOf row.id workflow) (suits : Suits env workflow row) {index : Nat}
    {session : Worker.Session} {leased : Worker.LeasedRun}
    (hworker : s.workers[index]? = some session)
    (hexecuting : session.pc.executing? = some leased) (hid : leased.ref.id = row.id) :
    Informs env workflow row leased := by
  have hleased := Worker.leased?_of_executing hexecuting
  have hagrees := run_agrees run hworker hexecuting
  refine ⟨hid, ?_, ?_, ?_, ?_⟩
  · exact (hagrees.tenant (hid ▸ hrow)).symm
  · have hinterpreted := hagrees.interpreted
    rw [hid, hworkflow.interpreted, Option.some.injEq] at hinterpreted
    exact hinterpreted.symm
  · obtain ⟨other, hother, hhandle⟩ := (run_handled run).leased index session leased hworker hleased
    rw [hid, hrow, Option.some.injEq] at hother
    rw [hother, hhandle]
  · obtain ⟨other, hother, hinput⟩ := run_inputs run index session leased hworker hleased
    rw [hid, hrow, Option.some.injEq] at hother
    obtain ⟨members, url, hmembers, hmember, hallowed⟩ := suits.input
    rw [hother, hinput, Option.some.injEq] at hmembers
    rw [Worker.inputUrl, hmembers, hmember]
    exact hallowed

/-- A busy worker is the one that a running row waits for. -/
theorem RowStands.quiet (state : RowStands env h s workflow row) (alone : Alone s row.id)
    {index : Nat} {session : Worker.Session} (hworker : s.workers[index]? = some session)
    (hexecutes : session.Executes row.id) (hidle : session.pc.isBusy = false) :
    row.state ≠ .running := by
  intro hrunning
  cases state with
  | running hstate hbusyWorker hbusyExecutes hbusy =>
      have hsame := alone.unique _ _ _ _ hworker hbusyWorker hexecutes hbusyExecutes
      rw [← hsame, hworker, Option.some.injEq] at hbusyWorker
      rw [← hbusyWorker, hidle] at hbusy
      cases hbusy
  | queued hstate =>
      rw [hrunning] at hstate
      cases hstate
  | paused hstate =>
      rw [hrunning] at hstate
      cases hstate
  | succeeded hstate =>
      rw [hrunning] at hstate
      cases hstate

/-- A row that no worker runs stays where it is while nobody consumes its credential. -/
theorem RowStands.later (state : RowStands env h s workflow row) (hnext : next env s a = some s')
    (hleft : ∀ handle, row.providerCredentialHandle = some handle →
      effectOf env s a ≠ .consume handle) (hidle : row.state ≠ .running) :
    RowStands env (h ++ [(s, a)]) s' workflow row := by
  have later : ∀ {index : Nat}, Reached env h s workflow row index →
      Reached env (h ++ [(s, a)]) s' workflow row index := by
    intro index reached
    exact Ready.later reached hnext (.refl row) (Nat.le_refl _) fun _ _ _ => hleft
  cases state with
  | queued hstate reached => exact .queued hstate (later reached)
  | paused hstate happroval reached => exact .paused hstate happroval (later reached)
  | running hstate => exact absurd hstate hidle
  | succeeded hstate reached => exact .succeeded hstate (later reached)

theorem claimed_some (hclaimed : claimed? env s a = some id) :
    ∃ owner now events, commitOf env s a = some (.claim id owner now events) := by
  unfold claimed? at hclaimed
  split at hclaimed
  · rename_i hcommit
    cases hclaimed
    exact ⟨_, _, _, hcommit⟩
  · cases hclaimed

theorem claim_worker {owner : String} {now : Int} {events : List EventRow}
    (hcommit : commitOf env s a = some (.claim id owner now events)) :
    ∃ index reply session locked leased claimedAt stored, a = .worker index reply ∧
      s.workers[index]? = some session ∧
        session.pc = .claimCommit claimedAt locked stored leased ∧ locked.id = id := by
  generalize hchange : Commit.claim id owner now events = change at hcommit
  cases commitOf_commits hcommit with
  | @claim index reply session claimedAt locked stored leased hworker hpc =>
      rw [Commit.claim.injEq] at hchange
      exact ⟨index, reply, session, locked, leased, claimedAt, stored, rfl, hworker, hpc,
        hchange.1.symm⟩
  | _ => cases hchange

theorem worksFor_iff : worksFor env id (s, a) = true ↔
    (∃ index session, actor a = some (.worker index) ∧ s.workers[index]? = some session ∧
      session.Executes id) ∨ claimed? env s a = some id ∨ approvedRun? env s a = some id := by
  rw [worksFor, Bool.or_eq_true, Bool.or_eq_true, decide_eq_true_eq, decide_eq_true_eq, or_assoc]
  refine or_congr_left ?_
  cases hactor : actor a with
  | none => simp
  | some holder =>
      cases holder with
      | worker index => simp [Option.any_eq_true, Worker.Session.Executes]
      | _ => simp

/-- One more action is made for the run, and what is left with it fits into what was left. -/
theorem budgeted_of_left {length left : Nat}
    (hleft : h.countP (worksFor env row.id) + left ≤ 8 * length + 6) (hid : row'.id = row.id)
    (hspent : row'.remaining length < left)
    (hworkers : ∀ (index : Nat) (session : Worker.Session), s'.workers[index]? = some session →
      session.Executes row.id → row'.remaining length + session.pc.remaining length < left) :
    Budgeted env (h ++ [(s, a)]) s' length row' := by
  have hcount : (h ++ [(s, a)]).countP (worksFor env row.id) ≤
      h.countP (worksFor env row.id) + 1 := by
    rw [List.countP_append, List.countP_singleton]
    split <;> omega
  constructor
  · rw [hid]
    omega
  · intro index session hworker hexecutes
    rw [hid] at hexecutes ⊢
    have := hworkers index session hworker hexecutes
    omega

theorem RunRow.remaining_running {length : Nat} (h : row.state = .running) :
    row.remaining length = 0 := by
  simp [RunRow.remaining, h]

theorem RunRow.remaining_queued {length : Nat} (h : row.state = .queued) :
    row.remaining length = 8 * (length - row.currentStep) + 6 := by
  simp [RunRow.remaining, h]

theorem providerCall_worker {index step : Nat} {reply : Worker.Reply} {session : Worker.Session}
    {leased : Worker.LeasedRun} {credential prompt : String}
    (hworker : s.workers[index]? = some session)
    (hpc : session.pc = .provider leased step credential prompt) :
    providerCall? s (.worker index reply) = some (leased.ref.id, step) := by
  obtain ⟨owner, message, pc⟩ := session
  cases hpc
  simp [providerCall?, hworker]

/-- A step has a result once one has been recorded. -/
theorem result_next {result : StepResultRow} (hnext : next env s a = some s')
    (hcommit : commitOf env s a = some (.stepResult result)) :
    ∃ found, s'.db.stepResult? result.tenantId result.runId result.stepIndex = some found := by
  obtain ⟨events, outbox, audits, hdb⟩ := next_db hnext
  rw [hdb, hcommit]
  exact stepResult?_commit _ result

/-- The worker of a run on course stays on course, and so does the row. -/
theorem OnCourse.turned (hconfigured : Worker.Configured env) (run : Run env h s) {index : Nat}
    {reply : Worker.Reply} {session : Worker.Session}
    (hundisturbed : Undisturbed env row.id h s (.worker index reply))
    (hnext : next env s (.worker index reply) = some s') (hrow : s.db.run? row.id = some row)
    (hrow' : s'.db.run? row.id = some row') (hworkflow : s.db.WorkflowOf row.id workflow)
    (suits : Suits env workflow row) (alone : Alone s row.id)
    (course : OnCourse env h s workflow row) (hworker : s.workers[index]? = some session)
    (hexecutes : session.Executes row.id) :
    RowStands env (h ++ [(s, .worker index reply)]) s' workflow row' ∧
      ∃ pc, s'.workers[index]? = some { session with pc } ∧
        (pc.executing?.isSome = true →
          Stands env (h ++ [(s, .worker index reply)]) s' workflow row' pc) ∧
        row'.remaining workflow.steps.length + pc.remaining workflow.steps.length <
          row.remaining workflow.steps.length + session.pc.remaining workflow.steps.length := by
  obtain ⟨pc, effect, hmove, heffect, hcommit, hworker'⟩ := worker_step hnext hworker
  have hplaced := run_placed run index session hworker
  have stands := course.workers index session hworker hexecutes
  have hgood := hundisturbed.answered index reply session rfl hworker hexecutes
  have hidle := course.state.quiet alone hworker hexecutes
  obtain ⟨leased, hexecuting, hid⟩ := hexecutes
  have informed := informs run hrow hworkflow suits hworker hexecuting hid
  have hsame := sameRequest_next hnext hrow hrow'
  have hmoved := next_run? hnext row.id
  rw [hcommit, hrow, hrow'] at hmoved
  -- A move that leaves the credential alone keeps what has been reached.
  have later : ∀ {recorded called fresh : Nat}, (∀ handle, effect ≠ .consume handle) →
      Ready env h s workflow row recorded called fresh →
      Ready env (h ++ [(s, .worker index reply)]) s' workflow row' recorded called fresh := by
    intro recorded called fresh hother ready
    refine ready.later hnext hsame (Nat.le_refl _) ?_
    intro _ _ _ handle _
    rw [heffect]
    exact hother handle
  have onward : row'.state = .running → pc.executing? = some leased → pc.isBusy = true →
      pc.remaining workflow.steps.length < session.pc.remaining workflow.steps.length →
      Stands env (h ++ [(s, .worker index reply)]) s' workflow row' pc →
      RowStands env (h ++ [(s, .worker index reply)]) s' workflow row' ∧
        ∃ pc, s'.workers[index]? = some { session with pc } ∧
          (pc.executing?.isSome = true →
            Stands env (h ++ [(s, .worker index reply)]) s' workflow row' pc) ∧
          row'.remaining workflow.steps.length + pc.remaining workflow.steps.length <
            row.remaining workflow.steps.length +
              session.pc.remaining workflow.steps.length := by
    intro hrunning hexecuting' hbusy hless stands
    refine ⟨.running hrunning hworker' ⟨leased, hexecuting', by rw [hid, hsame.id]⟩ hbusy, pc,
      hworker', fun _ => stands, ?_⟩
    rw [RunRow.remaining_running hrunning]
    omega
  have inside : ∀ {step : Nat}, step < leased.definition.steps.length →
      step < workflow.steps.length := by
    intro step hstep
    rw [informed.definition] at hstep
    simpa [decoded] using hstep
  generalize hpc : session.pc = old at stands hmove hexecuting hidle onward hplaced ⊢
  cases stands with
  | execute running reached =>
      cases hexecuting
      cases hmove
      cases hmoved
      have hloop : Worker.execute leased = .loop leased leased.currentStep := by
        simp [Worker.execute, informed.definition, decoded, suits.accepted.schemaVersion,
          Worker.supportedWorkflowSchema]
      rw [hloop] at onward
      exact onward running rfl rfl (by simp [Worker.Pc.remaining])
        (.loop running (later (by simp) reached))
  | @loop _ step running reached =>
      cases hexecuting
      cases hmove
      cases hmoved
      have hbegins : Worker.Begins workflow leased step (Worker.loop env leased step) :=
        Worker.loop_begins hconfigured informed.definition (informed.handle ▸ suits.credential)
          informed.input
      have reached' := later (by simp) reached
      generalize Worker.loop env leased step = pc at hbegins onward
      cases hbegins with
      | complete hpast =>
          exact onward running rfl rfl (by simp only [Worker.Pc.remaining]; omega)
            (.complete running (Reached.past reached' hpast))
      | approval happroval =>
          exact onward running rfl rfl (by simp [Worker.Pc.remaining])
            (.recordApproval running happroval reached')
      | consume hcalls hhandle prompt =>
          exact onward running rfl rfl (by simp [Worker.Pc.remaining])
            (.consume running hcalls (informed.handle ▸ hhandle) reached')
      | fetch hcalls target =>
          exact onward running rfl rfl (by simp [Worker.Pc.remaining])
            (.fetch running hcalls reached')
      | effect hcalls =>
          exact onward running rfl rfl (by simp [Worker.Pc.remaining])
            (.effect running hcalls reached')
      | record hcalls kind label =>
          exact onward running rfl rfl (by simp [Worker.Pc.remaining])
            (.record running (Reached.uncalled reached' hcalls))
  | @consume _ step handle prompt running hcalls hhandle reached =>
      cases hexecuting
      cases hmove with
      | consume _ _ _ _ delivery =>
          obtain rfl : delivery = .answered := hgood
          obtain ⟨credential, hanswer, hsendable⟩ :=
            consume_answered hconfigured run hundisturbed hrow
            running hhandle (reached.unspent step (Nat.le_refl _) hcalls handle hhandle)
          rw [hanswer] at hmoved onward heffect
          cases hmoved
          have hprovider : Worker.withCredential env leased step prompt (some credential) =
              .provider leased step credential prompt := by
            simp [Worker.withCredential, hconfigured.openaiBaseUrl, hconfigured.openaiModel,
              hconfigured.providerUrl, hsendable]
          simp only [hprovider] at onward
          refine onward running rfl rfl (by simp [Worker.Pc.remaining])
            (.provider running hcalls ?_)
          refine Ready.later reached hnext (.refl row) (Nat.le_succ _) ?_
          intro other hother hcalls'
          have := suits.once other step hcalls' hcalls
          omega
  | @provider _ step credential prompt running hcalls ready =>
      cases hexecuting
      cases hmove with
      | providerFailed hreply =>
          rw [show _ = true from hgood] at hreply
          cases hreply
      | @providerAnswered _ _ _ _ answer hreply =>
          cases hmoved
          refine onward running rfl rfl (by simp [Worker.Pc.remaining, Worker.recordStep])
            (.record running ?_)
          refine (later (by simp) ready).called_succ ?_
          intro _
          refine ⟨_, List.mem_append_right _ (List.mem_singleton_self _), ?_⟩
          rw [providerCall_worker hworker hpc, hid]
  | @fetch _ step target running hcalls reached =>
      cases hexecuting
      cases hmove with
      | fetched hreply =>
          cases hmoved
          have reached' := later (by simp) reached
          exact onward running rfl rfl (by simp [Worker.Pc.remaining, Worker.recordStep])
            (.record running (Reached.uncalled reached' hcalls))
      | fetchFailed hreply =>
          rw [show _ = none from hgood] at hreply
          cases hreply
  | @effect _ step running hcalls reached =>
      cases hexecuting
      cases hmove with
      | effectReplayed hfree hfound =>
          cases hmoved
          have reached' := later (by simp) reached
          exact onward running rfl rfl (by simp [Worker.Pc.remaining, Worker.recordStep])
            (.record running (Reached.uncalled reached' hcalls))
      | effectCommitted hfree habsent =>
          cases hmoved
          have reached' := later (by simp) reached
          exact onward running rfl rfl (by simp [Worker.Pc.remaining, Worker.recordStep])
            (.record running (Reached.uncalled reached' hcalls))
  | @record _ step kind label running ready =>
      cases hexecuting
      cases hmove
      cases hmoved
      refine onward running rfl rfl
        (by simp [Worker.Pc.remaining, Worker.afterRecord]) (.heartbeat running ?_)
      refine (later (by simp) ready).recorded_succ ?_
      intro _
      have hresult := result_next hnext hcommit
      simp only [Worker.stepResultRow, informed.tenantId, hid] at hresult
      exact hresult
  | @recordApproval _ step kind label running happroval reached =>
      cases hexecuting
      cases hmove
      cases hmoved
      exact onward running rfl rfl (by simp [Worker.Pc.remaining, Worker.afterRecord])
        (.awaitApproval running happroval (later (by simp) reached))
  | @awaitApproval _ step running happroval reached =>
      cases hexecuting
      cases hmove
      simp only [Effect.commit?, Commit.rowAfter, hid, if_true, Option.map_some,
        Option.some.injEq] at hmoved
      subst hmoved
      have hlt := inside hplaced.1
      refine ⟨.paused rfl happroval (later (by simp) reached), _, hworker',
        fun _ => .event _ _ _, ?_⟩
      rw [RunRow.remaining_running running]
      simp only [RunRow.remaining, RunRow.awaitApproval, Worker.Pc.remaining]
      omega
  | @heartbeat _ step running reached =>
      cases hexecuting
      cases hmove
      cases hmoved
      have hlt := inside hplaced.1
      exact onward running rfl rfl (by simp only [Worker.Pc.remaining]; omega)
        (.heartbeatUpdate running (later (by simp) reached))
  | @heartbeatUpdate _ step now running reached =>
      cases hexecuting
      cases hmove
      simp only [Effect.commit?, Commit.rowAfter, hid, if_true, Option.map_some,
        Option.some.injEq] at hmoved
      subst hmoved
      have hlt := inside hplaced.1
      exact onward running rfl rfl (by simp only [Worker.Pc.remaining]; omega)
        (.loop running (later (by simp) reached))
  | complete running reached =>
      cases hexecuting
      cases hmove
      simp only [Effect.commit?, Commit.rowAfter, hid, if_true, Option.map_some,
        Option.some.injEq] at hmoved
      subst hmoved
      refine ⟨.succeeded rfl (later (by simp) reached), _, hworker', fun _ => .event _ _ _, ?_⟩
      simp [RunRow.remaining, RunRow.complete, Worker.Pc.remaining]
  | event _ eventType detail =>
      cases hexecuting
      cases hmove
      cases hmoved
      refine ⟨course.state.later hnext ?_ (hidle rfl), _, hworker', fun _ => .eventCommit _ _, ?_⟩
      · intro handle _
        rw [heffect]
        simp
      · simp [Worker.Pc.remaining]
  | eventCommit _ event =>
      cases hexecuting
      cases hmove
      cases hmoved
      refine ⟨course.state.later hnext ?_ (hidle rfl), _, hworker', ?_, ?_⟩
      · intro handle _
        rw [heffect]
        simp
      · intro hreturned
        cases hreturned
      · simp [Worker.Pc.remaining, Worker.After.pc]

/-! ## The other steps -/

theorem worker_kept (hnext : next env s a = some s') {index : Nat} {session : Worker.Session}
    (hworker : s.workers[index]? = some session) (hother : actor a ≠ some (.worker index)) :
    s'.workers[index]? = some session := by
  obtain ⟨session', hworker'⟩ := worker_persists hnext hworker
  cases worker_case hnext hworker' with
  | kept hold =>
      rw [hworker, Option.some.injEq] at hold
      rw [hworker', hold]
  | joined haction hmessage hunacked hnew =>
      rw [hworker] at hnew
      cases hnew
  | turned hold hactor => exact absurd hactor hother

/-- What a worker stands for is still so after a step of somebody else. -/
theorem Stands.later {pc : Worker.Pc} (stands : Stands env h s workflow row pc)
    (hnext : next env s a = some s') (hsame : row.SameRequest row')
    (hrunning : row.state = .running → row'.state = .running)
    (hleft : ∀ handle, row.providerCredentialHandle = some handle →
      effectOf env s a ≠ .consume handle) :
    Stands env (h ++ [(s, a)]) s' workflow row' pc := by
  have later : ∀ {recorded called fresh : Nat},
      Ready env h s workflow row recorded called fresh →
      Ready env (h ++ [(s, a)]) s' workflow row' recorded called fresh := by
    intro recorded called fresh ready
    exact ready.later hnext hsame (Nat.le_refl _) fun _ _ _ => hleft
  cases stands with
  | execute running reached => exact .execute (hrunning running) (later reached)
  | loop running reached => exact .loop (hrunning running) (later reached)
  | consume running hcalls hhandle reached =>
      exact .consume (hrunning running) hcalls (hsame.handle.trans hhandle) (later reached)
  | provider running hcalls ready => exact .provider (hrunning running) hcalls (later ready)
  | fetch running hcalls reached => exact .fetch (hrunning running) hcalls (later reached)
  | effect running hcalls reached => exact .effect (hrunning running) hcalls (later reached)
  | record running ready => exact .record (hrunning running) (later ready)
  | recordApproval running happroval reached =>
      exact .recordApproval (hrunning running) happroval (later reached)
  | awaitApproval running happroval reached =>
      exact .awaitApproval (hrunning running) happroval (later reached)
  | heartbeat running reached => exact .heartbeat (hrunning running) (later reached)
  | heartbeatUpdate running reached => exact .heartbeatUpdate (hrunning running) (later reached)
  | complete running reached => exact .complete (hrunning running) (later reached)
  | event run eventType detail => exact .event run eventType detail
  | eventCommit run event => exact .eventCommit run event

/-- Nobody but a worker of the run consumes its credential. -/
theorem consume_executes (run : Run env h s) (hrow : s.db.run? row.id = some row) {handle : Uuid}
    (hhandle : row.providerCredentialHandle = some handle)
    (heffect : effectOf env s a = .consume handle) :
    ∃ index session, actor a = some (.worker index) ∧ s.workers[index]? = some session ∧
      session.Executes row.id := by
  obtain ⟨index, reply, session, leased, step, prompt, rfl, hworker, hpc, other, hother, hused⟩ :=
    consume_worker run heffect
  refine ⟨index, session, rfl, hworker, leased, by rw [hpc]; rfl, ?_⟩
  exact run_handlesApart run _ _ other row handle hother hrow hused hhandle

/-- A run on course that nobody executes is claimed where it is queued. -/
theorem OnCourse.claimed (run : Run env h s) (hundisturbed : Undisturbed env row.id h s a)
    (hnext : next env s a = some s') (hrow : s.db.run? row.id = some row)
    (hrow' : s'.db.run? row.id = some row') (course : OnCourse env h s workflow row)
    (hclaimed : claimed? env s a = some row.id) :
    OnCourse env (h ++ [(s, a)]) s' workflow row' := by
  have sound := run_sound run
  have alone := hundisturbed.alone hclaimed
  obtain ⟨owner, now, events, hcommit⟩ := claimed_some hclaimed
  have hsame := sameRequest_next hnext hrow hrow'
  have hmoved := next_run? hnext row.id
  rw [hcommit, hrow, hrow'] at hmoved
  simp only [Commit.rowAfter, if_true, Option.map_some, Option.some.injEq] at hmoved
  obtain ⟨index, reply, session, locked, leased, claimedAt, stored, rfl, hworker, hpc, hid⟩ :=
    claim_worker hcommit
  have hlocked := sound.snapshots.workers index session locked hworker (by rw [hpc]; rfl)
  rw [hid, hrow, Option.some.injEq] at hlocked
  subst hlocked
  have hshape := sound.shaped.workers index session hworker
  rw [hpc] at hshape
  have hleased : leased.ref.id = row.id := hshape.1.id.symm
  obtain ⟨pc, effect, hmove, heffect, -, hworker'⟩ := worker_step hnext hworker
  rw [hpc] at hmove
  cases hmove
  obtain ⟨hqueued, reached⟩ : row.state = .queued ∧
      Reached env h s workflow row row.currentStep := by
    have hpending := sound.claim_state hworker hpc
    cases course.state with
    | queued hstate reached => exact ⟨hstate, reached⟩
    | running hstate hbusyWorker hexecutes =>
        exact absurd hexecutes (alone _ (List.mem_of_getElem? hbusyWorker))
    | paused hstate =>
        rw [hstate] at hpending
        cases hpending
    | succeeded hstate =>
        rw [hstate] at hpending
        cases hpending
  have reached' : Reached env (h ++ [(s, .worker index reply)]) s' workflow row'
      row.currentStep := by
    refine Ready.later reached hnext hsame (Nat.le_refl _) ?_
    intro _ _ _ handle _
    rw [heffect]
    simp
  have hrunning : row'.state = .running := by
    rw [hmoved]
    rfl
  have only : ∀ (other : Nat) (session' : Worker.Session), s'.workers[other]? = some session' →
      session'.Executes row.id → session'.pc = .execute leased := by
    intro other session' hother hexecutes
    rcases executes_next run hnext hother hexecutes with ⟨old, hold, hexecuted⟩ | ⟨hactor, -⟩
    · exact absurd hexecuted (alone old (List.mem_of_getElem? hold))
    · cases hactor
      rw [hworker', Option.some.injEq] at hother
      rw [← hother]
  refine ⟨?_, ?_, ?_⟩
  · exact .running hrunning hworker' ⟨leased, rfl, hleased.trans hsame.id.symm⟩ rfl
  · intro other session' hother hexecutes
    rw [hsame.id] at hexecutes
    rw [only other session' hother hexecutes]
    exact .execute hrunning (hshape.1.currentStep ▸ reached')
  · refine budgeted_of_left course.budgeted.spent hsame.id ?_ ?_
    · rw [RunRow.remaining_running hrunning, RunRow.remaining_queued hqueued]
      omega
    · intro other session' hother hexecutes
      rw [only other session' hother hexecutes, RunRow.remaining_running hrunning,
        RunRow.remaining_queued hqueued, Worker.Pc.remaining, hshape.1.currentStep]
      omega

/-- An approval leaves less to do. -/
theorem OnCourse.approved_remaining (run : Run env h s) (hnext : next env s a = some s')
    (hrow : s.db.run? row.id = some row) (hrow' : s'.db.run? row.id = some row')
    (course : OnCourse env h s workflow row) (happroved : approvedRun? env s a = some row.id) :
    row'.remaining workflow.steps.length < row.remaining workflow.steps.length := by
  have sound := run_sound run
  have hpaused := approved_row run happroved hrow
  obtain ⟨index, choice, session, writes, stored, before, state, now, rfl, hcommit, hcall, hpc,
    hwrite, hid⟩ := approved_request happroved
  obtain ⟨args, hargs, rfl, happroves, -⟩ := sound.update_args hcall hpc hwrite
  obtain rfl : args = ControlPlane.approveArgs := by
    rcases hargs with rfl | rfl
    · rfl
    · cases happroves
  have hmoved := next_run? hnext row.id
  rw [hcommit, hrow, hrow'] at hmoved
  simp only [Commit.rowAfter, RunWrite.rowAfter, hwrite, hid, if_true, Option.map_some,
    Option.some.injEq] at hmoved
  have hlt : row.currentStep < workflow.steps.length := by
    cases course.state with
    | paused hstate happroval => exact WorkflowDefinition.lt_of_isApproval happroval
    | queued hstate =>
        rw [hpaused] at hstate
        cases hstate
    | running hstate =>
        rw [hpaused] at hstate
        cases hstate
    | succeeded hstate =>
        rw [hpaused] at hstate
        cases hstate
  subst hmoved
  simp only [RunRow.remaining, hpaused, RunRow.transition, ControlPlane.approveArgs, if_true]
  omega

/-- Elsewhere no more is left to do than before, and less after what is done for the run. -/
theorem OnCourse.budgeted_kept (run : Run env h s) (hnext : next env s a = some s')
    (hrow : s.db.run? row.id = some row) (hrow' : s'.db.run? row.id = some row')
    (course : OnCourse env h s workflow row)
    (hothers : ∀ index session, actor a = some (.worker index) →
      s.workers[index]? = some session → ¬session.Executes row.id)
    (hunclaimed : claimed? env s a ≠ some row.id)
    (hsame : approvedRun? env s a ≠ some row.id → row' = row) :
    Budgeted env (h ++ [(s, a)]) s' workflow.steps.length row' := by
  have hid := (sameRequest_next hnext hrow hrow').id
  have hleft : (h ++ [(s, a)]).countP (worksFor env row.id) +
      row'.remaining workflow.steps.length ≤ h.countP (worksFor env row.id) +
        row.remaining workflow.steps.length := by
    rw [List.countP_append, List.countP_singleton]
    by_cases happroved : approvedRun? env s a = some row.id
    · have := course.approved_remaining run hnext hrow hrow' happroved
      split <;> omega
    · have hidle : ¬worksFor env row.id (s, a) = true := by
        rw [worksFor_iff]
        rintro (⟨index, session, hactor, hworker, hexecutes⟩ | hclaimed | happroved')
        · exact hothers index session hactor hworker hexecutes
        · exact hunclaimed hclaimed
        · exact happroved happroved'
      rw [hsame happroved]
      simp [hidle]
  constructor
  · rw [hid]
    exact Nat.le_trans hleft course.budgeted.spent
  · intro index session hworker' hexecutes
    rw [hid] at hexecutes ⊢
    rcases executes_next run hnext hworker' hexecutes with ⟨old, hold, hexecuted⟩ | ⟨-, hclaimed⟩
    · have hkept := worker_kept hnext hold fun hactor => hothers index old hactor hold hexecuted
      rw [hworker', Option.some.injEq] at hkept
      have := course.budgeted.workers index old hold hexecuted
      rw [hkept]
      omega
    · exact absurd hclaimed hunclaimed

/-- Away from its worker a run on course moves only when it is approved. -/
theorem OnCourse.kept (run : Run env h s) (hundisturbed : Undisturbed env row.id h s a)
    (hnext : next env s a = some s') (hrow : s.db.run? row.id = some row)
    (hrow' : s'.db.run? row.id = some row') (course : OnCourse env h s workflow row)
    (hothers : ∀ index session, actor a = some (.worker index) →
      s.workers[index]? = some session → ¬session.Executes row.id)
    (hunclaimed : claimed? env s a ≠ some row.id) :
    OnCourse env (h ++ [(s, a)]) s' workflow row' := by
  have sound := run_sound run
  have hsame := sameRequest_next hnext hrow hrow'
  have hleft : ∀ handle, row.providerCredentialHandle = some handle →
      effectOf env s a ≠ .consume handle := by
    intro handle hhandle heffect
    obtain ⟨index, session, hactor, hworker, hexecutes⟩ := consume_executes run hrow hhandle heffect
    exact hothers index session hactor hworker hexecutes
  have later : ∀ {index : Nat}, Reached env h s workflow row index →
      Reached env (h ++ [(s, a)]) s' workflow row' index := by
    intro index reached
    exact Ready.later reached hnext hsame (Nat.le_refl _) fun _ _ _ => hleft
  have mine : ∀ {index : Nat} {reply : Worker.Reply} {session : Worker.Session}
      {leased : Worker.LeasedRun}, a = .worker index reply → s.workers[index]? = some session →
        session.pc.executing? = some leased → leased.ref.id = row.id → False := by
    rintro index reply session leased rfl hworker hexecuting hid
    exact hothers index session rfl hworker ⟨leased, hexecuting, hid⟩
  have workers : (row.state = .running → row'.state = .running) →
      ∀ (index : Nat) (session : Worker.Session), s'.workers[index]? = some session →
        session.Executes row'.id → Stands env (h ++ [(s, a)]) s' workflow row' session.pc := by
    intro hrunning index session hworker' hexecutes
    rw [hsame.id] at hexecutes
    rcases executes_next run hnext hworker' hexecutes with ⟨old, hold, hexecuted⟩ | ⟨-, hclaimed⟩
    · have hkept := worker_kept hnext hold fun hactor => hothers index old hactor hold hexecuted
      rw [hworker', Option.some.injEq] at hkept
      rw [hkept]
      exact (course.workers index old hold hexecuted).later hnext hsame hrunning hleft
    · exact absurd hclaimed hunclaimed
  have hstep := row_step sound hnext row.id
  rw [hrow, hrow'] at hstep
  cases hstep with
  | same =>
      refine ⟨?_, workers id,
        course.budgeted_kept run hnext hrow hrow' hothers hunclaimed fun _ => rfl⟩
      cases course.state with
      | queued hstate reached => exact .queued hstate (later reached)
      | paused hstate happroval reached => exact .paused hstate happroval (later reached)
      | succeeded hstate reached => exact .succeeded hstate (later reached)
      | running hstate hworker hexecutes hbusy =>
          refine .running hstate (worker_kept hnext hworker ?_) hexecutes hbusy
          intro hactor
          exact hothers _ _ hactor hworker hexecutes
  | @transitioned index choice session writes stored _ state approves now hcommit hcall hpc hwrite
      hid =>
      obtain rfl := hundisturbed.approved writes row state approves now hcommit hwrite rfl
      have hpaused := approved_row run (approved_transition hcommit hwrite) hrow
      obtain ⟨args, hargs, rfl, happroves, -⟩ := sound.update_args hcall hpc hwrite
      obtain rfl : args = ControlPlane.approveArgs := by
        rcases hargs with rfl | rfl
        · rfl
        · cases happroves
      refine ⟨?_, workers (by simp [hpaused]), ?_⟩
      rotate_left
      · exact course.budgeted_kept run hnext hrow hrow' hothers hunclaimed
          fun hother => absurd (approved_transition hcommit hwrite) hother
      cases course.state with
      | paused hstate happroval reached =>
          exact .queued rfl (Reached.approved (later reached) happroval)
      | queued hstate =>
          rw [hpaused] at hstate
          cases hstate
      | running hstate =>
          rw [hpaused] at hstate
          cases hstate
      | succeeded hstate =>
          rw [hpaused] at hstate
          cases hstate
  | claimed hcommit => exact absurd (claimed_commit hcommit) hunclaimed
  | heartbeat hcommit hworker hpc hid => exact (mine rfl hworker (by rw [hpc]; rfl) hid).elim
  | paused hcommit hworker hpc hid => exact (mine rfl hworker (by rw [hpc]; rfl) hid).elim
  | completed hcommit hworker hpc hid => exact (mine rfl hworker (by rw [hpc]; rfl) hid).elim

theorem OnCourse.next (hconfigured : Worker.Configured env) (run : Run env h s)
    (hundisturbed : Undisturbed env row.id h s a) (hnext : next env s a = some s')
    (hrow : s.db.run? row.id = some row) (hrow' : s'.db.run? row.id = some row')
    (hworkflow : s.db.WorkflowOf row.id workflow) (suits : Suits env workflow row)
    (alone : Alone s row.id) (course : OnCourse env h s workflow row) :
    OnCourse env (h ++ [(s, a)]) s' workflow row' := by
  by_cases hmine : ∃ index session, actor a = some (.worker index) ∧
      s.workers[index]? = some session ∧ session.Executes row.id
  · obtain ⟨index, session, hactor, hworker, hexecutes⟩ := hmine
    obtain ⟨herror, hcrash⟩ := hundisturbed.steady index session hworker hexecutes
    obtain ⟨reply, rfl⟩ : ∃ reply, a = .worker index reply := by
      cases a with
      | worker other reply =>
          cases hactor
          exact ⟨reply, rfl⟩
      | workerError other =>
          cases hactor
          exact absurd rfl herror
      | crash other =>
          cases hactor
          exact absurd rfl hcrash
      | _ => cases hactor
    obtain ⟨state, pc, hworker', hstands, hless⟩ :=
      course.turned hconfigured run hundisturbed hnext hrow
      hrow' hworkflow suits alone hworker hexecutes
    have hsame := sameRequest_next hnext hrow hrow'
    have only : ∀ (other : Nat) (session' : Worker.Session), s'.workers[other]? = some session' →
        session'.Executes row.id → session' = { session with pc } := by
      intro other session' hother hexecutes'
      rcases executes_next run hnext hother hexecutes' with ⟨old, hold, hexecuted⟩ | ⟨-, hclaimed⟩
      · obtain rfl := alone.unique other index old session hold hworker hexecuted hexecutes
        rw [hworker', Option.some.injEq] at hother
        exact hother.symm
      · exact absurd hexecutes
          (hundisturbed.alone hclaimed session (List.mem_of_getElem? hworker))
    refine ⟨state, ?_, ?_⟩
    · intro other session' hother hexecutes'
      rw [hsame.id] at hexecutes'
      obtain rfl := only other session' hother hexecutes'
      obtain ⟨leased, hexecuting, -⟩ := hexecutes'
      exact hstands (by rw [hexecuting]; rfl)
    · have hleft := course.budgeted.workers index session hworker hexecutes
      rw [Nat.add_assoc] at hleft
      refine budgeted_of_left hleft hsame.id (by omega) ?_
      intro other session' hother hexecutes'
      rw [only other session' hother hexecutes']
      exact hless
  · by_cases hclaimed : claimed? env s a = some row.id
    · exact course.claimed run hundisturbed hnext hrow hrow' hclaimed
    · refine course.kept run hundisturbed hnext hrow hrow' ?_ hclaimed
      intro index session hactor hworker hexecutes
      exact hmine ⟨index, session, hactor, hworker, hexecutes⟩

/-- A queued run has an outbox row whose message nobody has given up. -/
def QueuedAwaited (id : Uuid) (s : State) : Prop :=
  ∀ row, s.db.run? id = some row → row.state = .queued →
    ∃ queued ∈ s.db.outbox, queued.runId = id ∧ Live s queued.id

theorem QueuedAwaited.next (run : Run env h s) (awaited : QueuedAwaited id s)
    (hundisturbed : Undisturbed env id h s a) (hnext : next env s a = some s') :
    QueuedAwaited id s' := by
  have sound := run_sound run
  intro row' hrow' hqueued'
  have kept : ∀ row, s.db.run? id = some row → row.state = .queued →
      ∃ queued ∈ s'.db.outbox, queued.runId = id ∧ Live s' queued.id := by
    intro row hrow hstate
    obtain ⟨queued, hmem, rfl, live⟩ := awaited row hrow hstate
    obtain ⟨later, hlater, hsame⟩ := (next_extends hnext).outbox queued hmem
    refine ⟨later, hlater, hsame.runId, ?_⟩
    rw [hsame.id]
    refine live.next run hnext hmem ?_ hrow hrow' (by rw [hqueued']; rfl)
    intro hempty
    exact hundisturbed.found hempty row hrow hstate
  have hstep := row_step sound hnext id
  rw [hrow'] at hstep
  cases hrow : s.db.run? id with
  | none =>
      rw [hrow] at hstep
      cases hstep with
      | created hcommit hcall hpc hwrite hid =>
          obtain ⟨eventType, hcomplete⟩ := sound.complete hcall hpc
          have hopened := hcomplete.opened
          rw [hwrite] at hopened
          obtain ⟨queued, hqueued, hrun⟩ := hcomplete.queued (by rw [hopened.1]; rfl)
          obtain ⟨hmem, live⟩ := live_queued run hnext hcommit hqueued
          exact ⟨queued, hmem, by rw [hrun, hwrite]; exact hid, live⟩
  | some row =>
      rw [hrow] at hstep
      cases hstep with
      | same => exact kept row' hrow hqueued'
      | heartbeat => exact kept _ hrow hqueued'
      | claimed => cases hqueued'
      | paused => cases hqueued'
      | completed => cases hqueued'
      | @transitioned index choice session writes stored before state approved now hcommit hcall
          hpc hwrite hid =>
          obtain ⟨eventType, hcomplete⟩ := sound.complete hcall hpc
          have hopened := hcomplete.opened
          rw [hwrite] at hopened
          obtain ⟨args, hargs, htype, rfl, -⟩ := hopened
          rcases hargs with rfl | rfl
          · obtain ⟨queued, hqueued, hrun⟩ := hcomplete.queued (by rw [htype]; rfl)
            obtain ⟨hmem, live⟩ := live_queued run hnext hcommit hqueued
            exact ⟨queued, hmem, by rw [hrun, hwrite]; exact hid, live⟩
          · cases hqueued'

end

namespace Worker

/-- A step as the worker reads it that calls the provider. -/
def Definition.callsProvider (definition : Definition) (index : Nat) : Bool :=
  (definition.stepAt index).any fun step =>
    step.kind = "model" && step.provider = "openai_compatible"

end Worker

/-- Store a workflow and create its run with a credential, which gets the handle 9. -/
def Scenario.createCredentialed (steps : List Json) : List Action :=
  .createWorkflow owner workflowId (workflow steps) ::
    .request owner (.createRun ⟨workflowId, .obj [("url", .str "https://example.com/data")],
      some (.ofString "provider-credential-0001"), "idempotency-key-1"⟩) ::
      .call 0 9 :: List.replicate 11 (.call 0 runId)

end DurableRuntime
