import DurableRuntime.Foundation.TwoRuns
import DurableRuntime.ProviderCalls
import DurableRuntime.Redaction

/-!
# Evidence without secrets

Two executions with the same requests and schedule, whose external calls end the
same way, leave the same evidence and give the same answers, whatever the
credentials, the prompt templates, the model responses and the fetched bodies
are: the redacted system is a view that every step preserves.  A credential
whose reply the worker cannot read in full, or that fits no header, reaches no
provider, and a definition with a prompt that `jsonb` refuses is not stored; so
the executions must agree on these.
-/

namespace DurableRuntime

open DurableRuntime.Foundation

namespace Worker

/-- How an external call ends, as far as the worker tells its ends apart. -/
inductive Reply.Outcome where
  | none
  | consume (delivery : Delivery)
  | provider (answered : Bool)
  | fetch (failure : Option String)

def Reply.outcome (env : Env) : Reply → Outcome
  | .none => .none
  | .consume delivery => .consume delivery
  | .provider reply => .provider (callOpenAICompatible env reply)
  | .fetch reply => .fetch (fetchFailure env reply)

theorem step_outcome {env : Env} {reply reply' : Reply}
    (h : reply.outcome env = reply'.outcome env) (s : Shared) (owner : String) (pc : Pc) :
    step env s owner reply pc = step env s owner reply' pc := by
  cases reply with
  | none => cases reply' <;> first | rfl | cases h
  | consume delivery =>
      cases reply' with
      | consume =>
          cases h
          rfl
      | _ => cases h
  | provider reply =>
      cases reply' with
      | provider reply' =>
          simp only [Reply.outcome, Reply.Outcome.provider.injEq] at h
          cases pc with
          | provider => simp only [step, h]
          | returned outcome => cases outcome <;> rfl
          | _ => rfl
      | _ => cases h
  | fetch reply =>
      cases reply' with
      | fetch reply' =>
          simp only [Reply.outcome, Reply.Outcome.fetch.injEq] at h
          cases pc with
          | fetch => simp only [step, h]
          | returned outcome => cases outcome <;> rfl
          | _ => rfl
      | _ => cases h

end Worker

/-- How the hidden parts of two executions may differ. -/
structure Hidden where
  credentials : JsString → JsString → Prop
  definitions : WorkflowDefinition → WorkflowDefinition → Prop

/--
Actions of two executions that differ in what is hidden only: the prompts of a
definition, the credential of a request, the contents of a reply.
-/
inductive Alike (env : Env) (hidden : Hidden) : Action → Action → Prop
  | same (action) : Alike env hidden action action
  | createWorkflow (principal id) {body body'}
      (h : Option.Rel hidden.definitions (workflowDefinitionSchema body)
        (workflowDefinitionSchema body')) :
      Alike env hidden (.createWorkflow principal id body) (.createWorkflow principal id body')
  | createRun (principal workflowId input idempotencyKey) {credential credential'}
      (h : hidden.credentials credential credential') :
      Alike env hidden
        (.request principal (.createRun ⟨workflowId, input, some credential, idempotencyKey⟩))
        (.request principal (.createRun ⟨workflowId, input, some credential', idempotencyKey⟩))
  | worker (index) {reply reply'} (h : reply.outcome env = reply'.outcome env) :
      Alike env hidden (.worker index reply) (.worker index reply')

/-- What `createRunSchema` accepts as a provider credential. -/
def AcceptedCredential (credential : JsString) : Prop :=
  20 ≤ credential.length16 ∧ credential.length16 ≤ 512

instance : DecidablePred AcceptedCredential :=
  fun _ => inferInstanceAs (Decidable (_ ∧ _))

/-- Any accepted credentials, and definitions that differ in their prompts only. -/
def Hidden.any : Hidden where
  credentials credential credential' :=
    AcceptedCredential credential ∧ AcceptedCredential credential'
  definitions workflow workflow' := workflow.redact = workflow'.redact

/-- The worker can read a credential from the reply and send it in a header. -/
def credentialUsable (credential : JsString) : Bool :=
  Worker.credentialReadable credential && Worker.validHeaderFieldValue credential.replaced

/--
Of two credentials both can be read, and then both be sent, or both not; and of
two definitions both are text that `jsonb` stores, or both not.
-/
def Hidden.exchangeable : Hidden where
  credentials credential credential' :=
    Hidden.any.credentials credential credential' ∧
      Worker.credentialReadable credential = Worker.credentialReadable credential' ∧
        credentialUsable credential = credentialUsable credential'
  definitions workflow workflow' :=
    Hidden.any.definitions workflow workflow' ∧
      PostgresDurableStore.isJsonText workflow.toJson =
        PostgresDurableStore.isJsonText workflow'.toJson

/-- What the runtime tells apart: credentials by their stand-ins, definitions but for prompts. -/
def Hidden.redacted : Hidden where
  credentials credential credential' := redactCredential credential = redactCredential credential'
  definitions := Hidden.exchangeable.definitions

namespace Reads

def Action.Alike (env : Env) (hidden : Hidden) : Action → Action → Prop
  | .system action, .system action' => DurableRuntime.Alike env hidden action action'
  | action, action' => action = action'

def Session.response? (session : Session) : Option Response :=
  match session.pc with
  | .done response => some response
  | _ => none

end Reads

def ControlPlane.Session.response? (session : Session) : Option Response :=
  match session.pc with
  | .done response => some response
  | _ => none

/-- The tables that hold evidence agree, and so does every answer given so far. -/
structure SameEvidence (s s' : Reads.System) : Prop where
  events : s'.db.events = s.db.events
  stepResults : s'.db.stepResults = s.db.stepResults
  effects : s'.db.effects = s.db.effects
  outbox : s'.db.outbox = s.db.outbox
  audits : s'.db.audits = s.db.audits
  runs : s'.db.runs = s.db.runs
  responses : s'.calls.map ControlPlane.Session.response? =
    s.calls.map ControlPlane.Session.response?
  reads : s'.reads.map Reads.Session.response? = s.reads.map Reads.Session.response?

/-! ## Redaction as a view -/

/-- A definition without its prompts, and whether `jsonb` stores it with them. -/
def WorkflowDefinition.view (workflow : WorkflowDefinition) : Bool × WorkflowDefinition :=
  (PostgresDurableStore.isJsonText workflow.toJson, workflow.redact)

/-- What `createWorkflow` commits for a parsed body whose text `jsonb` stores or refuses. -/
def storeWorkflow (env : Env) (s : Shared) (principal : ControlPlane.Principal) (id : Uuid)
    (storable : Bool) (workflow : WorkflowDefinition) : Option Commit :=
  if principal.role ∈ ControlPlane.privilegedRoles ∧ storable = true ∧
      env.fitsIndex workflow.name workflow.version = true ∧
      definitionInsertable s.db (definitionRow principal id workflow) = true then
    some (.createWorkflow (definitionRow principal id workflow)
      (ControlPlane.auditRow s principal s.clock "workflow.created" id))
  else none

theorem createWorkflow_eq (env : Env) (s : Shared) (principal : ControlPlane.Principal)
    (id : Uuid) (body : Json) :
    createWorkflow env s principal id body =
      (workflowDefinitionSchema body).bind fun workflow =>
        storeWorkflow env s principal id (PostgresDurableStore.isJsonText workflow.toJson)
          workflow := by
  unfold createWorkflow storeWorkflow
  cases workflowDefinitionSchema body with
  | none => split <;> rfl
  | some workflow =>
      by_cases hrole : principal.role ∈ ControlPlane.privilegedRoles
      · simp [hrole, definitionHeld, definitionRow, and_assoc]
      · simp [hrole]

theorem storeWorkflow_redact (env : Env) (s : Shared) (principal : ControlPlane.Principal)
    (id : Uuid) (storable : Bool) (workflow : WorkflowDefinition) :
    storeWorkflow env s.redact principal id storable workflow.redact =
      (storeWorkflow env s principal id storable workflow).map Commit.redact := by
  have hrow : (definitionRow principal id workflow).redact =
      definitionRow principal id workflow.redact := by
    simp only [definitionRow, DefinitionRow.redact, WorkflowDefinition.toJson_redact]
    rfl
  have hinsertable : definitionInsertable s.redact.db (definitionRow principal id workflow.redact) =
      definitionInsertable s.db (definitionRow principal id workflow) := by
    simp only [definitionInsertable, Shared.redact, Db.redact, List.all_map]
    rfl
  have hname : workflow.redact.name = workflow.name := rfl
  have hversion : workflow.redact.version = workflow.version := rfl
  unfold storeWorkflow
  rw [hinsertable, ← hrow, hname, hversion]
  split <;> rfl

theorem createWorkflow_redact (env : Env) (s : Shared) (principal : ControlPlane.Principal)
    (id : Uuid) (body : Json) :
    (createWorkflow env s principal id body).map Commit.redact =
      ((workflowDefinitionSchema body).map WorkflowDefinition.view).bind fun view =>
        storeWorkflow env s.redact principal id view.1 view.2 := by
  rw [createWorkflow_eq]
  cases workflowDefinitionSchema body with
  | none => rfl
  | some workflow => exact (storeWorkflow_redact env s principal id _ workflow).symm

theorem next_createWorkflow (env : Env) (s : State) (principal : ControlPlane.Principal)
    (id : Uuid) (body : Json) :
    (next env s (.createWorkflow principal id body)).map State.redact =
      (((workflowDefinitionSchema body).map WorkflowDefinition.view).bind fun view =>
        storeWorkflow env s.redact.toShared principal id view.1 view.2).map fun change =>
          { s.redact with db := (s.redact.db.draw 0 0 1).commit change } := by
  have hcommit := createWorkflow_redact env s.toShared principal id body
  rw [show s.toShared.redact = s.redact.toShared from rfl] at hcommit
  rw [← hcommit]
  simp only [next]
  cases createWorkflow env s.toShared principal id body with
  | none => rfl
  | some change =>
      have hdb := commit_redact (s.db.draw 0 0 1) change
      simp only [Option.map_some, State.redact, Shared.redact, hdb]
      rfl

theorem view_eq {body body' : Option WorkflowDefinition}
    (h : Option.Rel Hidden.exchangeable.definitions body body') :
    body.map WorkflowDefinition.view = body'.map WorkflowDefinition.view := by
  cases h with
  | none => rfl
  | some hworkflow => exact congrArg some (Prod.ext hworkflow.2 hworkflow.1)

theorem independent_redact (env : Env) :
    Independent (next env) State.redact (Alike env .redacted) := by
  intro s s' a a' hview halike
  have same : ∀ a : Action, (next env s a).map State.redact = (next env s' a).map State.redact := by
    intro a
    by_cases ha : ∃ principal id body, a = .createWorkflow principal id body
    · obtain ⟨principal, id, body, rfl⟩ := ha
      rw [next_createWorkflow, next_createWorkflow, hview]
    · have hother : ∀ principal id body, a ≠ .createWorkflow principal id body :=
        fun principal id body heq => ha ⟨principal, id, body, heq⟩
      rw [← next_redact env s a hother, ← next_redact env s' a hother, hview]
  cases halike with
  | same => exact same a
  | createWorkflow principal id hbody =>
      rw [next_createWorkflow, next_createWorkflow, hview, view_eq hbody]
  | @createRun principal workflowId input idempotencyKey credential credential' hcredential =>
      have hredacted : redactCredential credential = redactCredential credential' := hcredential
      rw [same, ← next_redact env s' _ (by rintro _ _ _ ⟨⟩),
        ← next_redact env s' _ (by rintro _ _ _ ⟨⟩)]
      simp only [Action.redact, ControlPlane.Request.redact, ControlPlane.CreateRun.redact,
        Option.map_some, hredacted]
  | worker index hreply =>
      rw [same]
      simp only [next]
      cases s'.workers[index]? with
      | none => rfl
      | some session =>
          simp only [Worker.step_outcome hreply]

namespace Reads

def System.redact (s : System) : System := { s with toState := s.toState.redact }

theorem step_redact (s : Shared) (session : Session) :
    step s.redact session = step s session := by
  obtain ⟨principal, request, pc⟩ := session
  cases pc <;> rfl

/-- The reading requests see nothing of what redaction removes. -/
theorem next_redact (env : Env) (s : System) (a : Action) (ha : ∀ action, a ≠ .system action) :
    next env s.redact a = (next env s a).map System.redact := by
  cases a with
  | system action => exact absurd rfl (ha action)
  | request principal request => rfl
  | read index =>
      have hsession : s.redact.reads[index]? = s.reads[index]? := rfl
      simp only [next, hsession]
      cases s.reads[index]? with
      | none => rfl
      | some session =>
          have hstep := step_redact s.toShared session
          rw [show s.toShared.redact = s.redact.toShared from rfl] at hstep
          simp only [hstep]
          cases step s.toShared session <;> rfl
  | readError index =>
      have hsession : s.redact.reads[index]? = s.reads[index]? := rfl
      simp only [next, hsession]
      cases s.reads[index]? with
      | none => rfl
      | some session =>
          simp only
          split <;> rfl

theorem independent_redact (env : Env) :
    Independent (next env) System.redact (Action.Alike env .redacted) := by
  intro s s' a a' hview halike
  have hstate : s.toState.redact = s'.toState.redact := congrArg System.toState hview
  have hreads : s.redact.reads = s'.redact.reads := congrArg System.reads hview
  by_cases ha : ∃ action, a = .system action
  · obtain ⟨action, rfl⟩ := ha
    cases a' with
    | system action' =>
        have hnext := DurableRuntime.independent_redact env s.toState s'.toState action action'
          hstate halike
        simp only [next]
        cases hs : DurableRuntime.next env s.toState action with
        | none =>
            rw [hs, Option.map_none, eq_comm, Option.map_eq_none_iff] at hnext
            rw [hnext]
        | some t =>
            rw [hs, Option.map_some, eq_comm, Option.map_eq_some_iff] at hnext
            obtain ⟨t', hs', hredact⟩ := hnext
            simp only [hs', Option.map_some, System.redact, hredact]
            exact congrArg (fun reads => some (⟨t.redact, reads⟩ : System)) hreads
    | _ => cases halike
  · have hother : ∀ action, a ≠ .system action := fun action heq => ha ⟨action, heq⟩
    have hsame : a = a' := by
      cases a with
      | system action => exact absurd rfl (hother action)
      | _ => exact halike
    rw [← hsame, ← next_redact env s a hother, ← next_redact env s' a hother, hview]

end Reads

theorem redactCredential_eq {credential credential' : JsString}
    (hreadable : Worker.credentialReadable credential = Worker.credentialReadable credential')
    (husable : credentialUsable credential = credentialUsable credential') :
    redactCredential credential = redactCredential credential' := by
  unfold redactCredential
  rw [hreadable]
  split
  · rename_i hread
    simp only [credentialUsable, hreadable, hread, Bool.true_and] at husable
    rw [redactSent, redactSent, husable]
  · rfl

theorem Alike.redacted {env : Env} {a a' : Action} (h : Alike env .exchangeable a a') :
    Alike env .redacted a a' := by
  cases h with
  | same => exact .same _
  | createWorkflow principal id h => exact .createWorkflow principal id h
  | createRun principal workflowId input idempotencyKey h =>
      exact .createRun principal workflowId input idempotencyKey (redactCredential_eq h.2.1 h.2.2)
  | worker index h => exact .worker index h

theorem Reads.Action.Alike.redacted {env : Env} {a a' : Reads.Action}
    (h : a.Alike env .exchangeable a') : a.Alike env .redacted a' := by
  cases a with
  | system action =>
      cases a' with
      | system action' => exact DurableRuntime.Alike.redacted h
      | _ => exact h
  | _ => cases a' <;> exact h

theorem ControlPlane.response?_redact (session : ControlPlane.Session) :
    session.redact.response? = session.response? := by
  obtain ⟨principal, request, handle, pc⟩ := session
  cases pc <;> rfl

/-- Redaction removes no evidence. -/
theorem sameEvidence_of_redact {s s' : Reads.System} (h : s.redact = s'.redact) :
    SameEvidence s s' := by
  have hdb : s.redact.db = s'.redact.db := by rw [h]
  have hcalls : s.redact.calls = s'.redact.calls := by rw [h]
  have hreads : s.redact.reads = s'.redact.reads := by rw [h]
  have answers : ∀ s : Reads.System, s.redact.calls.map ControlPlane.Session.response? =
      s.calls.map ControlPlane.Session.response? := by
    intro s
    change (s.calls.map ControlPlane.Session.redact).map _ = _
    rw [List.map_map]
    exact List.map_congr_left fun session _ => ControlPlane.response?_redact session
  exact
    { events := (congrArg Db.events hdb).symm
      stepResults := (congrArg Db.stepResults hdb).symm
      effects := (congrArg Db.effects hdb).symm
      outbox := (congrArg Db.outbox hdb).symm
      audits := (congrArg Db.audits hdb).symm
      runs := (congrArg Db.runs hdb).symm
      responses := by rw [← answers s, ← answers s', hcalls]
      reads := congrArg (List.map Reads.Session.response?) hreads.symm }

theorem evidenceIndependent (env : Env) {start : Reads.System}
    {h h' : History Reads.System Reads.Action} {s s' : Reads.System}
    (run : Exec (fun s => s = start) (Reads.next env) h s)
    (run' : Exec (fun s => s = start) (Reads.next env) h' s')
    (halike : List.Forall₂ (fun p p' => p.2.Alike env .exchangeable p'.2) h h') :
    SameEvidence s s' := by
  have hview := Independent.view_eq (Reads.independent_redact env) rfl run run'
    (halike.imp fun _ _ h => h.redacted)
  exact sameEvidence_of_redact hview

/-! ## Executions -/

theorem Reads.Action.Alike.refl (env : Env) (hidden : Hidden) (a : Reads.Action) :
    a.Alike env hidden a := by
  cases a with
  | system action => exact .same action
  | _ => rfl

/-- Create a run, claim it, and receive the credential of its model step. -/
def beforeCall : List DurableRuntime.Action :=
  .call 0 9 :: List.replicate 11 (.call 0 Scenario.runId) ++ Scenario.publishActions 0 ++
    Scenario.claimActions 0 0 ++ Scenario.workerActions 0 2 ++ [.worker 0 (.consume .answered)]

def promptedWorkflow (prompt : String) : Json :=
  Scenario.workflow [.obj [("kind", .str "model"), ("provider", .str "openai_compatible"),
    ("promptTemplate", .str prompt)]]

/-- A run of one model step, up to the receipt of its credential. -/
def promptedRun (credential : JsString) (prompt : String) : List Reads.Action :=
  .system (.createWorkflow Scenario.owner Scenario.workflowId (promptedWorkflow prompt)) ::
    .system (.request Scenario.owner (.createRun
      ⟨Scenario.workflowId, .obj [], some credential, "idempotency-key-1"⟩)) ::
    beforeCall.map .system

theorem promptedRun_alike {env : Env} {hidden : Hidden} {credential credential' : JsString}
    {prompt prompt' : String} (hcredential : hidden.credentials credential credential')
    (hprompt : Option.Rel hidden.definitions (workflowDefinitionSchema (promptedWorkflow prompt))
      (workflowDefinitionSchema (promptedWorkflow prompt'))) :
    List.Forall₂ (Reads.Action.Alike env hidden) (promptedRun credential prompt)
      (promptedRun credential' prompt') :=
  .cons (.createWorkflow _ _ hprompt) (.cons (.createRun _ _ _ _ hcredential)
    (List.forall₂_same.mpr fun a _ => .refl env hidden a))

/-- The call of the provider, the record of the step, then a read of the run. -/
def callAndRead (reply : Worker.ProviderReply) : List Reads.Action :=
  .system (.worker 0 (.provider reply)) ::
    ((Scenario.workerActions 0 2).map .system ++
      .request Scenario.owner (.readRun Scenario.runId.text) :: List.replicate 3 (.read 0))

theorem callAndRead_alike {env : Env} {hidden : Hidden} {reply reply' : Worker.ProviderReply}
    (hreply : Worker.callOpenAICompatible env reply = Worker.callOpenAICompatible env reply') :
    List.Forall₂ (Reads.Action.Alike env hidden) (callAndRead reply) (callAndRead reply') :=
  .cons (.worker 0 (congrArg Worker.Reply.Outcome.provider hreply))
    (List.forall₂_same.mpr fun a _ => .refl env hidden a)

/-- The system before the first request. -/
def beforeRequests : Reads.System := ⟨Scenario.start 5, []⟩

theorem exists_runBefore (env : Env) (actions : List Reads.Action) (test : Reads.System → Bool)
    (h : (replay (Reads.next env) beforeRequests actions).any (fun p => test p.2) = true) :
    ∃ h t, Exec (fun s => s = beforeRequests) (Reads.next env) h t ∧
      h.map Prod.snd = actions ∧ test t = true :=
  @actions_of_replay _ _ (fun s => s = beforeRequests) _ _ rfl _ _ h

theorem alike_of_actions {env : Env} {hidden : Hidden} {h h' : History Reads.System Reads.Action}
    (halike : List.Forall₂ (Reads.Action.Alike env hidden) (h.map Prod.snd) (h'.map Prod.snd)) :
    List.Forall₂ (fun p p' => p.2.Alike env hidden p'.2) h h' := by
  rwa [List.forall₂_map_left_iff, List.forall₂_map_right_iff] at halike

def repeated (n : Nat) (c : Char) : JsString := List.replicate n (.scalar c)

theorem rel_of_all {R : WorkflowDefinition → WorkflowDefinition → Prop}
    {body body' : Option WorkflowDefinition} (hsome : body.isSome = body'.isSome)
    (hall : ∀ workflow ∈ body, ∀ workflow' ∈ body', R workflow workflow') :
    Option.Rel R body body' := by
  cases body with
  | none =>
      cases body' with
      | none => exact .none
      | some workflow' => cases hsome
  | some workflow =>
      obtain ⟨workflow', rfl⟩ := Option.isSome_iff_exists.mp hsome.symm
      exact .some (hall workflow rfl workflow' rfl)

theorem rel_self {R : WorkflowDefinition → WorkflowDefinition → Prop}
    (hself : ∀ workflow, R workflow workflow) (body : Option WorkflowDefinition) :
    Option.Rel R body body := by
  cases body with
  | none => exact .none
  | some workflow => exact .some (hself workflow)

instance (workflow workflow' : WorkflowDefinition) :
    Decidable (Hidden.exchangeable.definitions workflow workflow') :=
  inferInstanceAs (Decidable (workflow.redact = workflow'.redact ∧ _ = _))

theorem otherSecrets_sameEvidence : ∃ h h' s s',
    Exec (fun s => s = beforeRequests) (Reads.next providerEnv) h s ∧
      Exec (fun s => s = beforeRequests) (Reads.next providerEnv) h' s' ∧
      s.db.stepResults.length = 1 ∧ SameEvidence s s' := by
  obtain ⟨h, s, run, hactions, htest⟩ := exists_runBefore providerEnv
    (promptedRun (repeated 20 'a') "Summarize" ++ callAndRead (.response 200 (some [])))
    (fun t => t.db.stepResults.length = 1) (by decide +kernel)
  obtain ⟨h', s', run', hactions', -⟩ := exists_runBefore providerEnv
    (promptedRun (repeated 24 'b') "Translate" ++ callAndRead (.response 201 (some [1])))
    (fun t => t.db.stepResults.length = 1) (by decide +kernel)
  refine ⟨h, h', s, s', run, run', of_decide_eq_true htest, ?_⟩
  refine evidenceIndependent providerEnv run run' (alike_of_actions ?_)
  rw [hactions, hactions']
  refine List.rel_append (promptedRun_alike ?_ ?_) (callAndRead_alike ?_)
  · exact ⟨⟨by decide +kernel, by decide +kernel⟩, by decide +kernel, by decide +kernel⟩
  · exact rel_of_all (by decide +kernel) (by decide +kernel)
  · decide +kernel

/-! ## A credential that the worker cannot read in full -/

theorem length16_repeated (n : Nat) {c : Char} (h : c.toNat < 0x10000) :
    (repeated n c).length16 = n := by
  simp [JsString.length16, repeated, CodePoint.units, h]

theorem credentialReadable_repeated (n : Nat) (c : Char) :
    Worker.credentialReadable (repeated (n + 1) c) =
      decide ((n + 1) * jsonCharSize c + 17 ≤ 2048) := by
  simp [Worker.credentialReadable, jsonStringSize, repeated]

theorem acceptedCredential_repeated {c : Char} (h : c.toNat < 0x10000) :
    AcceptedCredential (repeated 512 c) := by
  rw [AcceptedCredential, length16_repeated 512 h]
  decide

/-- Two moves more: the call of a provider that answers and its record, if it is called. -/
def recordIfCalled : List Reads.Action :=
  [.system (.worker 0 (.provider (.response 200 (some [])))), .system (.worker 0 .none)]

/-- A run with any credential writes the results that one with its stand-in writes. -/
theorem exists_recordIfCalled {standIn : JsString} (credential : JsString) (count : Nat)
    (h : redactCredential standIn = redactCredential credential)
    (hrun : (replay (Reads.next providerEnv) beforeRequests
      (promptedRun standIn "Summarize" ++ recordIfCalled)).any
        (fun p => p.2.db.stepResults.length = count) = true) :
    ∃ h s, Exec (fun s => s = beforeRequests) (Reads.next providerEnv) h s ∧
      h.map Prod.snd = promptedRun credential "Summarize" ++ recordIfCalled ∧
        s.db.stepResults.length = count := by
  obtain ⟨h₀, s₀, run₀, hactions₀, htest⟩ :=
    exists_runBefore providerEnv _ (fun t => t.db.stepResults.length = count) hrun
  have halike : List.Forall₂ (Reads.Action.Alike providerEnv .redacted) (h₀.map Prod.snd)
      (promptedRun credential "Summarize" ++ recordIfCalled) := by
    rw [hactions₀]
    refine List.rel_append (promptedRun_alike h ?_)
      (List.forall₂_same.mpr fun a _ => .refl providerEnv .redacted a)
    exact rel_self (fun _ => ⟨rfl, rfl⟩) _
  obtain ⟨h, s, run, hactions, hview⟩ :=
    (Reads.independent_redact providerEnv).exists_run rfl run₀ halike
  have hresults : s.db.stepResults = s₀.db.stepResults := (sameEvidence_of_redact hview).stepResults
  exact ⟨h, s, run, hactions, hresults ▸ of_decide_eq_true htest⟩

/--
Of 512 letters and 512 control characters, which are six times as long in the
reply, the worker can read the letters only: one run gets a step result.
-/
theorem not_evidenceIndependent :
    ¬ ∀ (env : Env) (start : Reads.System) (h h' : History Reads.System Reads.Action)
        (s s' : Reads.System),
      Exec (fun s => s = start) (Reads.next env) h s →
        Exec (fun s => s = start) (Reads.next env) h' s' →
          List.Forall₂ (fun p p' => p.2.Alike env .any p'.2) h h' → SameEvidence s s' := by
  intro hindependent
  have hletters : redactCredential (repeated 20 'a') = redactCredential (repeated 512 'a') :=
    redactCredential_eq (by rw [credentialReadable_repeated 511]; decide +kernel)
      (by decide +kernel)
  have hcontrols : redactCredential [] = redactCredential (repeated 512 '\x01') :=
    redactCredential_eq (by rw [credentialReadable_repeated 511]; decide +kernel)
      (by rw [credentialUsable, credentialUsable, credentialReadable_repeated 511]; decide +kernel)
  obtain ⟨h, s, run, hactions, hresults⟩ :=
    exists_recordIfCalled (repeated 512 'a') 1 hletters (by decide +kernel)
  obtain ⟨h', s', run', hactions', hresults'⟩ :=
    exists_recordIfCalled (repeated 512 '\x01') 0 hcontrols (by decide +kernel)
  have hsame := hindependent providerEnv beforeRequests h h' s s' run run' (alike_of_actions ?_)
  · rw [hsame.stepResults, hresults] at hresults'
    cases hresults'
  · rw [hactions, hactions']
    refine List.rel_append (promptedRun_alike ?_ ?_)
      (List.forall₂_same.mpr fun a _ => .refl providerEnv .any a)
    · exact ⟨acceptedCredential_repeated (by decide), acceptedCredential_repeated (by decide)⟩
    · refine rel_self ?_ _
      intro workflow
      exact rfl

end DurableRuntime
