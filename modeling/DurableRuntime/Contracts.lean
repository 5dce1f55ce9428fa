import DurableRuntime.Json

/-!
# Shared contracts

The run state machine and the workflow language of `packages/contracts`: the
states with their allowed transitions, the event types, and the schema that a
workflow definition has to pass before it is stored.
-/

namespace DurableRuntime

/-! ## Run states -/

inductive RunState where
  | queued
  | leased
  | running
  | awaitingApproval
  | succeeded
  | failed
  | cancelled
  | uncertain
  deriving DecidableEq, Repr

namespace RunState

def text : RunState → String
  | queued => "queued"
  | leased => "leased"
  | running => "running"
  | awaitingApproval => "awaiting_approval"
  | succeeded => "succeeded"
  | failed => "failed"
  | cancelled => "cancelled"
  | uncertain => "uncertain"

/-- The states the active quota counts. -/
def isActive : RunState → Bool
  | queued | leased | running | awaitingApproval => true
  | _ => false

/-- A worker owes the run further work: `queued`, `leased` or `running`. -/
def isPending : RunState → Bool
  | queued | leased | running => true
  | _ => false

def isTerminal : RunState → Bool
  | succeeded | failed | cancelled | uncertain => true
  | _ => false

theorem isTerminal_of_isPending {state : RunState} (h : state.isPending = true) :
    state.isTerminal = false := by
  cases state <;> first | rfl | cases h

end RunState

def allowedTransitions : RunState → List RunState
  | .queued => [.leased, .cancelled]
  | .leased => [.running, .queued, .failed, .uncertain, .cancelled]
  | .running => [.awaitingApproval, .succeeded, .failed, .uncertain, .cancelled]
  | .awaitingApproval => [.queued, .cancelled]
  | .succeeded => []
  | .failed => []
  | .cancelled => []
  | .uncertain => []

def assertTransition (source target : RunState) : Except String Unit :=
  if target ∈ allowedTransitions source then .ok ()
  else .error ("Invalid run transition: " ++ source.text ++ " -> " ++ target.text)

@[simp] theorem assertTransition_ok {source target : RunState} :
    assertTransition source target = .ok () ↔ target ∈ allowedTransitions source := by
  unfold assertTransition
  split <;> simp_all

/-- The states without a way out are exactly the terminal ones. -/
theorem allowedTransitions_eq_nil (state : RunState) :
    allowedTransitions state = [] ↔ state.isTerminal = true := by
  cases state <;> decide

inductive EventType where
  | created
  | leased
  | started
  | approvalRequested
  | approved
  | cancelled
  | succeeded
  | failed
  | uncertain
  deriving DecidableEq, Repr

namespace EventType

def text : EventType → String
  | created => "created"
  | leased => "leased"
  | started => "started"
  | approvalRequested => "approval_requested"
  | approved => "approved"
  | cancelled => "cancelled"
  | succeeded => "succeeded"
  | failed => "failed"
  | uncertain => "uncertain"

end EventType

/-! ## The workflow language -/

inductive ModelProvider where
  | mock
  | openaiCompatible
  deriving DecidableEq, Repr

inductive TransformOperation where
  | extractJson
  | template
  deriving DecidableEq, Repr

inductive Tool where
  | allowlistedHttpFetch
  | mockTicketWrite
  | mockDataRead
  deriving DecidableEq, Repr

def ModelProvider.text : ModelProvider → String
  | mock => "mock"
  | openaiCompatible => "openai_compatible"

def TransformOperation.text : TransformOperation → String
  | extractJson => "extract_json"
  | template => "template"

def Tool.text : Tool → String
  | allowlistedHttpFetch => "allowlisted_http_fetch"
  | mockTicketWrite => "mock_ticket_write"
  | mockDataRead => "mock_data_read"

inductive WorkflowStep where
  | model (provider : ModelProvider) (promptTemplate : String)
  | transform (operation : TransformOperation) (input : String)
  | tool (tool : Tool) (sideEffect : Bool)
  | approval (reason : String)
  deriving DecidableEq, Repr

structure WorkflowDefinition where
  schemaVersion : String
  name : String
  version : String
  steps : List WorkflowStep
  budgetCents : Nat
  allowedHosts : List String
  deriving DecidableEq, Repr

structure Issue where
  message : String
  stepIndex : Nat
  deriving DecidableEq, Repr

/-- The refinement over all steps: the issues it adds, each with its path `steps.index`. -/
def superRefine (workflow : WorkflowDefinition) : List Issue :=
  (List.range workflow.steps.length).filterMap fun index =>
    match workflow.steps[index]? with
    | some (.tool _ true) =>
        match index with
        | 0 => some (sideEffectIssue 0)
        | before + 1 =>
            match workflow.steps[before]? with
            | some (.approval _) => none
            | _ => some (sideEffectIssue (before + 1))
    | _ => none
where
  sideEffectIssue (index : Nat) : Issue :=
    ⟨"A side-effecting tool must immediately follow an approval step", index⟩

def parseString (least most : Nat) : Json → Option String
  | .str s => if least ≤ utf16Length s ∧ utf16Length s ≤ most then some s else none
  | _ => none

def parseProvider : Json → Option ModelProvider
  | .str "mock" => some .mock
  | .str "openai_compatible" => some .openaiCompatible
  | _ => none

def parseOperation : Json → Option TransformOperation
  | .str "extract_json" => some .extractJson
  | .str "template" => some .template
  | _ => none

def parseTool : Json → Option Tool
  | .str "allowlisted_http_fetch" => some .allowlistedHttpFetch
  | .str "mock_ticket_write" => some .mockTicketWrite
  | .str "mock_data_read" => some .mockDataRead
  | _ => none

/-- `z.boolean().default(false)`: only an absent property takes the default. -/
def parseSideEffect : Option Json → Option Bool
  | none => some false
  | some (.bool value) => some value
  | some _ => none

def workflowStepSchema : Json → Option WorkflowStep
  | .obj members =>
      match Json.member? "kind" members with
      | some (.str "model") => do
          let provider ← (Json.member? "provider" members).bind parseProvider
          let promptTemplate ←
            (Json.member? "promptTemplate" members).bind (parseString 1 20000)
          some (.model provider promptTemplate)
      | some (.str "transform") => do
          let operation ← (Json.member? "operation" members).bind parseOperation
          let input ← (Json.member? "input" members).bind (parseString 1 4000)
          some (.transform operation input)
      | some (.str "tool") => do
          let tool ← (Json.member? "tool" members).bind parseTool
          let sideEffect ← parseSideEffect (Json.member? "sideEffect" members)
          some (.tool tool sideEffect)
      | some (.str "approval") => do
          let reason ← (Json.member? "reason" members).bind (parseString 1 500)
          some (.approval reason)
      | _ => none
  | _ => none

def isNameChar (c : Char) : Bool :=
  ('a' ≤ c && c ≤ 'z') || ('0' ≤ c && c ≤ '9') || c == '-'

/-- The pattern `^v\d+$`. -/
def isVersion (version : String) : Bool :=
  match version.toList with
  | 'v' :: digits => !digits.isEmpty && digits.all fun c => '0' ≤ c && c ≤ '9'
  | _ => false

def parseName (json : Json) : Option String := do
  let name ← parseString 3 80 json
  if name.toList.all isNameChar then some name else none

def parseVersion : Json → Option String
  | .str version => if isVersion version then some version else none
  | _ => none

def parseSchemaVersion : Option Json → Option String
  | none => some "1"
  | some (.str "1") => some "1"
  | some _ => none

def parseSteps : Json → Option (List WorkflowStep)
  | .arr items =>
      if 1 ≤ items.length ∧ items.length ≤ 20 then items.mapM workflowStepSchema else none
  | _ => none

def parseBudgetCents : Json → Option Nat
  | .num value =>
      if value.den = 1 ∧ 0 ≤ value.num ∧ value.num ≤ 100000 then some value.num.toNat else none
  | _ => none

/-- A host of the allowlist: `z.string().min(1)`. -/
def parseHost : Json → Option String
  | .str host => if 1 ≤ utf16Length host then some host else none
  | _ => none

def parseAllowedHosts : Option Json → Option (List String)
  | none => some []
  | some (.arr items) => if items.length ≤ 20 then items.mapM parseHost else none
  | some _ => none

def parseWorkflowDefinition : Json → Option WorkflowDefinition
  | .obj members => do
      let schemaVersion ← parseSchemaVersion (Json.member? "schemaVersion" members)
      let name ← (Json.member? "name" members).bind parseName
      let version ← (Json.member? "version" members).bind parseVersion
      let steps ← (Json.member? "steps" members).bind parseSteps
      let budgetCents ← (Json.member? "budgetCents" members).bind parseBudgetCents
      let allowedHosts ← parseAllowedHosts (Json.member? "allowedHosts" members)
      some { schemaVersion, name, version, steps, budgetCents, allowedHosts }
  | _ => none

def workflowDefinitionSchema (body : Json) : Option WorkflowDefinition := do
  let workflow ← parseWorkflowDefinition body
  if (superRefine workflow).isEmpty then some workflow else none

def Accepted (workflow : WorkflowDefinition) : Prop :=
  ∃ body, workflowDefinitionSchema body = some workflow

/-! ## Writing a definition back as JSON -/

def WorkflowStep.toJson : WorkflowStep → Json
  | .model provider promptTemplate =>
      .obj [("kind", .str "model"), ("provider", .str provider.text),
        ("promptTemplate", .str promptTemplate)]
  | .transform operation input =>
      .obj [("kind", .str "transform"), ("operation", .str operation.text),
        ("input", .str input)]
  | .tool name sideEffect =>
      .obj [("kind", .str "tool"), ("tool", .str name.text), ("sideEffect", .bool sideEffect)]
  | .approval reason =>
      .obj [("kind", .str "approval"), ("reason", .str reason)]

def WorkflowDefinition.toJson (workflow : WorkflowDefinition) : Json :=
  .obj [("schemaVersion", .str workflow.schemaVersion), ("name", .str workflow.name),
    ("version", .str workflow.version), ("steps", .arr (workflow.steps.map WorkflowStep.toJson)),
    ("budgetCents", .num workflow.budgetCents),
    ("allowedHosts", .arr (workflow.allowedHosts.map Json.str))]

/-- The schema's promise: a step declared side-effecting stands right after an approval. -/
theorem approval_before_sideEffect {workflow : WorkflowDefinition}
    (hrefine : superRefine workflow = []) {index : Nat} {tool : Tool}
    (hstep : workflow.steps[index]? = some (.tool tool true)) :
    ∃ before reason, index = before + 1 ∧
      workflow.steps[before]? = some (.approval reason) := by
  have hmem : index ∈ List.range workflow.steps.length := by
    rw [List.mem_range]
    exact (List.getElem?_eq_some_iff.mp hstep).1
  have hnone := List.filterMap_eq_nil_iff.mp hrefine index hmem
  simp only [hstep] at hnone
  cases index with
  | zero => simp at hnone
  | succ before =>
      refine ⟨before, ?_⟩
      cases hbefore : workflow.steps[before]? with
      | none => simp [hbefore] at hnone
      | some step =>
          cases step with
          | approval reason => exact ⟨reason, rfl, rfl⟩
          | _ => simp [hbefore] at hnone

theorem Accepted.refined {workflow : WorkflowDefinition} (h : Accepted workflow) :
    superRefine workflow = [] := by
  obtain ⟨body, h⟩ := h
  unfold workflowDefinitionSchema at h
  cases hparse : parseWorkflowDefinition body with
  | none => simp [hparse] at h
  | some parsed =>
      simp only [hparse, Option.bind_eq_bind, Option.bind_some] at h
      split at h
      · rename_i hempty
        cases h
        exact List.isEmpty_iff.mp hempty
      · cases h

theorem isVersion_parseVersion {json : Json} {version : String}
    (h : parseVersion json = some version) : isVersion version = true := by
  unfold parseVersion at h
  split at h
  · split at h
    · rename_i hversion
      cases h
      exact hversion
    · cases h
  · cases h

theorem Accepted.version {workflow : WorkflowDefinition} (h : Accepted workflow) :
    isVersion workflow.version = true := by
  obtain ⟨body, h⟩ := h
  simp only [workflowDefinitionSchema, Option.bind_eq_bind, Option.bind_eq_some_iff] at h
  obtain ⟨parsed, hparsed, h⟩ := h
  split at h
  · cases h
    unfold parseWorkflowDefinition at hparsed
    split at hparsed
    · simp only [Option.bind_eq_bind, Option.bind_eq_some_iff] at hparsed
      obtain ⟨_, -, _, -, version, ⟨json, -, hversion⟩, _, -, _, -, _, -, heq⟩ := hparsed
      cases heq
      exact isVersion_parseVersion hversion
    · cases hparsed
  · cases h

theorem Accepted.schemaVersion {workflow : WorkflowDefinition} (h : Accepted workflow) :
    workflow.schemaVersion = "1" := by
  obtain ⟨body, h⟩ := h
  simp only [workflowDefinitionSchema, Option.bind_eq_bind, Option.bind_eq_some_iff] at h
  obtain ⟨parsed, hparsed, h⟩ := h
  split at h
  · cases h
    unfold parseWorkflowDefinition at hparsed
    split at hparsed
    · simp only [Option.bind_eq_bind, Option.bind_eq_some_iff] at hparsed
      obtain ⟨version, hversion, name, -, version', -, steps, -, budget, -, hosts, -, heq⟩ :=
        hparsed
      cases heq
      unfold parseSchemaVersion at hversion
      split at hversion <;> cases hversion <;> rfl
    · cases hparsed
  · cases h

end DurableRuntime
