import DurableRuntime.Contracts

/-!
# Decoding on the worker's side

The Go structs `workflowDefinition` and `step` as `encoding/json` fills them:
members are matched to fields without regard to case, `null` leaves a field as
it is, and a value of the wrong type fails the whole decoding.
-/

namespace DurableRuntime.Worker

structure Definition where
  schemaVersion : String
  allowedHosts : List String
  steps : List Json

structure Step where
  kind : String
  provider : String
  promptTemplate : String
  operation : String
  tool : String
  deriving DecidableEq

/-- `foldRune`: besides the ASCII letters only two characters fold to one of them. -/
def foldChar (c : Char) : Char :=
  if c.toNat = 0x17F then 'S' else if c.toNat = 0x212A then 'K' else c.toUpper

def foldName (name : String) : List Char := name.toList.map foldChar

/-- Decode the members named like a field, in order, starting from the zero value. -/
def unmarshalField {β : Type} (name : String) (zero : β) (decode : β → Json → Option β)
    (members : List (String × Json)) : Option β :=
  members.foldlM
    (fun value member =>
      if foldName member.1 = foldName name then decode value member.2 else some value)
    zero

def decodeString (value : String) : Json → Option String
  | .str s => some s
  | .null => some value
  | _ => none

def decodeStrings (_ : List String) : Json → Option (List String)
  | .arr items => items.mapM (decodeString "")
  | .null => some []
  | _ => none

def decodeRaw (_ : List Json) : Json → Option (List Json)
  | .arr items => some items
  | .null => some []
  | _ => none

def unmarshalStep : Json → Option Step
  | .obj members => do
      let kind ← unmarshalField "kind" "" decodeString members
      let provider ← unmarshalField "provider" "" decodeString members
      let promptTemplate ← unmarshalField "promptTemplate" "" decodeString members
      let operation ← unmarshalField "operation" "" decodeString members
      let tool ← unmarshalField "tool" "" decodeString members
      some { kind, provider, promptTemplate, operation, tool }
  | .null => some ⟨"", "", "", "", ""⟩
  | _ => none

def unmarshalDefinition : Json → Option Definition
  | .obj members => do
      let schemaVersion ← unmarshalField "schemaVersion" "" decodeString members
      let allowedHosts ← unmarshalField "allowedHosts" [] decodeStrings members
      let steps ← unmarshalField "steps" [] decodeRaw members
      some { schemaVersion, allowedHosts, steps }
  | .null => some ⟨"", [], []⟩
  | _ => none

/-- Decode `input` into a `map[string]any`. -/
def unmarshalInput : Json → Option (List (String × Json))
  | .obj members => some members
  | .null => some []
  | _ => none

/-! ## What the worker sees of an accepted definition -/

/-- The Go struct that one step of the schema decodes to. -/
def stepOf : WorkflowStep → Step
  | .model provider promptTemplate =>
      { kind := "model", provider := provider.text, promptTemplate, operation := "", tool := "" }
  | .transform operation _ =>
      { kind := "transform", provider := "", promptTemplate := "",
        operation := operation.text, tool := "" }
  | .tool name _ =>
      { kind := "tool", provider := "", promptTemplate := "", operation := "", tool := name.text }
  | .approval _ =>
      { kind := "approval", provider := "", promptTemplate := "", operation := "", tool := "" }

/-- The member names that the control plane writes. -/
def wireNames : List String :=
  ["kind", "provider", "promptTemplate", "operation", "tool", "input", "sideEffect", "reason",
    "schemaVersion", "name", "version", "steps", "budgetCents", "allowedHosts"]

/-- Folding confuses no two names that the control plane writes. -/
theorem foldName_eq_iff {a b : String} (ha : a ∈ wireNames) (hb : b ∈ wireNames) :
    foldName a = foldName b ↔ a = b := by
  revert ha hb
  have all : ∀ a ∈ wireNames, ∀ b ∈ wireNames, foldName a = foldName b ↔ a = b := by
    decide +kernel
  exact fun ha hb => all a ha b hb

theorem unmarshalField_nil {β : Type} (name : String) (zero : β)
    (decode : β → Json → Option β) : unmarshalField name zero decode [] = some zero :=
  rfl

theorem unmarshalField_cons {β : Type} {name other : String} (hname : name ∈ wireNames)
    (hother : other ∈ wireNames) (zero : β) (decode : β → Json → Option β) (json : Json)
    (members : List (String × Json)) :
    unmarshalField name zero decode ((other, json) :: members) =
      if other = name then
        (decode zero json).bind fun value => unmarshalField name value decode members
      else unmarshalField name zero decode members := by
  unfold unmarshalField
  rw [List.foldlM_cons]
  simp only [foldName_eq_iff hother hname]
  split <;> rfl

theorem unmarshalStep_toJson (step : WorkflowStep) :
    unmarshalStep step.toJson = some (stepOf step) := by
  cases step <;>
    simp (disch := decide) [WorkflowStep.toJson, unmarshalStep, stepOf, unmarshalField_cons,
      unmarshalField_nil, decodeString]

theorem mapM_decodeString (hosts : List String) :
    (hosts.map Json.str).mapM (decodeString "") = some hosts := by
  induction hosts with
  | nil => rfl
  | cons host hosts ih =>
      rw [List.map_cons, List.mapM_cons, ih]
      rfl

/-- A stored definition decodes to its own version, hosts and steps. -/
theorem unmarshalDefinition_toJson (workflow : WorkflowDefinition) :
    unmarshalDefinition workflow.toJson =
      some ⟨workflow.schemaVersion, workflow.allowedHosts,
        workflow.steps.map WorkflowStep.toJson⟩ := by
  have hhosts : decodeStrings [] (.arr (workflow.allowedHosts.map Json.str)) =
      some workflow.allowedHosts := mapM_decodeString _
  simp (disch := decide) [WorkflowDefinition.toJson, unmarshalDefinition, unmarshalField_cons,
    unmarshalField_nil, hhosts, decodeString, decodeRaw]

end DurableRuntime.Worker
