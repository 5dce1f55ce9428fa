import DurableRuntime.ControlPlane.Reads

/-!
# Redaction

The system without its secrets: the credentials of requests and of the broker
are replaced by stand-ins, and the prompt templates by nothing, wherever they
are stored, decoded or carried by a session.  Redaction commutes with every
function of the runtime.  Of a credential it keeps only whether the worker can
read it and send it on in a header, since that decides whether a provider is
called; and the text of a definition must be one that `jsonb` stores.
-/

namespace DurableRuntime

open DurableRuntime.Foundation

/-! ## Definitions and the decoded parts of them -/

namespace Worker

/-- Rewrite the members that are decoded into a field. -/
def redactMembers (name : String) (f : Json → Json) (members : List (String × Json)) :
    List (String × Json) :=
  members.map fun member =>
    if foldName member.1 = foldName name then (member.1, f member.2) else member

def redactString : Json → Json
  | .str _ => .str ""
  | json => json

def redactStep : Json → Json
  | .obj members => .obj (redactMembers "promptTemplate" redactString members)
  | json => json

def redactSteps : Json → Json
  | .arr items => .arr (items.map redactStep)
  | json => json

def redactDefinition : Json → Json
  | .obj members => .obj (redactMembers "steps" redactSteps members)
  | json => json

def Step.redact (current : Step) : Step := { current with promptTemplate := "" }

def Definition.redact (definition : Definition) : Definition :=
  { definition with steps := definition.steps.map redactStep }

theorem unmarshalField_other {β : Type} {name other : String} {f : Json → Json} {zero : β}
    {decode : β → Json → Option β} (hne : foldName name ≠ foldName other)
    (members : List (String × Json)) :
    unmarshalField name zero decode (redactMembers other f members) =
      unmarshalField name zero decode members := by
  unfold unmarshalField redactMembers
  rw [List.foldlM_map]
  congr 1
  funext value member
  by_cases hother : foldName member.1 = foldName other
  · have hname : foldName member.1 ≠ foldName name := fun heq => hne (heq.symm.trans hother)
    simp only [hother, if_true, if_neg (hother ▸ hname)]
  · simp only [hother, if_false]

theorem unmarshalField_redact {β : Type} {name : String} {f : Json → Json} {g : β → β}
    {decode : β → Json → Option β}
    (hdecode : ∀ value json, decode (g value) (f json) = (decode value json).map g) (zero : β)
    (members : List (String × Json)) :
    unmarshalField name (g zero) decode (redactMembers name f members) =
      (unmarshalField name zero decode members).map g := by
  unfold unmarshalField redactMembers
  induction members generalizing zero with
  | nil => rfl
  | cons member members ih =>
      rw [List.map_cons, List.foldlM_cons, List.foldlM_cons]
      by_cases hname : foldName member.1 = foldName name
      · simp only [hname, if_true, hdecode]
        cases decode zero member.2 with
        | none => rfl
        | some value => exact ih value
      · simp only [hname, if_false]
        exact ih zero

theorem decodeString_redact (value : String) (json : Json) :
    decodeString ((fun _ => "") value) (redactString json) =
      (decodeString value json).map fun _ => "" := by
  cases json <;> rfl

theorem decodeRaw_redact (value : List Json) (json : Json) :
    decodeRaw (value.map redactStep) (redactSteps json) =
      (decodeRaw value json).map (List.map redactStep) := by
  cases json <;> rfl

theorem unmarshalStep_redact (json : Json) :
    unmarshalStep (redactStep json) = (unmarshalStep json).map Step.redact := by
  cases json with
  | obj members =>
      have hprompt := @unmarshalField_redact _ "promptTemplate" _ _ _ decodeString_redact ""
        members
      simp (disch := decide) only [redactStep, unmarshalStep, unmarshalField_other]
      rw [hprompt]
      cases unmarshalField "kind" "" decodeString members <;>
        cases unmarshalField "provider" "" decodeString members <;>
          cases unmarshalField "promptTemplate" "" decodeString members <;>
            cases unmarshalField "operation" "" decodeString members <;>
              cases unmarshalField "tool" "" decodeString members <;> rfl
  | _ => rfl

theorem unmarshalDefinition_redact (json : Json) :
    unmarshalDefinition (redactDefinition json) =
      (unmarshalDefinition json).map Definition.redact := by
  cases json with
  | obj members =>
      have hsteps := @unmarshalField_redact _ "steps" _ _ _ decodeRaw_redact [] members
      simp (disch := decide) only [redactDefinition, unmarshalDefinition, unmarshalField_other]
      rw [List.map_nil] at hsteps
      rw [hsteps]
      cases unmarshalField "schemaVersion" "" decodeString members <;>
        cases unmarshalField "allowedHosts" [] decodeStrings members <;>
          cases unmarshalField "steps" [] decodeRaw members <;> rfl
  | _ => rfl

end Worker

def WorkflowStep.redact : WorkflowStep → WorkflowStep
  | .model provider _ => .model provider ""
  | step => step

def WorkflowDefinition.redact (workflow : WorkflowDefinition) : WorkflowDefinition :=
  { workflow with steps := workflow.steps.map WorkflowStep.redact }

theorem WorkflowStep.toJson_redact (step : WorkflowStep) :
    Worker.redactStep step.toJson = step.redact.toJson := by
  cases step <;>
    simp (disch := decide) only [WorkflowStep.toJson, WorkflowStep.redact, Worker.redactStep,
      Worker.redactMembers, Worker.redactString, List.map_cons, List.map_nil,
      Worker.foldName_eq_iff] <;> rfl

theorem WorkflowDefinition.toJson_redact (workflow : WorkflowDefinition) :
    Worker.redactDefinition workflow.toJson = workflow.redact.toJson := by
  simp (disch := decide) only [WorkflowDefinition.toJson, WorkflowDefinition.redact,
    Worker.redactDefinition, Worker.redactMembers, Worker.redactSteps, List.map_cons,
    List.map_nil, Worker.foldName_eq_iff]
  simp [WorkflowStep.toJson_redact]

/-! ## The database and the broker -/

def DefinitionRow.redact (row : DefinitionRow) : DefinitionRow :=
  { row with definition := Worker.redactDefinition row.definition }

def Db.redact (db : Db) : Db := { db with definitions := db.definitions.map DefinitionRow.redact }

def Commit.redact : Commit → Commit
  | .createWorkflow row audit => .createWorkflow row.redact audit
  | change => change

/-- A credential that can be sent in a header, and one that cannot. -/
def redactSent (credential : String) : String :=
  if Worker.validHeaderFieldValue credential then "credential" else "\n"

/-- The stand-in of an unreadable credential is empty. -/
def redactCredential (credential : JsString) : JsString :=
  if Worker.credentialReadable credential then .ofString (redactSent credential.replaced) else []

def BrokerEntry.redact (entry : BrokerEntry) : BrokerEntry :=
  { entry with credential := redactCredential entry.credential }

def CredentialBroker.redact (broker : CredentialBroker) : CredentialBroker :=
  { broker with entries := broker.entries.map BrokerEntry.redact }

def Effect.redact : Effect → Effect
  | .commit change => .commit change.redact
  | .issue handle credential => .issue handle (redactCredential credential)
  | effect => effect

def Shared.redact (s : Shared) : Shared :=
  { s with db := s.db.redact, broker := s.broker.redact }

theorem credentialReadable_redact (credential : JsString) :
    Worker.credentialReadable (redactCredential credential) =
      Worker.credentialReadable credential := by
  unfold redactCredential redactSent
  split
  · rename_i hreadable
    rw [hreadable]
    split <;> decide +kernel
  · rename_i hunreadable
    rw [Bool.not_eq_true] at hunreadable
    rw [hunreadable]
    decide +kernel

theorem validHeaderFieldValue_redact (credential : String) :
    Worker.validHeaderFieldValue (redactSent credential) =
      Worker.validHeaderFieldValue credential := by
  unfold redactSent
  split
  · rename_i hvalid
    rw [hvalid]
    decide +kernel
  · rename_i hinvalid
    rw [Bool.not_eq_true] at hinvalid
    rw [hinvalid]
    decide +kernel

@[simp] theorem replaced_ofString (text : String) : (JsString.ofString text).replaced = text := by
  simp only [JsString.replaced, JsString.ofString, List.map_map]
  rw [show CodePoint.replaced ∘ CodePoint.scalar = id from rfl, List.map_id, String.ofList_toList]

theorem definition?_redact (db : Db) (id : Uuid) :
    db.redact.definition? id = (db.definition? id).map DefinitionRow.redact :=
  Table.lookup_map

theorem commit_redact (db : Db) (change : Commit) :
    (db.commit change).redact = db.redact.commit change.redact := by
  cases change with
  | createWorkflow row audit =>
      simp only [Db.commit, Db.redact, Commit.redact, List.map_append, List.map_singleton]
  | request writes =>
      obtain ⟨write, event, outbox, audit⟩ := writes
      cases write <;> rfl
  | _ => rfl

namespace CredentialBroker

theorem purge_redact (broker : CredentialBroker) (now : Int) :
    (broker.purge now).redact = broker.redact.purge now := by
  simp only [purge, redact, List.filter_map]
  rfl

theorem delete_redact (broker : CredentialBroker) (handle : Uuid) :
    (broker.delete handle).redact = broker.redact.delete handle := by
  simp only [delete, redact, List.filter_map]
  rfl

theorem get_redact (broker : CredentialBroker) (handle : Uuid) :
    broker.redact.get handle = (broker.get handle).map BrokerEntry.redact := by
  simp only [get, redact, List.find?_map]
  rfl

theorem issue_redact (broker : CredentialBroker) (now : Int) (handle : Uuid)
    (credential : JsString) :
    (broker.issue now handle credential).redact =
      broker.redact.issue now handle (redactCredential credential) := by
  simp only [issue, ← purge_redact, ← delete_redact]
  simp only [redact, List.map_append, List.map_singleton]
  rfl

theorem consume_redact (broker : CredentialBroker) (now : Int) (handle : Uuid) :
    broker.redact.consume now handle =
      ((broker.consume now handle).1.map redactCredential,
        (broker.consume now handle).2.redact) := by
  simp only [consume, ← purge_redact, ← delete_redact, get_redact, Option.map_map]
  rfl

end CredentialBroker

theorem apply_redact (s : Shared) (effect : Effect) :
    (s.apply effect).redact = s.redact.apply effect.redact := by
  cases effect with
  | commit change =>
      simp only [Shared.apply, Shared.redact, Effect.redact, commit_redact]
  | issue handle credential =>
      simp only [Shared.apply, Shared.redact, Effect.redact, CredentialBroker.issue_redact]
      rfl
  | consume handle =>
      simp only [Shared.apply, Shared.redact, Effect.redact, CredentialBroker.consume_redact]
      rfl
  | discard handle =>
      simp only [Shared.apply, Shared.redact, Effect.redact, CredentialBroker.discard,
        CredentialBroker.delete_redact]
  | _ => rfl

/-! ## The worker -/

namespace Worker

def LeasedRun.redact (run : LeasedRun) : LeasedRun :=
  { run with definition := run.definition.redact }

def Pc.redact : Pc → Pc
  | claimUpdate ref now row definition => claimUpdate ref now row definition.redact
  | claimEvents ref now row definition => claimEvents ref now row definition.redact
  | claimCommit now row events run => claimCommit now row events run.redact
  | execute run => execute run.redact
  | loop run index => loop run.redact index
  | consume run index handle _ => consume run.redact index handle ""
  | provider run index credential _ => provider run.redact index (redactSent credential) ""
  | fetch run index target => fetch run.redact index target
  | effect run index => effect run.redact index
  | record run index kind status safeLabel => record run.redact index kind status safeLabel
  | awaitApproval run index => awaitApproval run.redact index
  | heartbeat run index => heartbeat run.redact index
  | heartbeatUpdate run index now => heartbeatUpdate run.redact index now
  | terminate run state code after => terminate run.redact state code after
  | complete run => complete run.redact
  | event run eventType detail after => event run.redact eventType detail after
  | eventCommit run row after => eventCommit run.redact row after
  | pc => pc

def Session.redact (session : Session) : Session := { session with pc := session.pc.redact }

theorem executeProviderModel_redact (env : Env) (run : LeasedRun) (index : Nat) (current : Step) :
    executeProviderModel env run.redact index current.redact =
      (executeProviderModel env run index current).redact := by
  unfold executeProviderModel
  have hhandle : run.redact.credentialHandle = run.credentialHandle := rfl
  rw [hhandle]
  cases run.credentialHandle with
  | none => rfl
  | some handle =>
      simp only
      split <;> rfl

theorem executeTool_redact (env : Env) (run : LeasedRun) (index : Nat) (current : Step) :
    executeTool env run.redact index current.redact =
      (executeTool env run index current).redact := by
  unfold executeTool
  have hurl : inputUrl run.redact = inputUrl run := rfl
  have hhosts : run.redact.definition.allowedHosts = run.definition.allowedHosts := rfl
  simp only [Step.redact, hurl, hhosts]
  repeat' split
  all_goals rfl

theorem executeStep_redact (env : Env) (run : LeasedRun) (index : Nat) (current : Step) :
    executeStep env run.redact index current.redact =
      (executeStep env run index current).redact := by
  unfold executeStep
  simp only [executeProviderModel_redact, executeTool_redact, apply_ite Pc.redact]
  rfl

theorem loop_redact (env : Env) (run : LeasedRun) (index : Nat) :
    Worker.loop env run.redact index = (Worker.loop env run index).redact := by
  unfold Worker.loop
  simp only [LeasedRun.redact, Definition.redact, List.getElem?_map]
  cases run.definition.steps[index]? with
  | none => rfl
  | some raw =>
      simp only [Option.map_some, unmarshalStep_redact]
      cases unmarshalStep raw with
      | none => rfl
      | some current => exact executeStep_redact env run index current

theorem execute_redact (run : LeasedRun) :
    Worker.execute run.redact = (Worker.execute run).redact := by
  unfold Worker.execute
  simp only [apply_ite Pc.redact]
  rfl

theorem withCredential_redact (env : Env) (run : LeasedRun) (index : Nat) (prompt : String)
    (credential : Option String) :
    withCredential env run.redact index "" (credential.map redactSent) =
      (withCredential env run index prompt credential).redact := by
  unfold withCredential
  cases credential with
  | none => rfl
  | some credential =>
      simp only [Option.map_some, validHeaderFieldValue_redact]
      repeat' split
      all_goals rfl

theorem leasedRun_redact (ref : RunRef) (row : RunRow) (definition : DefinitionRow) :
    leasedRun ref row definition.redact =
      (leasedRun ref row definition).map LeasedRun.redact := by
  unfold leasedRun
  simp only [DefinitionRow.redact, unmarshalDefinition_redact]
  cases unmarshalDefinition definition.definition with
  | none => rfl
  | some workflow => cases unmarshalInput row.input <;> rfl

variable (env : Env) (s : Shared)

theorem claimable_redact (id : Uuid) (now : Int) :
    claimable s.redact id now =
      (claimable s id now).map fun found => (found.1, found.2.redact) := by
  unfold claimable
  have hrun : s.redact.db.run? id = s.db.run? id := rfl
  rw [hrun]
  cases s.db.run? id with
  | none => rfl
  | some row =>
      have hdefinition : s.redact.db.definition? row.workflowId =
          (s.db.definition? row.workflowId).map DefinitionRow.redact := definition?_redact _ _
      simp only [hdefinition]
      cases s.db.definition? row.workflowId with
      | none => rfl
      | some definition =>
          have hfree : s.redact.free (.run id) = s.free (.run id) := rfl
          simp only [Option.map_some, hfree]
          split <;> rfl

theorem consumeCredential_redact (handle : Uuid) (delivery : Delivery) :
    consumeCredential env s.redact handle delivery =
      ((consumeCredential env s handle delivery).1.map redactSent,
        (consumeCredential env s handle delivery).2.redact) := by
  cases delivery with
  | unreachable => rfl
  | replyLost =>
      simp only [consumeCredential]
      split <;> rfl
  | answered =>
      simp only [consumeCredential]
      split
      · rfl
      · have hread : (s.redact.broker.consume s.redact.dateNow handle).1 =
            ((s.broker.consume s.dateNow handle).1).map redactCredential :=
          congrArg Prod.fst (s.broker.consume_redact s.dateNow handle)
        rw [hread]
        cases (s.broker.consume s.dateNow handle).1 with
        | none => rfl
        | some credential =>
            simp only [Option.map_some, Option.filter_some, credentialReadable_redact]
            split
            · rename_i hreadable
              simp only [redactCredential, hreadable, if_true, Option.map_some, replaced_ofString]
              rfl
            · rfl

theorem step_redact (owner : String) (reply : Reply) (pc : Pc) :
    step env s.redact owner reply pc.redact =
      (step env s owner reply pc).map fun move => (move.1.redact, move.2.redact) := by
  cases pc with
  | received runId =>
      simp only [Pc.redact, step, process]
      repeat' split
      all_goals rfl
  | claimSelect ref now =>
      simp only [Pc.redact, step, claimable_redact]
      cases claimable s ref.id now <;> rfl
  | claimEvents ref now row definition =>
      simp only [Pc.redact, step, leasedRun_redact]
      cases leasedRun ref row definition <;> rfl
  | execute run =>
      simp only [Pc.redact, step, execute_redact]
      rfl
  | loop run index =>
      simp only [Pc.redact, step, loop_redact]
      rfl
  | consume run index handle prompt =>
      cases reply with
      | consume delivery =>
          simp only [Pc.redact, step, consumeCredential_redact]
          rw [withCredential_redact env run index prompt]
          rfl
      | _ => rfl
  | provider run index credential prompt =>
      cases reply with
      | provider reply =>
          simp only [Pc.redact, step]
          split <;> rfl
      | _ => rfl
  | fetch run index target =>
      cases reply with
      | fetch reply =>
          simp only [Pc.redact, step]
          cases fetchFailure env reply <;> rfl
      | _ => rfl
  | effect run index =>
      have hfree : s.redact.free (.run run.redact.ref.id) = s.free (.run run.ref.id) := rfl
      have heffect : s.redact.db.effect? run.redact.tenantId
          (effectKey run.redact.ref.text index) =
          s.db.effect? run.tenantId (effectKey run.ref.text index) := rfl
      simp only [Pc.redact, step, hfree, heffect]
      repeat' split
      all_goals rfl
  | record run index kind status safeLabel =>
      have hfree : s.redact.free (.run run.redact.ref.id) = s.free (.run run.ref.id) := rfl
      simp only [Pc.redact, step, hfree]
      split
      · cases status <;> rfl
      · rfl
  | eventCommit run row after =>
      have hfree : s.redact.free (.run run.redact.ref.id) = s.free (.run run.ref.id) := rfl
      simp only [Pc.redact, step, hfree]
      split
      · cases after <;> rfl
      · rfl
  | awaitApproval run index =>
      have hfree : s.redact.free (.run run.redact.ref.id) = s.free (.run run.ref.id) := rfl
      simp only [Pc.redact, step, hfree]
      split <;> rfl
  | heartbeatUpdate run index now =>
      have hfree : s.redact.free (.run run.redact.ref.id) = s.free (.run run.ref.id) := rfl
      simp only [Pc.redact, step, hfree]
      split <;> rfl
  | terminate run state code after =>
      rw [step_terminate]
      exact step_terminate env s.redact owner reply run.redact state code after
  | complete run =>
      have hfree : s.redact.free (.run run.redact.ref.id) = s.free (.run run.ref.id) := rfl
      simp only [Pc.redact, step, hfree]
      split <;> rfl
  | returned outcome => cases outcome <;> rfl
  | _ => rfl

theorem held_redact (pc : Pc) : pc.redact.held = pc.held := by
  cases pc <;> rfl

theorem mayFail_redact (pc : Pc) : pc.redact.mayFail = pc.mayFail := by
  cases pc <;> rfl

end Worker

/-! ## The control plane -/

namespace ControlPlane

def CreateRun.redact (create : CreateRun) : CreateRun :=
  { create with providerCredential := create.providerCredential.map redactCredential }

def Request.redact : Request → Request
  | createRun create => createRun create.redact
  | request => request

def Pc.redact : Pc → Pc
  | createBegin create => createBegin create.redact
  | createLookup create now => createLookup create.redact now
  | createLimits create now => createLimits create.redact now
  | createUsage create now limits => createUsage create.redact now limits
  | createWorkflow create now => createWorkflow create.redact now
  | createInsert create now budgetCents => createInsert create.redact now budgetCents
  | createRaced create => createRaced create.redact
  | pc => pc

def Session.redact (session : Session) : Session :=
  { session with request := session.request.redact, pc := session.pc.redact }

variable (env : Env) (s : Shared) (choice : Uuid) (session : Session)

theorem freshHandle_redact (handle : Uuid) :
    freshHandle s.redact handle = freshHandle s handle := by
  have hget : (s.redact.broker.get handle).isNone = (s.broker.get handle).isNone := by
    rw [show s.redact.broker = s.broker.redact from rfl, CredentialBroker.get_redact,
      Option.isNone_map]
  unfold freshHandle
  rw [hget]
  rfl

theorem startCreate_redact (create : CreateRun) (handle : Uuid) :
    startCreate s.redact session.redact create.redact handle =
      (startCreate s session create handle).map fun move => (move.1.redact, move.2.redact) := by
  unfold startCreate
  rw [freshHandle_redact]
  have hrole : session.redact.principal.role = session.principal.role := rfl
  have hkey : create.redact.idempotencyKey = create.idempotencyKey := rfl
  have hcredential : create.redact.providerCredential =
      create.providerCredential.map redactCredential := rfl
  rw [hrole, hkey, hcredential]
  split
  · rfl
  · split
    · rfl
    · cases create.providerCredential with
      | none => rfl
      | some credential =>
          simp only [Option.map_some]
          split <;> rfl

theorem insertRun_redact (tenantId : Uuid) (create : CreateRun) (handle : Option Uuid)
    (id : Uuid) (now : Int) (budgetCents : Nat) :
    insertRun env s.redact tenantId create.redact handle id now budgetCents =
      (insertRun env s tenantId create handle id now budgetCents).map Pc.redact := by
  unfold insertRun
  have hfree : s.redact.free (.runKey tenantId create.redact.idempotencyKey) =
      s.free (.runKey tenantId create.idempotencyKey) := rfl
  have hfound : s.redact.db.runByKey? tenantId create.redact.idempotencyKey =
      s.db.runByKey? tenantId create.idempotencyKey := rfl
  have hinsertable : insertable s.redact (newRun tenantId create.redact handle id now budgetCents) =
      insertable s (newRun tenantId create handle id now budgetCents) := rfl
  have hinput : create.redact.input = create.input := rfl
  simp only [hfree, hfound, hinsertable, hinput]
  repeat' split
  all_goals rfl

theorem lockRun_redact (tenantId : Uuid) (args : TransitionArgs) (runId : Uuid) (now : Int) :
    lockRun s.redact tenantId args runId now =
      (lockRun s tenantId args runId now).map Pc.redact := by
  unfold lockRun
  have hrow : runOfTenant? s.redact tenantId runId = runOfTenant? s tenantId runId := rfl
  have hfree : s.redact.free (.run runId) = s.free (.run runId) := rfl
  simp only [hrow, hfree]
  cases runOfTenant? s tenantId runId with
  | none => rfl
  | some row =>
      simp only
      repeat' split
      all_goals rfl

theorem startTransition_redact (role : Role) (runId : String) (args : TransitionArgs) :
    (startTransition role runId args).redact = startTransition role runId args := by
  unfold startTransition
  repeat' split
  all_goals rfl

theorem readRunCheck_redact (args : TransitionArgs) (runId : Uuid) (row : Option RunRow) :
    (readRunCheck args runId row).redact = readRunCheck args runId row := by
  unfold readRunCheck
  repeat' split
  all_goals rfl

theorem stepPc_redact (pc : Pc) :
    stepPc env s.redact choice session.redact pc.redact =
      (stepPc env s choice session pc).map fun move => (move.1.redact, move.2.redact) := by
  have hprincipal : session.redact.principal = session.principal := rfl
  cases pc with
  | route =>
      have hrequest : session.redact.request = session.request.redact := rfl
      rw [show Pc.route.redact = Pc.route from rfl]
      simp only [stepPc, hprincipal, hrequest]
      cases session.request with
      | createRun create => rfl
      | approve runId =>
          simp only [Request.redact, Option.map_some, startTransition_redact]
          rfl
      | cancel runId =>
          simp only [Request.redact, Option.map_some, startTransition_redact]
          rfl
  | createLookup create now =>
      have hfound : s.redact.db.runByKey? session.principal.tenantId
          create.redact.idempotencyKey =
          s.db.runByKey? session.principal.tenantId create.idempotencyKey := rfl
      simp only [Pc.redact, stepPc, hprincipal, hfound]
      cases s.db.runByKey? session.principal.tenantId create.idempotencyKey <;> rfl
  | createLimits create now =>
      have hfree : s.redact.free (.limits session.principal.tenantId) =
          s.free (.limits session.principal.tenantId) := rfl
      have hlimits : s.redact.db.limits? session.principal.tenantId =
          s.db.limits? session.principal.tenantId := rfl
      simp only [Pc.redact, stepPc, hprincipal, hfree, hlimits]
      split
      · cases s.db.limits? session.principal.tenantId <;> rfl
      · rfl
  | createUsage create now limits =>
      have hquota : quotaError env s.redact now limits session.principal.tenantId =
          quotaError env s now limits session.principal.tenantId := rfl
      simp only [Pc.redact, stepPc, hprincipal, hquota]
      cases quotaError env s now limits session.principal.tenantId <;> rfl
  | createWorkflow create now =>
      have hdefinition : s.redact.db.definition? create.redact.workflowId =
          (s.db.definition? create.workflowId).map DefinitionRow.redact := definition?_redact _ _
      simp only [Pc.redact, stepPc, hprincipal, hdefinition]
      cases s.db.definition? create.workflowId with
      | none => rfl
      | some definition =>
          have hsame : definition.redact.tenantId = definition.tenantId := rfl
          simp only [Option.map_some, Option.filter_some, hsame]
          by_cases htenant : definition.tenantId = session.principal.tenantId
          · simp only [htenant, decide_true, if_true]
            rfl
          · simp only [htenant, decide_false, Bool.false_eq_true, if_false]
            rfl
  | createInsert create now budgetCents =>
      have hhandle : session.redact.handle = session.handle := rfl
      simp only [Pc.redact, stepPc, hprincipal, hhandle, insertRun_redact]
      cases insertRun env s session.principal.tenantId create session.handle choice now
          budgetCents <;>
        rfl
  | createRaced create =>
      have hfound : s.redact.db.runByKey? session.principal.tenantId
          create.redact.idempotencyKey =
          s.db.runByKey? session.principal.tenantId create.idempotencyKey := rfl
      simp only [Pc.redact, stepPc, hprincipal, hfound]
      cases s.db.runByKey? session.principal.tenantId create.idempotencyKey <;> rfl
  | discard run =>
      have hhandle : session.redact.handle = session.handle := rfl
      simp only [Pc.redact, stepPc, hhandle]
      cases session.handle <;> rfl
  | readRun args runId =>
      have hrow : runOfTenant? s.redact session.principal.tenantId runId =
          runOfTenant? s session.principal.tenantId runId := rfl
      rw [show (Pc.readRun args runId).redact = Pc.readRun args runId from rfl]
      simp only [stepPc, hprincipal, hrow, Option.map_some, readRunCheck_redact]
      rfl
  | transitionLock args runId now =>
      simp only [Pc.redact, stepPc, hprincipal, lockRun_redact]
      cases lockRun s session.principal.tenantId args runId now <;> rfl
  | insertEvent now eventType detail writes =>
      simp only [Pc.redact, stepPc]
      split <;> rfl
  | queueOutbox now eventType writes =>
      simp only [Pc.redact, stepPc, hprincipal]
      split <;> rfl
  | _ => rfl

theorem step_of_not_creation
    (h : ∀ create, ¬(session.pc = .route ∧ session.request = .createRun create)) :
    step env s choice session =
      (stepPc env s choice session session.pc).map fun move =>
        ({ session with pc := move.1 }, move.2) := by
  unfold step
  split
  · rename_i create hpc hrequest
    exact absurd ⟨hpc, hrequest⟩ (h create)
  · cases stepPc env s choice session session.pc <;> rfl

theorem step_redact :
    step env s.redact choice session.redact =
      (step env s choice session).map fun move => (move.1.redact, move.2.redact) := by
  by_cases hcreation : ∃ create, session.pc = .route ∧ session.request = .createRun create
  · obtain ⟨create, hpc, hrequest⟩ := hcreation
    obtain ⟨principal, request, handle, pc⟩ := session
    subst hpc hrequest
    exact startCreate_redact s ⟨principal, .createRun create, handle, .route⟩ create choice
  · have hother := fun create hroute => hcreation ⟨create, hroute⟩
    have hother' : ∀ create,
        ¬(session.redact.pc = .route ∧ session.redact.request = .createRun create) := by
      obtain ⟨principal, request, handle, pc⟩ := session
      rintro create ⟨hpc, hrequest⟩
      cases pc <;> cases hpc
      cases request <;> cases hrequest
      exact hother _ ⟨rfl, rfl⟩
    rw [step_of_not_creation env s choice session hother,
      step_of_not_creation env s.redact choice session.redact hother',
      show session.redact.pc = session.pc.redact from rfl, stepPc_redact]
    cases stepPc env s choice session session.pc <;> rfl

theorem held_redact : session.redact.held = session.held := by
  obtain ⟨principal, request, handle, pc⟩ := session
  cases pc <;> rfl

theorem isStatement_redact (pc : Pc) : pc.redact.isStatement = pc.isStatement := by
  cases pc <;> rfl

end ControlPlane

/-! ## The system -/

def State.redact (s : State) : State :=
  { s with
    toShared := s.toShared.redact
    workers := s.workers.map Worker.Session.redact
    calls := s.calls.map ControlPlane.Session.redact }

def Action.redact : Action → Action
  | .request principal sent => .request principal sent.redact
  | action => action

theorem streamAfter_redact (stream : List Message) (clock : Int) (message : Nat)
    (effect : Effect) :
    streamAfter stream clock message effect.redact = streamAfter stream clock message effect := by
  cases effect <;> rfl

namespace State

variable (s : State)

theorem withShared_redact (holder : Holder) (held : List Resource) (effect : Effect)
    (message : Nat) :
    (s.withShared holder held effect message).redact =
      s.redact.withShared holder held effect.redact message := by
  unfold withShared
  rw [show s.redact.toShared = s.toShared.redact from rfl, ← apply_redact, streamAfter_redact]
  rfl

theorem moveWorker_redact (index : Nat) (session : Worker.Session) (pc : Worker.Pc)
    (effect : Effect) :
    (s.moveWorker index session pc effect).redact =
      s.redact.moveWorker index session.redact pc.redact effect.redact := by
  have hshared := s.withShared_redact (.worker index) pc.held effect session.message
  unfold moveWorker
  rw [Worker.held_redact, show session.redact.message = session.message from rfl, ← hshared]
  simp only [redact, List.map_set]
  rfl

theorem moveCall_redact (index : Nat) (session : ControlPlane.Session) (effect : Effect) :
    (s.moveCall index session effect).redact =
      s.redact.moveCall index session.redact effect.redact := by
  have hshared := s.withShared_redact (.call index) session.held effect 0
  unfold moveCall
  rw [ControlPlane.held_redact, ← hshared]
  simp only [redact, List.map_set]

theorem movePublisher_redact (index : Nat) (session : Outbox.Session) (pc : Outbox.Pc)
    (effect : Effect) :
    (s.movePublisher index session pc effect).redact =
      s.redact.movePublisher index session pc effect.redact := by
  have hshared := s.withShared_redact (.publisher index) pc.held effect 0
  unfold movePublisher
  rw [← hshared]
  rfl

end State

theorem outboxStep_redact {s : Shared} {limit : Nat} {reply : Outbox.Reply} {pc pc' : Outbox.Pc}
    {effect : Effect} (h : Outbox.step s limit reply pc = some (pc', effect)) :
    effect.redact = effect := by
  cases Outbox.step_move h <;> rfl

/-- Every action but the storing of a definition acts the same on what redaction leaves. -/
theorem next_redact (env : Env) (s : State) (a : Action)
    (ha : ∀ principal id body, a ≠ .createWorkflow principal id body) :
    next env s.redact a.redact = (next env s a).map State.redact := by
  cases a with
  | createWorkflow principal id body => exact absurd rfl (ha principal id body)
  | tick elapsed => rfl
  | request principal request =>
      simp only [next, Action.redact, Option.map_some, State.redact, List.map_append,
        List.map_singleton]
      rfl
  | call index choice =>
      have hsession : s.redact.calls[index]? =
          (s.calls[index]?).map ControlPlane.Session.redact := List.getElem?_map
      simp only [next, Action.redact, hsession]
      cases s.calls[index]? with
      | none => rfl
      | some session =>
          have hstep := ControlPlane.step_redact env s.toShared choice session
          rw [show s.toShared.redact = s.redact.toShared from rfl] at hstep
          simp only [Option.map_some, hstep]
          cases ControlPlane.step env s.toShared choice session with
          | none => rfl
          | some move => exact congrArg some (s.moveCall_redact index move.1 move.2).symm
  | callError index =>
      have hsession : s.redact.calls[index]? =
          (s.calls[index]?).map ControlPlane.Session.redact := List.getElem?_map
      simp only [next, Action.redact, hsession]
      cases s.calls[index]? with
      | none => rfl
      | some session =>
          have hstatement : session.redact.pc.isStatement = session.pc.isStatement :=
            ControlPlane.isStatement_redact session.pc
          simp only [Option.map_some, hstatement]
          split
          · exact congrArg some (s.moveCall_redact index
              { session with pc := .done databaseError } .none).symm
          · rfl
  | publishPending limit => rfl
  | publisher index reply =>
      have hsession : s.redact.publishers[index]? = s.publishers[index]? := rfl
      simp only [next, Action.redact, hsession]
      cases s.publishers[index]? with
      | none => rfl
      | some session =>
          have hsame : Outbox.step s.redact.toShared session.limit reply session.pc =
              Outbox.step s.toShared session.limit reply session.pc := by
            obtain ⟨limit, pc⟩ := session
            cases pc <;> rfl
          simp only [hsame]
          cases hstep : Outbox.step s.toShared session.limit reply session.pc with
          | none => rfl
          | some move =>
              have hmove := s.movePublisher_redact index session move.1 move.2
              rw [outboxStep_redact hstep] at hmove
              exact congrArg some hmove.symm
  | publisherError index =>
      have hsession : s.redact.publishers[index]? = s.publishers[index]? := rfl
      simp only [next, Action.redact, hsession]
      cases s.publishers[index]? with
      | none => rfl
      | some session =>
          simp only
          split
          · exact congrArg some (s.movePublisher_redact index session .failed .none).symm
          · rfl
  | deliver index workerId =>
      have hmessage : s.redact.stream[index]? = s.stream[index]? := rfl
      simp only [next, Action.redact, hmessage]
      cases s.stream[index]? with
      | none => rfl
      | some message =>
          have hclock : s.redact.clock = s.clock := rfl
          simp only [hclock]
          split
          · simp only [Option.map_some, State.redact, List.map_append, List.map_singleton]
            rfl
          · rfl
  | worker index reply =>
      have hsession : s.redact.workers[index]? =
          (s.workers[index]?).map Worker.Session.redact := List.getElem?_map
      simp only [next, Action.redact, hsession]
      cases s.workers[index]? with
      | none => rfl
      | some session =>
          have hstep := Worker.step_redact env s.toShared session.id reply session.pc
          rw [show s.toShared.redact = s.redact.toShared from rfl,
            show session.pc.redact = session.redact.pc from rfl,
            show session.id = session.redact.id from rfl] at hstep
          simp only [Option.map_some, hstep]
          rw [show session.redact.id = session.id from rfl]
          cases Worker.step env s.toShared session.id reply session.pc with
          | none => rfl
          | some move => exact congrArg some (s.moveWorker_redact index session move.1 move.2).symm
  | workerError index =>
      have hsession : s.redact.workers[index]? =
          (s.workers[index]?).map Worker.Session.redact := List.getElem?_map
      simp only [next, Action.redact, hsession]
      cases s.workers[index]? with
      | none => rfl
      | some session =>
          have hfail : session.redact.pc.mayFail = session.pc.mayFail :=
            Worker.mayFail_redact session.pc
          simp only [Option.map_some, hfail]
          split
          · exact congrArg some (s.moveWorker_redact index session (.returned .error) .none).symm
          · rfl
  | crash index =>
      have hsession : s.redact.workers[index]? =
          (s.workers[index]?).map Worker.Session.redact := List.getElem?_map
      simp only [next, Action.redact, hsession]
      cases s.workers[index]? with
      | none => rfl
      | some session => exact congrArg some (s.moveWorker_redact index session .gone .none).symm

end DurableRuntime
