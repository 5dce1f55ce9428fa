import DurableRuntime.ControlPlane.Stores
import DurableRuntime.EventIds
import DurableRuntime.Scenario
import Mathlib.Logic.Equiv.Defs

/-!
# Interchangeable stores

The in-memory store simulates the relational one, call by call.  A renaming
takes the ids that the one draws to those that the other draws; related states
hold the same workflows, runs and audit records in the same order, and the
events of a run are those that its transactions inserted, read in id order.
What the tables ask beyond the maps is collected in `Storable`.
-/

namespace DurableRuntime

open DurableRuntime.Foundation

namespace RuntimeStore

/-- The tenant under its two ids, and the ids of the one store as those of the other. -/
structure Renaming where
  slug : String
  tenantId : Uuid
  ids : Equiv.Perm Uuid

namespace Renaming

/-- An id as the stores print it becomes its counterpart; any other text stays. -/
def text (ρ : Renaming) (s : String) : String :=
  match Uuid.ofText? s with
  | some id => if s = id.text then (ρ.ids id).text else s
  | none => s

def call (ρ : Renaming) : Call → Call
  | .createWorkflow definition => .createWorkflow definition
  | .createRun create idempotencyKey =>
      .createRun { create with workflowId := ρ.text create.workflowId } idempotencyKey
  | .readRun runId => .readRun (ρ.text runId)
  | .transition runId state event => .transition (ρ.text runId) state event
  | .listAudit => .listAudit

def request (ρ : Renaming) (request : Request) : Request :=
  { request with call := ρ.call request.call, id := ρ.ids request.id }

end Renaming

/-! ## Equal answers -/

def RunEvent.label (event : RunEvent) : EventType × String := (event.eventType, event.detail)

structure SameWorkflow (ρ : Renaming) (workflow other : StoredWorkflow) : Prop where
  id : other.id = ρ.text workflow.id
  tenantId : workflow.tenantId = ρ.slug ∧ other.tenantId = ρ.tenantId.text
  definition : other.definition = workflow.definition

/-- Equal runs; the objects of an input may list their members in another order. -/
structure SameRun (ρ : Renaming) (run other : StoredRun) : Prop where
  id : other.id = ρ.text run.id
  tenantId : run.tenantId = ρ.slug ∧ other.tenantId = ρ.tenantId.text
  workflowId : other.workflowId = ρ.text run.workflowId
  state : other.state = run.state
  input : run.input.Same other.input
  budgetCents : other.budgetCents = run.budgetCents
  idempotencyKey : other.idempotencyKey = run.idempotencyKey
  events : other.events.map RunEvent.label = run.events.map RunEvent.label

structure SameAudit (ρ : Renaming) (item other : AuditRecord) : Prop where
  tenantId : item.tenantId = ρ.slug ∧ other.tenantId = ρ.tenantId.text
  subject : other.subject = item.subject
  action : other.action = item.action
  resourceId : other.resourceId = ρ.text item.resourceId

inductive SameResult (ρ : Renaming) : Result → Result → Prop
  | workflow {workflow other} : SameWorkflow ρ workflow other →
      SameResult ρ (.workflow workflow) (.workflow other)
  | created {run other} (replayed) : SameRun ρ run other →
      SameResult ρ (.created run replayed) (.created other replayed)
  | read {run other} : Option.Rel (SameRun ρ) run other → SameResult ρ (.read run) (.read other)
  | run {run other} : SameRun ρ run other → SameResult ρ (.run run) (.run other)
  | audit {records others} : List.Forall₂ (SameAudit ρ) records others →
      SameResult ρ (.audit records) (.audit others)

/-- The same error, or results that are equal up to the renaming. -/
inductive SameAnswer (ρ : Renaming) : Answer → Answer → Prop
  | error (message) : SameAnswer ρ (.error message) (.error message)
  | ok {result other} : SameResult ρ result other → SameAnswer ρ (.ok result) (.ok other)

/-! ## The calls -/

/-- The relational store as it answers the renamed requests. -/
def relational (env : Env) (ρ : Renaming) (s : Shared) (request : Request) : Answer × Shared :=
  PostgresDurableStore.answer env ρ.tenantId s (ρ.request request)

/-- The tenant is provisioned, and has not stored anything yet. -/
structure Provisioned (tenantId : Uuid) (s : Shared) : Prop where
  limits : (s.db.limits? tenantId).isSome = true
  principals : (s.db.principals.map PrincipalRow.id).Nodup
  definitions : s.db.definitions = []
  runs : s.db.runs = []
  events : s.db.events = []
  audits : s.db.audits = []

def Call.ids : Call → List String
  | .createRun create _ => [create.workflowId]
  | .readRun runId | .transition runId _ _ => [runId]
  | .createWorkflow _ | .listAudit => []

/--
A call of an authenticated principal that draws a fresh id: its definition is
valid, its ids look like ids, and it finds the quotas of the tenant not reached.
-/
structure Legitimate (env : Env) (ρ : Renaming) (past : List Request) (s : Shared)
    (request : Request) : Prop where
  drawn : request.id ∉ past.map Request.id
  principal : (s.db.principalId? ρ.tenantId request.subject).isSome = true
  definition : ∀ definition, request.call = .createWorkflow definition → Accepted definition
  ids : ∀ id ∈ request.call.ids, isUUID id = true
  quota : ∀ create idempotencyKey, request.call = .createRun create idempotencyKey →
    ∀ limits, s.db.limits? ρ.tenantId = some limits →
      ControlPlane.quotaError env s request.now limits ρ.tenantId = none

def Request.version? (request : Request) : Option (String × String) :=
  match request.call with
  | .createWorkflow definition => some (definition.name, definition.version)
  | _ => none

def Request.handle? (request : Request) : Option Uuid :=
  match request.call with
  | .createRun create _ => create.providerCredentialHandle
  | _ => none

/-- What the columns, indexes and keys of the tables ask of a call. -/
structure Storable (env : Env) (past : List Request) (request : Request) : Prop where
  spelled : ∀ text ∈ request.call.ids, ∃ id : Uuid, text = id.text
  definition : ∀ definition, request.call = .createWorkflow definition →
    PostgresDurableStore.isJsonText definition.toJson = true ∧
      env.fitsIndex definition.name definition.version = true
  version : ∀ version, request.version? = some version →
    version ∉ past.filterMap Request.version?
  creation : ∀ create idempotencyKey, request.call = .createRun create idempotencyKey →
    create.input.isStorable = true ∧ create.input.isFinite = true ∧
      env.nests create.input.toJson = true ∧
      PostgresDurableStore.isText idempotencyKey = true ∧ 16 ≤ idempotencyKey.length ∧
        idempotencyKey.length ≤ 128
  handle : ∀ handle, request.handle? = some handle → handle ∉ past.filterMap Request.handle?
  detail : ∀ runId state event, request.call = .transition runId state event →
    PostgresDurableStore.isText event.detail = true ∧ event.detail.length ≤ 500

namespace Renaming

theorem text_text (ρ : Renaming) (id : Uuid) : ρ.text id.text = (ρ.ids id).text := by
  rw [text, ofText?_text]
  exact if_pos rfl

end Renaming

def eventLabel (row : EventRow) : EventType × String := (row.eventType, row.detail)

/-- An id in the one store stands for a `uuid` of the other. -/
def IdMatch (ρ : Renaming) (text : String) (id : Uuid) : Prop :=
  ∃ drawn : Uuid, text = drawn.text ∧ id = ρ.ids drawn

structure WorkflowMatch (ρ : Renaming) (workflow : StoredWorkflow) (row : DefinitionRow) :
    Prop where
  id : IdMatch ρ workflow.id row.id
  tenantId : workflow.tenantId = ρ.slug ∧ row.tenantId = ρ.tenantId
  budgetCents : row.budgetCents = workflow.definition.budgetCents

structure RunMatch (ρ : Renaming) (events : List EventRow) (run : StoredRun) (row : RunRow) :
    Prop where
  id : IdMatch ρ run.id row.id
  tenantId : run.tenantId = ρ.slug ∧ row.tenantId = ρ.tenantId
  workflowId : IdMatch ρ run.workflowId row.workflowId
  state : row.state = run.state
  input : run.input.Same (.ofJson row.input)
  budgetCents : row.budgetCents = run.budgetCents
  idempotencyKey : row.idempotencyKey = run.idempotencyKey
  events : (eventsOf events row.id).map eventLabel = run.events.map RunEvent.label

structure AuditMatch (ρ : Renaming) (principals : List PrincipalRow) (item : AuditRecord)
    (row : AuditRow) : Prop where
  tenantId : item.tenantId = ρ.slug ∧ row.tenantId = ρ.tenantId
  subject : ∃ id principal, row.principalId = some id ∧
    principals.find? (fun principal => principal.id = id) = some principal ∧
      principal.subject = item.subject
  action : row.action = item.action
  resourceId : IdMatch ρ item.resourceId row.resourceId

/-- What the two stores hold after the same requests. -/
structure Simulates (ρ : Renaming) (past : List Request) (store : InMemoryDurableStore)
    (s : Shared) : Prop where
  workflows : List.Forall₂ (WorkflowMatch ρ) store.workflows s.db.definitions
  runs : List.Forall₂ (RunMatch ρ s.db.events) store.runs s.db.runs
  audits : List.Forall₂ (AuditMatch ρ s.db.principals) store.audits s.db.audits
  idempotency : store.idempotency =
    store.runs.map fun run => (ρ.slug ++ ":" ++ run.idempotencyKey, run.id)
  runIds : (store.runs.map StoredRun.id).Nodup
  drawnRuns : ∀ id ∈ store.runs.map StoredRun.id, id ∈ past.map fun request => request.id.text
  drawnWorkflows : ∀ id ∈ store.workflows.map StoredWorkflow.id,
    id ∈ past.map fun request => request.id.text
  versions : ∀ row ∈ s.db.definitions,
    (row.name, row.version) ∈ past.filterMap Request.version?
  handles : ∀ handle, some handle ∈ s.db.runs.map RunRow.providerCredentialHandle →
    handle ∈ past.filterMap Request.handle?
  eventIds : ∀ row ∈ s.db.events, row.id < s.db.nextEventId
  eventRuns : ∀ row ∈ s.db.events, row.tenantId = ρ.tenantId ∧ row.runId ∈ s.db.runs.map RunRow.id
  auditIds : s.db.audits.Pairwise fun a b => a.id ≤ b.id
  nextAudit : ∀ row ∈ s.db.audits, row.id < s.db.nextAuditId
  limits : (s.db.limits? ρ.tenantId).isSome = true
  principals : (s.db.principals.map PrincipalRow.id).Nodup

theorem Simulates.start {ρ : Renaming} {s : Shared} (hs : Provisioned ρ.tenantId s) :
    Simulates ρ [] InMemoryDurableStore.empty s where
  workflows := by
    rw [hs.definitions]
    exact .nil
  runs := by
    rw [hs.runs]
    exact .nil
  audits := by
    rw [hs.audits]
    exact .nil
  idempotency := rfl
  runIds := List.nodup_nil
  drawnRuns := by simp [InMemoryDurableStore.empty]
  drawnWorkflows := by simp [InMemoryDurableStore.empty]
  versions := by simp [hs.definitions]
  handles := by simp [hs.runs]
  eventIds := by simp [hs.events]
  eventRuns := by simp [hs.events]
  auditIds := by simp [hs.audits]
  nextAudit := by simp [hs.audits]
  limits := hs.limits
  principals := hs.principals

/-! ## Reading -/

theorem IdMatch.text {ρ : Renaming} {text : String} {id : Uuid} (h : IdMatch ρ text id) :
    id.text = ρ.text text := by
  obtain ⟨drawn, rfl, rfl⟩ := h
  exact (ρ.text_text drawn).symm

/-- Corresponding spellings name corresponding rows. -/
theorem IdMatch.eq_iff {ρ : Renaming} {text : String} {id : Uuid} (h : IdMatch ρ text id)
    (drawn : Uuid) : text = drawn.text ↔ id = ρ.ids drawn := by
  obtain ⟨own, rfl, rfl⟩ := h
  constructor
  · intro heq
    rw [text_inj heq]
  · intro heq
    rw [ρ.ids.injective heq]

namespace Simulates

variable {ρ : Renaming} {past : List Request} {store : InMemoryDurableStore} {s : Shared}

theorem run (h : Simulates ρ past store s) (drawn : Uuid) :
    Option.Rel (RunMatch ρ s.db.events) (Table.lookup StoredRun.id drawn.text store.runs)
      (s.db.run? (ρ.ids drawn)) :=
  Table.lookup_related h.runs fun _ _ hrow => hrow.id.eq_iff drawn

theorem workflow (h : Simulates ρ past store s) (drawn : Uuid) :
    Option.Rel (WorkflowMatch ρ)
      (Table.lookup StoredWorkflow.id drawn.text store.workflows)
      (s.db.definition? (ρ.ids drawn)) :=
  Table.lookup_related h.workflows fun _ _ hrow => hrow.id.eq_iff drawn

theorem prior (h : Simulates ρ past store s) (idempotencyKey : String) :
    Option.Rel (RunMatch ρ s.db.events)
      (Table.lookup (fun run : StoredRun => ρ.slug ++ ":" ++ run.idempotencyKey)
        (ρ.slug ++ ":" ++ idempotencyKey) store.runs)
      (s.db.runByKey? ρ.tenantId idempotencyKey) := by
  refine Table.lookup_related h.runs ?_
  intro run row hrow
  simp only [RunRow.key, hrow.tenantId.2, hrow.idempotencyKey, Prod.mk.injEq, true_and]
  constructor
  · exact fun heq => (String.append_right_inj _).mp heq
  · rintro rfl
    rfl

theorem sameRun (h : Simulates ρ past store s) {run : StoredRun} {row : RunRow}
    (hmatch : RunMatch ρ s.db.events run row) :
    SameRun ρ run (PostgresDurableStore.readRunInTransaction s.db ρ.tenantId row) where
  id := hmatch.id.text
  tenantId := ⟨hmatch.tenantId.1, congrArg Uuid.text hmatch.tenantId.2⟩
  workflowId := hmatch.workflowId.text
  state := hmatch.state
  input := hmatch.input
  budgetCents := hmatch.budgetCents
  idempotencyKey := hmatch.idempotencyKey
  events := by
    have hown : s.db.events.filter (fun event => event.tenantId = ρ.tenantId) = s.db.events := by
      simpa [List.filter_eq_self] using fun row hrow => (h.eventRuns row hrow).1
    simp only [PostgresDurableStore.readRunInTransaction, PostgresDurableStore.toStoredRun,
      ControlPlane.readRunInTransaction, ControlPlane.toRun, hown, List.map_map]
    exact hmatch.events

/-- A request that changes nothing is a request of the past. -/
theorem idle (h : Simulates ρ past store s) (request : Request) :
    Simulates ρ (past ++ [request]) store { s with clock := request.now } :=
  { h with
    drawnRuns := fun id hid => by
      rw [List.map_append]
      exact List.mem_append_left _ (h.drawnRuns id hid)
    drawnWorkflows := fun id hid => by
      rw [List.map_append]
      exact List.mem_append_left _ (h.drawnWorkflows id hid)
    versions := fun row hrow => by
      rw [List.filterMap_append]
      exact List.mem_append_left _ (h.versions row hrow)
    handles := fun handle hhandle => by
      rw [List.filterMap_append]
      exact List.mem_append_left _ (h.handles handle hhandle) }

theorem drawn_ne {ids : List String} {request : Request}
    (hids : ∀ id ∈ ids, id ∈ past.map fun request => request.id.text)
    (hdrawn : request.id ∉ past.map Request.id) : request.id.text ∉ ids := by
  intro hmem
  obtain ⟨other, hother, heq⟩ := List.mem_map.mp (hids _ hmem)
  exact hdrawn (List.mem_map.mpr ⟨other, hother, text_inj heq⟩)

/-- The audit record that both stores append. -/
theorem audited (h : Simulates ρ past store s) (role : ControlPlane.Role) {subject : String}
    (hprincipal : (s.db.principalId? ρ.tenantId subject).isSome = true) (now : Int)
    (action : String) {resource : String} {resourceId : Uuid}
    (hresource : IdMatch ρ resource resourceId) :
    AuditMatch ρ s.db.principals ⟨now, ρ.slug, subject, action, resource⟩
      (ControlPlane.auditRow s ⟨ρ.tenantId, role, subject⟩ now action resourceId) where
  tenantId := ⟨rfl, rfl⟩
  subject := by
    obtain ⟨id, hid⟩ := Option.isSome_iff_exists.mp hprincipal
    obtain ⟨principal, hfound, rfl⟩ := Option.map_eq_some_iff.mp hid
    have hsubject := List.find?_some hfound
    simp only [decide_eq_true_eq] at hsubject
    exact ⟨principal.id, principal, hid,
      Table.lookup_of_mem h.principals (List.mem_of_find?_eq_some hfound), hsubject.2⟩
  action := rfl
  resourceId := hresource

theorem audits_snoc (h : Simulates ρ past store s) {item : AuditRecord} {row : AuditRow}
    (hitem : AuditMatch ρ s.db.principals item row) :
    List.Forall₂ (AuditMatch ρ s.db.principals) (store.audits ++ [item])
      (s.db.audits ++ [row]) :=
  List.rel_append h.audits (.cons hitem .nil)

theorem auditIds_snoc (h : Simulates ρ past store s) {row : AuditRow}
    (hid : row.id = s.db.nextAuditId) :
    (s.db.audits ++ [row]).Pairwise fun a b => a.id ≤ b.id := by
  refine List.pairwise_append.mpr ⟨h.auditIds, List.pairwise_singleton _ _, ?_⟩
  intro old hold new hnew
  rw [List.mem_singleton.mp hnew, hid]
  exact Nat.le_of_lt (h.nextAudit old hold)

theorem nextAudit_snoc (h : Simulates ρ past store s) {row : AuditRow}
    (hid : row.id = s.db.nextAuditId) :
    ∀ item ∈ s.db.audits ++ [row], item.id < s.db.nextAuditId + 1 := by
  intro item hitem
  rcases List.mem_append.mp hitem with hold | hnew
  · exact Nat.lt_succ_of_lt (h.nextAudit item hold)
  · rw [List.mem_singleton.mp hnew, hid]
    exact Nat.lt_succ_self _

/-! ## The calls -/

/-- What one request has to keep for the simulation to go on. -/
def Step (env : Env) (ρ : Renaming) (past : List Request) (store : InMemoryDurableStore)
    (s : Shared) (request : Request) : Prop :=
  SameAnswer ρ (InMemoryDurableStore.answer ρ.slug store request).1
      (relational env ρ s request).1 ∧
    Simulates ρ (past ++ [request]) (InMemoryDurableStore.answer ρ.slug store request).2
      (relational env ρ s request).2

theorem listAudit (h : Simulates ρ past store s) {env : Env} {request : Request}
    (hcall : request.call = .listAudit) : Step env ρ past store s request := by
  have hmemory : store.audits.filter (fun item => item.tenantId = ρ.slug) = store.audits := by
    rw [List.filter_eq_self]
    intro item hitem
    obtain ⟨row, -, hrow⟩ := Table.mem_related h.audits.flip hitem
    exact decide_eq_true hrow.tenantId.1
  have hdatabase : PostgresDurableStore.auditsOf s.db ρ.tenantId = s.db.audits := by
    have hown : s.db.audits.filter (fun row => row.tenantId = ρ.tenantId) = s.db.audits := by
      rw [List.filter_eq_self]
      intro row hrow
      obtain ⟨item, -, hitem⟩ := Table.mem_related h.audits hrow
      exact decide_eq_true hitem.tenantId.2
    rw [PostgresDurableStore.auditsOf, hown]
    exact h.auditIds.insertionSort_eq
  have hsame : List.Forall₂ (SameAudit ρ) store.audits
      (s.db.audits.map (PostgresDurableStore.auditRecord s.db)) := by
    rw [List.forall₂_map_right_iff]
    refine h.audits.imp ?_
    intro item row hrow
    obtain ⟨id, principal, hid, hfound, hsubject⟩ := hrow.subject
    refine ⟨⟨hrow.tenantId.1, congrArg Uuid.text hrow.tenantId.2⟩, ?_, hrow.action,
      hrow.resourceId.text⟩
    simp only [PostgresDurableStore.auditRecord, hid, Option.bind_some, hfound, Option.map_some,
      Option.getD_some, hsubject]
  unfold Step relational Renaming.request InMemoryDurableStore.answer
    PostgresDurableStore.answer
  simp only [hcall, Renaming.call, InMemoryDurableStore.listAudit,
    PostgresDurableStore.listAudit, hmemory, hdatabase]
  exact ⟨.ok (.audit hsame), h.idle request⟩

theorem readRun (h : Simulates ρ past store s) {env : Env} {request : Request} {runId : String}
    (hcall : request.call = .readRun runId) (hstorable : Storable env past request) :
    Step env ρ past store s request := by
  obtain ⟨drawn, rfl⟩ := hstorable.spelled runId (by simp [hcall, Call.ids])
  unfold Step relational Renaming.request InMemoryDurableStore.answer
    PostgresDurableStore.answer
  simp only [hcall, Renaming.call, InMemoryDurableStore.readRun, PostgresDurableStore.readRun,
    ρ.text_text, ofText?_text, Except.map, ControlPlane.runOfTenant?]
  refine ⟨.ok (.read ?_), h.idle request⟩
  rcases Table.rel_cases (h.run drawn) with ⟨hmemory, hdatabase⟩ |
    ⟨run, row, hmemory, hdatabase, hmatch⟩
  · rw [hmemory, hdatabase]
    exact .none
  · simp only [hmemory, hdatabase, Option.filter_some, hmatch.tenantId.1, hmatch.tenantId.2,
      decide_true, if_true, Option.map_some]
    exact .some (h.sameRun hmatch)

theorem definitionInsertable (h : Simulates ρ past store s) {request : Request}
    {definition : WorkflowDefinition} (hdrawn : request.id ∉ past.map Request.id)
    (hversion : (definition.name, definition.version) ∉ past.filterMap Request.version?)
    (principal : ControlPlane.Principal) :
    definitionInsertable s.db (definitionRow principal (ρ.ids request.id) definition) = true := by
  simp only [DurableRuntime.definitionInsertable, List.all_eq_true]
  intro other hother
  have hid : other.id ≠ ρ.ids request.id := by
    intro heq
    obtain ⟨workflow, hworkflow, hmatch⟩ := Table.mem_related h.workflows hother
    refine drawn_ne h.drawnWorkflows hdrawn ?_
    exact List.mem_map.mpr ⟨workflow, hworkflow, (hmatch.id.eq_iff request.id).mpr heq⟩
  have hkey : other.name ≠ definition.name ∨ other.version ≠ definition.version := by
    by_contra hsame
    simp only [not_or, not_not] at hsame
    exact hversion (hsame.1 ▸ hsame.2 ▸ h.versions other hother)
  rcases hkey with hname | hversion
  · simp [definitionRow, hid, hname]
  · simp [definitionRow, hid, hversion]

/-- Both stores after `createWorkflow`. -/
theorem workflowCreated (h : Simulates ρ past store s) {request : Request}
    {workflow : StoredWorkflow} {row : DefinitionRow} {item : AuditRecord} {audit : AuditRow}
    (hworkflow : WorkflowMatch ρ workflow row) (hdrawn : workflow.id = request.id.text)
    (hversion : request.version? = some (row.name, row.version))
    (hitem : AuditMatch ρ s.db.principals item audit) (haudit : audit.id = s.db.nextAuditId) :
    Simulates ρ (past ++ [request])
      { store with
        workflows := store.workflows ++ [workflow]
        audits := store.audits ++ [item] }
      { s with
        clock := request.now
        db := (s.db.draw 0 0 1).commit (.createWorkflow row audit) } :=
  have idle := h.idle request
  { idle with
    workflows := List.rel_append h.workflows (.cons hworkflow .nil)
    audits := h.audits_snoc hitem
    drawnWorkflows := by
      intro id hid
      rw [List.map_append] at hid
      rcases List.mem_append.mp hid with hold | hnew
      · exact idle.drawnWorkflows id hold
      · rw [List.mem_singleton.mp hnew, hdrawn]
        simp
    versions := by
      intro other hother
      rcases List.mem_append.mp hother with hold | hnew
      · exact idle.versions other hold
      · rw [List.mem_singleton.mp hnew, List.filterMap_append]
        simp [hversion]
    auditIds := h.auditIds_snoc haudit
    nextAudit := h.nextAudit_snoc haudit }

theorem createWorkflow (h : Simulates ρ past store s) {env : Env} {request : Request}
    {definition : WorkflowDefinition} (hcall : request.call = .createWorkflow definition)
    (hlegitimate : Legitimate env ρ past s request) (hstorable : Storable env past request) :
    Step env ρ past store s request := by
  have hversion : request.version? = some (definition.name, definition.version) := by
    simp [Request.version?, hcall]
  have hid : IdMatch ρ request.id.text (ρ.ids request.id) := ⟨request.id, rfl, rfl⟩
  have hitem := h.audited request.role hlegitimate.principal request.now
    "workflow.created" hid
  have hput : Table.put StoredWorkflow.id ⟨request.id.text, ρ.slug, definition, request.now⟩
      store.workflows = store.workflows ++ [⟨request.id.text, ρ.slug, definition, request.now⟩] :=
    Table.put_of_absent (Table.lookup_eq_none_iff.mpr
      (drawn_ne h.drawnWorkflows hlegitimate.drawn))
  generalize hprincipal : (⟨ρ.tenantId, request.role, request.subject⟩ : ControlPlane.Principal) =
    principal at hitem
  have htenant : principal.tenantId = ρ.tenantId := by
    rw [← hprincipal]
  have hinsertable := h.definitionInsertable hlegitimate.drawn (hstorable.version _ hversion)
    principal
  obtain ⟨hjson, hfits⟩ : PostgresDurableStore.isJsonText
      (definitionRow principal (ρ.ids request.id) definition).definition = true ∧
        env.fitsIndex (definitionRow principal (ρ.ids request.id) definition).name
          (definitionRow principal (ρ.ids request.id) definition).version = true :=
    hstorable.definition definition hcall
  have hnumbered : isVersion (definitionRow principal (ρ.ids request.id) definition).version =
      true :=
    (hlegitimate.definition definition hcall).version
  have hvalid : PostgresDurableStore.definitionError env s.db
      (definitionRow principal (ρ.ids request.id) definition) = none := by
    simp only [PostgresDurableStore.definitionError, hinsertable, hjson, hfits, hnumbered,
      Bool.not_true, Bool.false_eq_true, if_false]
  unfold Step relational Renaming.request InMemoryDurableStore.answer
    PostgresDurableStore.answer
  simp only [hcall, Renaming.call, hprincipal, InMemoryDurableStore.createWorkflow,
    PostgresDurableStore.createWorkflow, hvalid, Except.map, InMemoryDurableStore.audit, hput]
  constructor
  · exact .ok (.workflow ⟨(ρ.text_text request.id).symm, ⟨rfl, congrArg Uuid.text htenant⟩, rfl⟩)
  · exact h.workflowCreated ⟨hid, ⟨rfl, htenant⟩, rfl⟩ rfl hversion hitem rfl

/-- An event with a newly drawn id is the last one of its run. -/
theorem events_snoc (h : Simulates ρ past store s) (event : EventRow)
    (hid : event.id = s.db.nextEventId) :
    eventsOf (s.db.events ++ [event]) event.runId =
      eventsOf s.db.events event.runId ++ [event] := by
  apply eventsOf_snoc
  intro old hold _
  rw [hid]
  exact h.eventIds old hold

theorem eventIds_snoc (h : Simulates ρ past store s) {event : EventRow}
    (hid : event.id = s.db.nextEventId) :
    ∀ row ∈ s.db.events ++ [event], row.id < s.db.nextEventId + 1 := by
  intro row hrow
  rcases List.mem_append.mp hrow with hold | hnew
  · exact Nat.lt_succ_of_lt (h.eventIds row hold)
  · rw [List.mem_singleton.mp hnew, hid]
    exact Nat.lt_succ_self _

theorem RunMatch.other {events : List EventRow} {run : StoredRun} {row : RunRow}
    (h : RunMatch ρ events run row) {event : EventRow} (hne : event.runId ≠ row.id) :
    RunMatch ρ (events ++ [event]) run row :=
  { h with
    events := by
      rw [eventsOf_append_of_ne (by simpa using hne)]
      exact h.events }

/-- Both stores after `transition`. -/
theorem transitioned (h : Simulates ρ past store s) (request : Request) (state : RunState)
    (event : RunEvent) (eventRow : EventRow) (approved : Bool) (queued : Option OutboxRow)
    {run : StoredRun} {row : RunRow} {drawn : Uuid} {item : AuditRecord} {audit : AuditRow}
    (hmatch : RunMatch ρ s.db.events run row) (hrow : row.id = ρ.ids drawn)
    (hevent : eventRow.id = s.db.nextEventId ∧ eventRow.tenantId = ρ.tenantId ∧
      eventRow.runId = row.id ∧ eventLabel eventRow = event.label)
    (hmem : row.id ∈ s.db.runs.map RunRow.id)
    (hitem : AuditMatch ρ s.db.principals item audit) (haudit : audit.id = s.db.nextAuditId) :
    RunMatch ρ (s.db.events ++ [eventRow]) (run.move state event)
        (row.transition state approved request.now) ∧
      Simulates ρ (past ++ [request])
        { store with
          runs := Table.modify StoredRun.id drawn.text
            (StoredRun.move state event) store.runs
          audits := store.audits ++ [item] }
        { s with
          clock := request.now
          db := (s.db.draw 1 queued.toList.length 1).commit
            (.request ⟨.update row state approved request.now, some eventRow, queued,
              some audit⟩) } := by
  obtain ⟨hid, htenant, hrun, hlabel⟩ := hevent
  have moved : ∀ (run : StoredRun) (other : RunRow), RunMatch ρ s.db.events run other →
      other.id = row.id →
      RunMatch ρ (s.db.events ++ [eventRow]) (run.move state event)
        (other.transition state approved request.now) := by
    intro run other hmatch hother
    refine { hmatch with state := rfl, events := ?_ }
    have hsnoc := h.events_snoc eventRow hid
    rw [hrun, ← hother] at hsnoc
    simp only [RunRow.transition, StoredRun.move, hsnoc, List.map_append, List.map_singleton,
      hmatch.events,
      hlabel]
  refine ⟨moved run row hmatch rfl, ?_⟩
  have idle := h.idle request
  have hkept : ∀ {κ : Type} (column : StoredRun → κ),
      (∀ run, column (run.move state event) = column run) →
      (Table.modify StoredRun.id drawn.text (StoredRun.move state event) store.runs).map column =
        store.runs.map column := fun _ hcolumn => Table.map_modify hcolumn _
  have hrows : ∀ {κ : Type} (column : RunRow → κ),
      (∀ row, column (row.transition state approved request.now) = column row) →
      (Table.modify RunRow.id row.id (RunRow.transition state approved request.now)
        s.db.runs).map column = s.db.runs.map column := fun _ hcolumn => Table.map_modify hcolumn _
  exact { idle with
    runs := by
      have hkeys : ∀ run other, RunMatch ρ s.db.events run other →
          (run.id = drawn.text ↔ other.id = row.id) := by
        intro run other hmatch
        rw [hrow]
        exact hmatch.id.eq_iff drawn
      refine Table.modify_related h.runs hkeys ?_ ?_
      · intro run other hmatch hkey
        exact moved run other hmatch (by rw [hrow]; exact (hmatch.id.eq_iff drawn).mp hkey)
      · intro run other hmatch hkey
        refine RunMatch.other hmatch ?_
        rw [hrun, hrow]
        exact fun heq => hkey ((hmatch.id.eq_iff drawn).mpr heq.symm)
    audits := h.audits_snoc hitem
    idempotency := h.idempotency.trans (hkept _ fun _ => rfl).symm
    runIds := by
      rw [hkept StoredRun.id fun _ => rfl]
      exact h.runIds
    drawnRuns := by
      rw [hkept StoredRun.id fun _ => rfl]
      exact idle.drawnRuns
    handles := by
      intro handle hhandle
      exact idle.handles handle
        ((hrows RunRow.providerCredentialHandle fun _ => rfl) ▸ hhandle)
    eventIds := h.eventIds_snoc hid
    eventRuns := by
      intro other hother
      have hids := hrows RunRow.id fun _ => rfl
      rcases List.mem_append.mp hother with hold | hnew
      · exact ⟨(h.eventRuns other hold).1, hids.symm ▸ (h.eventRuns other hold).2⟩
      · rw [List.mem_singleton.mp hnew, hrun]
        exact ⟨htenant, hids.symm ▸ hmem⟩
    auditIds := h.auditIds_snoc haudit
    nextAudit := h.nextAudit_snoc haudit }

theorem transition (h : Simulates ρ past store s) {env : Env} {request : Request} {runId : String}
    {state : RunState} {event : RunEvent} (hcall : request.call = .transition runId state event)
    (hlegitimate : Legitimate env ρ past s request) (hstorable : Storable env past request) :
    Step env ρ past store s request := by
  obtain ⟨drawn, rfl⟩ := hstorable.spelled runId (by simp [hcall, Call.ids])
  obtain ⟨htext, hlength⟩ := hstorable.detail _ _ _ hcall
  have hdetail : PostgresDurableStore.detailError event.detail = none := by
    simp [PostgresDurableStore.detailError, htext, hlength]
  unfold Step relational Renaming.request InMemoryDurableStore.answer
    PostgresDurableStore.answer
  simp only [hcall, Renaming.call, InMemoryDurableStore.transition,
    InMemoryDurableStore.readRun, PostgresDurableStore.transition, ρ.text_text, ofText?_text,
    ControlPlane.runOfTenant?]
  rcases Table.rel_cases (h.run drawn) with ⟨hmemory, hdatabase⟩ |
    ⟨run, row, hmemory, hdatabase, hmatch⟩
  · simp only [hmemory, hdatabase, Option.filter_none, Except.map]
    exact ⟨.error _, h.idle request⟩
  simp only [hmemory, hdatabase, Option.filter_some, hmatch.tenantId.1, hmatch.tenantId.2,
    decide_true, if_true, hmatch.state]
  cases hallowed : assertTransition run.state state with
  | error message =>
      simp only [Except.map]
      exact ⟨.error message, h.idle request⟩
  | ok =>
      have hrow : row.id = ρ.ids drawn := Table.lookup_key hdatabase
      obtain ⟨queued, hqueued⟩ :=
        PostgresDurableStore.queueApproved_ok { s with clock := request.now } request.now
        hmatch.tenantId.2 ⟨state, event.eventType, event.detail⟩
      have hitem := h.audited request.role hlegitimate.principal request.now
        ("run." ++ event.eventType.text) ⟨drawn, rfl, hrow⟩
      obtain ⟨hmoved, hnext⟩ := h.transitioned request state event
        ⟨s.db.nextEventId, row.tenantId, row.id, event.eventType, event.detail, request.now⟩
        (ControlPlane.TransitionArgs.approves ⟨state, event.eventType, event.detail⟩) queued
        hmatch hrow ⟨rfl, hmatch.tenantId.2, rfl, rfl⟩
        (List.mem_map_of_mem (Table.lookup_mem hdatabase)) hitem rfl
      simp only [PostgresDurableStore.updateRun, hdetail, hqueued, Except.map,
        InMemoryDurableStore.audit]
      exact ⟨.ok (.run (hnext.sameRun hmoved)), hnext⟩

/-- Both stores after the insertion of a run. -/
theorem runCreated (h : Simulates ρ past store s) (queued : OutboxRow) {request : Request}
    {run : StoredRun} {row : RunRow} {eventRow : EventRow} {item : AuditRecord}
    {audit : AuditRow} (hdrawn : request.id ∉ past.map Request.id)
    (hmatch : RunMatch ρ (s.db.events ++ [eventRow]) run row)
    (hid : run.id = request.id.text)
    (hhandle : row.providerCredentialHandle = request.handle?)
    (hevent : eventRow.id = s.db.nextEventId ∧ eventRow.tenantId = ρ.tenantId ∧
      eventRow.runId = row.id)
    (hitem : AuditMatch ρ s.db.principals item audit) (haudit : audit.id = s.db.nextAuditId) :
    Simulates ρ (past ++ [request])
      { store with
        runs := store.runs ++ [run]
        idempotency := store.idempotency ++ [(ρ.slug ++ ":" ++ run.idempotencyKey, run.id)]
        audits := store.audits ++ [item] }
      { s with
        clock := request.now
        db := (s.db.draw 1 1 1).commit
          (.request ⟨.insert row, some eventRow, some queued, some audit⟩) } := by
  obtain ⟨heventId, htenant, hrun⟩ := hevent
  have idle := h.idle request
  have hfresh : run.id ∉ store.runs.map StoredRun.id := by
    rw [hid]
    exact drawn_ne h.drawnRuns hdrawn
  exact { idle with
    runs := by
      refine List.rel_append (Table.imp_related h.runs ?_) (.cons hmatch .nil)
      intro other otherRow hother hmem _
      refine RunMatch.other hother ?_
      rw [hrun]
      intro heq
      obtain ⟨drawn, htext, hdrawn⟩ := hmatch.id
      have hsame := (hother.id.eq_iff drawn).mpr (heq.symm.trans hdrawn)
      exact hfresh (List.mem_map.mpr ⟨other, hmem, hsame.trans htext.symm⟩)
    audits := h.audits_snoc hitem
    idempotency := by
      simp only [List.map_append, List.map_singleton, h.idempotency]
    runIds := by
      simp only [List.map_append, List.map_singleton]
      exact List.nodup_append.mpr ⟨h.runIds, List.nodup_singleton _, by
        intro a ha b hb heq
        rw [List.mem_singleton.mp hb] at heq
        exact hfresh (heq ▸ ha)⟩
    drawnRuns := by
      intro id hmem
      rw [List.map_append] at hmem
      rcases List.mem_append.mp hmem with hold | hnew
      · exact idle.drawnRuns id hold
      · rw [List.mem_singleton.mp hnew, hid]
        simp
    handles := by
      intro handle hmem
      have happend : some handle ∈ (s.db.runs ++ [row]).map RunRow.providerCredentialHandle :=
        hmem
      rw [List.map_append] at happend
      rcases List.mem_append.mp happend with hold | hnew
      · exact idle.handles handle hold
      · have hown := (List.mem_singleton.mp hnew).trans hhandle
        rw [List.filterMap_append]
        simp [← hown]
    eventIds := h.eventIds_snoc heventId
    eventRuns := by
      intro event hmem
      have hids : ((s.db.runs ++ [row]).map RunRow.id) = s.db.runs.map RunRow.id ++ [row.id] := by
        simp
      rcases List.mem_append.mp hmem with hold | hnew
      · refine ⟨(h.eventRuns event hold).1, ?_⟩
        exact hids ▸ List.mem_append_left _ (h.eventRuns event hold).2
      · rw [List.mem_singleton.mp hnew, hrun]
        exact ⟨htenant, hids ▸ List.mem_append_right _ (List.mem_singleton_self _)⟩
    auditIds := h.auditIds_snoc haudit
    nextAudit := h.nextAudit_snoc haudit }

/-- The prior run that the maps know under a key is the one that the table finds. -/
theorem prior_run (h : Simulates ρ past store s) (idempotencyKey : String) :
    (Table.lookup Prod.fst (ρ.slug ++ ":" ++ idempotencyKey) store.idempotency = none ∧
        s.db.runByKey? ρ.tenantId idempotencyKey = none) ∨
      ∃ key run row,
        Table.lookup Prod.fst (ρ.slug ++ ":" ++ idempotencyKey) store.idempotency =
          some (key, run.id) ∧
        Table.lookup StoredRun.id run.id store.runs = some run ∧
        s.db.runByKey? ρ.tenantId idempotencyKey = some row ∧ RunMatch ρ s.db.events run row := by
  rw [h.idempotency, Table.lookup_map]
  rcases Table.rel_cases (h.prior idempotencyKey) with ⟨hmemory, hdatabase⟩ |
    ⟨run, row, hmemory, hdatabase, hmatch⟩
  · rw [hmemory]
    exact .inl ⟨rfl, hdatabase⟩
  · rw [hmemory]
    exact .inr ⟨_, run, row, rfl, Table.lookup_of_mem h.runIds (Table.lookup_mem hmemory),
      hdatabase, hmatch⟩

/-- No row has the id that the database draws for a fresh one. -/
theorem fresh (h : Simulates ρ past store s) {request : Request}
    (hdrawn : request.id ∉ past.map Request.id) :
    ρ.ids request.id ∉ s.db.runs.map RunRow.id := by
  intro hmem
  obtain ⟨row, hrow, hid⟩ := List.mem_map.mp hmem
  obtain ⟨run, hrun, hmatch⟩ := Table.mem_related h.runs hrow
  refine drawn_ne h.drawnRuns hdrawn ?_
  exact List.mem_map.mpr ⟨run, hrun, (hmatch.id.eq_iff request.id).mpr hid⟩

theorem runError (h : Simulates ρ past store s) {request : Request} (row : RunRow)
    (hdrawn : request.id ∉ past.map Request.id) (hid : row.id = ρ.ids request.id)
    (hlength : 16 ≤ row.idempotencyKey.length ∧ row.idempotencyKey.length ≤ 128)
    (hhandle : ∀ handle, row.providerCredentialHandle = some handle →
      handle ∉ past.filterMap Request.handle?) :
    PostgresDurableStore.runError s row = none := by
  have hkey : s.db.run? row.id = none := by
    rw [run?_eq_none, hid]
    exact h.fresh hdrawn
  have hunused : (row.providerCredentialHandle.any fun handle =>
      !ControlPlane.handleUnused s handle) = false := by
    cases hcase : row.providerCredentialHandle with
    | none => rfl
    | some handle =>
        simp only [Option.any_some, Bool.not_eq_false', ControlPlane.handleUnused,
          List.all_eq_true, decide_eq_true_eq]
        intro other hother heq
        exact hhandle handle hcase (h.handles handle (List.mem_map.mpr ⟨other, hother, heq⟩))
  simp [PostgresDurableStore.runError, hlength, hkey, hunused]

theorem createRun (h : Simulates ρ past store s) {env : Env} {request : Request}
    {create : CreateRun} {idempotencyKey : String}
    (hcall : request.call = .createRun create idempotencyKey)
    (hlegitimate : Legitimate env ρ past s request) (hstorable : Storable env past request) :
    Step env ρ past store s request := by
  obtain ⟨workflowId, input, handle⟩ := create
  obtain ⟨drawn, rfl⟩ := hstorable.spelled workflowId (by simp [hcall, Call.ids])
  obtain ⟨hinput, hfinite, hnests, htext, hlength⟩ := hstorable.creation _ _ hcall
  have hjson : PostgresDurableStore.jsonError env input.toJson = none :=
    jsonError_none_iff.mpr ⟨hinput, hnests⟩
  obtain ⟨limits, hlimits⟩ := Option.isSome_iff_exists.mp h.limits
  have hquota := hlegitimate.quota _ _ hcall limits hlimits
  unfold Step relational Renaming.request InMemoryDurableStore.answer
    PostgresDurableStore.answer
  simp only [hcall, Renaming.call, InMemoryDurableStore.createRun,
    InMemoryDurableStore.idempotencyMapKey, PostgresDurableStore.createRun, ρ.text_text,
    ofText?_text, htext, Bool.not_true, Bool.false_eq_true, if_false]
  rcases h.prior_run idempotencyKey with ⟨hmemory, hdatabase⟩ |
    ⟨key, run, row, hprior, hmemory, hdatabase, hmatch⟩
  swap
  · simp only [hprior, hmemory, hdatabase, Except.map]
    exact ⟨.ok (.created true (h.sameRun hmatch)), h.idle request⟩
  have hclock : ControlPlane.quotaError env { s with clock := request.now } request.now limits
      ρ.tenantId = none := hquota
  simp only [hmemory, hdatabase, hlimits, hclock]
  rcases Table.rel_cases (h.workflow drawn) with ⟨hworkflow, hdefinition⟩ |
    ⟨workflow, definition, hworkflow, hdefinition, hsame⟩
  · simp only [hworkflow, hdefinition, Option.filter_none, Except.map]
    exact ⟨.error _, h.idle request⟩
  simp only [hworkflow, hdefinition, Option.filter_some, hsame.tenantId.1, hsame.tenantId.2,
    decide_true, if_true, PostgresDurableStore.insertRun, hjson]
  generalize hrow : ControlPlane.newRun ρ.tenantId ⟨definition.id, input.toJson, none,
    idempotencyKey⟩ handle (ρ.ids request.id) request.now definition.budgetCents = row
  have hhandle : row.providerCredentialHandle = request.handle? := by
    simp [← hrow, ControlPlane.newRun, Request.handle?, hcall]
  have hvalid : PostgresDurableStore.runError { s with clock := request.now } row = none := by
    refine h.runError row hlegitimate.drawn ?_ ?_ ?_
    · rw [← hrow, ControlPlane.newRun]
    · rw [← hrow]
      exact hlength
    · intro handle hsome
      exact hstorable.handle handle (hhandle.symm.trans hsome)
  have hqueued : PostgresDurableStore.queueRunOutbox { s with clock := request.now } ρ.tenantId
      row = .ok (ControlPlane.outboxRow s row) := by
    rw [← hrow]
    exact if_pos ⟨rfl, rfl⟩
  have hid : row.id = ρ.ids request.id := by
    rw [← hrow, ControlPlane.newRun]
  have hitem := h.audited request.role hlegitimate.principal request.now "run.created"
    (show IdMatch ρ request.id.text row.id from ⟨request.id, rfl, hid⟩)
  generalize hrun : (⟨request.id.text, ρ.slug, workflow.id, .queued, input,
    workflow.definition.budgetCents, idempotencyKey, request.now,
    [⟨request.now, .created, "Run queued"⟩]⟩ : StoredRun) = run
  have hput : Table.put StoredRun.id run store.runs = store.runs ++ [run] := by
    refine Table.put_of_absent (Table.lookup_eq_none_iff.mpr ?_)
    rw [← hrun]
    exact drawn_ne h.drawnRuns hlegitimate.drawn
  have hputKey : Table.put Prod.fst (ρ.slug ++ ":" ++ idempotencyKey, request.id.text)
      store.idempotency = store.idempotency ++
        [(ρ.slug ++ ":" ++ idempotencyKey, request.id.text)] :=
    Table.put_of_absent hmemory
  have hfirst : eventsOf s.db.events row.id = [] := by
    refine @eventsOf_append_of_ne [] s.db.events row.id ?_
    intro event hmem heq
    exact h.fresh hlegitimate.drawn (hid ▸ heq ▸ (h.eventRuns event hmem).2)
  have hmatch : RunMatch ρ (s.db.events ++ [ControlPlane.eventRow s row request.now .created
      "Run queued"]) run row := by
    have hsnoc := h.events_snoc (ControlPlane.eventRow s row request.now .created "Run queued") rfl
    have hlabels : (eventsOf (s.db.events ++ [ControlPlane.eventRow s row request.now .created
        "Run queued"]) row.id).map eventLabel = run.events.map RunEvent.label := by
      rw [show row.id = (ControlPlane.eventRow s row request.now .created "Run queued").runId
        from rfl, hsnoc]
      change (eventsOf s.db.events row.id ++ _).map eventLabel = _
      rw [hfirst, ← hrun]
      rfl
    rw [← hrow, ← hrun] at hlabels ⊢
    exact ⟨⟨request.id, rfl, rfl⟩, ⟨rfl, rfl⟩, hsame.id, rfl,
      JsValue.same_stored input hinput hfinite, hsame.budgetCents, rfl, hlabels⟩
  have hnext := h.runCreated (ControlPlane.outboxRow s row) hlegitimate.drawn hmatch
    (by rw [← hrun]) hhandle ⟨rfl, by rw [← hrow]; rfl, rfl⟩ hitem rfl
  have hkeys : (ρ.slug ++ ":" ++ run.idempotencyKey, run.id) =
      (ρ.slug ++ ":" ++ idempotencyKey, request.id.text) := by
    rw [← hrun]
  rw [hkeys] at hnext
  simp only [hvalid, hqueued, Except.map, InMemoryDurableStore.audit, hput, hputKey]
  exact ⟨.ok (.created false (hnext.sameRun hmatch)), hid ▸ hnext⟩

theorem step (h : Simulates ρ past store s) {env : Env} {request : Request}
    (hlegitimate : Legitimate env ρ past s request) (hstorable : Storable env past request) :
    Step env ρ past store s request := by
  cases hcall : request.call with
  | createWorkflow definition => exact h.createWorkflow hcall hlegitimate hstorable
  | createRun create idempotencyKey => exact h.createRun hcall hlegitimate hstorable
  | readRun runId => exact h.readRun hcall hstorable
  | transition runId state event => exact h.transition hcall hlegitimate hstorable
  | listAudit => exact h.listAudit hcall

end Simulates

def isStorable (env : Env) (past : List Request) (request : Request) : Bool :=
  (request.call.ids.all fun text => (Uuid.ofText? text).any fun id => text = id.text) &&
    (request.version?.all fun version => version ∉ past.filterMap Request.version?) &&
    (request.handle?.all fun handle => handle ∉ past.filterMap Request.handle?) &&
    match request.call with
    | .createWorkflow definition =>
        PostgresDurableStore.isJsonText definition.toJson &&
          env.fitsIndex definition.name definition.version
    | .createRun create idempotencyKey =>
        create.input.isStorable && create.input.isFinite && env.nests create.input.toJson &&
          PostgresDurableStore.isText idempotencyKey &&
          (16 ≤ idempotencyKey.length && idempotencyKey.length ≤ 128)
    | .transition _ _ event =>
        PostgresDurableStore.isText event.detail && event.detail.length ≤ 500
    | _ => true

namespace Difference

/-- The principal `owner` of the tenant makes the calls, which draw the ids 10, 11, ... -/
def requests (calls : List Call) : List Request :=
  calls.zipIdx.map fun call => ⟨.owner, "owner", call.1, BitVec.ofNat 128 (10 + call.2), 0⟩

def definition : WorkflowDefinition := ⟨"1", "demo", "v1", [.tool .mockDataRead false], 100, []⟩

def created (input : JsValue) (handle : Option Uuid) (idempotencyKey : String) : Call :=
  .createRun ⟨(10 : Uuid).text, input, handle⟩ idempotencyKey

/-- An input of one member. -/
def input (value : JsValue) : JsValue := .obj [(.ofString "a", value)]

def cancelled (runId detail : String) : Call :=
  .transition runId .cancelled ⟨0, .cancelled, detail⟩

/-- What sort of value the member of an input is. -/
inductive Kind where
  | null
  | bool
  | num
  | negativeZero
  | infinite
  | str
  | arr
  | obj
  deriving DecidableEq

def kind : JsValue → Kind
  | .null => .null
  | .bool _ => .bool
  | .num _ => .num
  | .negativeZero => .negativeZero
  | .infinite _ => .infinite
  | .str _ => .str
  | .arr _ => .arr
  | .obj _ => .obj

end Difference

end RuntimeStore

end DurableRuntime
