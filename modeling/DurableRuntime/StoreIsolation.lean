import DurableRuntime.ControlPlane.Stores

/-!
# Tenants of the in-memory store

All tenants share the maps of `InMemoryDurableStore`.  Runs and workflows name
their tenant, and the map `idempotency` has the tenant in its key, joined to the
idempotency key by a colon.  Two tenants can share a joined key, and a replay
does not look at the tenant of the run it returns.
-/

namespace DurableRuntime.InMemoryDurableStore

open DurableRuntime.Foundation DurableRuntime.RuntimeStore

/-- A call by a principal of the tenant it names. -/
structure TenantCall where
  tenantId : String
  request : Request

def answerCall (store : InMemoryDurableStore) (call : TenantCall) : Answer × InMemoryDurableStore :=
  answer call.tenantId store call.request

/-- Every record that a result carries is the tenant's. -/
def ResultOf (tenantId : String) : Result → Prop
  | .workflow workflow => workflow.tenantId = tenantId
  | .created run _ => run.tenantId = tenantId
  | .read run => ∀ found ∈ run, found.tenantId = tenantId
  | .run run => run.tenantId = tenantId
  | .audit records => ∀ item ∈ records, item.tenantId = tenantId

def AnswerOf (tenantId : String) (answer : Answer) : Prop :=
  ∀ result, answer = .ok result → ResultOf tenantId result

/-- Every call returns records of its caller, and the answers to its own calls are all it sees. -/
def TenantsIsolated (calls : List TenantCall) : Prop :=
  List.Forall₂ (fun call answer => AnswerOf call.tenantId answer) calls
      (answers answerCall empty calls) ∧
    ∀ tenantId,
      answersTo (fun call => call.tenantId = tenantId) answerCall empty calls =
        answers answerCall empty (calls.filter fun call => call.tenantId = tenantId)

/-- The run that a creation finds under its joined key, if any, is the caller's. -/
def FindsOwnRun (_ : List TenantCall) (store : InMemoryDurableStore) (call : TenantCall) : Prop :=
  match call.request.call with
  | .createRun _ idempotencyKey =>
      ∀ prior ∈ Table.lookup Prod.fst (call.tenantId ++ ":" ++ idempotencyKey) store.idempotency,
        ∀ run ∈ Table.lookup StoredRun.id prior.2 store.runs, run.tenantId = call.tenantId
  | _ => True

instance (past : List TenantCall) (store : InMemoryDurableStore) (call : TenantCall) :
    Decidable (FindsOwnRun past store call) := by
  unfold FindsOwnRun
  split <;> infer_instance

/-! ## The records of an answer -/

section

variable {store : InMemoryDurableStore} {call : TenantCall} {past : List TenantCall}

theorem readRun_tenantId {principal : Principal} {runId : String} {run : StoredRun}
    (h : readRun store principal runId = some run) :
    Table.lookup StoredRun.id runId store.runs = some run ∧ run.tenantId = principal.tenantId := by
  simpa [readRun, Option.filter_eq_some_iff] using h

theorem answerOf_findsOwnRun (h : FindsOwnRun past store call) :
    AnswerOf call.tenantId (answerCall store call).1 := by
  intro result hresult
  obtain ⟨tenantId, role, subject, request, id, now⟩ := call
  cases request with
  | createWorkflow definition =>
      cases hresult
      rfl
  | createRun create idempotencyKey =>
      simp only [answerCall, answer, createRun] at hresult
      split at hresult
      · rename_i prior hprior
        split at hresult
        · cases hresult
        · rename_i run hrun
          cases hresult
          exact h prior hprior run hrun
      · split at hresult
        · cases hresult
        · cases hresult
          rfl
  | readRun runId =>
      cases hresult
      intro run hrun
      exact (readRun_tenantId hrun).2
  | transition runId state event =>
      simp only [answerCall, answer, transition] at hresult
      split at hresult
      · cases hresult
      · rename_i run hrun
        split at hresult
        · cases hresult
        · cases hresult
          exact (readRun_tenantId hrun).2
  | listAudit =>
      cases hresult
      intro item hitem
      simpa using (List.mem_filter.mp hitem).2

/-- An answer shows whose run a creation found. -/
theorem findsOwnRun_answerOf (h : AnswerOf call.tenantId (answerCall store call).1) :
    FindsOwnRun past store call := by
  obtain ⟨tenantId, role, subject, request, id, now⟩ := call
  cases request with
  | createRun create idempotencyKey =>
      intro prior hprior run hrun
      refine h (.created run true) ?_
      have hprior : Table.lookup Prod.fst
          (idempotencyMapKey ⟨tenantId, role, subject⟩ idempotencyKey) store.idempotency =
          some prior := hprior
      simp only [answerCall, answer, createRun, hprior, Option.mem_def.mp hrun]
      rfl
  | _ => trivial

end

/-! ## What a tenant sees -/

def ownedRun (store : InMemoryDurableStore) (tenantId runId : String) : Bool :=
  (Table.lookup StoredRun.id runId store.runs).any fun run => run.tenantId = tenantId

/-- `own` holds, under every id and key, what `store` holds there of the tenant. -/
structure Share (tenantId : String) (past : List TenantCall) (store own : InMemoryDurableStore) :
    Prop where
  workflows : Table.Shows StoredWorkflow.id (fun workflow => workflow.tenantId = tenantId)
    store.workflows own.workflows
  runs : Table.Shows StoredRun.id (fun run => run.tenantId = tenantId) store.runs own.runs
  audits : own.audits = store.audits.filter fun item => item.tenantId = tenantId
  idempotency : Table.Shows Prod.fst (fun prior => ownedRun store tenantId prior.2)
    store.idempotency own.idempotency
  stored : ∀ key prior, Table.lookup Prod.fst key store.idempotency = some prior →
    (Table.lookup StoredRun.id prior.2 store.runs).isSome = true
  drawnWorkflow : ∀ id workflow, Table.lookup StoredWorkflow.id id store.workflows = some workflow →
    ∃ call ∈ past, call.request.id.text = id
  drawnRun : ∀ id run, Table.lookup StoredRun.id id store.runs = some run →
    ∃ call ∈ past, call.request.id.text = id

/-- The call draws an id that no earlier call has drawn. -/
def DrawsFresh (past : List TenantCall) (call : TenantCall) : Prop :=
  ∀ other ∈ past, other.request.id ≠ call.request.id

theorem share_empty (tenantId : String) : Share tenantId [] empty empty where
  workflows := fun _ => rfl
  runs := fun _ => rfl
  audits := rfl
  idempotency := fun _ => rfl
  stored := by simp [empty]
  drawnWorkflow := by simp [empty]
  drawnRun := by simp [empty]

namespace Share

variable {tenantId : String} {past : List TenantCall} {store own : InMemoryDurableStore}
  {call : TenantCall}

theorem fresh_workflow (h : Share tenantId past store own) (hfresh : DrawsFresh past call) :
    Table.lookup StoredWorkflow.id call.request.id.text store.workflows = none := by
  rw [Option.eq_none_iff_forall_ne_some]
  intro workflow hworkflow
  obtain ⟨other, hother, hid⟩ := h.drawnWorkflow _ _ hworkflow
  exact hfresh other hother (text_inj hid)

theorem fresh_run (h : Share tenantId past store own) (hfresh : DrawsFresh past call) :
    Table.lookup StoredRun.id call.request.id.text store.runs = none := by
  rw [Option.eq_none_iff_forall_ne_some]
  intro run hrun
  obtain ⟨other, hother, hid⟩ := h.drawnRun _ _ hrun
  exact hfresh other hother (text_inj hid)

theorem more (h : Share tenantId past store own) (call : TenantCall) :
    Share tenantId (past ++ [call]) store own :=
  { h with
    drawnWorkflow := by
      intro id workflow hworkflow
      obtain ⟨other, hother, hid⟩ := h.drawnWorkflow id workflow hworkflow
      exact ⟨other, List.mem_append_left _ hother, hid⟩
    drawnRun := by
      intro id run hrun
      obtain ⟨other, hother, hid⟩ := h.drawnRun id run hrun
      exact ⟨other, List.mem_append_left _ hother, hid⟩ }

theorem audit_mine (h : Share tenantId past store own) {principal : Principal}
    (hmine : principal.tenantId = tenantId) (action resourceId : String) (now : Int) :
    Share tenantId past (store.audit principal action resourceId now)
      (own.audit principal action resourceId now) :=
  { h with audits := by simp [audit, h.audits, hmine] }

theorem audit_other (h : Share tenantId past store own) {principal : Principal}
    (hother : principal.tenantId ≠ tenantId) (action resourceId : String) (now : Int) :
    Share tenantId past (store.audit principal action resourceId now) own :=
  { h with audits := by simp [audit, h.audits, hother] }

/-- A workflow enters the map under a fresh id. -/
theorem drawnWorkflow_put (h : Share tenantId past store own) {workflow : StoredWorkflow}
    (hid : workflow.id = call.request.id.text) (id : String) (found : StoredWorkflow)
    (hfound : Table.lookup StoredWorkflow.id id
      (Table.put StoredWorkflow.id workflow store.workflows) = some found) :
    ∃ other ∈ past ++ [call], other.request.id.text = id := by
  rw [Table.lookup_put] at hfound
  split at hfound
  · rename_i hsame
    exact ⟨call, by simp, by rw [hsame, hid]⟩
  · exact (h.more call).drawnWorkflow id found hfound

theorem workflow_mine (h : Share tenantId past store own) (workflow : StoredWorkflow)
    (hid : workflow.id = call.request.id.text) (hmine : workflow.tenantId = tenantId) :
    Share tenantId (past ++ [call])
      { store with workflows := Table.put StoredWorkflow.id workflow store.workflows }
      { own with workflows := Table.put StoredWorkflow.id workflow own.workflows } :=
  { h.more call with
    workflows := h.workflows.put (by simp [hmine])
    drawnWorkflow := h.drawnWorkflow_put hid }

theorem workflow_other (h : Share tenantId past store own) (hfresh : DrawsFresh past call)
    (workflow : StoredWorkflow) (hid : workflow.id = call.request.id.text)
    (hother : workflow.tenantId ≠ tenantId) :
    Share tenantId (past ++ [call])
      { store with workflows := Table.put StoredWorkflow.id workflow store.workflows } own :=
  { h.more call with
    workflows := h.workflows.put_of_dropped (by simp [hother]) (hid ▸ h.fresh_workflow hfresh)
    drawnWorkflow := h.drawnWorkflow_put hid }

/-! ### New runs -/

/-- The maps after a creation that finds no entry under its joined key. -/
def withRun (store : InMemoryDurableStore) (key : String) (run : StoredRun) :
    InMemoryDurableStore :=
  { store with
    runs := Table.put StoredRun.id run store.runs
    idempotency := Table.put Prod.fst (key, run.id) store.idempotency }

theorem ownedRun_withRun (store : InMemoryDurableStore) (key : String) (run : StoredRun)
    (runId : String) : ownedRun (withRun store key run) tenantId runId =
      if runId = run.id then decide (run.tenantId = tenantId)
      else ownedRun store tenantId runId := by
  rw [ownedRun, withRun, Table.lookup_put]
  split
  · rfl
  · rfl

/-- The runs of earlier entries are not the new one. -/
theorem prior_ne (h : Share tenantId past store own) (hfresh : DrawsFresh past call)
    {run : StoredRun}
    (hid : run.id = call.request.id.text) {key : String} {prior : String × String}
    (hprior : Table.lookup Prod.fst key store.idempotency = some prior) : prior.2 ≠ run.id := by
  intro hsame
  have hstored := h.stored key prior hprior
  rw [hsame, hid, h.fresh_run hfresh] at hstored
  cases hstored

/-- What the two maps of the new run keep, whoever owns it. -/
theorem withRun_kept (h : Share tenantId past store own) (hfresh : DrawsFresh past call)
    {run : StoredRun} (hid : run.id = call.request.id.text) (key : String) :
    Table.Shows Prod.fst (fun prior => ownedRun (withRun store key run) tenantId prior.2)
      store.idempotency own.idempotency := by
  refine h.idempotency.congr ?_
  intro other prior hprior
  rw [ownedRun_withRun, if_neg (h.prior_ne hfresh hid hprior)]

theorem stored_withRun (h : Share tenantId past store own) (key : String) (run : StoredRun)
    (other : String) (prior : String × String)
    (hprior : Table.lookup Prod.fst other (withRun store key run).idempotency = some prior) :
    (Table.lookup StoredRun.id prior.2 (withRun store key run).runs).isSome = true := by
  rw [withRun, Table.lookup_put] at hprior ⊢
  split
  · rfl
  · rename_i hne
    split at hprior
    · cases hprior
      exact absurd rfl hne
    · exact h.stored other prior hprior

theorem drawnRun_withRun (h : Share tenantId past store own) {key : String} {run : StoredRun}
    (hid : run.id = call.request.id.text) (id : String) (found : StoredRun)
    (hfound : Table.lookup StoredRun.id id (withRun store key run).runs = some found) :
    ∃ other ∈ past ++ [call], other.request.id.text = id := by
  rw [withRun, Table.lookup_put] at hfound
  split at hfound
  · rename_i hsame
    exact ⟨call, by simp, by rw [hsame, hid]⟩
  · exact (h.more call).drawnRun id found hfound

theorem run_mine (h : Share tenantId past store own) (hfresh : DrawsFresh past call)
    (run : StoredRun) (hid : run.id = call.request.id.text) (hmine : run.tenantId = tenantId)
    (key : String) :
    Share tenantId (past ++ [call]) (withRun store key run) (withRun own key run) :=
  { h.more call with
    runs := h.runs.put (by simp [hmine])
    idempotency := (h.withRun_kept hfresh hid key).put (by
      rw [ownedRun_withRun, if_pos rfl]
      simp [hmine])
    stored := h.stored_withRun key run
    drawnRun := h.drawnRun_withRun hid }

theorem run_other (h : Share tenantId past store own) (hfresh : DrawsFresh past call)
    (run : StoredRun) (hid : run.id = call.request.id.text) (hother : run.tenantId ≠ tenantId)
    {key : String} (hkey : Table.lookup Prod.fst key store.idempotency = none) :
    Share tenantId (past ++ [call]) (withRun store key run) own :=
  { h.more call with
    runs := h.runs.put_of_dropped (by simp [hother]) (hid ▸ h.fresh_run hfresh)
    idempotency := (h.withRun_kept hfresh hid key).put_of_dropped (by
      rw [ownedRun_withRun, if_pos rfl]
      simp [hother]) hkey
    stored := h.stored_withRun key run
    drawnRun := h.drawnRun_withRun hid }

/-! ### Moved runs -/

/-- The maps after a transition of a run. -/
def withMove (store : InMemoryDurableStore) (runId : String) (state : RunState) (event : RunEvent) :
    InMemoryDurableStore :=
  { store with runs := Table.modify StoredRun.id runId (.move state event) store.runs }

theorem lookup_withMove (store : InMemoryDurableStore) (runId id : String) (state : RunState)
    (event : RunEvent) :
    Table.lookup StoredRun.id id (withMove store runId state event).runs =
      if id = runId then (Table.lookup StoredRun.id runId store.runs).map (.move state event)
      else Table.lookup StoredRun.id id store.runs :=
  Table.lookup_modify id runId (by intro _; rfl) store.runs

theorem ownedRun_withMove (store : InMemoryDurableStore) (runId id : String) (state : RunState)
    (event : RunEvent) :
    ownedRun (withMove store runId state event) tenantId id = ownedRun store tenantId id := by
  rw [ownedRun, lookup_withMove]
  split
  · rename_i hsame
    subst hsame
    rw [Option.any_map]
    rfl
  · rfl

theorem moved (h : Share tenantId past store own) {runId : String} {state : RunState}
    {event : RunEvent} {own' : List StoredRun}
    (hruns : Table.Shows StoredRun.id (fun run => run.tenantId = tenantId)
      (withMove store runId state event).runs own') :
    Share tenantId past (withMove store runId state event) { own with runs := own' } where
  workflows := h.workflows
  runs := hruns
  audits := h.audits
  idempotency := h.idempotency.congr fun _ _ _ => ownedRun_withMove store runId _ state event
  stored := by
    intro key prior hprior
    have hstored := h.stored key prior hprior
    rw [lookup_withMove]
    split
    · rename_i hsame
      rwa [Option.isSome_map, ← hsame]
    · exact hstored
  drawnWorkflow := h.drawnWorkflow
  drawnRun := by
    intro id run hrun
    rw [lookup_withMove] at hrun
    split at hrun
    · rename_i hsame
      obtain ⟨found, hfound, -⟩ := Option.map_eq_some_iff.mp hrun
      exact h.drawnRun id found (hsame ▸ hfound)
    · exact h.drawnRun id run hrun

theorem move_mine (h : Share tenantId past store own) (runId : String) (state : RunState)
    (event : RunEvent) :
    Share tenantId past (withMove store runId state event) (withMove own runId state event) :=
  h.moved (h.runs.modify (by intro _; rfl) (by intro _; rfl))

theorem move_other (h : Share tenantId past store own) {runId : String} {run : StoredRun}
    (hrun : Table.lookup StoredRun.id runId store.runs = some run)
    (hother : run.tenantId ≠ tenantId) (state : RunState) (event : RunEvent) :
    Share tenantId past (withMove store runId state event) own := by
  refine h.moved (h.runs.modify_of_dropped (by intro _; rfl) (by intro _; rfl) ?_)
  intro found hfound
  rw [hrun, Option.some.injEq] at hfound
  simp [← hfound, hother]

/-! ### One call -/

theorem readRun_eq (h : Share tenantId past store own) {principal : Principal}
    (hmine : principal.tenantId = tenantId) (runId : String) :
    readRun own principal runId = readRun store principal runId := by
  rw [readRun, readRun, h.runs, Option.filter_filter, hmine]
  simp

theorem createWorkflow_mine (h : Share tenantId past store own) (principal : Principal)
    (hmine : principal.tenantId = tenantId) (definition : WorkflowDefinition) (now : Int) :
    Share tenantId (past ++ [call])
      (createWorkflow store principal definition call.request.id.text now).2
      (createWorkflow own principal definition call.request.id.text now).2 :=
  (h.workflow_mine ⟨call.request.id.text, principal.tenantId, definition, now⟩ rfl hmine).audit_mine
    hmine _ _ _

theorem createWorkflow_other (h : Share tenantId past store own) (hfresh : DrawsFresh past call)
    (principal : Principal) (hother : principal.tenantId ≠ tenantId)
    (definition : WorkflowDefinition) (now : Int) :
    Share tenantId (past ++ [call])
      (createWorkflow store principal definition call.request.id.text now).2 own :=
  (h.workflow_other hfresh ⟨call.request.id.text, principal.tenantId, definition, now⟩ rfl
    hother).audit_other hother _ _ _

/-- The run that a creation puts into the map. -/
def queuedRun (principal : Principal) (workflow : StoredWorkflow) (request : CreateRun)
    (idempotencyKey id : String) (now : Int) : StoredRun :=
  { id, tenantId := principal.tenantId, workflowId := workflow.id, state := .queued,
    input := request.input, budgetCents := workflow.definition.budgetCents, idempotencyKey,
    createdAt := now, events := [⟨now, .created, "Run queued"⟩] }

theorem createRun_mine (h : Share tenantId past store own) (hfresh : DrawsFresh past call)
    (principal : Principal) (hmine : principal.tenantId = tenantId) (request : CreateRun)
    (idempotencyKey : String) (now : Int)
    (howns : ∀ prior ∈ Table.lookup Prod.fst (idempotencyMapKey principal idempotencyKey)
        store.idempotency, ∀ run ∈ Table.lookup StoredRun.id prior.2 store.runs,
      run.tenantId = tenantId) :
    (createRun store principal request idempotencyKey call.request.id.text now).1 =
        (createRun own principal request idempotencyKey call.request.id.text now).1 ∧
      Share tenantId (past ++ [call])
        (createRun store principal request idempotencyKey call.request.id.text now).2
        (createRun own principal request idempotencyKey call.request.id.text now).2 := by
  unfold createRun
  cases hprior : Table.lookup Prod.fst (idempotencyMapKey principal idempotencyKey)
      store.idempotency with
  | some prior =>
      obtain ⟨run, hrun⟩ := Option.isSome_iff_exists.mp (h.stored _ prior hprior)
      have hown := howns prior hprior run hrun
      have howned : ownedRun store tenantId prior.2 = true := by simp [ownedRun, hrun, hown]
      have hprior' := h.idempotency.lookup_of_keep hprior howned
      have hrun' := h.runs.lookup_of_keep hrun (by simp [hown])
      simp only [hprior, hprior', hrun, hrun']
      exact ⟨trivial, h.more call⟩
  | none =>
      have hprior' := h.idempotency.lookup_of_absent hprior
      have hworkflow : (Table.lookup StoredWorkflow.id request.workflowId own.workflows).filter
            (fun workflow => workflow.tenantId = principal.tenantId) =
          (Table.lookup StoredWorkflow.id request.workflowId store.workflows).filter
            fun workflow => workflow.tenantId = principal.tenantId := by
        rw [h.workflows, Option.filter_filter, hmine]
        simp
      simp only [hprior, hprior', hworkflow]
      cases (Table.lookup StoredWorkflow.id request.workflowId store.workflows).filter
          fun workflow => workflow.tenantId = principal.tenantId with
      | none => exact ⟨rfl, h.more call⟩
      | some workflow =>
          have hshare := h.run_mine hfresh (queuedRun principal workflow request idempotencyKey
            call.request.id.text now) rfl hmine (idempotencyMapKey principal idempotencyKey)
          exact ⟨rfl, hshare.audit_mine hmine "run.created" call.request.id.text now⟩

theorem createRun_other (h : Share tenantId past store own) (hfresh : DrawsFresh past call)
    (principal : Principal) (hother : principal.tenantId ≠ tenantId) (request : CreateRun)
    (idempotencyKey : String) (now : Int) :
    Share tenantId (past ++ [call])
      (createRun store principal request idempotencyKey call.request.id.text now).2 own := by
  unfold createRun
  cases hprior : Table.lookup Prod.fst (idempotencyMapKey principal idempotencyKey)
      store.idempotency with
  | some prior =>
      simp only [hprior]
      split
      · exact h.more call
      · exact h.more call
  | none =>
      simp only [hprior]
      split
      · exact h.more call
      · rename_i workflow _
        have hshare := h.run_other hfresh (queuedRun principal workflow request idempotencyKey
          call.request.id.text now) rfl hother hprior
        exact hshare.audit_other hother "run.created" call.request.id.text now

theorem transition_mine (h : Share tenantId past store own) (principal : Principal)
    (hmine : principal.tenantId = tenantId) (runId : String) (state : RunState) (event : RunEvent)
    (now : Int) :
    (transition store principal runId state event now).1 =
        (transition own principal runId state event now).1 ∧
      Share tenantId past (transition store principal runId state event now).2
        (transition own principal runId state event now).2 := by
  unfold transition
  rw [h.readRun_eq hmine]
  cases readRun store principal runId with
  | none => exact ⟨rfl, h⟩
  | some run =>
      simp only
      cases assertTransition run.state state with
      | error message => exact ⟨rfl, h⟩
      | ok => exact ⟨rfl, (h.move_mine runId state event).audit_mine hmine _ _ _⟩

theorem transition_other (h : Share tenantId past store own) (principal : Principal)
    (hother : principal.tenantId ≠ tenantId) (runId : String) (state : RunState) (event : RunEvent)
    (now : Int) :
    Share tenantId past (transition store principal runId state event now).2 own := by
  unfold transition
  cases hrun : readRun store principal runId with
  | none => exact h
  | some run =>
      obtain ⟨hfound, htenant⟩ := readRun_tenantId hrun
      simp only
      cases assertTransition run.state state with
      | error message => exact h
      | ok =>
          exact (h.move_other hfound (htenant ▸ hother) state event).audit_other hother _ _ _

theorem mine (h : Share tenantId past store own) (howns : FindsOwnRun past store call)
    (hfresh : DrawsFresh past call) (hmine : call.tenantId = tenantId) :
    (answerCall store call).1 = (answerCall own call).1 ∧
      Share tenantId (past ++ [call]) (answerCall store call).2 (answerCall own call).2 := by
  cases hrequest : call.request.call with
  | createWorkflow definition =>
      simp only [answerCall, answer, hrequest]
      exact ⟨rfl, h.createWorkflow_mine _ hmine definition _⟩
  | createRun create idempotencyKey =>
      rw [FindsOwnRun, hrequest] at howns
      obtain ⟨hanswer, hshare⟩ := h.createRun_mine hfresh
        ⟨call.tenantId, call.request.role, call.request.subject⟩ hmine create idempotencyKey
        call.request.now (hmine ▸ howns)
      simp only [answerCall, answer, hrequest]
      exact ⟨by rw [hanswer], hshare⟩
  | readRun runId =>
      simp only [answerCall, answer, hrequest]
      rw [h.readRun_eq hmine]
      exact ⟨rfl, h.more call⟩
  | transition runId state event =>
      obtain ⟨hanswer, hshare⟩ := (h.more call).transition_mine
        ⟨call.tenantId, call.request.role, call.request.subject⟩ hmine runId state event
        call.request.now
      simp only [answerCall, answer, hrequest]
      exact ⟨by rw [hanswer], hshare⟩
  | listAudit =>
      simp only [answerCall, answer, hrequest, listAudit]
      refine ⟨?_, h.more call⟩
      simp [h.audits, hmine]

theorem other (h : Share tenantId past store own) (hfresh : DrawsFresh past call)
    (hother : call.tenantId ≠ tenantId) :
    Share tenantId (past ++ [call]) (answerCall store call).2 own := by
  cases hrequest : call.request.call with
  | createWorkflow definition =>
      simp only [answerCall, answer, hrequest]
      exact h.createWorkflow_other hfresh _ hother definition _
  | createRun create idempotencyKey =>
      simp only [answerCall, answer, hrequest]
      exact h.createRun_other hfresh _ hother create idempotencyKey _
  | readRun runId =>
      simp only [answerCall, answer, hrequest]
      exact h.more call
  | transition runId state event =>
      simp only [answerCall, answer, hrequest]
      exact (h.more call).transition_other _ hother runId state event _
  | listAudit =>
      simp only [answerCall, answer, hrequest]
      exact h.more call

end Share

/-! ## Sequences of calls -/

/-- Distinct draws, one call at a time. -/
theorem along_drawsFresh {C : List TenantCall → InMemoryDurableStore → TenantCall → Prop}
    {past calls : List TenantCall} {store : InMemoryDurableStore}
    (hfresh : ((past ++ calls).map fun call => call.request.id).Nodup)
    (h : Along answerCall C past store calls) :
    Along answerCall (fun past store call => C past store call ∧ DrawsFresh past call) past store
      calls := by
  induction calls generalizing past store with
  | nil => trivial
  | cons call calls ih =>
      obtain ⟨hcall, hrest⟩ := h
      refine ⟨⟨hcall, ?_⟩, ih (by simpa using hfresh) hrest⟩
      intro earlier hearlier hsame
      rw [List.map_append, List.nodup_append] at hfresh
      exact hfresh.2.2 _ (List.mem_map_of_mem hearlier) _ (by simp) hsame

/--
Tenants are isolated exactly in the sequences in which no creation finds, under
its joined key, the run of another tenant.
-/
theorem tenantsIsolated_iff {calls : List TenantCall}
    (hfresh : (calls.map fun call => call.request.id).Nodup) :
    TenantsIsolated calls ↔ Along answerCall FindsOwnRun [] empty calls := by
  constructor
  · rintro ⟨hanswers, -⟩
    apply along_of_answers _ hanswers
    intro past store call hanswer
    exact findsOwnRun_answerOf hanswer
  · intro hown
    constructor
    · apply answers_of_along _ hown
      intro past store call hcall
      exact answerOf_findsOwnRun hcall
    · intro tenantId
      refine answersTo_eq ?_ ?_ (share_empty tenantId)
        (along_drawsFresh (by simpa using hfresh) hown)
      · intro past store own call hshare hcall hmine
        exact hshare.mine hcall.1 hcall.2 (by simpa using hmine)
      · intro past store own call hshare hcall hother
        exact hshare.other hcall.2 (by simpa using hother)

/-! ## A joined key of two tenants -/

def demoWorkflow : WorkflowDefinition := ⟨"1", "demo", "v1", [.tool .mockDataRead false], 100, []⟩

def createdBy (tenantId idempotencyKey : String) (workflowId id : Uuid) : TenantCall :=
  ⟨tenantId, .owner, "owner", .createRun ⟨workflowId.text, .null, none⟩ idempotencyKey, id, 0⟩

def definedBy (tenantId : String) (id : Uuid) : TenantCall :=
  ⟨tenantId, .owner, "owner", .createWorkflow demoWorkflow, id, 0⟩

/-- Two tenants use one idempotency key, each for a workflow of its own. -/
def sameKey : List TenantCall :=
  [definedBy "acme" 1, definedBy "initech" 2, createdBy "acme" "idempotency-key-1" 1 3,
    createdBy "initech" "idempotency-key-1" 2 4]

/-- The key of the second tenant takes up the rest of the first one's name. -/
def sameJoinedKey : List TenantCall :=
  [definedBy "acme:eu" 1, createdBy "acme:eu" "idempotency-key-1" 1 2,
    createdBy "acme" "eu:idempotency-key-1" 1 3]

theorem sameKey_tenantsIsolated : TenantsIsolated sameKey := by
  apply (tenantsIsolated_iff (by decide)).mpr
  refine @along_of_test _ _ _ _ _ (fun past store call => decide (FindsOwnRun past store call))
    ?_ _ _ _ ?_
  · intro past store call htest
    exact of_decide_eq_true htest
  · decide +kernel

theorem not_tenantsIsolated :
    ¬∀ calls : List TenantCall, (calls.map fun call => call.request.id).Nodup →
      TenantsIsolated calls := by
  intro hall
  obtain ⟨-, halone⟩ := hall sameJoinedKey (by decide)
  have hsame := congrArg (List.map Except.isOk) (halone "acme")
  revert hsame
  decide +kernel

end DurableRuntime.InMemoryDurableStore
