import DurableRuntime.ControlPlane.Stores
import DurableRuntime.Drafts
import DurableRuntime.Quota

/-!
# Serializability

Requests run side by side, statement by statement, yet each that commits leaves
the tables and gives the answer of `PostgresDurableStore` called at that moment,
alone.  Its locks keep what it has read: the row it moves, the key, handle and
quota of the run it creates, and the events it returns.  Only a worker that
makes an ended run active again can spoil the count behind a quota.
-/

namespace DurableRuntime

open DurableRuntime.Foundation

/-! ## What a creation relies on -/

/-- An update makes no run active that has ended. -/
def EndedKept (env : Env) (s : State) (a : Action) : Prop :=
  ∀ s' id row row', next env s a = some s' → s.db.run? id = some row →
    s'.db.run? id = some row' → row'.state.isActive = true → row.state.isActive = true

/-- The definition that a creation has found, with the budget that it copies from it. -/
def ControlPlane.Pc.budget? : ControlPlane.Pc → Option (Uuid × Nat)
  | .createInsert create _ budgetCents => some (create.workflowId, budgetCents)
  | pc => pc.writes?.bind fun writes =>
      writes.run.inserted?.map fun row => (row.workflowId, row.budgetCents)

/-- What the sessions have read is still so. -/
structure Supported (env : Env) (s : State) : Prop where
  limits : ∀ (index : Nat) (session : ControlPlane.Session) limits,
    s.calls[index]? = some session → session.pc.limits? = some limits →
      s.db.limits? session.principal.tenantId = some limits
  room : ∀ (index : Nat) (session : ControlPlane.Session) now, s.calls[index]? = some session →
    session.pc.counted? = some now →
      ∃ limits, s.db.limits? session.principal.tenantId = some limits ∧
        ControlPlane.quotaError env s.toShared now limits session.principal.tenantId = none
  budgets : ∀ (index : Nat) (session : ControlPlane.Session) workflowId budgetCents,
    s.calls[index]? = some session → session.pc.budget? = some (workflowId, budgetCents) →
      ∃ definition, s.db.definition? workflowId = some definition ∧
        definition.tenantId = session.principal.tenantId ∧ definition.budgetCents = budgetCents
  inputs : ∀ (index : Nat) (session : ControlPlane.Session) create,
    s.calls[index]? = some session → session.pc.writes?.isSome = true →
      session.request = .createRun create →
        PostgresDurableStore.jsonError env create.input = none
  responses : ∀ (index : Nat) (session : ControlPlane.Session) writes run,
    s.calls[index]? = some session → session.pc = .commit writes run →
      run = ControlPlane.readRunInTransaction (s.db.events ++ writes.event.toList)
        session.principal.tenantId writes.run.row

namespace ControlPlane

variable {env : Env} {s : Shared} {choice : Uuid} {session moved : Session} {pc pc' : Pc}
  {effect : Effect}

theorem PcMove.budget (hmove : PcMove env s choice session pc pc' effect) {workflowId : Uuid}
    {budgetCents : Nat} (h : pc'.budget? = some (workflowId, budgetCents)) :
    effect.commit? = none ∧ (pc.budget? = some (workflowId, budgetCents) ∨
      ∃ definition, s.db.definition? workflowId = some definition ∧
        definition.tenantId = session.principal.tenantId ∧
          definition.budgetCents = budgetCents) := by
  cases hmove with
  | approve =>
      unfold startTransition at h
      repeat' split at h
      all_goals cases h
  | cancel =>
      unfold startTransition at h
      repeat' split at h
      all_goals cases h
  | readRun =>
      unfold readRunCheck at h
      repeat' split at h
      all_goals cases h
  | workflowFound hworkflow =>
      cases h
      obtain ⟨hfound, htenant⟩ := Option.filter_eq_some_iff.mp hworkflow
      exact ⟨rfl, .inr ⟨_, hfound, of_decide_eq_true htenant, rfl⟩⟩
  | inserted => exact ⟨rfl, .inl h⟩
  | transitionUpdate => cases h
  | eventQueued => exact ⟨rfl, .inl h⟩
  | eventUnqueued => exact ⟨rfl, .inl h⟩
  | queueOutbox => exact ⟨rfl, .inl h⟩
  | audit => exact ⟨rfl, .inl h⟩
  | readEvents => exact ⟨rfl, .inl h⟩
  | _ => cases h

theorem Turn.budget (hturn : Turn env s session moved effect) {workflowId : Uuid}
    {budgetCents : Nat} (h : moved.pc.budget? = some (workflowId, budgetCents)) :
    effect.commit? = none ∧ (session.pc.budget? = some (workflowId, budgetCents) ∨
      ∃ definition, s.db.definition? workflowId = some definition ∧
        definition.tenantId = session.principal.tenantId ∧
          definition.budgetCents = budgetCents) := by
  cases hturn with
  | error => cases h
  | move hmove =>
      cases hmove with
      | inner hmove => exact hmove.budget h
      | start hpc hrequest hstart =>
          cases startCreate_start hstart with
          | _ => cases h

/-- A creation writes nothing before `jsonb` has taken its input. -/
theorem PcMove.inputs (hmove : PcMove env s choice session session.pc pc effect)
    (hasked : Asked session) (hshape : Shaped session) (h : pc.writes?.isSome = true)
    {create : CreateRun} (hrequest : session.request = .createRun create) :
    session.pc.writes?.isSome = true ∨
      PostgresDurableStore.jsonError env create.input = none := by
  unfold Asked at hasked
  unfold Shaped at hshape
  generalize session.pc = old at hmove hasked hshape
  cases hmove with
  | inserted hfree habsent hinsertable hinput =>
      cases hrequest.symm.trans hshape
      exact .inr hinput
  | transitionUpdate =>
      rw [hrequest] at hasked
      cases hasked
  | approve =>
      rw [(startTransition_idle _ _ _).2] at h
      cases h
  | cancel =>
      rw [(startTransition_idle _ _ _).2] at h
      cases h
  | readRun =>
      rw [(readRunCheck_idle _ _ _).2] at h
      cases h
  | _ => first | exact .inl rfl | cases h

/-- The response is read in the statement before the commit. -/
theorem Turn.reads (hturn : Turn env s session moved effect) {writes : Writes} {run : StoredRun}
    (hpc : moved.pc = .commit writes run) :
    effect = .none ∧ run = readRunInTransaction (s.db.events ++ writes.event.toList)
      session.principal.tenantId writes.run.row := by
  cases hturn with
  | error => cases hpc
  | move hmove =>
      cases hmove with
      | start hroute hrequest hstart =>
          cases startCreate_start hstart with
          | _ => cases hpc
      | inner hmove =>
          generalize session.pc = old at hmove
          cases hmove with
          | approve =>
              simp only [startTransition] at hpc
              repeat' split at hpc
              all_goals cases hpc
          | cancel =>
              simp only [startTransition] at hpc
              repeat' split at hpc
              all_goals cases hpc
          | readRun =>
              simp only [readRunCheck] at hpc
              repeat' split at hpc
              all_goals cases hpc
          | readEvents =>
              cases hpc
              exact ⟨rfl, rfl⟩
          | _ => cases hpc

/-- Events of other runs do not show in a run. -/
theorem readRunInTransaction_append {events new own : List EventRow} {tenantId : Uuid}
    {row : RunRow} (hother : ∀ event ∈ new, event.runId ≠ row.id) :
    readRunInTransaction (events ++ new ++ own) tenantId row =
      readRunInTransaction (events ++ own) tenantId row := by
  have hnone : (new.filter fun event => event.tenantId = tenantId).filter
      (fun event => event.runId = row.id) = [] := by
    rw [List.filter_eq_nil_iff]
    intro event hmem
    simpa using hother event (List.mem_filter.mp hmem).1
  simp only [readRunInTransaction, eventsOf, List.filter_append, hnone, List.append_nil]

end ControlPlane

section

variable {env : Env} {s s' : State} {a : Action} {h : History State Action}

theorem quotaError_mono {s s' : Shared} {now : Int} {limits : LimitsRow} {tenantId : Uuid}
    (hactive : ControlPlane.activeRuns s' tenantId ≤ ControlPlane.activeRuns s tenantId)
    (htoday : ControlPlane.runsToday env s' now tenantId ≤
      ControlPlane.runsToday env s now tenantId)
    (h : ControlPlane.quotaError env s now limits tenantId = none) :
    ControlPlane.quotaError env s' now limits tenantId = none := by
  obtain ⟨hmax, hday⟩ := quotaError_none h
  rw [ControlPlane.quotaError, if_neg (by omega), if_neg (by omega)]

/-- A run that does not get a new row counts no more than before. -/
theorem quotaError_next (run : Run env h s) (hended : EndedKept env s a)
    (hnext : next env s a = some s') {tenantId : Uuid}
    (hinserted : ∀ row, (commitOf env s a).bind Commit.inserted? = some row →
      row.tenantId ≠ tenantId) {now : Int} {limits : LimitsRow}
    (hquota : ControlPlane.quotaError env s.toShared now limits tenantId = none) :
    ControlPlane.quotaError env s'.toShared now limits tenantId = none := by
  have hnodup := (run_runsKeyed run).ids
  have hids := runIds_next hnext
  have sameTest : ∀ {test : RunRow → Bool},
      (∀ row : RunRow, test row = true → row.tenantId = tenantId) →
      (∀ id row row', s.db.run? id = some row → s'.db.run? id = some row' →
        test row' = true → test row = true) → s'.db.runs.countP test ≤ s.db.runs.countP test := by
    intro test htenant htest
    cases hrow : (commitOf env s a).bind Commit.inserted? with
    | none =>
        rw [hrow] at hids
        exact Table.countP_le_of_keys hnodup (by simpa using hids) htest
    | some row =>
        obtain ⟨index, choice, session, writes, stored, rfl, hcommit, hcall, hpc, hwrite⟩ :=
          inserted_commits hrow
        obtain ⟨events, outbox, audits, hdb⟩ := next_db hnext
        rw [hcommit] at hdb
        obtain ⟨write, event, queued, audit⟩ := writes
        cases hwrite
        have hruns : s'.db.runs = s.db.runs ++ [row] := by rw [hdb]; rfl
        have hfalse : test row = false := by
          rw [Bool.eq_false_iff]
          exact fun hcounted => hinserted row hrow (htenant row hcounted)
        rw [hruns, List.countP_append, List.countP_singleton, hfalse]
        exact Nat.le_refl _
  refine quotaError_mono ?_ ?_ hquota
  · refine sameTest (by simp +contextual) ?_
    intro id row row' hrow hrow' hcounted
    simp only [Bool.and_eq_true, decide_eq_true_eq] at hcounted ⊢
    rw [← (sameRequest_next hnext hrow hrow').tenantId]
    exact ⟨hcounted.1, hended s' id row row' hnext hrow hrow' hcounted.2⟩
  · refine sameTest (by simp +contextual) ?_
    intro id row row' hrow hrow' hcounted
    have hsame := sameRequest_next hnext hrow hrow'
    rwa [← hsame.tenantId, ← hsame.createdAt]

/-- The session of an insertion counts its run, for the tenant of the row. -/
theorem counted_of_inserted (sound : Sound s) {row : RunRow}
    (hinserted : (commitOf env s a).bind Commit.inserted? = some row) :
    ∃ index session, actor a = some (.call index) ∧ s.calls[index]? = some session ∧
      session.principal.tenantId = row.tenantId ∧
        session.pc.counted? = some row.createdAt := by
  obtain ⟨index, choice, session, writes, stored, rfl, -, hcall, hpc, hwrite⟩ :=
    inserted_commits hinserted
  refine ⟨index, session, rfl, hcall, ?_, ?_⟩
  · obtain ⟨create, id, now, budgetCents, -, rfl⟩ := sound.insert_eq hcall hpc hwrite
    rfl
  · obtain ⟨write, event, queued, audit⟩ := writes
    cases hwrite
    rw [hpc]
    rfl

theorem Supported.room_next (run : Run env h s) (supported : Supported env s)
    (hended : EndedKept env s a) (hnext : next env s a = some s') {index : Nat}
    {session : ControlPlane.Session} {now : Int} (hcall : s'.calls[index]? = some session)
    (hcounted : session.pc.counted? = some now) :
    ∃ limits, s'.db.limits? session.principal.tenantId = some limits ∧
      ControlPlane.quotaError env s'.toShared now limits session.principal.tenantId = none := by
  have sound := run_sound run
  simp only [limits?_next hnext]
  cases call_case hnext hcall with
  | joined => cases hcounted
  | kept hold hactor =>
      obtain ⟨limits, hlimits, hquota⟩ := supported.room index session now hold hcounted
      refine ⟨limits, hlimits, quotaError_next run hended hnext ?_ hquota⟩
      intro row hinserted htenant
      obtain ⟨other, twin, hactor', htwin, hsame, hcounted'⟩ := counted_of_inserted sound hinserted
      -- both would hold the lock on the limits
      have hmine := sound.locked.calls index session hold _ (ControlPlane.held_of_counted hcounted)
      have hother := sound.locked.calls other twin htwin _ (ControlPlane.held_of_counted hcounted')
      rw [hsame, htenant, hmine, Option.some.injEq] at hother
      exact hactor (hother ▸ hactor')
  | @turned old _ effect hold hactor hcommit hturn hstate =>
      obtain ⟨hquiet, hfound⟩ := hturn.counted hcounted
      rw [hturn.same.1]
      have hnone : ∀ row, (commitOf env s a).bind Commit.inserted? = some row →
          row.tenantId ≠ old.principal.tenantId := by simp [hcommit, hquiet]
      rcases hfound with hmine | ⟨create, limits, hpc, hquota⟩
      · obtain ⟨limits, hlimits, hquota⟩ := supported.room index old now hold hmine
        exact ⟨limits, hlimits, quotaError_next run hended hnext hnone hquota⟩
      · exact ⟨limits, supported.limits index old limits hold (by rw [hpc]; rfl),
          quotaError_next run hended hnext hnone hquota⟩

theorem definition?_next (hnext : next env s a = some s') {id : Uuid} {definition : DefinitionRow}
    (hfound : s.db.definition? id = some definition) : s'.db.definition? id = some definition :=
  Table.lookup_of_prefix (next_extends hnext).definitions hfound

theorem Supported.responses_next (run : Run env h s) (supported : Supported env s)
    (hnext : next env s a = some s') {index : Nat} {session : ControlPlane.Session}
    {writes : Writes} {stored : ControlPlane.StoredRun} (hcall : s'.calls[index]? = some session)
    (hpc : session.pc = .commit writes stored) :
    stored = ControlPlane.readRunInTransaction (s'.db.events ++ writes.event.toList)
      session.principal.tenantId writes.run.row := by
  have sound := run_sound run
  have hevents := events_next hnext
  cases call_case hnext hcall with
  | joined => cases hpc
  | @turned old _ effect hold hactor hcommit hturn hstate =>
      obtain ⟨rfl, hread⟩ := hturn.reads hpc
      rw [hcommit] at hevents
      rw [hread, hturn.same.1, hevents]
      simp [Effect.commit?]
  | kept hold hactor =>
      have hwrites : session.pc.writes? = some writes := by rw [hpc]; rfl
      have hlock := sound.locked.call_writes hold hwrites
      rw [supported.responses index session writes stored hold hpc, hevents]
      cases hcommit : commitOf env s a with
      | none => simp
      | some change =>
          have hother := subject_of_lock sound.locked sound.shaped hlock hactor hcommit
          have hapart : ∀ event ∈ change.newEvents, event.runId ≠ writes.run.row.id := by
            intro event hevent heq
            have hsubject := ((run_numbered run).logged hcommit hevent).1
            exact hother (heq ▸ hsubject)
          exact (ControlPlane.readRunInTransaction_append hapart).symm

theorem Supported.next (run : Run env h s) (supported : Supported env s)
    (hended : EndedKept env s a) (hnext : next env s a = some s') : Supported env s' where
  limits := by
    intro index session limits hcall hread
    rw [limits?_next hnext]
    cases call_case hnext hcall with
    | kept hold hactor => exact supported.limits index session limits hold hread
    | joined => cases hread
    | turned hold hactor hcommit hturn hstate =>
        rw [hturn.same.1]
        exact (hturn.readLimits hread).2
  room := fun index session now hcall => supported.room_next run hended hnext hcall
  budgets := by
    intro index session workflowId budgetCents hcall hbudget
    cases call_case hnext hcall with
    | joined => cases hbudget
    | kept hold hactor =>
        obtain ⟨definition, hfound, htenant⟩ :=
          supported.budgets index session workflowId budgetCents hold hbudget
        exact ⟨definition, definition?_next hnext hfound, htenant⟩
    | @turned old _ effect hold hactor hcommit hturn hstate =>
        rw [hturn.same.1]
        obtain ⟨definition, hfound, htenant⟩ := (hturn.budget hbudget).2.elim
          (supported.budgets index old workflowId budgetCents hold) id
        exact ⟨definition, definition?_next hnext hfound, htenant⟩
  inputs := by
    intro index session create hcall hwrites hrequest
    cases call_case hnext hcall with
    | kept hold hactor => exact supported.inputs index session create hold hwrites hrequest
    | joined => cases hwrites
    | @turned old _ effect hold hactor hcommit hturn hstate =>
        rw [hturn.same.2] at hrequest
        cases hturn with
        | error => cases hwrites
        | move hmove =>
            cases hmove with
            | start hpc hroute hstart =>
                cases ControlPlane.startCreate_start hstart with
                | _ => cases hwrites
            | inner hmove =>
                refine (hmove.inputs (run_asked run index old hold)
                  ((run_shaped run).calls index old hold) hwrites hrequest).elim ?_ id
                exact fun hmine => supported.inputs index old create hold hmine hrequest
  responses := fun index session writes stored hcall => supported.responses_next run hnext hcall

theorem run_supported (run : Run env h s) (hended : Within (fun _ => EndedKept env) h) :
    Supported env s := by
  refine run.always_within ?_ (fun run supported hended hnext =>
    supported.next run hended hnext) hended
  intro s hs
  constructor <;> simp [hs.calls]

end

/-! ## One call at a time -/

/-- The tables with other next values of their identity columns. -/
def Db.numbered (db : Db) (event outbox audit : Nat) : Db :=
  { db with nextEventId := event, nextOutboxId := outbox, nextAuditId := audit }

/-- The tables agree; the next identity values may differ. -/
def Db.SameTables (db db' : Db) : Prop := db.numbered 0 0 0 = db'.numbered 0 0 0

namespace ControlPlane

/--
The store call that a handler makes for its request; the input stands for every
value that `JSON.stringify` writes as the text that the handler has.
-/
def Request.storeCall (handle : Option Uuid) (now : Int) : Request → RuntimeStore.Call
  | .createRun create =>
      .createRun ⟨create.workflowId.text, .ofJson create.input, handle⟩ create.idempotencyKey
  | .approve runId =>
      .transition runId approveArgs.state ⟨now, approveArgs.eventType, approveArgs.detail⟩
  | .cancel runId =>
      .transition runId cancelArgs.state ⟨now, cancelArgs.eventType, cancelArgs.detail⟩

def Session.storeRequest (session : Session) (id : Uuid) (now : Int) : RuntimeStore.Request :=
  ⟨session.principal.role, session.principal.subject,
    session.request.storeCall session.handle now, id, now⟩

def Response.answer : Response → RuntimeStore.Answer
  | .created stored replayed => .ok (.created (PostgresDurableStore.toStoredRun stored) replayed)
  | .run stored => .ok (.run (PostgresDurableStore.toStoredRun stored))
  | .error _ message => .error message

/-- The idempotency key has no NUL character, which no header can carry. -/
def Request.Storable : Request → Prop
  | .createRun create => PostgresDurableStore.isText create.idempotencyKey = true
  | .approve _ | .cancel _ => True

end ControlPlane

namespace PostgresDurableStore

open ControlPlane (eventRow outboxRow auditRow newRun handleUnused quotaError)

theorem runError_none {s : Shared} {row : RunRow}
    (hlength : 16 ≤ row.idempotencyKey.length ∧ row.idempotencyKey.length ≤ 128)
    (hfresh : s.db.run? row.id = none)
    (hhandle : ∀ handle, row.providerCredentialHandle = some handle →
      handleUnused s handle = true) : runError s row = none := by
  have hused : row.providerCredentialHandle.any (fun handle => !handleUnused s handle) = false := by
    rw [Option.any_eq_false]
    intro handle hsome
    rw [hhandle handle hsome]
    rfl
  rw [runError, hfresh, hused]
  simp [hlength]

/-- What a creation leaves that finds its key unused, room in its quota and its workflow. -/
theorem createRun_stores {env : Env} {s : Shared} {principal : ControlPlane.Principal}
    {create : ControlPlane.CreateRun} {handle : Option Uuid} {id : Uuid} {limits : LimitsRow}
    {definition : DefinitionRow} {row : RunRow} (htext : isText create.idempotencyKey = true)
    (hjson : jsonError env create.input = none)
    (habsent : s.db.runByKey? principal.tenantId create.idempotencyKey = none)
    (hlimits : s.db.limits? principal.tenantId = some limits)
    (hquota : quotaError env s s.clock limits principal.tenantId = none)
    (hdefinition : s.db.definition? create.workflowId = some definition)
    (htenant : definition.tenantId = principal.tenantId)
    (hrow : row = newRun principal.tenantId create handle id s.clock definition.budgetCents)
    (herror : runError s row = none) :
    createRun env s principal ⟨create.workflowId.text, .ofJson create.input, handle⟩
        create.idempotencyKey id =
      let db := (s.db.draw 1 1 1).commit (.request ⟨.insert row,
        some (eventRow s row s.clock .created "Run queued"), some (outboxRow s row),
        some (auditRow s principal s.clock "run.created" row.id)⟩)
      (.ok (readRunInTransaction db principal.tenantId row, false), { s with db }) := by
  have hid : definition.id = create.workflowId := Table.lookup_key hdefinition
  have hsame : newRun principal.tenantId
      ⟨definition.id, create.input, none, create.idempotencyKey⟩ handle id s.clock
      definition.budgetCents = row := by
    rw [hid, hrow]
    rfl
  have hqueued : queueRunOutbox s principal.tenantId row = .ok (outboxRow s row) := by
    rw [queueRunOutbox, if_pos]
    rw [hrow]
    exact ⟨rfl, rfl⟩
  have hfound : (s.db.definition? create.workflowId).filter
      (fun row => row.tenantId = principal.tenantId) = some definition := by
    rw [hdefinition, Option.filter_some, if_pos (decide_eq_true htenant)]
  simp only [createRun, htext, habsent, hlimits, hquota, ofText?_text, hfound, insertRun,
    JsValue.toJson_ofJson, hjson, hsame, herror, hqueued, Bool.not_true, Bool.false_eq_true,
    if_false]

/-- What an approval or a cancellation leaves that finds its run in a state it may leave. -/
theorem transition_stores {s : Shared} {principal : ControlPlane.Principal} {runId : String}
    {row : RunRow} {args : ControlPlane.TransitionArgs} (instant : Int)
    (hargs : args = ControlPlane.approveArgs ∨ args = ControlPlane.cancelArgs)
    (hid : Uuid.ofText? runId = some row.id) (hrow : s.db.run? row.id = some row)
    (htenant : row.tenantId = principal.tenantId)
    (hallowed : args.state ∈ allowedTransitions row.state) :
    transition s principal runId args.state ⟨instant, args.eventType, args.detail⟩ =
      let write := RunWrite.update row args.state args.approves s.clock
      let db := (s.db.draw 1 (if args.approves then 1 else 0) 1).commit (.request ⟨write,
        some (eventRow s write.row s.clock args.eventType args.detail),
        if args.approves then some (outboxRow s write.row) else none,
        some (auditRow s principal s.clock ("run." ++ args.eventType.text) row.id)⟩)
      (.ok (readRunInTransaction db principal.tenantId write.row), { s with db }) := by
  have hfound : ControlPlane.runOfTenant? s principal.tenantId row.id = some row := by
    rw [ControlPlane.runOfTenant?, hrow, Option.filter_some, if_pos (decide_eq_true htenant)]
  have hassert := assertTransition_ok.mpr hallowed
  have hdetail : detailError args.detail = none := by rcases hargs with rfl | rfl <;> decide
  simp only [transition, hid, hfound, hassert, updateRun, hdetail]
  rcases hargs with rfl | rfl
  · have hqueued : queueRunOutbox s principal.tenantId
        (RunWrite.update row ControlPlane.approveArgs.state true s.clock).row =
          .ok (outboxRow s
            (RunWrite.update row ControlPlane.approveArgs.state true s.clock).row) := by
      rw [queueRunOutbox, if_pos ⟨htenant, rfl⟩]
    have happroved : queueApproved s principal.tenantId ControlPlane.approveArgs
        (RunWrite.update row ControlPlane.approveArgs.state true s.clock).row =
          .ok (some (outboxRow s
            (RunWrite.update row ControlPlane.approveArgs.state true s.clock).row)) := by
      rw [queueApproved, hqueued]
      rfl
    rw [show ControlPlane.approveArgs.approves = true from rfl, happroved]
    rfl
  · rfl

end PostgresDurableStore

/-- The request, called alone on the tables of this moment, answers this and commits these rows. -/
def CallsAlone (env : Env) (s : Shared) (session : ControlPlane.Session)
    (response : ControlPlane.Response) (writes : Writes) : Prop :=
  ∃ id now event outbox audit, ∃ alone : Shared,
    PostgresDurableStore.answer env session.principal.tenantId
        { s with db := s.db.numbered event outbox audit } (session.storeRequest id now) =
      (response.answer, alone) ∧ alone.db.SameTables (s.db.commit (.request writes))

section

variable {env : Env} {s s' : State} {a : Action} {h : History State Action} {index : Nat}
  {session : ControlPlane.Session} {writes : Writes} {stored : ControlPlane.StoredRun}

theorem sameTables_request (db : Db) (writes : Writes) (numbers drawn : Nat × Nat × Nat) :
    (((db.numbered numbers.1 numbers.2.1 numbers.2.2).draw drawn.1 drawn.2.1 drawn.2.2).commit
      (.request writes)).SameTables (db.commit (.request writes)) := by
  obtain ⟨write, row, queued, record⟩ := writes
  cases write <;> rfl

theorem created_alone (run : Run env h s) (supported : Supported env s)
    (hcall : s.calls[index]? = some session) (hpc : session.pc = .commit writes stored)
    {create : ControlPlane.CreateRun} (hrequest : session.request = .createRun create)
    (hstorable : session.request.Storable) :
    CallsAlone env s.toShared session (ControlPlane.response writes stored) writes := by
  have sound := run_sound run
  have hdrafts := run_drafted run index session hcall
  rw [ControlPlane.Drafts, hpc] at hdrafts
  obtain ⟨now, eventType, detail, event, outbox, audit, hopens, hwrites⟩ := hdrafts
  cases hwrite : writes.run with
  | update before state approved instant =>
      rw [hwrite] at hopens
      obtain ⟨-, -, args, hasks, -⟩ := hopens
      rw [hrequest] at hasks
      cases hasks
  | insert row =>
      rw [hwrite] at hopens hwrites
      obtain ⟨rfl, rfl, create', id, budgetCents, hrequest', hrow⟩ := hopens
      rw [hrequest] at hrequest'
      cases hrequest'
      rw [hrequest] at hstorable
      have hjson := supported.inputs index session create hcall (by rw [hpc]; rfl) hrequest
      obtain ⟨limits, hlimits, hquota⟩ := supported.room index session now hcall
        (by rw [hpc, hwrites, hrow]; rfl)
      obtain ⟨definition, hdefinition, htenant, rfl⟩ :=
        supported.budgets index session create.workflowId budgetCents hcall
          (by rw [hpc, hwrites, hrow]; rfl)
      obtain ⟨hfresh, habsent⟩ := sound.snapshots.inserts index session writes row hcall
        (by rw [hpc]; rfl) hwrite
      have hlength := ((run_fitting run).calls index session hcall).keys writes row
        (by rw [hpc]; rfl) hwrite
      have hresponse := supported.responses index session writes stored hcall hpc
      let view : Shared := { s.toShared with clock := now, db := s.db.numbered event outbox audit }
      have herror : PostgresDurableStore.runError view row = none :=
        PostgresDurableStore.runError_none hlength hfresh fun handle hhandle =>
          (handleUnused_of_insert run hcall hpc hwrite hhandle).2
      have hunused : view.db.runByKey? session.principal.tenantId create.idempotencyKey = none := by
        rw [hrow] at habsent
        exact habsent
      have hstores := PostgresDurableStore.createRun_stores (s := view) hstorable hjson hunused
        hlimits hquota hdefinition htenant hrow herror
      have hcalled : session.storeRequest id now =
          ⟨session.principal.role, session.principal.subject,
            .createRun ⟨create.workflowId.text, .ofJson create.input, session.handle⟩
              create.idempotencyKey, id, now⟩ := by
        rw [ControlPlane.Session.storeRequest, hrequest]
        rfl
      subst hwrites
      refine ⟨id, now, event, outbox, audit, { view with db := (view.db.draw 1 1 1).commit _ }, ?_,
        sameTables_request s.db _ (event, outbox, audit) (1, 1, 1)⟩
      rw [hcalled]
      refine (congrArg (fun result => (result.1.map fun created =>
        RuntimeStore.Result.created created.1 created.2, result.2)) hstores).trans ?_
      rw [hresponse]
      rfl

theorem transitioned_alone (run : Run env h s) (supported : Supported env s)
    (hcall : s.calls[index]? = some session) (hpc : session.pc = .commit writes stored)
    {before : RunRow} {state : RunState} {approved : Bool} {instant : Int}
    (hwrite : writes.run = .update before state approved instant) :
    CallsAlone env s.toShared session (ControlPlane.response writes stored) writes := by
  have sound := run_sound run
  have hdrafts := run_drafted run index session hcall
  rw [ControlPlane.Drafts, hpc] at hdrafts
  obtain ⟨now, eventType, detail, event, outbox, audit, hopens, hwrites⟩ := hdrafts
  rw [hwrite] at hopens hwrites
  obtain ⟨rfl, htenant, args, hasks, rfl, rfl, rfl, rfl, hallowed⟩ := hopens
  have hlocked : session.pc.lockedRow? = some before := by
    rw [hpc, hwrites]
    rfl
  have hrow := sound.snapshots.updates index session before hcall hlocked
  have hresponse := supported.responses index session writes stored hcall hpc
  let view : Shared :=
    { s.toShared with clock := instant, db := s.db.numbered event outbox audit }
  subst hwrites
  rw [hresponse]
  generalize hrequest : session.request = request at hasks
  cases hasks with
  | @approve text id hid =>
      have hstores := PostgresDurableStore.transition_stores (s := view) instant (.inl rfl) hid hrow
        htenant hallowed
      have hcalled : session.storeRequest 0 instant =
          ⟨session.principal.role, session.principal.subject,
            .transition text ControlPlane.approveArgs.state ⟨instant,
              ControlPlane.approveArgs.eventType, ControlPlane.approveArgs.detail⟩,
            0, instant⟩ := by
        rw [ControlPlane.Session.storeRequest, hrequest]
        rfl
      refine ⟨0, instant, event, outbox, audit,
        { view with db := (view.db.draw 1 1 1).commit _ }, ?_,
        sameTables_request s.db _ (event, outbox, audit) (1, 1, 1)⟩
      rw [hcalled]
      exact (congrArg (fun result => (result.1.map RuntimeStore.Result.run, result.2)) hstores)
  | @cancel text id hid =>
      have hstores := PostgresDurableStore.transition_stores (s := view) instant (.inr rfl) hid hrow
        htenant hallowed
      have hcalled : session.storeRequest 0 instant =
          ⟨session.principal.role, session.principal.subject,
            .transition text ControlPlane.cancelArgs.state ⟨instant,
              ControlPlane.cancelArgs.eventType, ControlPlane.cancelArgs.detail⟩, 0, instant⟩ := by
        rw [ControlPlane.Session.storeRequest, hrequest]
        rfl
      refine ⟨0, instant, event, outbox, audit,
        { view with db := (view.db.draw 1 0 1).commit _ }, ?_,
        sameTables_request s.db _ (event, outbox, audit) (1, 0, 1)⟩
      rw [hcalled]
      exact (congrArg (fun result => (result.1.map RuntimeStore.Result.run, result.2)) hstores)

/-- Every request that commits does what it does alone. -/
theorem request_alone (run : Run env h s) (hended : Within (fun _ => EndedKept env) h)
    (hcall : s.calls[index]? = some session) (hpc : session.pc = .commit writes stored)
    (hstorable : session.request.Storable) :
    CallsAlone env s.toShared session (ControlPlane.response writes stored) writes := by
  have supported := run_supported run hended
  cases hwrite : writes.run with
  | insert row =>
      obtain ⟨create, id, now, budgetCents, hrequest, -⟩ :=
        (run_sound run).insert_eq hcall hpc hwrite
      exact created_alone run supported hcall hpc hrequest hstorable
  | update before state approved instant =>
      exact transitioned_alone run supported hcall hpc hwrite

theorem createWorkflow_alone {principal : ControlPlane.Principal} {id : Uuid} {body : Json}
    {workflow : WorkflowDefinition} (hschema : workflowDefinitionSchema body = some workflow)
    (hheld : definitionHeld env (definitionRow principal id workflow) = true)
    (hinsertable : definitionInsertable s.db (definitionRow principal id workflow) = true) :
    PostgresDurableStore.answer env principal.tenantId s.toShared
        ⟨principal.role, principal.subject, .createWorkflow workflow, id, s.clock⟩ =
      (.ok (.workflow ⟨id.text, principal.tenantId.text, workflow, s.clock⟩),
        { s.toShared with
          db := (s.db.draw 0 0 1).commit (.createWorkflow (definitionRow principal id workflow)
            (ControlPlane.auditRow s.toShared principal s.clock "workflow.created" id)) }) := by
  have hversion : isVersion (definitionRow principal id workflow).version = true :=
    Accepted.version ⟨body, hschema⟩
  have hnone : PostgresDurableStore.definitionError env s.db
      (definitionRow principal id workflow) = none := by
    rw [definitionHeld, Bool.and_eq_true] at hheld
    rw [PostgresDurableStore.definitionError, hheld.1, hheld.2, hversion, hinsertable]
    rfl
  simp only [PostgresDurableStore.answer, PostgresDurableStore.createWorkflow, hnone]
  rfl

end

end DurableRuntime
