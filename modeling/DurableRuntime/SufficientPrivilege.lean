import DurableRuntime.ComponentStatements
import DurableRuntime.Scenario

/-!
# Privileges that suffice

Grants and policies change nothing about what the components send: no statement
is refused for them, selects and locks meet the rows that they would meet
without them, and every commit is what its statements do.
-/

namespace DurableRuntime

open DurableRuntime.Foundation

/-! ## Transparent queries -/

/-- The query returns and does what it would without grants and policies. -/
def Query.Transparent (role : DatabaseRole) (setting : Option Uuid) (db : Db) : Query → Prop
  | .definitions statement =>
      statement.run Protection.definitions role setting db.definitions =
        some (statement.effect db.definitions)
  | .limits statement =>
      statement.run Protection.limits role setting db.limits = some (statement.effect db.limits)
  | .principals statement =>
      statement.run Protection.principals role setting db.principals =
        some (statement.effect db.principals)
  | .runs statement =>
      statement.run Protection.runs role setting db.runs = some (statement.effect db.runs)
  | .events statement =>
      statement.run Protection.events role setting db.events = some (statement.effect db.events)
  | .stepResults statement =>
      statement.run Protection.stepResults role setting db.stepResults =
        some (statement.effect db.stepResults)
  | .effects statement =>
      statement.run Protection.effects role setting db.effects =
        some (statement.effect db.effects)
  | .outbox statement =>
      statement.run Protection.outbox role setting db.outbox = some (statement.effect db.outbox)
  | .audits statement =>
      statement.run Protection.audits role setting db.audits = some (statement.effect db.audits)
  | .queueRunOutbox calls =>
      role = .control ∧ db.queueRunOutboxes setting calls =
        some { db with
          outbox := db.outbox ++ calls.map fun call => .queued call.1 call.2.1 call.2.2 }

/-- The tables after the query, without grants and policies. -/
def Query.after (db : Db) : Query → Db
  | .definitions statement => { db with definitions := (statement.effect db.definitions).2 }
  | .limits statement => { db with limits := (statement.effect db.limits).2 }
  | .principals statement => { db with principals := (statement.effect db.principals).2 }
  | .runs statement => { db with runs := (statement.effect db.runs).2 }
  | .events statement => { db with events := (statement.effect db.events).2 }
  | .stepResults statement => { db with stepResults := (statement.effect db.stepResults).2 }
  | .effects statement => { db with effects := (statement.effect db.effects).2 }
  | .outbox statement => { db with outbox := (statement.effect db.outbox).2 }
  | .audits statement => { db with audits := (statement.effect db.audits).2 }
  | .queueRunOutbox calls =>
      { db with outbox := db.outbox ++ calls.map fun call => .queued call.1 call.2.1 call.2.2 }

section

variable (db : Db)

theorem after_updateRun (assignment : Assignment runColumns) (reads : List RunColumn) (id : Uuid) :
    (Query.updateRun assignment reads id).after db = db.updateRun id assignment.set := by
  simp [Query.updateRun, Query.after, Statement.effect, Db.updateRun, Table.modify]

theorem after_insertEvents (rows : List EventRow) :
    (Query.insertEvents rows).after db = { db with events := db.events ++ rows } := rfl

theorem after_updateOutbox (ids : List Nat) (f : OutboxRow → OutboxRow) :
    (Query.updateOutbox ids f).after db = db.updateOutbox ids f := by
  simp [Query.updateOutbox, Query.updateWhere, Query.after, Statement.effect, Db.updateOutbox]

theorem after_insertStepResult (row : StepResultRow) :
    (Query.insertStepResult db row).after db = db.commit (.stepResult row) := by
  simp only [Query.insertStepResult, Query.insertInto, Query.after, Statement.effect, Db.commit,
    Table.insertIfAbsent]
  split <;> simp

theorem after_insertEffect (row : EffectRow) :
    (Query.insertEffect db row).after db = db.commit (.effect row) := by
  simp only [Query.insertEffect, Query.insertInto, Query.after, Statement.effect, Db.commit,
    Table.insertIfAbsent]
  split <;> simp

end

/-- The statements one after the other, as long as none is refused. -/
def Db.runAll (role : DatabaseRole) (setting : Option Uuid) (db : Db) (queries : List Query) :
    Option Db :=
  queries.foldlM (fun db query => (query.run role setting db).map Prod.snd) db

section

variable {role : DatabaseRole} {setting : Option Uuid} {db db' : Db} {query : Query}
  {queries rest : List Query}

theorem Query.Transparent.run (h : query.Transparent role setting db) :
    (query.run role setting db).map Prod.snd = some (query.after db) := by
  cases query with
  | queueRunOutbox calls => simp [Query.run, Query.after, h.1, h.2]
  | _ => simp only [Query.run, Query.after, Option.map_map, Query.Transparent] at h ⊢; rw [h]; rfl

theorem runAll_cons (h : query.Transparent role setting db) :
    db.runAll role setting (query :: queries) = (query.after db).runAll role setting queries := by
  simp [Db.runAll, h.run]

theorem runAll_append (h : db.runAll role setting queries = some db') :
    db.runAll role setting (queries ++ rest) = db'.runAll role setting rest := by
  unfold Db.runAll at h ⊢
  rw [List.foldlM_append, h]
  rfl

end

/-! ## Statements of a role -/

section

variable {κ ρ : Type} [DecidableEq κ] {table : TableProtection κ ρ} {tenantId : ρ → Uuid}
  {columns : Columns κ ρ} {rows : List ρ} {statement : Statement columns}

/-- A statement of the control plane that is about the tenant of its setting. -/
theorem TenantSecured.unhindered (h : TenantSecured table tenantId) {id : Uuid}
    (hauthorized : statement.authorized table .control = true)
    (hhits : ∀ row ∈ rows, statement.hits row = true → tenantId row = id)
    (hwritten : ∀ row ∈ statement.written rows, tenantId row = id) :
    statement.run table .control (some id) rows = some (statement.effect rows) := by
  refine Statement.Unhindered.run ⟨hauthorized, ?_, ?_⟩
  · intro row hrow hhit
    rw [h.visible, hhits row hrow hhit, decide_eq_true rfl]
  · intro row hrow
    rw [h.checked, hwritten row hrow, decide_eq_true rfl]

theorem worker_unhindered {setting : Option Uuid}
    (hpolicies : table.policies = [tenantPolicy tenantId, workerSystem])
    (hauthorized : statement.authorized table .worker = true) :
    statement.run table .worker setting rows = some (statement.effect rows) := by
  refine Statement.Unhindered.run ⟨hauthorized, ?_, ?_⟩
  · intro row _ _
    simp [Protection.visible, Protection.passes, hpolicies, workerSystem]
  · intro row _
    simp [Protection.checked, Protection.passes, hpolicies, workerSystem]

end

/-! ## The records of a transaction -/

section

variable {tenantId : Uuid} {db : Db}

theorem TenantSecured.inserts {ρ : Type} {table : TableProtection Unit ρ} {tenant : ρ → Uuid}
    (h : TenantSecured table tenant) {rows : List ρ} {row : ρ} (hrow : tenant row = tenantId)
    (hauthorized : (Query.insertInto [row]).authorized table .control = true) :
    (Query.insertInto [row]).run table .control (some tenantId) rows =
      some ((Query.insertInto [row]).effect rows) := by
  refine h.unhindered hauthorized (fun _ _ hhit => Bool.noConfusion hhit) ?_
  intro other hother
  rw [List.mem_singleton.mp hother, hrow]

theorem insertEvent_transparent {row : EventRow} (hrow : row.tenantId = tenantId) :
    (Query.insertEvents [row]).Transparent .control (some tenantId) db :=
  events_secured.inserts hrow rfl

theorem insertAudit_transparent {row : AuditRow} (hrow : row.tenantId = tenantId) :
    (Query.insertAudit row).Transparent .control (some tenantId) db :=
  audits_secured.inserts hrow rfl

theorem insertDefinition_transparent {row : DefinitionRow} (hrow : row.tenantId = tenantId) :
    (Query.insertDefinition row).Transparent .control (some tenantId) db :=
  definitions_secured.inserts hrow rfl

theorem queueRunOutbox_transparent {id : Nat} {runId : Uuid}
    (hrun : ∃ run ∈ db.runs, run.id = runId ∧ run.tenantId = tenantId ∧ run.state = .queued) :
    (Query.queueRunOutbox [(id, tenantId, runId)]).Transparent .control (some tenantId) db := by
  have hany : (db.runs.any fun run =>
      run.id = runId && run.tenantId = tenantId && run.state = .queued) = true := by
    obtain ⟨run, hmem, hid, htenant, hstate⟩ := hrun
    exact List.any_eq_true.mpr ⟨run, hmem, by simp [hid, htenant, hstate]⟩
  refine ⟨rfl, ?_⟩
  rw [Db.queueRunOutboxes, List.foldlM_cons, Db.queueRunOutbox, if_neg (by simp), if_pos hany]
  rfl

/-- What a transaction needs of its records: their tenant, and a queued run for its outbox row. -/
structure Writes.Permitted (db : Db) (tenantId : Uuid) (writes : Writes) : Prop where
  event : ∀ row, writes.event = some row → row.tenantId = tenantId
  outbox : ∀ row, writes.outbox = some row → row = .queued row.id tenantId row.runId ∧
    ∃ run ∈ db.runs, run.id = row.runId ∧ run.tenantId = tenantId ∧ run.state = .queued
  audit : ∀ row, writes.audit = some row → row.tenantId = tenantId

theorem runAll_recordQueries {writes : Writes} (permitted : writes.Permitted db tenantId) :
    db.runAll .control (some tenantId) writes.recordQueries =
      some { db with
        events := db.events ++ writes.event.toList
        outbox := db.outbox ++ writes.outbox.toList
        audits := db.audits ++ writes.audit.toList } := by
  obtain ⟨write, event, outbox, audit⟩ := writes
  have hevents : db.runAll .control (some tenantId)
      (event.toList.map fun row => .insertEvents [row]) =
        some { db with events := db.events ++ event.toList } := by
    cases event with
    | none => simp [Db.runAll]
    | some row => exact runAll_cons (insertEvent_transparent (permitted.event row rfl))
  have houtbox : ∀ events, Db.runAll .control (some tenantId) { db with events }
      (outbox.toList.map OutboxRow.query) =
        some { db with events, outbox := db.outbox ++ outbox.toList } := by
    intro events
    cases outbox with
    | none => simp [Db.runAll]
    | some row =>
        obtain ⟨hrow, hrun⟩ := permitted.outbox row rfl
        have htenant : row.tenantId = tenantId := by rw [hrow]; rfl
        have hqueued :=
          @queueRunOutbox_transparent tenantId { db with events } row.id row.runId hrun
        rw [← htenant] at hqueued hrow ⊢
        rw [Option.toList_some, List.map_singleton, OutboxRow.query, runAll_cons hqueued]
        simp only [Query.after, List.map_singleton, ← hrow]
        rfl
  have haudits : ∀ events outbox, Db.runAll .control (some tenantId) { db with events, outbox }
      (audit.toList.map .insertAudit) =
        some { db with events, outbox, audits := db.audits ++ audit.toList } := by
    intro events outbox
    cases audit with
    | none => simp [Db.runAll]
    | some row => exact runAll_cons (insertAudit_transparent (permitted.audit row rfl))
  rw [Writes.recordQueries, List.append_assoc, runAll_append hevents,
    runAll_append (houtbox _), haudits]

end

/-! ## Outbox rows of a request -/

namespace ControlPlane

/-- An outbox row is the one that `queue_run_outbox` inserts for the run. -/
def Pc.QueuesRun (pc : Pc) : Prop :=
  ∀ writes row, pc.writes? = some writes → writes.outbox = some row →
    row = .queued row.id writes.run.row.tenantId writes.run.row.id

theorem Turn.queuesRun {env : Env} {s : Shared} {session moved : Session} {effect : Effect}
    (hturn : Turn env s session moved effect) (h : session.pc.QueuesRun) : moved.pc.QueuesRun := by
  intro writes row hwrites hrow
  cases hturn with
  | error => cases hwrites
  | move hmove =>
      cases hmove with
      | start hpc hrequest hstart =>
          rw [(startCreate_idle hstart).2] at hwrites
          cases hwrites
      | inner hmove =>
          generalize session.pc = pc at hmove h
          cases hmove with
          | inserted =>
              cases hwrites
              cases hrow
          | transitionUpdate =>
              cases hwrites
              cases hrow
          | @eventQueued _ _ _ old =>
              cases hwrites
              exact h old row rfl hrow
          | @eventUnqueued _ _ _ old =>
              cases hwrites
              exact h old row rfl hrow
          | queueOutbox =>
              cases hwrites
              cases hrow
              rfl
          | audit _ _ old =>
              cases hwrites
              exact h old row rfl hrow
          | readEvents =>
              cases hwrites
              exact h _ row rfl hrow
          | approve => simp [startTransition_idle] at hwrites
          | cancel => simp [startTransition_idle] at hwrites
          | readRun => simp [readRunCheck_idle] at hwrites
          | _ => cases hwrites

end ControlPlane

section

variable {env : Env} {s : State} {a : Action} {h : History State Action} {change : Commit}

theorem run_queuesRun (run : Run env h s) (index : Nat) (session : ControlPlane.Session)
    (hcall : s.calls[index]? = some session) : session.pc.QueuesRun := by
  revert index session
  refine run.always (P := fun s => ∀ (index : Nat) (session : ControlPlane.Session),
    s.calls[index]? = some session → session.pc.QueuesRun) (fun s hs => by simp [hs.calls]) ?_
  intro h s a s' _ queues hnext index session hcall
  cases call_case hnext hcall with
  | kept hold => exact queues index _ hold
  | joined =>
      intro writes row hwrites
      cases hwrites
  | turned hold hactor hcommit hturn => exact hturn.queuesRun (queues index _ hold)

/-! ## Commits -/

/-- The row that an open transaction queues is in its tables, and waits for a worker. -/
theorem Sound.queued (sound : Sound s) {index : Nat} {session : ControlPlane.Session}
    {writes : Writes} {eventType : EventType} (hcall : s.calls[index]? = some session)
    (hwrites : session.pc.writes? = some writes)
    (hopened : ControlPlane.Opened session eventType writes.run)
    (hqueues : ControlPlane.queues eventType = true) :
    writes.run.row ∈ (s.db.writeRun writes.run).runs ∧ writes.run.row.state = .queued ∧
      writes.run.row.tenantId = session.principal.tenantId := by
  cases hwrite : writes.run with
  | insert new =>
      rw [hwrite] at hopened
      obtain ⟨-, create, id, now, budgetCents, -, rfl⟩ := hopened
      exact ⟨List.mem_append_right _ (List.mem_singleton.mpr rfl), rfl, rfl⟩
  | update before state approved now =>
      rw [hwrite] at hopened
      obtain ⟨args, hargs, rfl, rfl, rfl, -, htenant⟩ := hopened
      have hbefore : s.db.run? before.id = some before := by
        refine sound.snapshots.updates index session before hcall ?_
        rw [ControlPlane.lockedRow?_writes hwrites, hwrite]
      have hafter : (s.db.writeRun (.update before args.state args.approves now)).run? before.id =
          some (before.transition args.state args.approves now) := by
        rw [run?_writeRun, RunWrite.rowAfter, if_pos rfl, hbefore]
        rfl
      refine ⟨Table.lookup_mem hafter, ?_, htenant⟩
      rcases hargs with rfl | rfl
      · rfl
      · cases hqueues

/-- The transition of a row that the transaction has locked. -/
theorem RunsKeyed.updates (keyed : RunsKeyed s.db) {before : RunRow} {state : RunState}
    {approved : Bool} {now : Int} (hbefore : s.db.run? before.id = some before) :
    (Query.updateRun (Query.transition state approved now) (if approved then [.currentStep] else [])
      before.id).Transparent .control (some before.tenantId) s.db := by
  have hrow : ∀ row ∈ s.db.runs, row.id = before.id → row = before := by
    intro row hmem hid
    have hlookup := Table.lookup_of_mem keyed.ids hmem
    rw [hid] at hlookup
    exact Option.some.inj (hlookup.symm.trans hbefore)
  refine runs_secured.unhindered (by cases approved <;> rfl) ?_ ?_
  · intro row hmem hhit
    rw [hrow row hmem (of_decide_eq_true hhit)]
  · intro row hmem
    obtain ⟨old, hold, rfl⟩ := List.mem_map.mp hmem
    obtain ⟨hold, hid⟩ := List.mem_filter.mp hold
    rw [hrow old hold (of_decide_eq_true hid)]
    rfl

theorem insertRun_transparent (db : Db) (tenantId : Uuid) (create : ControlPlane.CreateRun)
    (handle : Option Uuid) (id : Uuid) (now : Int) (budgetCents : Nat) :
    (Query.insertRun db tenantId create handle id now budgetCents).Transparent .control
      (some tenantId) db := by
  refine runs_secured.unhindered rfl (fun _ _ hhit => Bool.noConfusion hhit) ?_
  intro row hrow
  simp only [Statement.written, Query.insertedRun] at hrow
  split at hrow
  · cases hrow
  · rw [List.mem_singleton.mp hrow]
    rfl

/-! ## Statements -/

namespace ControlPlane

theorem Sends.transparent (sound : Sound s) (keyed : RunsKeyed s.db) {index : Nat}
    {session : Session} {query : Query} (hcall : s.calls[index]? = some session)
    (h : Sends s.db session query) :
    query.Transparent .control (some session.principal.tenantId) (session.view s.db) := by
  have hshape := sound.shaped.calls index session hcall
  cases h with
  | insert hpc id =>
      rw [Session.view, hpc]
      exact insertRun_transparent ..
  | update hpc =>
      rw [Shaped, hpc] at hshape
      rw [Session.view, hpc, ← hshape.2.2]
      exact keyed.updates (sound.snapshots.updates index session _ hcall (by rw [hpc]; rfl))
  | event => exact insertEvent_transparent rfl
  | @queue now eventType writes hpc id =>
      rw [Shaped, hpc] at hshape
      have hwrites : session.pc.writes? = some writes := by rw [hpc]; rfl
      obtain ⟨hmem, hstate, htenant⟩ := sound.queued hcall hwrites hshape.1 hshape.2.2
      refine queueRunOutbox_transparent ⟨writes.run.row, ?_, rfl, htenant, hstate⟩
      rw [Session.view, hwrites]
      exact hmem
  | principal => exact principals_unhindered rfl
  | audit => exact insertAudit_transparent rfl
  | limits =>
      refine limits_secured.unhindered rfl (fun row _ hhit => ?_) (List.forall_mem_nil _)
      exact of_decide_eq_true hhit
  | usage =>
      refine runs_secured.unhindered rfl (fun row _ hhit => ?_) (List.forall_mem_nil _)
      exact of_decide_eq_true hhit
  | workflow =>
      refine definitions_secured.unhindered rfl (fun row _ hhit => ?_) (List.forall_mem_nil _)
      exact of_decide_eq_true (Bool.and_eq_true_iff.mp hhit).2
  | readRun | lock =>
      refine runs_secured.unhindered rfl (fun row _ hhit => ?_) (List.forall_mem_nil _)
      exact of_decide_eq_true (Bool.and_eq_true_iff.mp hhit).2
  | lookup | raced =>
      refine runs_secured.unhindered rfl (fun row _ hhit => ?_) (List.forall_mem_nil _)
      exact of_decide_eq_true (Bool.and_eq_true_iff.mp hhit).1
  | replayEvents | readRunEvents | readEvents =>
      refine events_secured.unhindered rfl (fun row _ hhit => ?_) (List.forall_mem_nil _)
      exact of_decide_eq_true (Bool.and_eq_true_iff.mp hhit).1

end ControlPlane

theorem Reads.Sends.transparent {session : Reads.Session} {query : Query}
    (h : Reads.Sends session query) (db : Db) :
    query.Transparent .control (some session.principal.tenantId) db := by
  cases h with
  | run =>
      refine runs_secured.unhindered rfl (fun row _ hhit => ?_) (List.forall_mem_nil _)
      exact of_decide_eq_true (Bool.and_eq_true_iff.mp hhit).2
  | events =>
      refine events_secured.unhindered rfl (fun row _ hhit => ?_) (List.forall_mem_nil _)
      exact of_decide_eq_true (Bool.and_eq_true_iff.mp hhit).1
  | audits =>
      refine audits_secured.unhindered rfl (fun row _ hhit => ?_) (List.forall_mem_nil _)
      exact of_decide_eq_true hhit
  | principals => exact principals_unhindered rfl

theorem Worker.Sends.transparent {session : Worker.Session} {query : Query} {db : Db}
    (h : Worker.Sends env db session query) (db' : Db) :
    query.Transparent .worker none db' := by
  cases h with
  | _ => exact worker_unhindered rfl rfl

theorem Outbox.Sends.transparent {session : Outbox.Session} {query : Query}
    (h : Outbox.Sends session query) (db : Db) : query.Transparent .worker none db := by
  cases h with
  | _ => exact worker_unhindered rfl rfl

theorem workflowQueries_transparent {principal : ControlPlane.Principal}
    {workflow : WorkflowDefinition} {id : Uuid} {audit : AuditRow} {query : Query}
    (haudit : audit.tenantId = principal.tenantId)
    (h : query ∈ workflowQueries principal workflow id audit) (db : Db) :
    query.Transparent .control (some principal.tenantId) db := by
  simp only [workflowQueries, List.mem_cons, List.mem_nil_iff, or_false] at h
  rcases h with rfl | rfl | rfl
  · exact insertDefinition_transparent rfl
  · exact principals_unhindered rfl
  · exact insertAudit_transparent haudit

theorem sends_transparent (run : Run env h s) {role : DatabaseRole} {setting : Option Uuid}
    {db : Db} {query : Query} (hsends : Sends env s role setting db query) :
    query.Transparent role setting db := by
  cases hsends with
  | createWorkflow principal workflow haudit hquery =>
      exact workflowQueries_transparent haudit hquery s.db
  | call hcall hquery => exact hquery.transparent (run_sound run) (run_runsKeyed run) hcall
  | read hquery => exact hquery.transparent s.db
  | worker hworker hquery => exact hquery.transparent _
  | publisher hpublisher hquery => exact hquery.transparent s.db

/-! ## Commits -/

theorem Tenanted.permitted (tenanted : Tenanted s) (sound : Sound s) (referenced : Referenced s)
    {index : Nat} {session : ControlPlane.Session} {writes : Writes}
    {run : ControlPlane.StoredRun} (hcall : s.calls[index]? = some session)
    (hpc : session.pc = .commit writes run) (hqueues : session.pc.QueuesRun) :
    writes.Permitted (s.db.writeRun writes.run) session.principal.tenantId := by
  obtain ⟨-, hevent, houtbox, haudit⟩ := tenanted.request sound referenced hcall hpc
  refine ⟨fun row hrow => (hevent row hrow).1, ?_, haudit⟩
  intro row hrow
  have hwrites : session.pc.writes? = some writes := by rw [hpc]; rfl
  obtain ⟨eventType, hcomplete⟩ := sound.complete hcall hpc
  have hqueued : ControlPlane.queues eventType = true := by
    by_contra hnot
    have hwritten := hcomplete.outbox
    rw [ControlPlane.OutboxWritten, if_neg hnot, hrow] at hwritten
    cases hwritten
  obtain ⟨hmem, hstate, htenant⟩ := sound.queued hcall hwrites hcomplete.opened hqueued
  have hrun := (houtbox row hrow).2
  refine ⟨?_, writes.run.row, hmem, hrun.symm, htenant, hstate⟩
  have hform := hqueues writes row hwrites hrow
  rw [htenant, ← hrun] at hform
  exact hform

theorem writeRun_records (db : Db) (writes : Writes) :
    { db.writeRun writes.run with
      events := (db.writeRun writes.run).events ++ writes.event.toList
      outbox := (db.writeRun writes.run).outbox ++ writes.outbox.toList
      audits := (db.writeRun writes.run).audits ++ writes.audit.toList } =
      db.commit (.request writes) := by
  obtain ⟨write, event, outbox, audit⟩ := writes
  cases write <;> rfl

/-- The queries of a request do what its transaction commits. -/
theorem request_granted (sound : Sound s) (tenanted : Tenanted s) (referenced : Referenced s)
    (keyed : RunsKeyed s.db) {index : Nat} {session : ControlPlane.Session} {writes : Writes}
    {run : ControlPlane.StoredRun} (hcall : s.calls[index]? = some session)
    (hpc : session.pc = .commit writes run) (hqueues : session.pc.QueuesRun) :
    ∃ queries, (Commit.request writes).Sends s.db .control queries ∧
      s.db.runAll .control (some session.principal.tenantId) queries =
        some (s.db.commit (.request writes)) := by
  have hrecords := runAll_recordQueries (tenanted.permitted sound referenced hcall hpc hqueues)
  rw [writeRun_records] at hrecords
  have hwrites : session.pc.writes? = some writes := by rw [hpc]; rfl
  cases hwrite : writes.run with
  | insert new =>
      obtain ⟨create, id, now, budgetCents, -, rfl⟩ := sound.insert_eq hcall hpc hwrite
      refine ⟨_, .createRun hwrite, ?_⟩
      rw [hwrite] at hrecords
      have habsent : s.db.runByKey? session.principal.tenantId create.idempotencyKey = none :=
        (sound.snapshots.inserts index session writes _ hcall hwrites hwrite).2
      have hafter : (Query.insertRun s.db session.principal.tenantId create session.handle id now
          budgetCents).after s.db = s.db.writeRun (.insert (ControlPlane.newRun
            session.principal.tenantId create session.handle id now budgetCents)) := by
        simp [Query.insertRun, Query.after, Statement.effect, Query.insertedRun, habsent,
          Db.writeRun]
      rw [runAll_cons (insertRun_transparent ..), hafter, hrecords]
  | update before state approved now =>
      refine ⟨_, .transition hwrite, ?_⟩
      rw [hwrite] at hrecords
      have hbefore : s.db.run? before.id = some before := by
        refine sound.snapshots.updates index session before hcall ?_
        rw [ControlPlane.lockedRow?_writes hwrites, hwrite]
      obtain ⟨eventType, hcomplete⟩ := sound.complete hcall hpc
      have hopened := hcomplete.opened
      rw [hwrite] at hopened
      obtain ⟨args, -, -, -, -, -, htenant⟩ := hopened
      have hupdate := @RunsKeyed.updates s keyed before state approved now hbefore
      rw [htenant] at hupdate
      rw [runAll_cons hupdate, after_updateRun]
      exact hrecords

/-- The worker's role commits what its statements do. -/
theorem Commit.Sends.worker {db : Db} {queries : List Query}
    (h : change.Sends db .worker queries) :
    db.runAll .worker none queries = some (db.commit change) := by
  cases h with
  | claim runId owner now events =>
      refine Eq.trans (runAll_cons (worker_unhindered rfl rfl)) ?_
      refine Eq.trans (runAll_cons (worker_unhindered rfl rfl)) ?_
      rw [after_updateRun, after_insertEvents]
      rfl
  | event row => exact Eq.trans (runAll_cons (worker_unhindered rfl rfl)) rfl
  | stepResult row =>
      refine Eq.trans (runAll_cons (worker_unhindered rfl rfl)) ?_
      rw [after_insertStepResult]
      rfl
  | effect row =>
      refine Eq.trans (runAll_cons (worker_unhindered rfl rfl)) ?_
      rw [after_insertEffect]
      rfl
  | outboxAttempts ids =>
      refine Eq.trans (runAll_cons (worker_unhindered rfl rfl)) ?_
      rw [after_updateOutbox]
      rfl
  | outboxPublished ids now =>
      refine Eq.trans (runAll_cons (worker_unhindered rfl rfl)) ?_
      rw [after_updateOutbox]
      rfl
  | _ =>
      refine Eq.trans (runAll_cons (worker_unhindered rfl rfl)) ?_
      rw [after_updateRun]
      rfl

/-- The statements behind a commit, under the role and in the context that sends them, make it. -/
def Granted (s : State) (a : Action) (change : Commit) : Prop :=
  (∃ queries, change.Sends s.db .worker queries ∧
    s.db.runAll .worker none queries = some (s.db.commit change)) ∨
  ∃ tenantId queries, ActsFor s tenantId a ∧ change.Sends s.db .control queries ∧
    s.db.runAll .control (some tenantId) queries = some (s.db.commit change)

theorem commit_granted (run : Run env h s) (hcommit : commitOf env s a = some change) :
    Granted s a change := by
  cases commitOf_commits hcommit with
  | @createWorkflow principal id body workflow hschema hinsertable =>
      refine .inr ⟨principal.tenantId, _, .createWorkflow rfl, .createWorkflow _ _, ?_⟩
      refine Eq.trans (runAll_cons (insertDefinition_transparent rfl)) ?_
      exact Eq.trans (runAll_cons (insertAudit_transparent rfl)) rfl
  | @request index choice session writes stored hcall hpc =>
      obtain ⟨queries, hsends, hruns⟩ := request_granted (run_sound run) (run_tenanted run)
        (run_referenced run) (run_runsKeyed run) hcall hpc (run_queuesRun run index session hcall)
      exact .inr ⟨_, queries, .call hcall rfl, hsends, hruns⟩
  | claim => exact .inl ⟨_, .claim _ _ _ _, (Commit.Sends.claim _ _ _ _).worker⟩
  | heartbeat => exact .inl ⟨_, .heartbeat _ _ _, (Commit.Sends.heartbeat _ _ _).worker⟩
  | awaitApproval => exact .inl ⟨_, .awaitApproval _ _, (Commit.Sends.awaitApproval _ _).worker⟩
  | complete => exact .inl ⟨_, .complete _, (Commit.Sends.complete _).worker⟩
  | event => exact .inl ⟨_, .event _, (Commit.Sends.event _).worker⟩
  | stepResult => exact .inl ⟨_, .stepResult _, (Commit.Sends.stepResult _).worker⟩
  | effect => exact .inl ⟨_, .effect _, (Commit.Sends.effect _).worker⟩
  | outboxAttempts => exact .inl ⟨_, .outboxAttempts _, (Commit.Sends.outboxAttempts _).worker⟩
  | outboxPublished =>
      exact .inl ⟨_, .outboxPublished _ _, (Commit.Sends.outboxPublished _ _).worker⟩

/-- No grant that a component needs is missing, and no policy stands in its way. -/
theorem sufficientPrivilege (run : Run env h s) :
    (∀ role setting db query, Sends env s role setting db query →
      query.Transparent role setting db) ∧
    ∀ a change, commitOf env s a = some change → Granted s a change :=
  ⟨fun _ _ _ _ hsends => sends_transparent run hsends,
    fun _ _ hcommit => commit_granted run hcommit⟩

end

/-- A creation is about to commit, with its event, its outbox row and its audit record. -/
theorem createRun_sufficientPrivilege : ∃ h s session change, Run Scenario.env h s ∧
    s.calls[0]? = some session ∧
    (∀ query, ControlPlane.Sends s.db session query →
      query.Transparent .control (some session.principal.tenantId) (session.view s.db)) ∧
    commitOf Scenario.env s (.call 0 0) = some change ∧ Granted s (.call 0 0) change := by
  obtain ⟨h, s, run, htest⟩ := Scenario.exists_run 5
    (Scenario.createActions [Scenario.dataRead]).dropLast
    (fun _ s => s.calls[0]?.isSome && (commitOf Scenario.env s (.call 0 0)).isSome)
    (by decide +kernel)
  rw [Bool.and_eq_true] at htest
  obtain ⟨session, hcall⟩ := Option.isSome_iff_exists.mp htest.1
  obtain ⟨change, hcommit⟩ := Option.isSome_iff_exists.mp htest.2
  obtain ⟨hsends, hgranted⟩ := sufficientPrivilege run
  exact ⟨h, s, session, change, run, hcall, fun query hquery => hsends _ _ _ _ (.call hcall hquery),
    hcommit, hgranted _ _ hcommit⟩

end DurableRuntime
