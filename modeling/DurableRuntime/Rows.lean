import DurableRuntime.Database

/-!
# What commits do to rows

`Commit.rowAfter` is the effect of a commit on the row of one run; `run?_commit`
connects it to the table.  `Extends` collects what no commit ever takes back:
inserted rows stay, and a run keeps the columns of its request.
-/

namespace DurableRuntime

open DurableRuntime.Foundation

/-! ## The row of a run -/

def RunWrite.rowAfter (id : Uuid) (old : Option RunRow) : RunWrite → Option RunRow
  | .insert row => old.or (if row.id = id then some row else none)
  | .update before state approved now =>
      if id = before.id then old.map (RunRow.transition state approved now) else old

namespace Commit

def rowAfter (id : Uuid) (old : Option RunRow) : Commit → Option RunRow
  | .request writes => writes.run.rowAfter id old
  | .claim runId owner now _ => if id = runId then old.map (RunRow.claim owner now) else old
  | .heartbeat runId step now =>
      if id = runId then old.map (RunRow.heartbeat step now) else old
  | .awaitApproval runId index =>
      if id = runId then old.map (RunRow.awaitApproval index) else old
  | .terminate runId state code =>
      if id = runId then old.map (RunRow.terminate state code) else old
  | .complete runId => if id = runId then old.map RunRow.complete else old
  | _ => old

/-- The run that a commit is about. -/
def subject? : Commit → Option Uuid
  | .request writes => some writes.run.row.id
  | .claim runId _ _ _ | .heartbeat runId _ _ | .awaitApproval runId _
  | .terminate runId _ _ | .complete runId => some runId
  | .event row => some row.runId
  | .stepResult row => some row.runId
  | .effect row => some row.runId
  | .createWorkflow _ _ | .outboxAttempts _ | .outboxPublished _ _ => none

end Commit

theorem run?_updateRun (db : Db) (id other : Uuid) {f : RunRow → RunRow}
    (hf : ∀ row, (f row).id = row.id) :
    (db.updateRun other f).run? id = if id = other then (db.run? id).map f else db.run? id := by
  unfold Db.run? Db.updateRun
  rw [Table.lookup_modify id other hf]
  split
  · rename_i heq
    rw [heq]
  · rfl

theorem run?_writeRun (db : Db) (id : Uuid) (write : RunWrite) :
    (db.writeRun write).run? id = write.rowAfter id (db.run? id) := by
  cases write with
  | insert row => exact Table.lookup_snoc id row db.runs
  | update before state approved now => exact run?_updateRun db id before.id fun _ => rfl

theorem run?_commit (db : Db) (id : Uuid) (change : Commit) :
    (db.commit change).run? id = change.rowAfter id (db.run? id) := by
  cases change with
  | request writes => exact run?_writeRun db id writes.run
  | claim => exact run?_updateRun db id _ fun _ => rfl
  | heartbeat => exact run?_updateRun db id _ fun _ => rfl
  | awaitApproval => exact run?_updateRun db id _ fun _ => rfl
  | terminate => exact run?_updateRun db id _ fun _ => rfl
  | complete => exact run?_updateRun db id _ fun _ => rfl
  | _ => rfl

/-- A commit about another run leaves the row alone. -/
theorem rowAfter_of_ne {id : Uuid} {change : Commit} (h : change.subject? ≠ some id)
    (old : Option RunRow) : change.rowAfter id old = old := by
  cases change with
  | request writes =>
      obtain ⟨write, event, outbox, audit⟩ := writes
      cases write with
      | insert row =>
          have hne : row.id ≠ id := fun heq => h (congrArg some heq)
          simp [Commit.rowAfter, RunWrite.rowAfter, hne]
      | update before state approved now =>
          have hne : id ≠ before.id := fun heq => h (congrArg some heq.symm)
          simp [Commit.rowAfter, RunWrite.rowAfter, hne]
  | createWorkflow => rfl
  | event => rfl
  | stepResult => rfl
  | effect => rfl
  | outboxAttempts => rfl
  | outboxPublished => rfl
  | _ => exact if_neg fun heq => h (congrArg some heq.symm)

/-! ## What stays -/

/-- The columns that an update never touches. -/
structure RunRow.SameRequest (row other : RunRow) : Prop where
  id : other.id = row.id
  tenantId : other.tenantId = row.tenantId
  workflowId : other.workflowId = row.workflowId
  idempotencyKey : other.idempotencyKey = row.idempotencyKey
  input : other.input = row.input
  budgetCents : other.budgetCents = row.budgetCents
  createdAt : other.createdAt = row.createdAt
  handle : other.providerCredentialHandle = row.providerCredentialHandle

theorem RunRow.SameRequest.refl (row : RunRow) : row.SameRequest row :=
  ⟨rfl, rfl, rfl, rfl, rfl, rfl, rfl, rfl⟩

theorem RunRow.SameRequest.trans {a b c : RunRow} (hab : a.SameRequest b)
    (hbc : b.SameRequest c) : a.SameRequest c :=
  ⟨hbc.id.trans hab.id, hbc.tenantId.trans hab.tenantId, hbc.workflowId.trans hab.workflowId,
    hbc.idempotencyKey.trans hab.idempotencyKey, hbc.input.trans hab.input,
    hbc.budgetCents.trans hab.budgetCents, hbc.createdAt.trans hab.createdAt,
    hbc.handle.trans hab.handle⟩

namespace RunRow

theorem sameRequest_claim (owner : String) (now : Int) (row : RunRow) :
    row.SameRequest (row.claim owner now) :=
  ⟨rfl, rfl, rfl, rfl, rfl, rfl, rfl, rfl⟩

theorem sameRequest_heartbeat (step : Nat) (now : Int) (row : RunRow) :
    row.SameRequest (row.heartbeat step now) :=
  ⟨rfl, rfl, rfl, rfl, rfl, rfl, rfl, rfl⟩

theorem sameRequest_awaitApproval (index : Nat) (row : RunRow) :
    row.SameRequest (row.awaitApproval index) :=
  ⟨rfl, rfl, rfl, rfl, rfl, rfl, rfl, rfl⟩

theorem sameRequest_terminate (state : RunState) (code : String) (row : RunRow) :
    row.SameRequest (row.terminate state code) :=
  ⟨rfl, rfl, rfl, rfl, rfl, rfl, rfl, rfl⟩

theorem sameRequest_complete (row : RunRow) : row.SameRequest row.complete :=
  ⟨rfl, rfl, rfl, rfl, rfl, rfl, rfl, rfl⟩

theorem sameRequest_transition (state : RunState) (approved : Bool) (now : Int) (row : RunRow) :
    row.SameRequest (row.transition state approved now) :=
  ⟨rfl, rfl, rfl, rfl, rfl, rfl, rfl, rfl⟩

end RunRow

/-- The columns of an outbox row that marking it published does not touch. -/
structure OutboxRow.SameMessage (row other : OutboxRow) : Prop where
  id : other.id = row.id
  tenantId : other.tenantId = row.tenantId
  runId : other.runId = row.runId
  subject : other.subject = row.subject
  payload : other.payload = row.payload

theorem OutboxRow.SameMessage.refl (row : OutboxRow) : row.SameMessage row :=
  ⟨rfl, rfl, rfl, rfl, rfl⟩

theorem OutboxRow.SameMessage.trans {a b c : OutboxRow} (hab : a.SameMessage b)
    (hbc : b.SameMessage c) : a.SameMessage c :=
  ⟨hbc.id.trans hab.id, hbc.tenantId.trans hab.tenantId, hbc.runId.trans hab.runId,
    hbc.subject.trans hab.subject, hbc.payload.trans hab.payload⟩

namespace OutboxRow

theorem sameMessage_attempt (row : OutboxRow) : row.SameMessage row.attempt :=
  ⟨rfl, rfl, rfl, rfl, rfl⟩

theorem sameMessage_publish (now : Int) (row : OutboxRow) : row.SameMessage (row.publish now) :=
  ⟨rfl, rfl, rfl, rfl, rfl⟩

end OutboxRow

structure Db.Extends (db db' : Db) : Prop where
  definitions : db.definitions <+: db'.definitions
  stepResults : db.stepResults <+: db'.stepResults
  effects : db.effects <+: db'.effects
  events : db.events <+: db'.events
  runs : ∀ id row, db.run? id = some row →
    ∃ row', db'.run? id = some row' ∧ row.SameRequest row'
  outbox : ∀ row ∈ db.outbox, ∃ row' ∈ db'.outbox, row.SameMessage row'
  limits : db'.limits = db.limits

namespace Db.Extends

variable {db db' db'' : Db}

theorem refl (db : Db) : db.Extends db where
  definitions := List.prefix_rfl
  stepResults := List.prefix_rfl
  effects := List.prefix_rfl
  events := List.prefix_rfl
  runs := fun _ row h => ⟨row, h, .refl row⟩
  outbox := fun row h => ⟨row, h, .refl row⟩
  limits := rfl

theorem trans (h : db.Extends db') (h' : db'.Extends db'') : db.Extends db'' where
  definitions := h.definitions.trans h'.definitions
  stepResults := h.stepResults.trans h'.stepResults
  effects := h.effects.trans h'.effects
  events := h.events.trans h'.events
  runs := by
    intro id row hrow
    obtain ⟨row', hrow', hsame⟩ := h.runs id row hrow
    obtain ⟨row'', hrow'', hsame'⟩ := h'.runs id row' hrow'
    exact ⟨row'', hrow'', hsame.trans hsame'⟩
  outbox := by
    intro row hrow
    obtain ⟨row', hrow', hsame⟩ := h.outbox row hrow
    obtain ⟨row'', hrow'', hsame'⟩ := h'.outbox row' hrow'
    exact ⟨row'', hrow'', hsame.trans hsame'⟩
  limits := h'.limits.trans h.limits

theorem definition? (h : db.Extends db') {id : Uuid} {row : DefinitionRow}
    (hrow : db.definition? id = some row) : db'.definition? id = some row :=
  Table.lookup_of_prefix h.definitions hrow

theorem stepResult? (h : db.Extends db') {tenantId runId : Uuid} {stepIndex : Nat}
    {row : StepResultRow} (hrow : db.stepResult? tenantId runId stepIndex = some row) :
    db'.stepResult? tenantId runId stepIndex = some row :=
  Table.lookup_of_prefix h.stepResults hrow

theorem effect? (h : db.Extends db') {tenantId : Uuid} {effectKey : String} {row : EffectRow}
    (hrow : db.effect? tenantId effectKey = some row) :
    db'.effect? tenantId effectKey = some row :=
  Table.lookup_of_prefix h.effects hrow

end Db.Extends

/-- Whatever a commit does to the row of a run, it keeps the columns of the request. -/
theorem rowAfter_sameRequest (change : Commit) (id : Uuid) (row : RunRow) :
    ∃ row', change.rowAfter id (some row) = some row' ∧ row.SameRequest row' := by
  have same := RunRow.SameRequest.refl row
  have updated : ∀ (other : Uuid) (f : RunRow → RunRow), (∀ row : RunRow, row.SameRequest (f row)) →
      ∃ row', (if id = other then (some row).map f else some row) = some row' ∧
        row.SameRequest row' := by
    intro other f hf
    split
    · exact ⟨f row, rfl, hf row⟩
    · exact ⟨row, rfl, same⟩
  cases change with
  | request writes =>
      obtain ⟨write, event, outbox, audit⟩ := writes
      cases write with
      | insert new => exact ⟨row, rfl, same⟩
      | update before state approved now =>
          exact updated before.id _ (RunRow.sameRequest_transition state approved now)
  | claim runId owner now events => exact updated runId _ (RunRow.sameRequest_claim owner now)
  | heartbeat runId step now => exact updated runId _ (RunRow.sameRequest_heartbeat step now)
  | awaitApproval runId index => exact updated runId _ (RunRow.sameRequest_awaitApproval index)
  | terminate runId state code => exact updated runId _ (RunRow.sameRequest_terminate state code)
  | complete runId => exact updated runId _ RunRow.sameRequest_complete
  | _ => exact ⟨row, rfl, same⟩

theorem outbox_updateOutbox {db : Db} {ids : List Nat} {f : OutboxRow → OutboxRow}
    (hf : ∀ row : OutboxRow, row.SameMessage (f row)) {row : OutboxRow} (hrow : row ∈ db.outbox) :
    ∃ row' ∈ (db.updateOutbox ids f).outbox, row.SameMessage row' := by
  refine ⟨if row.id ∈ ids then f row else row, List.mem_map_of_mem hrow, ?_⟩
  split
  · exact hf row
  · exact .refl row

def RunWrite.inserted? : RunWrite → Option RunRow
  | .insert row => some row
  | .update _ _ _ _ => none

def Commit.inserted? : Commit → Option RunRow
  | .request writes => writes.run.inserted?
  | _ => none

theorem runs_updateRun_map {κ : Type} (column : RunRow → κ)
    (hsame : ∀ {row other : RunRow}, row.SameRequest other → column other = column row)
    (db : Db) (id : Uuid) {f : RunRow → RunRow} (hf : ∀ row : RunRow, row.SameRequest (f row)) :
    (db.updateRun id f).runs.map column = db.runs.map column :=
  Table.map_modify (fun row => hsame (hf row)) db.runs

/-- A column that no update touches changes only by the insertion of a run. -/
theorem runs_commit_map {κ : Type} (column : RunRow → κ)
    (hsame : ∀ {row other : RunRow}, row.SameRequest other → column other = column row)
    (db : Db) (change : Commit) :
    (db.commit change).runs.map column =
      db.runs.map column ++ (change.inserted?.map column).toList := by
  have kept : ∀ f : RunRow → RunRow, (∀ row : RunRow, row.SameRequest (f row)) →
      ∀ id, (db.updateRun id f).runs.map column =
        db.runs.map column ++ ((none : Option RunRow).map column).toList := by
    intro f hf id
    simpa using runs_updateRun_map column hsame db id hf
  cases change with
  | request writes =>
      obtain ⟨write, event, outbox, audit⟩ := writes
      cases write with
      | insert row => exact List.map_append
      | update before state approved now =>
          exact kept _ (RunRow.sameRequest_transition state approved now) before.id
  | claim runId owner now events => exact kept _ (RunRow.sameRequest_claim owner now) runId
  | heartbeat runId step now => exact kept _ (RunRow.sameRequest_heartbeat step now) runId
  | awaitApproval runId index => exact kept _ (RunRow.sameRequest_awaitApproval index) runId
  | terminate runId state code => exact kept _ (RunRow.sameRequest_terminate state code) runId
  | complete runId => exact kept _ RunRow.sameRequest_complete runId
  | _ => exact (List.append_nil _).symm

theorem run?_eq_none {db : Db} {id : Uuid} :
    db.run? id = none ↔ id ∉ db.runs.map RunRow.id :=
  Table.lookup_eq_none_iff

theorem runByKey?_eq_none {db : Db} {tenantId : Uuid} {idempotencyKey : String} :
    db.runByKey? tenantId idempotencyKey = none ↔
      (tenantId, idempotencyKey) ∉ db.runs.map RunRow.key :=
  Table.lookup_eq_none_iff

theorem RunRow.SameRequest.key {row other : RunRow} (h : row.SameRequest other) :
    other.key = row.key := by
  rw [RunRow.key, RunRow.key, h.tenantId, h.idempotencyKey]

theorem stepResult?_eq {db : Db} {tenantId runId : Uuid} {stepIndex : Nat} {row : StepResultRow}
    (h : db.stepResult? tenantId runId stepIndex = some row) :
    row.tenantId = tenantId ∧ row.runId = runId ∧ row.stepIndex = stepIndex := by
  simpa [StepResultRow.key] using Table.lookup_key h

/-- After `recordStep` the step has a result, whoever recorded it. -/
theorem stepResult?_commit (db : Db) (row : StepResultRow) :
    ∃ result, (db.commit (.stepResult row)).stepResult? row.tenantId row.runId row.stepIndex =
      some result := by
  apply Option.isSome_iff_exists.mp
  exact Table.lookup_isSome.mpr (Table.exists_key_insertIfAbsent row db.stepResults)

/-- Rows enter the outbox only with the transaction that queues them. -/
theorem mem_outbox_commit {db : Db} {change : Commit} {row : OutboxRow}
    (h : row ∈ (db.commit change).outbox) :
    (∃ old ∈ db.outbox, old.SameMessage row) ∨
      ∃ writes, change = .request writes ∧ writes.outbox = some row := by
  have updated : ∀ {ids : List Nat} {f : OutboxRow → OutboxRow},
      (∀ old : OutboxRow, old.SameMessage (f old)) → row ∈ (db.updateOutbox ids f).outbox →
      ∃ old ∈ db.outbox, old.SameMessage row := by
    intro ids f hf hrow
    obtain ⟨old, hold, rfl⟩ := List.mem_map.mp hrow
    refine ⟨old, hold, ?_⟩
    split
    · exact hf old
    · exact .refl old
  cases change with
  | request writes =>
      have happend : row ∈ db.outbox ++ writes.outbox.toList := by
        obtain ⟨write, event, outbox, audit⟩ := writes
        cases write <;> exact h
      rcases List.mem_append.mp happend with hold | hnew
      · exact .inl ⟨row, hold, .refl row⟩
      · exact .inr ⟨writes, rfl, Option.mem_toList.mp hnew⟩
  | outboxAttempts ids =>
      exact .inl (updated OutboxRow.sameMessage_attempt h)
  | outboxPublished ids now =>
      exact .inl (updated (OutboxRow.sameMessage_publish now) h)
  | _ => exact .inl ⟨row, h, .refl row⟩

/-- The outbox row that a commit inserts. -/
def Commit.queued? : Commit → Option OutboxRow
  | .request writes => writes.outbox
  | _ => none

theorem outbox_request (db : Db) (writes : Writes) :
    (db.commit (.request writes)).outbox = db.outbox ++ writes.outbox.toList := by
  obtain ⟨write, event, outbox, audit⟩ := writes
  cases write <;> rfl

/-- A column that the publishers do not touch grows only by the row that a commit queues. -/
theorem outbox_commit_map {κ : Type} (column : OutboxRow → κ)
    (hsame : ∀ {row other : OutboxRow}, row.SameMessage other → column other = column row)
    (db : Db) (change : Commit) :
    (db.commit change).outbox.map column =
      db.outbox.map column ++ (change.queued?.map column).toList := by
  have updated : ∀ (ids : List Nat) (f : OutboxRow → OutboxRow),
      (∀ row : OutboxRow, row.SameMessage (f row)) →
      (db.updateOutbox ids f).outbox.map column =
        db.outbox.map column ++ ((none : Option OutboxRow).map column).toList := by
    intro ids f hf
    simp only [Db.updateOutbox, List.map_map, Option.map_none, Option.toList_none,
      List.append_nil]
    apply List.map_congr_left
    intro row _
    simp only [Function.comp_apply]
    split
    · exact hsame (hf row)
    · rfl
  cases change with
  | request writes =>
      rw [outbox_request, List.map_append]
      cases hrow : writes.outbox <;> simp [Commit.queued?, hrow]
  | outboxAttempts ids => exact updated ids OutboxRow.attempt OutboxRow.sameMessage_attempt
  | outboxPublished ids now =>
      exact updated ids (OutboxRow.publish now) (OutboxRow.sameMessage_publish now)
  | _ => exact (List.append_nil _).symm

theorem outboxIds_commit (db : Db) (change : Commit) :
    (db.commit change).outbox.map OutboxRow.id =
      db.outbox.map OutboxRow.id ++ (change.queued?.map OutboxRow.id).toList :=
  outbox_commit_map OutboxRow.id (fun h => h.id) db change

/-- The audit records that a commit inserts. -/
def Commit.newAudits : Commit → List AuditRow
  | .createWorkflow _ audit => [audit]
  | .request writes => writes.audit.toList
  | _ => []

theorem audits_commit (db : Db) (change : Commit) :
    (db.commit change).audits = db.audits ++ change.newAudits := by
  cases change with
  | createWorkflow => rfl
  | request writes =>
      obtain ⟨write, event, outbox, audit⟩ := writes
      cases write <;> rfl
  | _ => exact (List.append_nil _).symm

/-- A row is published by the commit that marks it, or was before. -/
theorem published_commit {db : Db} {change : Commit} {row : OutboxRow}
    (hrow : row ∈ (db.commit change).outbox) (hpublished : row.publishedAt.isSome = true) :
    (∃ old ∈ db.outbox, old.SameMessage row ∧ old.publishedAt.isSome = true) ∨
      (∃ ids now, change = .outboxPublished ids now ∧ row.id ∈ ids) ∨
      ∃ writes, change = .request writes ∧ writes.outbox = some row := by
  cases change with
  | request writes =>
      rw [outbox_request] at hrow
      rcases List.mem_append.mp hrow with hold | hnew
      · exact .inl ⟨row, hold, .refl row, hpublished⟩
      · exact .inr (.inr ⟨writes, rfl, Option.mem_toList.mp hnew⟩)
  | outboxAttempts ids =>
      obtain ⟨old, hold, rfl⟩ := List.mem_map.mp hrow
      refine .inl ⟨old, hold, ?_⟩
      by_cases hid : old.id ∈ ids
      · rw [if_pos hid] at hpublished ⊢
        exact ⟨old.sameMessage_attempt, hpublished⟩
      · rw [if_neg hid] at hpublished ⊢
        exact ⟨.refl old, hpublished⟩
  | outboxPublished ids now =>
      obtain ⟨old, hold, rfl⟩ := List.mem_map.mp hrow
      by_cases hid : old.id ∈ ids
      · exact .inr (.inl ⟨ids, now, rfl, by simp [hid, OutboxRow.publish]⟩)
      · rw [if_neg hid] at hpublished ⊢
        exact .inl ⟨old, hold, .refl old, hpublished⟩
  | _ => exact .inl ⟨row, hrow, .refl row, hpublished⟩

theorem effects_commit (db : Db) (change : Commit) :
    (db.commit change).effects = db.effects ∨
      ∃ row, change = .effect row ∧
        (db.commit change).effects = Table.insertIfAbsent EffectRow.key row db.effects := by
  cases change with
  | effect row => exact .inr ⟨row, rfl, rfl⟩
  | request writes =>
      obtain ⟨write, event, outbox, audit⟩ := writes
      cases write <;> exact .inl rfl
  | _ => exact .inl rfl

theorem mem_stepResults_commit {db : Db} {change : Commit} {result : StepResultRow}
    (h : result ∈ (db.commit change).stepResults) :
    result ∈ db.stepResults ∨ change = .stepResult result := by
  cases change with
  | stepResult row =>
      rcases Table.mem_insertIfAbsent h with hold | ⟨rfl, -⟩
      · exact .inl hold
      · exact .inr rfl
  | request writes =>
      obtain ⟨write, event, outbox, audit⟩ := writes
      cases write <;> exact .inl h
  | _ => exact .inl h

theorem nextOutboxId_commit (db : Db) (change : Commit) :
    (db.commit change).nextOutboxId = db.nextOutboxId := by
  cases change with
  | request writes =>
      obtain ⟨write, event, outbox, audit⟩ := writes
      cases write <;> rfl
  | _ => rfl

theorem commit_extends (db : Db) (change : Commit) : db.Extends (db.commit change) := by
  have runs : ∀ id row, db.run? id = some row →
      ∃ row', (db.commit change).run? id = some row' ∧ row.SameRequest row' := by
    intro id row hrow
    rw [run?_commit, hrow]
    exact rowAfter_sameRequest change id row
  have base := Db.Extends.refl db
  cases change with
  | createWorkflow row audit =>
      exact { base with definitions := List.prefix_append _ _, runs := runs }
  | request writes =>
      obtain ⟨write, event, outbox, audit⟩ := writes
      cases write with
      | insert row =>
          exact { base with
            events := List.prefix_append _ _
            outbox := fun row hrow => ⟨row, List.mem_append_left _ hrow, .refl row⟩
            runs := runs }
      | update before state approved now =>
          exact { base with
            events := List.prefix_append _ _
            outbox := fun row hrow => ⟨row, List.mem_append_left _ hrow, .refl row⟩
            runs := runs }
  | claim => exact { base with events := List.prefix_append _ _, runs := runs }
  | event => exact { base with events := List.prefix_append _ _, runs := runs }
  | stepResult row =>
      exact { base with stepResults := Table.prefix_insertIfAbsent row _, runs := runs }
  | effect row => exact { base with effects := Table.prefix_insertIfAbsent row _, runs := runs }
  | outboxAttempts ids =>
      exact { base with
        outbox := fun _ => outbox_updateOutbox OutboxRow.sameMessage_attempt
        runs := runs }
  | outboxPublished ids now =>
      exact { base with
        outbox := fun _ => outbox_updateOutbox (OutboxRow.sameMessage_publish now)
        runs := runs }
  | _ => exact { base with runs := runs }

theorem draw_extends (db : Db) (events outbox audits : Nat) :
    db.Extends (db.draw events outbox audits) :=
  { Db.Extends.refl db with }

theorem after_extends (db : Db) (change : Option Commit) : db.Extends (db.after change) := by
  cases change with
  | none => exact .refl db
  | some change => exact commit_extends db change

end DurableRuntime
