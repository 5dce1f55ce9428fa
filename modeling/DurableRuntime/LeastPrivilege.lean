import DurableRuntime.Privileges
import DurableRuntime.Scenario
import DurableRuntime.TenantIsolation

/-!
# Least privilege

Whatever a statement of the control plane leaves out, in the tables with row
security its connection reaches only the tenant of the open transaction; it
changes no lease and no result of a worker, and queues only runs that are there.
The table of the principals has grants but no row security, and is open to it
for all tenants.
-/

namespace DurableRuntime

open DurableRuntime.Foundation

/-! ## Tables of tenants -/

/-- Row security is on, and for the control plane the tenant's policy is the only one. -/
structure TenantSecured {κ ρ : Type} (table : TableProtection κ ρ) (tenantId : ρ → Uuid) :
    Prop where
  rowSecurity : table.rowSecurity = true
  policies : table.policies = [tenantPolicy tenantId] ∨
    table.policies = [tenantPolicy tenantId, workerSystem]

namespace TenantSecured

variable {κ ρ : Type} {table : TableProtection κ ρ} {tenantId : ρ → Uuid} {setting : Option Uuid}

theorem visible (h : TenantSecured table tenantId) (row : ρ) :
    table.visible .control setting row = decide (setting = some (tenantId row)) := by
  obtain ⟨hsecurity, hpolicies | hpolicies⟩ := h <;>
    cases setting <;>
      simp [Protection.visible, Protection.passes, hsecurity, hpolicies, tenantPolicy,
        workerSystem, eq_comm]

theorem checked (h : TenantSecured table tenantId) (row : ρ) :
    table.checked .control setting row = decide (setting = some (tenantId row)) := by
  obtain ⟨hsecurity, hpolicies | hpolicies⟩ := h <;>
    cases setting <;>
      simp [Protection.checked, Protection.passes, hsecurity, hpolicies, tenantPolicy,
        workerSystem, eq_comm]

variable [DecidableEq κ] {columns : Columns κ ρ} {rows returned rows' : List ρ}
  {statement : Statement columns}

/-- The rows of the tenants that the connection does not serve stay as they are. -/
theorem others (h : TenantSecured table tenantId)
    (hran : Ran table .control setting rows statement returned rows') {other : Uuid}
    (hother : setting ≠ some other) :
    rows'.filter (fun row => tenantId row = other) =
      rows.filter fun row => tenantId row = other := by
  refine hran.unseen ?_ ?_
  · intro row hrow
    rw [h.visible, decide_eq_false_iff_not, of_decide_eq_true hrow]
    exact hother
  · intro row hrow
    rw [h.checked, decide_eq_false_iff_not, of_decide_eq_true hrow]
    exact hother

theorem returns (h : TenantSecured table tenantId)
    (hran : Ran table .control setting rows statement returned rows') :
    ∀ id ∈ returned.map tenantId, setting = some id := by
  intro id hid
  obtain ⟨row, hrow, rfl⟩ := List.mem_map.mp hid
  rcases hran.shown_passes hrow with hpasses | hpasses
  · rw [h.visible] at hpasses
    exact of_decide_eq_true hpasses
  · rw [h.checked] at hpasses
    exact of_decide_eq_true hpasses

end TenantSecured

theorem definitions_secured : TenantSecured Protection.definitions DefinitionRow.tenantId :=
  ⟨rfl, .inr rfl⟩

theorem limits_secured : TenantSecured Protection.limits LimitsRow.tenantId := ⟨rfl, .inl rfl⟩

theorem runs_secured : TenantSecured Protection.runs RunRow.tenantId := ⟨rfl, .inr rfl⟩

theorem events_secured : TenantSecured Protection.events EventRow.tenantId := ⟨rfl, .inr rfl⟩

theorem audits_secured : TenantSecured Protection.audits AuditRow.tenantId := ⟨rfl, .inl rfl⟩

/-- No policy concerns the principals: they are open to the control plane for all tenants. -/
theorem principals_unhindered {setting : Option Uuid} {rows : List PrincipalRow}
    {statement : Statement (Columns.whole PrincipalRow)}
    (hauthorized : statement.authorized Protection.principals .control = true) :
    statement.run Protection.principals .control setting rows = some (statement.effect rows) :=
  Statement.Unhindered.run ⟨hauthorized, fun _ _ _ => rfl, fun _ _ => rfl⟩

/-! ## What the control plane cannot do -/

/-- The columns of a run that the control plane writes after the insertion. -/
def progressColumns : List RunColumn := [.state, .currentStep, .updatedAt]

/-- The runs keep all their other cells, and new runs are queued ones of the tenant. -/
def Db.RunsKept (setting : Option Uuid) (db db' : Db) : Prop :=
  ∃ new, (∀ column, column ∉ progressColumns →
      db'.runs.map (·.cell column) = (db.runs ++ new).map (·.cell column)) ∧
    ∀ row ∈ new, setting = some row.tenantId ∧ row.state = .queued ∧ row.currentStep = 0 ∧
      row.leaseOwner = none ∧ row.leaseExpiresAt = none ∧ row.attemptCount = 0

/-- The new rows are for runs of the tenant that wait for a worker. -/
def Db.OutboxQueued (setting : Option Uuid) (db db' : Db) : Prop :=
  ∃ new, db'.outbox = db.outbox ++ new ∧ ∀ row ∈ new, ∃ run ∈ db.runs,
    setting = some run.tenantId ∧ run.state = .queued ∧
      row = .queued row.id run.tenantId run.id

structure Confined (query : Query) (setting : Option Uuid) (db db' : Db) (shown : Shown) :
    Prop where
  shown : query.isSecured = true → ∀ id ∈ shown, setting = some id
  principals : query.isSecured = true → db'.principals = db.principals
  others : ∀ other, setting ≠ some other → db.Unchanged other db'
  limits : ∀ other, setting ≠ some other →
    db'.limits.filter (fun row => row.tenantId = other) =
      db.limits.filter fun row => row.tenantId = other
  runs : db.RunsKept setting db'
  outbox : db.OutboxQueued setting db'
  stepResults : db'.stepResults = db.stepResults
  effects : db'.effects = db.effects

section

variable {setting : Option Uuid} {db db' : Db} {shown : Shown}

theorem Db.RunsKept.refl (setting : Option Uuid) (db : Db) : db.RunsKept setting db :=
  ⟨[], fun _ _ => by rw [List.append_nil], by simp⟩

theorem Db.OutboxQueued.refl (setting : Option Uuid) (db : Db) : db.OutboxQueued setting db :=
  ⟨[], by rw [List.append_nil], by simp⟩

theorem Confined.refl (query : Query) (db : Db)
    (hshown : query.isSecured = true → ∀ id ∈ shown, setting = some id) :
    Confined query setting db db shown where
  shown := hshown
  principals := fun _ => rfl
  others := fun other _ => .refl other db
  limits := fun _ _ => rfl
  runs := .refl setting db
  outbox := .refl setting db
  stepResults := rfl
  effects := rfl

theorem may_update_runs {column : RunColumn} (h : column ∉ progressColumns) :
    Protection.runs.may .control .update column = false := by
  cases column <;> first | rfl | exact absurd (by decide) h

theorem runs_kept {rows shown rows' : List RunRow} {statement : Statement runColumns}
    (hran : Ran Protection.runs .control setting rows statement shown rows') (db db' : Db)
    (hdb : db.runs = rows) (hdb' : db'.runs = rows') : db.RunsKept setting db' := by
  obtain ⟨new, hgrown⟩ := hran.grown rfl
  refine ⟨new, ?_, ?_⟩
  · intro column hcolumn
    rw [hdb, hdb']
    exact hgrown.cells column (may_update_runs hcolumn)
  · intro row hrow
    have hadmitted := hgrown.admitted row hrow
    rw [runs_secured.checked, decide_eq_true_eq] at hadmitted
    have hdefaults := hgrown.defaults row hrow
    exact ⟨hadmitted, hdefaults .state rfl, hdefaults .currentStep rfl, hdefaults .leaseOwner rfl,
      hdefaults .leaseExpiresAt rfl, hdefaults .attemptCount rfl⟩

/-- The calls of one statement queue rows and leave everything else as it is. -/
theorem queueRunOutbox_queued {calls : List (Nat × Uuid × Uuid)}
    (h : db.queueRunOutboxes setting calls = some db') :
    db.OutboxQueued setting db' ∧ db' = { db with outbox := db'.outbox } := by
  induction calls generalizing db with
  | nil =>
      cases h
      exact ⟨.refl _ _, rfl⟩
  | cons call calls ih =>
      obtain ⟨id, tenantId, runId⟩ := call
      rw [Db.queueRunOutboxes, List.foldlM_cons] at h
      obtain ⟨first, hfirst, h⟩ := Option.bind_eq_some_iff.mp h
      unfold Db.queueRunOutbox at hfirst
      split at hfirst
      · cases hfirst
      · rename_i hsetting
        split at hfirst
        · rename_i hrun
          cases hfirst
          obtain ⟨run, hmem, hrun⟩ := List.any_eq_true.mp hrun
          simp only [Bool.and_eq_true, decide_eq_true_eq] at hrun
          obtain ⟨⟨rfl, rfl⟩, hstate⟩ := hrun
          obtain ⟨⟨new, houtbox, hnew⟩, hrest⟩ := ih h
          refine ⟨⟨_ :: new, by rw [houtbox, List.append_assoc]; rfl, ?_⟩, hrest⟩
          rintro row (_ | ⟨_, hrow⟩)
          · exact ⟨run, hmem, (not_not.mp hsetting).symm, hstate, rfl⟩
          · exact hnew row hrow
        · cases hfirst

theorem queueRunOutbox_confined {calls : List (Nat × Uuid × Uuid)}
    (h : db.queueRunOutboxes setting calls = some db') :
    Confined (.queueRunOutbox calls) setting db db' [] := by
  obtain ⟨hqueued, hrest⟩ := queueRunOutbox_queued h
  rw [hrest]
  refine { Confined.refl (.queueRunOutbox calls) db (by simp) with
    others := fun other hother => { Db.Unchanged.refl other db with outbox := ?_ }
    outbox := hqueued }
  obtain ⟨new, houtbox, hnew⟩ := hqueued
  have hnone : new.filter (fun row => decide (row.tenantId = other)) = [] := by
    rw [List.filter_eq_nil_iff]
    intro row hrow htenant
    obtain ⟨run, -, hsetting, -, heq⟩ := hnew row hrow
    rw [heq] at htenant
    exact hother (hsetting.trans (congrArg some (of_decide_eq_true htenant)))
  simp only [houtbox, List.filter_append, hnone, List.append_nil]

/-- No statement of the control plane leaves the tenant of its setting. -/
theorem Query.confined {query : Query} (h : query.run .control setting db = some (shown, db')) :
    Confined query setting db db' shown := by
  cases query with
  | definitions statement =>
      obtain ⟨result, hrun, heq⟩ := Option.map_eq_some_iff.mp h
      cases heq
      have hran := Statement.run_ran hrun
      exact { Confined.refl _ db (fun _ => definitions_secured.returns hran) with
        others := fun other hother =>
          { Db.Unchanged.refl other db with
            definitions := definitions_secured.others hran hother } }
  | limits statement =>
      obtain ⟨result, hrun, heq⟩ := Option.map_eq_some_iff.mp h
      cases heq
      have hran := Statement.run_ran hrun
      exact { Confined.refl _ db (fun _ => limits_secured.returns hran) with
        others := fun other _ => { Db.Unchanged.refl other db with }
        limits := fun other hother => limits_secured.others hran hother }
  | principals statement =>
      obtain ⟨result, hrun, heq⟩ := Option.map_eq_some_iff.mp h
      cases heq
      exact { Confined.refl (.principals statement) db (fun h => Bool.noConfusion h) with
        principals := fun h => Bool.noConfusion h
        others := fun other _ => { Db.Unchanged.refl other db with } }
  | runs statement =>
      obtain ⟨result, hrun, heq⟩ := Option.map_eq_some_iff.mp h
      cases heq
      have hran := Statement.run_ran hrun
      exact { Confined.refl _ db (fun _ => runs_secured.returns hran) with
        others := fun other hother =>
          { Db.Unchanged.refl other db with runs := runs_secured.others hran hother }
        runs := runs_kept hran db _ rfl rfl }
  | events statement =>
      obtain ⟨result, hrun, heq⟩ := Option.map_eq_some_iff.mp h
      cases heq
      have hran := Statement.run_ran hrun
      exact { Confined.refl _ db (fun _ => events_secured.returns hran) with
        others := fun other hother =>
          { Db.Unchanged.refl other db with events := events_secured.others hran hother } }
  | audits statement =>
      obtain ⟨result, hrun, heq⟩ := Option.map_eq_some_iff.mp h
      cases heq
      have hran := Statement.run_ran hrun
      exact { Confined.refl _ db (fun _ => audits_secured.returns hran) with
        others := fun other hother =>
          { Db.Unchanged.refl other db with audits := audits_secured.others hran hother } }
  | stepResults statement =>
      obtain ⟨result, hrun, heq⟩ := Option.map_eq_some_iff.mp h
      rw [Statement.run_denied rfl rfl rfl rfl] at hrun
      cases hrun
  | effects statement =>
      obtain ⟨result, hrun, heq⟩ := Option.map_eq_some_iff.mp h
      rw [Statement.run_denied rfl rfl rfl rfl] at hrun
      cases hrun
  | outbox statement =>
      obtain ⟨result, hrun, heq⟩ := Option.map_eq_some_iff.mp h
      rw [Statement.run_denied rfl rfl rfl rfl] at hrun
      cases hrun
  | queueRunOutbox calls =>
      simp only [Query.run, if_true] at h
      obtain ⟨later, hqueue, heq⟩ := Option.map_eq_some_iff.mp h
      cases heq
      exact queueRunOutbox_confined hqueue

/-! ## What a worker cannot do -/

/-- The worker's role changes no table but those of the runtime, and deletes nothing. -/
structure Db.WorkedOn (db db' : Db) : Prop where
  definitions : db'.definitions = db.definitions
  limits : db'.limits = db.limits
  principals : db'.principals = db.principals
  audits : db'.audits = db.audits
  runs : db'.runs.length = db.runs.length
  events : db.events.length ≤ db'.events.length
  stepResults : db.stepResults.length ≤ db'.stepResults.length
  effects : db.effects.length ≤ db'.effects.length
  outbox : db.outbox.length ≤ db'.outbox.length

theorem Db.WorkedOn.refl (db : Db) : db.WorkedOn db :=
  ⟨rfl, rfl, rfl, rfl, rfl, Nat.le_refl _, Nat.le_refl _, Nat.le_refl _, Nat.le_refl _⟩

theorem Query.workedOn {query : Query} (h : query.run .worker setting db = some (shown, db')) :
    db.WorkedOn db' := by
  cases query with
  | definitions statement =>
      obtain ⟨result, hrun, heq⟩ := Option.map_eq_some_iff.mp h
      cases heq
      exact { Db.WorkedOn.refl db with
        definitions := (Statement.run_ran hrun).unchanged rfl rfl rfl }
  | limits statement =>
      obtain ⟨result, hrun, heq⟩ := Option.map_eq_some_iff.mp h
      rw [Statement.run_denied rfl rfl rfl rfl] at hrun
      cases hrun
  | principals statement =>
      obtain ⟨result, hrun, heq⟩ := Option.map_eq_some_iff.mp h
      rw [Statement.run_denied rfl rfl rfl rfl] at hrun
      cases hrun
  | audits statement =>
      obtain ⟨result, hrun, heq⟩ := Option.map_eq_some_iff.mp h
      rw [Statement.run_denied rfl rfl rfl rfl] at hrun
      cases hrun
  | runs statement =>
      obtain ⟨result, hrun, heq⟩ := Option.map_eq_some_iff.mp h
      cases heq
      obtain ⟨new, hgrown⟩ := (Statement.run_ran hrun).grown rfl
      have hnew : new = [] := by
        by_contra hne
        cases hgrown.granted hne
      exact { Db.WorkedOn.refl db with
        runs := by simpa [hnew] using hgrown.length }
  | events statement =>
      obtain ⟨result, hrun, heq⟩ := Option.map_eq_some_iff.mp h
      cases heq
      exact { Db.WorkedOn.refl db with
        events := (Statement.run_ran hrun).length_le rfl }
  | stepResults statement =>
      obtain ⟨result, hrun, heq⟩ := Option.map_eq_some_iff.mp h
      cases heq
      exact { Db.WorkedOn.refl db with
        stepResults := (Statement.run_ran hrun).length_le rfl }
  | effects statement =>
      obtain ⟨result, hrun, heq⟩ := Option.map_eq_some_iff.mp h
      cases heq
      exact { Db.WorkedOn.refl db with
        effects := (Statement.run_ran hrun).length_le rfl }
  | outbox statement =>
      obtain ⟨result, hrun, heq⟩ := Option.map_eq_some_iff.mp h
      cases heq
      exact { Db.WorkedOn.refl db with
        outbox := (Statement.run_ran hrun).length_le rfl }
  | queueRunOutbox calls => cases h

end

/-! ## Connections -/

section

variable {role : DatabaseRole} {h : History Connection ConnectionAction} {c c' : Connection}

/-- What the setting is, whatever transactions the connection has served before. -/
def Connection.SetFor (c : Connection) : Prop :=
  match c.transaction with
  | some tenantId => c.setting = some tenantId.text
  | none => c.setting = none ∨ c.setting = some ""

theorem Connection.SetFor.tenantSetting (h : c.SetFor) : c.tenantSetting = some c.transaction := by
  unfold Connection.SetFor at h
  unfold Connection.tenantSetting
  cases htransaction : c.transaction with
  | some tenantId =>
      rw [htransaction] at h
      have hnonempty : tenantId.text ≠ "" := by
        intro heq
        have htext := ofText?_text tenantId
        rw [heq] at htext
        cases htext
      simp only [h, if_neg hnonempty, ofText?_text, Option.map_some]
  | none =>
      rw [htransaction] at h
      rcases h with hnone | hempty
      · rw [hnone]
      · rw [hempty]
        rfl

theorem run_setFor (run : ConnectionRun role h c) : c.SetFor := by
  refine run.always (P := Connection.SetFor) ?_ ?_
  · rintro c ⟨htransaction, hsetting⟩
    rw [Connection.SetFor, htransaction]
    exact .inl hsetting
  · intro h c a c' _ hset hnext
    cases a with
    | withTenant tenantId =>
        simp only [Connection.next] at hnext
        split at hnext
        · cases hnext
          rfl
        · cases hnext
    | query query =>
        simp only [Connection.next] at hnext
        split at hnext
        · cases hnext
        · obtain ⟨result, -, rfl⟩ := Option.map_eq_some_iff.mp hnext
          exact hset
    | finish =>
        simp only [Connection.next] at hnext
        split at hnext
        · cases hnext
          exact .inr rfl
        · cases hnext
    | others db =>
        cases hnext
        exact hset

/-- What a query over a connection does to the database with the privileges of its role. -/
def Privileged (c : Connection) (query : Query) : DatabaseRole → Shown → Connection → Prop
  | .control, shown, c' => Confined query c.transaction c.db c'.db shown
  | .worker, _, c' => c.db.WorkedOn c'.db

/--
Whatever queries are sent over a connection of the pool, each stays within the
privileges of its role and, for the control plane and tables with row security,
within the tenant whose transaction is open; between transactions it sees no
rows there and writes none.
-/
theorem leastPrivilege (run : ConnectionRun role h c) {query : Query}
    (hnext : c.next role (.query query) = some c') :
    ∃ shown, query.run role c.transaction c.db = some (shown, c'.db) ∧
      Privileged c query role shown c' := by
  simp only [Connection.next, (run_setFor run).tenantSetting] at hnext
  obtain ⟨⟨shown, db⟩, hrun, rfl⟩ := Option.map_eq_some_iff.mp hnext
  refine ⟨shown, hrun, ?_⟩
  cases role with
  | control => exact Query.confined hrun
  | worker => exact Query.workedOn hrun

end

/-- The connection has served one tenant and serves another when a query asks for all limits. -/
def pooled : List ConnectionAction :=
  [.withTenant 1, .finish, .withTenant 9,
    .others { (Scenario.start 5).db with limits := [⟨1, 5, 100⟩, ⟨9, 5, 100⟩] }]

theorem pooled_leastPrivilege : ∃ h c c', ConnectionRun .control h c ∧
    c.next .control (.query (.limits (.select [()] fun _ => true))) = some c' ∧
      Query.run .control c.transaction c.db (.limits (.select [()] fun _ => true)) =
        some ([9], c'.db) ∧
          ∃ shown, Privileged c (.limits (.select [()] fun _ => true)) .control shown c' := by
  obtain ⟨h, c, run, htest⟩ := @exec_of_replay _ _
    (fun c : Connection => c.transaction = none ∧ c.setting = none) (Connection.next .control)
    ⟨(Scenario.start 5).db, none, none⟩ ⟨rfl, rfl⟩ pooled
    (fun _ c => c.transaction = some 9 ∧
      (Query.run .control c.transaction c.db (.limits (.select [()] fun _ => true))).map Prod.fst =
        some [9])
    (by decide +kernel)
  obtain ⟨htransaction, hshown⟩ := of_decide_eq_true htest
  obtain ⟨⟨shown, db⟩, hquery, hfirst⟩ := Option.map_eq_some_iff.mp hshown
  have hnext : c.next .control (.query (.limits (.select [()] fun _ => true))) =
      some { c with db } := by
    simp only [Connection.next, (run_setFor run).tenantSetting, hquery, Option.map_some]
  obtain ⟨shown', hquery', hprivileged⟩ := leastPrivilege run hnext
  refine ⟨h, c, _, run, hnext, ?_, shown', hprivileged⟩
  rw [hquery, ← hfirst]

end DurableRuntime
