import Mathlib.Data.List.Infix
import DurableRuntime.MigrationScript

/-!
# The migration files

The statements of `db/migrations` by what they require of the schema and what
they leave in it.  `create type`, `create table`, `create index`, `create
policy` and `add column` fail on an object that exists.  `create extension if
not exists`, `create or replace function`, the block that looks for the roles
first, `enable` and `force row level security`, `grant` and `revoke` leave an
object that exists as it is.
-/

namespace DurableRuntime

open Foundation

inductive SchemaObject where
  | extension (name : String)
  | type (name : String)
  /-- Tables and indexes share one namespace. -/
  | relation (name : String)
  | column (table name : String)
  | policy (name table : String)
  | function (name : String)
  | role (name : String)
  | rowLevelSecurity (table : String)
  | forcedRowLevelSecurity (table : String)
  | privilege (privileges : String) (on grantee : String)
  | revoked (privileges : String) (on grantee : String)
  deriving DecidableEq

abbrev Schema := List SchemaObject

/-- One statement: what must be there, what must not, and what it makes where it is missing. -/
structure Ddl where
  requires : List SchemaObject
  creates : List SchemaObject
  keeps : List SchemaObject

namespace Ddl

def run (d : Ddl) (schema : Schema) : Option Schema :=
  if (∀ object ∈ d.requires, object ∈ schema) ∧ ∀ object ∈ d.creates, object ∉ schema then
    some (schema ++ (d.creates ++ d.keeps).filter fun object => decide (object ∉ schema))
  else none

/-- The statement can be run again on a schema that has seen it. -/
def Repeatable (d : Ddl) : Prop := d.creates = []

instance (d : Ddl) : Decidable d.Repeatable := inferInstanceAs (Decidable (d.creates = []))

theorem run_some {d : Ddl} {s s' : Schema} (h : d.run s = some s') :
    (∀ object ∈ d.requires, object ∈ s) ∧ (∀ object ∈ d.creates, object ∉ s) ∧
      s' = s ++ (d.creates ++ d.keeps).filter fun object => decide (object ∉ s) := by
  unfold run at h
  split at h
  · rename_i hruns
    exact ⟨hruns.1, hruns.2, (Option.some.inj h).symm⟩
  · cases h

theorem subset_of_run {d : Ddl} {s s' : Schema} (h : d.run s = some s') : s ⊆ s' := by
  obtain ⟨_, _, rfl⟩ := run_some h
  exact List.subset_append_left _ _

theorem mem_of_run {d : Ddl} {s s' : Schema} (h : d.run s = some s') {object : SchemaObject}
    (hobject : object ∈ d.creates ++ d.keeps) : object ∈ s' := by
  obtain ⟨_, _, rfl⟩ := run_some h
  by_cases hold : object ∈ s
  · exact List.mem_append_left _ hold
  · apply List.mem_append_right
    simp only [List.mem_filter, decide_eq_true_eq]
    exact ⟨hobject, hold⟩

/-- A repeatable statement leaves every later schema as it is. -/
theorem run_again {d : Ddl} {s s' later : Schema} (h : d.run s = some s')
    (hrepeat : d.Repeatable) (hlater : s' ⊆ later) : d.run later = some later := by
  have hrequires : ∀ object ∈ d.requires, object ∈ later :=
    fun object hobject => hlater (subset_of_run h ((run_some h).1 object hobject))
  have hkeeps : ∀ object ∈ d.keeps, object ∈ later :=
    fun object hobject => hlater (mem_of_run h (List.mem_append_right _ hobject))
  unfold Repeatable at hrepeat
  simp only [run, hrepeat, List.not_mem_nil, false_implies, implies_true, and_true,
    List.nil_append]
  rw [if_pos hrequires]
  have hnothing : d.keeps.filter (fun object => decide (object ∉ later)) = [] := by
    simp only [List.filter_eq_nil_iff, decide_eq_true_eq, not_not]
    exact hkeeps
  rw [hnothing, List.append_nil]

theorem run_none_of_mem {d : Ddl} {s : Schema} {object : SchemaObject}
    (hcreates : object ∈ d.creates) (hold : object ∈ s) : d.run s = none := by
  unfold run
  apply if_neg
  rintro ⟨_, hfresh⟩
  exact hfresh object hcreates hold

end Ddl

theorem subset_of_perform {ddl : List Ddl} {s s' : Schema}
    (h : perform (ddl.map Ddl.run) s = some s') : s ⊆ s' := by
  induction ddl generalizing s with
  | nil =>
      cases h
      exact List.Subset.refl _
  | cons d ddl ih =>
      simp only [List.map_cons, perform_cons, Option.bind_eq_some_iff] at h
      obtain ⟨next, hd, hrest⟩ := h
      exact List.Subset.trans (Ddl.subset_of_run hd) (ih hrest)

/-- Repeatable statements that have been performed once do nothing the second time. -/
theorem idle_of_perform {ddl : List Ddl} {s s' : Schema}
    (h : perform (ddl.map Ddl.run) s = some s') (hrepeat : ∀ d ∈ ddl, d.Repeatable) :
    ∀ d ∈ ddl, d.run s' = some s' := by
  induction ddl generalizing s with
  | nil => simp
  | cons d ddl ih =>
      simp only [List.map_cons, perform_cons, Option.bind_eq_some_iff] at h
      obtain ⟨next, hd, hrest⟩ := h
      intro e he
      rcases List.mem_cons.mp he with rfl | he
      · exact Ddl.run_again hd (hrepeat _ List.mem_cons_self) (subset_of_perform hrest)
      · exact ih hrest (fun d hd => hrepeat d (List.mem_cons_of_mem _ hd)) e he

/-- A list with a statement whose object exists already cannot be performed. -/
theorem perform_none_of_exists {ddl : List Ddl} {d : Ddl} (hd : d ∈ ddl)
    {object : SchemaObject} (hcreates : object ∈ d.creates) {s : Schema} (hold : object ∈ s) :
    perform (ddl.map Ddl.run) s = none := by
  induction ddl generalizing s with
  | nil => cases hd
  | cons e ddl ih =>
      simp only [List.map_cons, perform_cons]
      cases hrun : e.run s with
      | none => rfl
      | some next =>
          rcases List.mem_cons.mp hd with rfl | hd
          · have hnone := Ddl.run_none_of_mem hcreates hold
            rw [hrun] at hnone
            cases hnone
          · exact ih hd (Ddl.subset_of_run hrun hold)

theorem exists_of_perform {ddl : List Ddl} {s s' : Schema}
    (h : perform (ddl.map Ddl.run) s = some s') {d : Ddl} (hd : d ∈ ddl)
    {object : SchemaObject} (hcreates : object ∈ d.creates) : object ∈ s' := by
  induction ddl generalizing s with
  | nil => cases hd
  | cons e ddl ih =>
      simp only [List.map_cons, perform_cons, Option.bind_eq_some_iff] at h
      obtain ⟨next, he, hrest⟩ := h
      rcases List.mem_cons.mp hd with rfl | hd
      · exact subset_of_perform hrest (Ddl.mem_of_run he (List.mem_append_left _ hcreates))
      · exact ih hrest hd

/-! ## The statements -/

section

open SchemaObject

def createExtensionIfNotExists (name : String) : Ddl := ⟨[], [], [extension name]⟩

def createType (name : String) : Ddl := ⟨[], [type name], []⟩

/-- `references` are the tables of the foreign keys, `types` those of the enumerations used. -/
def createTable (name : String) (references types : List String) : Ddl :=
  ⟨references.map relation ++ types.map type, [relation name], []⟩

def addColumns (table : String) (names : List String) : Ddl :=
  ⟨[relation table], names.map (column table), []⟩

/-- `added` are the columns of the index that `add column` has made. -/
def createIndex (name table : String) (added : List String) : Ddl :=
  ⟨relation table :: added.map (column table), [relation name], []⟩

def enableRowLevelSecurity (table : String) : Ddl :=
  ⟨[relation table], [], [rowLevelSecurity table]⟩

def forceRowLevelSecurity (table : String) : Ddl :=
  ⟨[relation table], [], [forcedRowLevelSecurity table]⟩

def createPolicy (name table : String) (roles : List String) : Ddl :=
  ⟨relation table :: roles.map role, [policy name table], []⟩

/-- The block that creates each role that `pg_roles` does not hold. -/
def createRolesIfNotExists (names : List String) : Ddl := ⟨[], [], names.map role⟩

def grant (privileges : String) (tables roles : List String) : Ddl :=
  ⟨tables.map relation ++ roles.map role, [],
    tables.flatMap fun table => roles.map (privilege privileges table)⟩

/-- A grant on columns, of which `added` has been made by `add column`. -/
def grantColumns (privileges table : String) (added roles : List String) : Ddl :=
  ⟨relation table :: added.map (column table) ++ roles.map role, [],
    roles.map (privilege privileges table)⟩

/-- A grant on the schema or on all its sequences. -/
def grantInSchema (privileges on : String) (roles : List String) : Ddl :=
  ⟨roles.map role, [], roles.map (privilege privileges on)⟩

def createOrReplaceFunction (name : String) : Ddl := ⟨[], [], [function name]⟩

def revokeOnFunction (name grantee : String) : Ddl :=
  ⟨[function name], [], [revoked "all" name grantee]⟩

def grantOnFunction (name grantee : String) : Ddl :=
  ⟨[function name, role grantee], [], [privilege "execute" name grantee]⟩

end

/-- The tables of the first migration that carry row level security, in its order. -/
def tenantScoped : List String :=
  ["workflow_definitions", "workflow_runs", "run_events", "effect_commits", "workflow_outbox",
    "approvals", "audit_records"]

/-- `0001_runtime.sql` -/
def runtimeSql : List Ddl :=
  [createExtensionIfNotExists "pgcrypto",
    createType "dar_role",
    createType "dar_run_state",
    createTable "tenants" [] [],
    createTable "principals" ["tenants"] ["dar_role"],
    createTable "api_keys" ["tenants", "principals"] [],
    createTable "workflow_definitions" ["tenants"] [],
    createTable "workflow_runs" ["tenants", "workflow_definitions"] ["dar_run_state"],
    createTable "run_events" ["tenants", "workflow_runs"] [],
    createTable "effect_commits" ["tenants", "workflow_runs"] [],
    createTable "workflow_outbox" ["tenants", "workflow_runs"] [],
    createTable "approvals" ["tenants", "workflow_runs", "principals"] [],
    createTable "audit_records" ["tenants", "principals"] [],
    createIndex "workflow_runs_tenant_state_idx" "workflow_runs" [],
    createIndex "workflow_outbox_unpublished_idx" "workflow_outbox" [],
    createIndex "run_events_tenant_run_idx" "run_events" []] ++
  tenantScoped.map enableRowLevelSecurity ++
  tenantScoped.map forceRowLevelSecurity ++
  [createPolicy "workflow_definitions_tenant" "workflow_definitions" [],
    createPolicy "workflow_runs_tenant" "workflow_runs" [],
    createPolicy "run_events_tenant" "run_events" [],
    createPolicy "effect_commits_tenant" "effect_commits" [],
    createPolicy "workflow_outbox_tenant" "workflow_outbox" [],
    createPolicy "approvals_tenant" "approvals" [],
    createPolicy "audit_records_tenant" "audit_records" []]

/-- `0002_execution_leases.sql` -/
def executionLeasesSql : List Ddl :=
  [addColumns "workflow_runs" ["current_step", "lease_owner", "lease_expires_at"],
    createIndex "workflow_runs_lease_idx" "workflow_runs" ["lease_expires_at"]]

/-- `0003_execution_evidence.sql` -/
def executionEvidenceSql : List Ddl :=
  [addColumns "workflow_runs" ["attempt_count", "last_error_code", "terminal_evidence"],
    createTable "run_step_results" ["tenants", "workflow_runs"] [],
    createIndex "run_step_results_tenant_run_idx" "run_step_results" [],
    enableRowLevelSecurity "run_step_results",
    forceRowLevelSecurity "run_step_results",
    createPolicy "run_step_results_tenant" "run_step_results" []]

/-- `0004_tenant_limits.sql` -/
def tenantLimitsSql : List Ddl :=
  [createTable "tenant_runtime_limits" ["tenants"] [],
    enableRowLevelSecurity "tenant_runtime_limits",
    forceRowLevelSecurity "tenant_runtime_limits",
    createPolicy "tenant_runtime_limits_tenant" "tenant_runtime_limits" []]

/-- `0005_provider_credential_handles.sql` -/
def providerCredentialHandlesSql : List Ddl :=
  [addColumns "workflow_runs" ["provider_credential_handle"],
    createIndex "workflow_runs_provider_credential_handle_idx" "workflow_runs"
      ["provider_credential_handle"]]

/-- `0006_least_privilege_roles.sql` -/
def leastPrivilegeRolesSql : List Ddl :=
  [createRolesIfNotExists ["dar_control", "dar_worker"],
    grantInSchema "usage" "schema public" ["dar_control", "dar_worker"],
    grant "select, insert, update"
      ["tenants", "principals", "api_keys", "tenant_runtime_limits"] ["dar_control"],
    grant "select, insert, update, delete"
      ["workflow_definitions", "run_events", "approvals", "audit_records"] ["dar_control"],
    grant "select" ["workflow_runs"] ["dar_control"],
    grantColumns "insert" "workflow_runs" ["provider_credential_handle"] ["dar_control"],
    grantColumns "update" "workflow_runs" ["current_step"] ["dar_control"],
    grantInSchema "usage, select" "all sequences in schema public" ["dar_control"],
    grant "select" ["tenants"] ["dar_worker"],
    grant "select" ["workflow_definitions"] ["dar_worker"],
    grant "select, update" ["workflow_runs"] ["dar_worker"],
    grant "select, insert, update"
      ["run_events", "effect_commits", "run_step_results", "workflow_outbox"] ["dar_worker"],
    grantInSchema "usage, select" "all sequences in schema public" ["dar_worker"],
    createPolicy "workflow_definitions_worker_system" "workflow_definitions" ["dar_worker"],
    createPolicy "workflow_runs_worker_system" "workflow_runs" ["dar_worker"],
    createPolicy "run_events_worker_system" "run_events" ["dar_worker"],
    createPolicy "effect_commits_worker_system" "effect_commits" ["dar_worker"],
    createPolicy "workflow_outbox_worker_system" "workflow_outbox" ["dar_worker"],
    createPolicy "run_step_results_worker_system" "run_step_results" ["dar_worker"],
    createOrReplaceFunction "queue_run_outbox",
    revokeOnFunction "queue_run_outbox" "public",
    grantOnFunction "queue_run_outbox" "dar_control"]

/-- The files of `db/migrations` with their statements. -/
def migrationSql : List (String × List Ddl) :=
  [("0001_runtime.sql", runtimeSql),
    ("0002_execution_leases.sql", executionLeasesSql),
    ("0003_execution_evidence.sql", executionEvidenceSql),
    ("0004_tenant_limits.sql", tenantLimitsSql),
    ("0005_provider_credential_handles.sql", providerCredentialHandlesSql),
    ("0006_least_privilege_roles.sql", leastPrivilegeRolesSql)]

def ddlFile (source : String × List Ddl) : MigrationFile Schema :=
  ⟨source.1, source.2.map Ddl.run⟩

/-- Files of such statements. -/
structure DdlDirectory where
  sources : List (String × List Ddl)
  distinct : (sources.map Prod.fst).Nodup
  nonempty : sources ≠ []

namespace DdlDirectory

variable (ddl : DdlDirectory)

def directory : MigrationDirectory Schema where
  found := ddl.sources.map ddlFile
  distinct := by
    have hnames : (ddl.sources.map ddlFile).map MigrationFile.name = ddl.sources.map Prod.fst := by
      rw [List.map_map]
      rfl
    rw [hnames]
    exact ddl.distinct

theorem files_eq : ddl.directory.files = ddl.sources.map ddlFile := by
  rw [MigrationDirectory.files, if_neg]
  · rfl
  · simpa [directory] using ddl.nonempty

/-- The statements of a file, by its name. -/
theorem lookup_eq {sources : List (String × List Ddl)} (hdistinct : (sources.map Prod.fst).Nodup)
    {source : String × List Ddl} (hsource : source ∈ sources) :
    sources.lookup source.1 = some source.2 := by
  induction sources with
  | nil => cases hsource
  | cons first rest ih =>
      rw [List.map_cons, List.nodup_cons] at hdistinct
      obtain ⟨hfirst, hrest⟩ := hdistinct
      rcases List.mem_cons.mp hsource with rfl | hmem
      · exact List.lookup_cons_self
      · have hne : source.1 ≠ first.1 := by
          intro heq
          exact hfirst (heq ▸ List.mem_map_of_mem hmem)
        rw [List.lookup_cons, beq_false_of_ne hne]
        exact ih hrest hmem

end DdlDirectory

def migrations : DdlDirectory where
  sources := migrationSql
  distinct := by simp [migrationSql]
  nonempty := by simp [migrationSql]

end DurableRuntime
