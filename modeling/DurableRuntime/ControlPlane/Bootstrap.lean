import DurableRuntime.ControlPlane.Stores

/-!
# Tenants, principals and API keys

`bootstrap` and `authenticate` of `postgres-store.ts` over the tables `tenants`,
`tenant_runtime_limits`, `principals` and `api_keys`.  The digest of
`hashApiKey` is a parameter.
-/

namespace DurableRuntime.PostgresDurableStore

open DurableRuntime.Foundation

structure TenantRow where
  id : Uuid
  slug : String
  deriving DecidableEq

/-- A row of `principals` with its role. -/
structure MemberRow where
  id : Uuid
  tenantId : Uuid
  subject : String
  role : ControlPlane.Role
  deriving DecidableEq

structure ApiKeyRow where
  id : Uuid
  tenantId : Uuid
  principalId : Uuid
  keyHash : String
  revokedAt : Option Int
  deriving DecidableEq

structure Directory where
  tenants : List TenantRow
  limits : List LimitsRow
  principals : List MemberRow
  apiKeys : List ApiKeyRow

/-- The tables after the migrations. -/
def Directory.empty : Directory := ⟨[], [], [], []⟩

structure Seed where
  tenantSlug : String
  apiKey : String
  role : Option ControlPlane.Role
  subject : Option String
  deriving DecidableEq

def Seed.roleOrDefault (seed : Seed) : ControlPlane.Role := seed.role.getD .owner

def Seed.subjectOrDefault (seed : Seed) : String := seed.subject.getD "bootstrap-owner"

/-- The values of `gen_random_uuid()` for the rows that one call may insert. -/
structure Drawn where
  tenantId : Uuid
  principalId : Uuid
  apiKeyId : Uuid

/-- The check `slug ~ '^[a-z0-9-]{3,80}$'`. -/
def isSlug (slug : String) : Bool :=
  3 ≤ slug.toList.length && slug.toList.length ≤ 80 && slug.toList.all isNameChar

def MemberRow.key (row : MemberRow) : Uuid × String := (row.tenantId, row.subject)

def upsertTenant (slug : String) (id : Uuid) (tenants : List TenantRow) :
    Option (List TenantRow) :=
  if isSlug slug then
    Table.insertOnConflict TenantRow.slug TenantRow.id (fun row => { row with slug }) ⟨id, slug⟩
      tenants
  else none

def insertLimits (tenantId : Uuid) (limits : List LimitsRow) : List LimitsRow :=
  Table.insertIfAbsent LimitsRow.tenantId ⟨tenantId, 100, 1000⟩ limits

def upsertPrincipal (tenantId : Uuid) (subject : String) (role : ControlPlane.Role) (id : Uuid)
    (principals : List MemberRow) : Option (List MemberRow) :=
  if isText subject then
    Table.insertOnConflict MemberRow.key MemberRow.id (fun row => { row with role })
      ⟨id, tenantId, subject, role⟩ principals
  else none

def upsertApiKey (tenantId principalId : Uuid) (keyHash : String) (id : Uuid)
    (apiKeys : List ApiKeyRow) : Option (List ApiKeyRow) :=
  Table.insertOnConflict ApiKeyRow.keyHash ApiKeyRow.id (fun row => { row with revokedAt := none })
    ⟨id, tenantId, principalId, keyHash, none⟩ apiKeys

/-- A call that succeeds; one that throws rolls its transaction back. -/
def bootstrap (hashApiKey : String → String) (directory : Directory) (drawn : Drawn)
    (seed : Seed) : Option Directory := do
  let tenants ← upsertTenant seed.tenantSlug drawn.tenantId directory.tenants
  let tenant ← Table.lookup TenantRow.slug seed.tenantSlug tenants
  let limits := insertLimits tenant.id directory.limits
  let principals ← upsertPrincipal tenant.id seed.subjectOrDefault seed.roleOrDefault
    drawn.principalId directory.principals
  let principal ← Table.lookup MemberRow.key (tenant.id, seed.subjectOrDefault) principals
  let apiKeys ← upsertApiKey tenant.id principal.id (hashApiKey seed.apiKey) drawn.apiKeyId
    directory.apiKeys
  some ⟨tenants, limits, principals, apiKeys⟩

/-- A row of the `select` in `authenticate`: the principal of a key, and the key's digest. -/
def authenticateRow (directory : Directory) (tenantSlug : String) (row : ApiKeyRow) :
    Option (ControlPlane.Principal × String) :=
  match Table.lookup MemberRow.id row.principalId directory.principals with
  | none => none
  | some principal =>
      match Table.lookup TenantRow.id principal.tenantId directory.tenants with
      | none => none
      | some tenant =>
          if tenant.slug = tenantSlug ∧ row.revokedAt = none then
            some (⟨principal.tenantId, principal.role, principal.subject⟩, row.keyHash)
          else none

def authenticate (hashApiKey : String → String) (directory : Directory) (tenantSlug : String)
    (apiKey : Option String) : Option ControlPlane.Principal :=
  match apiKey with
  | none => none
  | some apiKey =>
      if apiKey = "" then none
      else
        let rows := directory.apiKeys.filterMap (authenticateRow directory tenantSlug)
        (rows.find? fun row => row.2 = hashApiKey apiKey).map Prod.fst

end DurableRuntime.PostgresDurableStore
