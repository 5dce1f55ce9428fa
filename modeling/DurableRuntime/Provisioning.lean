import DurableRuntime.ControlPlane.Bootstrap

/-!
# What bootstrap provisions

A digest belongs to the principal of the call that first named its key: the
upsert of `api_keys` clears `revoked_at` and keeps the principal it finds.  So
`authenticate` accepts what `bootstrap` has just been given exactly when that
first call named the same tenant and subject.
-/

namespace DurableRuntime.PostgresDurableStore

open DurableRuntime.Foundation

/-- The tables after a sequence of calls that all succeed. -/
def provisioned (hashApiKey : String → String) (calls : List (Drawn × Seed)) : Option Directory :=
  calls.foldlM (fun directory call => bootstrap hashApiKey directory call.1 call.2)
    Directory.empty

def seedsOf (calls : List (Drawn × Seed)) : List Seed := calls.map Prod.snd

/-- No two of the keys have the same digest. -/
def Collisionless (hashApiKey : String → String) (apiKeys : List String) : Prop :=
  ∀ a ∈ apiKeys, ∀ b ∈ apiKeys, hashApiKey a = hashApiKey b → a = b

/-- The seed's key authenticates its subject, in its role, for its tenant. -/
def Authenticates (hashApiKey : String → String) (directory : Directory) (seed : Seed) : Prop :=
  ∃ tenant ∈ directory.tenants, tenant.slug = seed.tenantSlug ∧
    authenticate hashApiKey directory seed.tenantSlug (some seed.apiKey) =
      some ⟨tenant.id, seed.roleOrDefault, seed.subjectOrDefault⟩

/-- The key is not empty, and the call that first named it named the same tenant and subject. -/
def NamedAlike (seeds : List Seed) (seed : Seed) : Prop :=
  seed.apiKey ≠ "" ∧ ∃ first, seeds.find? (fun other => other.apiKey = seed.apiKey) = some first ∧
    first.tenantSlug = seed.tenantSlug ∧ first.subjectOrDefault = seed.subjectOrDefault

/-! ## What one call leaves -/

theorem bootstrap_cases {hashApiKey : String → String} {directory directory' : Directory}
    {drawn : Drawn} {seed : Seed}
    (h : bootstrap hashApiKey directory drawn seed = some directory') :
    ∃ tenant principal,
      upsertTenant seed.tenantSlug drawn.tenantId directory.tenants = some directory'.tenants ∧
      Table.lookup TenantRow.slug seed.tenantSlug directory'.tenants = some tenant ∧
      upsertPrincipal tenant.id seed.subjectOrDefault seed.roleOrDefault drawn.principalId
        directory.principals = some directory'.principals ∧
      Table.lookup MemberRow.key (tenant.id, seed.subjectOrDefault) directory'.principals =
        some principal ∧
      upsertApiKey tenant.id principal.id (hashApiKey seed.apiKey) drawn.apiKeyId
        directory.apiKeys = some directory'.apiKeys := by
  simp only [bootstrap, Option.bind_eq_bind, Option.bind_eq_some_iff] at h
  obtain ⟨tenants, htenants, tenant, htenant, principals, hprincipals, principal, hprincipal,
    apiKeys, hkeys, heq⟩ := h
  cases heq
  exact ⟨tenant, principal, htenants, htenant, hprincipals, hprincipal, hkeys⟩

/-- A tenant that exists is left as it is: the update writes the slug it conflicts with. -/
theorem upsertTenant_cases {slug : String} {id : Uuid} {tenants tenants' : List TenantRow}
    (h : upsertTenant slug id tenants = some tenants') :
    tenants' = tenants ∨ (Table.lookup TenantRow.slug slug tenants = none ∧
      Table.lookup TenantRow.id id tenants = none ∧ tenants' = tenants ++ [⟨id, slug⟩]) := by
  unfold upsertTenant at h
  split at h
  · rcases Table.insertOnConflict_cases h with ⟨-, -, rfl⟩ | hnew
    · left
      have hsame : ∀ row ∈ tenants, (if row.slug = slug then { row with slug } else row) =
          (fun row => row) row := by
        intro row _
        split
        · rename_i hslug
          rw [← hslug]
        · rfl
      exact (List.map_congr_left hsame).trans (List.map_id tenants)
    · exact .inr hnew
  · cases h

theorem upsertPrincipal_insert {tenantId id : Uuid} {subject : String} {role : ControlPlane.Role}
    {principals principals' : List MemberRow}
    (h : upsertPrincipal tenantId subject role id principals = some principals') :
    Table.insertOnConflict MemberRow.key MemberRow.id (fun row => { row with role })
      ⟨id, tenantId, subject, role⟩ principals = some principals' := by
  unfold upsertPrincipal at h
  split at h
  · exact h
  · cases h

/-- A tenant is never renamed or dropped. -/
theorem mem_upsertTenant {slug : String} {id : Uuid} {tenants tenants' : List TenantRow}
    (h : upsertTenant slug id tenants = some tenants') {tenant : TenantRow}
    (htenant : tenant ∈ tenants) : tenant ∈ tenants' := by
  rcases upsertTenant_cases h with rfl | ⟨-, -, rfl⟩
  · exact htenant
  · exact List.mem_append_left _ htenant

/-- A principal keeps its tenant and its subject. -/
theorem mem_upsertPrincipal {tenantId id : Uuid} {subject : String} {role : ControlPlane.Role}
    {principals principals' : List MemberRow}
    (h : upsertPrincipal tenantId subject role id principals = some principals')
    {principal : MemberRow} (hprincipal : principal ∈ principals) :
    ∃ principal' ∈ principals', principal'.id = principal.id ∧ principal'.key = principal.key := by
  refine ⟨_, Table.insertOnConflict_mem (upsertPrincipal_insert h) hprincipal, ?_⟩
  split
  · exact ⟨rfl, rfl⟩
  · exact ⟨rfl, rfl⟩

/-! ## The principal of a key -/

/-- The key row stands for a subject of a tenant. -/
def ApiKeyRow.OwnedBy (row : ApiKeyRow) (directory : Directory) (tenantSlug subject : String) :
    Prop :=
  row.revokedAt = none ∧ ∃ tenant ∈ directory.tenants, ∃ principal ∈ directory.principals,
    tenant.slug = tenantSlug ∧ principal.id = row.principalId ∧
      principal.key = (tenant.id, subject)

/-- The tables after the calls: unique keys, and every digest with its first owner. -/
structure Consistent (hashApiKey : String → String) (seeds : List Seed) (directory : Directory) :
    Prop where
  slugs : (directory.tenants.map TenantRow.slug).Nodup
  tenantIds : (directory.tenants.map TenantRow.id).Nodup
  subjects : (directory.principals.map MemberRow.key).Nodup
  principalIds : (directory.principals.map MemberRow.id).Nodup
  hashes : (directory.apiKeys.map ApiKeyRow.keyHash).Nodup
  owned : ∀ row ∈ directory.apiKeys, ∃ seed,
    seeds.find? (fun other => hashApiKey other.apiKey = row.keyHash) = some seed ∧
      row.OwnedBy directory seed.tenantSlug seed.subjectOrDefault
  named : ∀ seed ∈ seeds, ∃ row ∈ directory.apiKeys, row.keyHash = hashApiKey seed.apiKey

section

variable {hashApiKey : String → String} {directory directory' : Directory} {seeds : List Seed}
  {drawn : Drawn} {seed : Seed}

theorem consistent_empty : Consistent hashApiKey [] Directory.empty := by
  constructor <;> simp [Directory.empty]

theorem Consistent.owned_next (consistent : Consistent hashApiKey seeds directory)
    (h : bootstrap hashApiKey directory drawn seed = some directory') {row : ApiKeyRow}
    (hrow : row ∈ directory'.apiKeys) : ∃ owner,
      (seeds ++ [seed]).find? (fun other => hashApiKey other.apiKey = row.keyHash) = some owner ∧
        row.OwnedBy directory' owner.tenantSlug owner.subjectOrDefault := by
  obtain ⟨tenant, principal, htenants, htenant, hprincipals, hprincipal, hkeys⟩ :=
    bootstrap_cases h
  rcases Table.mem_insertOnConflict hkeys hrow with ⟨old, hold, rfl⟩ | ⟨rfl, hnone⟩
  · obtain ⟨owner, howner, hunrevoked, t, ht, p, hp, hslug, hid, hkey⟩ := consistent.owned old hold
    obtain ⟨p', hp', hid', hkey'⟩ := mem_upsertPrincipal hprincipals hp
    have hstands : old.OwnedBy directory' owner.tenantSlug owner.subjectOrDefault :=
      ⟨hunrevoked, t, mem_upsertTenant htenants ht, p', hp', hslug, hid'.trans hid,
        hkey'.trans hkey⟩
    refine ⟨owner, ?_⟩
    split
    · exact ⟨by rw [List.find?_append, howner, Option.some_or], rfl, hstands.2⟩
    · exact ⟨by rw [List.find?_append, howner, Option.some_or], hstands⟩
  · -- the digest is new, so no earlier call named a key that has it
    have hunnamed : seeds.find? (fun other => hashApiKey other.apiKey = hashApiKey seed.apiKey) =
        none := by
      rw [List.find?_eq_none]
      intro other hother hsame
      obtain ⟨row, hrow, hhash⟩ := consistent.named other hother
      rw [decide_eq_true_eq] at hsame
      exact Table.lookup_eq_none.mp hnone row hrow (hhash.trans hsame)
    refine ⟨seed, by simp [List.find?_append, hunnamed], rfl, tenant, Table.lookup_mem htenant,
      principal, Table.lookup_mem hprincipal, Table.lookup_key htenant, rfl, ?_⟩
    exact Table.lookup_key hprincipal

theorem Consistent.next (consistent : Consistent hashApiKey seeds directory)
    (h : bootstrap hashApiKey directory drawn seed = some directory') :
    Consistent hashApiKey (seeds ++ [seed]) directory' := by
  obtain ⟨tenant, principal, htenants, htenant, hprincipals, hprincipal, hkeys⟩ :=
    bootstrap_cases h
  have hprincipals := upsertPrincipal_insert hprincipals
  constructor
  · rcases upsertTenant_cases htenants with hsame | ⟨hslug, -, hnew⟩
    · rw [hsame]
      exact consistent.slugs
    · rw [hnew, List.map_append, List.map_singleton, ← List.concat_eq_append]
      exact consistent.slugs.concat (Table.lookup_eq_none_iff.mp hslug)
  · rcases upsertTenant_cases htenants with hsame | ⟨-, hid, hnew⟩
    · rw [hsame]
      exact consistent.tenantIds
    · rw [hnew, List.map_append, List.map_singleton, ← List.concat_eq_append]
      exact consistent.tenantIds.concat (Table.lookup_eq_none_iff.mp hid)
  · exact Table.nodup_insertOnConflict (by intro _; rfl) hprincipals consistent.subjects
  · exact Table.nodup_id_insertOnConflict (by intro _; rfl) hprincipals consistent.principalIds
  · exact Table.nodup_insertOnConflict (by intro _; rfl) hkeys consistent.hashes
  · intro row hrow
    exact consistent.owned_next h hrow
  · intro other hother
    rcases List.mem_append.mp hother with hold | hnew
    · obtain ⟨row, hrow, hhash⟩ := consistent.named other hold
      refine ⟨_, Table.insertOnConflict_mem hkeys hrow, ?_⟩
      split
      · exact hhash
      · exact hhash
    · rw [List.mem_singleton.mp hnew]
      have hfound := Table.lookup_insertOnConflict (by intro _; rfl) hkeys
      exact ⟨_, Table.lookup_mem hfound, Table.lookup_key hfound⟩

/-- Right after the call its subject has its role. -/
theorem role_of_bootstrap (consistent : Consistent hashApiKey (seeds ++ [seed]) directory')
    (h : bootstrap hashApiKey directory drawn seed = some directory') {tenant : TenantRow}
    (htenant : tenant ∈ directory'.tenants) (hslug : tenant.slug = seed.tenantSlug)
    {principal : MemberRow} (hprincipal : principal ∈ directory'.principals)
    (hkey : principal.key = (tenant.id, seed.subjectOrDefault)) :
    principal.role = seed.roleOrDefault := by
  obtain ⟨tenant', _, -, htenant', hprincipals, -, -⟩ := bootstrap_cases h
  have htenant'' := Table.lookup_of_mem consistent.slugs htenant
  rw [hslug, htenant', Option.some.injEq] at htenant''
  subst htenant''
  have hfound :=
    Table.lookup_insertOnConflict (by intro _; rfl) (upsertPrincipal_insert hprincipals)
  have hown := Table.lookup_of_mem consistent.subjects hprincipal
  rw [hkey] at hown
  rw [MemberRow.key, hown, Option.some.injEq] at hfound
  rw [hfound]
  cases Table.lookup MemberRow.key (tenant'.id, seed.subjectOrDefault) directory.principals <;> rfl

/-! ## Authentication -/

theorem authenticateRow_snd {tenantSlug : String} {row : ApiKeyRow}
    {found : ControlPlane.Principal × String}
    (h : authenticateRow directory tenantSlug row = some found) : found.2 = row.keyHash := by
  unfold authenticateRow at h
  repeat' split at h
  all_goals cases h
  rfl

theorem Consistent.authenticateRow_eq (consistent : Consistent hashApiKey seeds directory)
    {row : ApiKeyRow} (hunrevoked : row.revokedAt = none) {tenant : TenantRow}
    (htenant : tenant ∈ directory.tenants) {principal : MemberRow}
    (hprincipal : principal ∈ directory.principals) (hid : principal.id = row.principalId)
    {subject : String} (hkey : principal.key = (tenant.id, subject)) (tenantSlug : String) :
    authenticateRow directory tenantSlug row =
      if tenant.slug = tenantSlug then
        some (⟨tenant.id, principal.role, subject⟩, row.keyHash)
      else none := by
  have hprincipal := Table.lookup_of_mem consistent.principalIds hprincipal
  have htenant := Table.lookup_of_mem consistent.tenantIds htenant
  simp only [MemberRow.key, Prod.mk.injEq] at hkey
  rw [authenticateRow, ← hid, hprincipal]
  simp only [hkey.1, htenant, hkey.2, hunrevoked, and_true]

/-- A digest authenticates the subject it stands for, and only for its tenant. -/
theorem Consistent.authenticate_eq (consistent : Consistent hashApiKey seeds directory)
    {row : ApiKeyRow} (hrow : row ∈ directory.apiKeys) (hunrevoked : row.revokedAt = none)
    {tenant : TenantRow} (htenant : tenant ∈ directory.tenants) {principal : MemberRow}
    (hprincipal : principal ∈ directory.principals) (hid : principal.id = row.principalId)
    {subject : String} (hkey : principal.key = (tenant.id, subject)) {apiKey : String}
    (hhash : row.keyHash = hashApiKey apiKey) (hnonempty : apiKey ≠ "") (tenantSlug : String) :
    authenticate hashApiKey directory tenantSlug (some apiKey) =
      if tenant.slug = tenantSlug then some ⟨tenant.id, principal.role, subject⟩ else none := by
  have hjoin := consistent.authenticateRow_eq hunrevoked htenant hprincipal hid hkey tenantSlug
  simp only [authenticate, if_neg hnonempty]
  have only : ∀ found ∈ directory.apiKeys.filterMap (authenticateRow directory tenantSlug),
      found.2 = hashApiKey apiKey → authenticateRow directory tenantSlug row = some found := by
    intro found hfound hsame
    obtain ⟨other, hother, hauth⟩ := List.mem_filterMap.mp hfound
    have hkeyHash : other.keyHash = row.keyHash := by
      rw [← authenticateRow_snd hauth, hsame, hhash]
    rwa [Table.eq_of_key_eq consistent.hashes hother hrow hkeyHash] at hauth
  cases hfind : (directory.apiKeys.filterMap (authenticateRow directory tenantSlug)).find?
      fun found => found.2 = hashApiKey apiKey with
  | some found =>
      have hsame : found.2 = hashApiKey apiKey := by simpa using List.find?_some hfind
      have hauth := only found (List.mem_of_find?_eq_some hfind) hsame
      rw [hjoin] at hauth
      split at hauth
      · rename_i hslug
        cases hauth
        rw [if_pos hslug]
        rfl
      · cases hauth
  | none =>
      rw [List.find?_eq_none] at hfind
      split
      · rename_i hslug
        rw [if_pos hslug] at hjoin
        have hmem := List.mem_filterMap.mpr ⟨row, hrow, hjoin⟩
        exact absurd hhash (by simpa using hfind _ hmem)
      · rfl

theorem authenticate_some {tenantSlug apiKey : String} {principal : ControlPlane.Principal}
    (h : authenticate hashApiKey directory tenantSlug (some apiKey) = some principal) :
    apiKey ≠ "" ∧ ∃ row ∈ directory.apiKeys, row.keyHash = hashApiKey apiKey := by
  simp only [authenticate] at h
  split at h
  · cases h
  · rename_i hnonempty
    obtain ⟨found, hfind, -⟩ := Option.map_eq_some_iff.mp h
    obtain ⟨row, hrow, hauth⟩ := List.mem_filterMap.mp (List.mem_of_find?_eq_some hfind)
    have hsame : found.2 = hashApiKey apiKey := by simpa using List.find?_some hfind
    exact ⟨hnonempty, row, hrow, (authenticateRow_snd hauth).symm.trans hsame⟩

theorem find?_hash {apiKey : String}
    (hcollisionless : Collisionless hashApiKey (apiKey :: seeds.map (·.apiKey))) :
    seeds.find? (fun other => hashApiKey other.apiKey = hashApiKey apiKey) =
      seeds.find? fun other => other.apiKey = apiKey := by
  have hiff : ∀ other ∈ seeds,
      (hashApiKey other.apiKey = hashApiKey apiKey ↔ other.apiKey = apiKey) := by
    intro other hother
    constructor
    · exact hcollisionless _ (List.mem_cons_of_mem _ (List.mem_map_of_mem hother)) _
        List.mem_cons_self
    · intro heq
      rw [heq]
  clear hcollisionless
  induction seeds with
  | nil => rfl
  | cons head tail ih =>
      have htail := ih fun other hother => hiff other (List.mem_cons_of_mem _ hother)
      simp only [List.find?_cons, hiff head List.mem_cons_self, htail]

theorem Consistent.only_named (consistent : Consistent hashApiKey seeds directory)
    {tenantSlug apiKey : String} {principal : ControlPlane.Principal}
    (hcollisionless : Collisionless hashApiKey (apiKey :: seeds.map (·.apiKey)))
    (h : authenticate hashApiKey directory tenantSlug (some apiKey) = some principal) :
    ∃ seed ∈ seeds, seed.tenantSlug = tenantSlug ∧ seed.apiKey = apiKey := by
  obtain ⟨hnonempty, row, hrow, hhash⟩ := authenticate_some h
  obtain ⟨owner, howner, hunrevoked, tenant, htenant, p, hp, hslug, hid, hkey⟩ :=
    consistent.owned row hrow
  rw [hhash, find?_hash hcollisionless] at howner
  rw [consistent.authenticate_eq hrow hunrevoked htenant hp hid hkey hhash hnonempty] at h
  refine ⟨owner, List.mem_of_find?_eq_some howner, ?_, by simpa using List.find?_some howner⟩
  split at h
  · rename_i hslug'
    rw [← hslug, hslug']
  · cases h

theorem Consistent.authenticates_iff
    (consistent : Consistent hashApiKey (seeds ++ [seed]) directory')
    (h : bootstrap hashApiKey directory drawn seed = some directory')
    (hcollisionless : Collisionless hashApiKey ((seeds ++ [seed]).map (·.apiKey))) :
    Authenticates hashApiKey directory' seed ↔ NamedAlike (seeds ++ [seed]) seed := by
  have hcollisionless : Collisionless hashApiKey
      (seed.apiKey :: (seeds ++ [seed]).map (·.apiKey)) := by
    have hmem : ∀ a ∈ seed.apiKey :: (seeds ++ [seed]).map (·.apiKey),
        a ∈ (seeds ++ [seed]).map (·.apiKey) := by
      intro a ha
      rcases List.mem_cons.mp ha with rfl | ha
      · simp
      · exact ha
    intro a ha b hb
    exact hcollisionless a (hmem a ha) b (hmem b hb)
  obtain ⟨row, hrow, hhash⟩ := consistent.named seed (by simp)
  obtain ⟨owner, howner, hunrevoked, tenant, htenant, p, hp, hslug, hid, hkey⟩ :=
    consistent.owned row hrow
  rw [hhash, find?_hash hcollisionless] at howner
  constructor
  · rintro ⟨tenant', -, hslug', hauth⟩
    obtain ⟨hnonempty, -⟩ := authenticate_some hauth
    rw [consistent.authenticate_eq hrow hunrevoked htenant hp hid hkey hhash hnonempty] at hauth
    split at hauth
    · rename_i hsame
      simp only [Option.some.injEq, ControlPlane.Principal.mk.injEq] at hauth
      exact ⟨hnonempty, owner, howner, hslug.symm.trans hsame, hauth.2.2⟩
    · cases hauth
  · rintro ⟨hnonempty, first, hfirst, hslug', hsubject⟩
    rw [howner, Option.some.injEq] at hfirst
    subst hfirst
    have hsame : tenant.slug = seed.tenantSlug := hslug.trans hslug'
    rw [hsubject] at hkey
    have hrole := role_of_bootstrap consistent h htenant hsame hp hkey
    refine ⟨tenant, htenant, hsame, ?_⟩
    rw [consistent.authenticate_eq hrow hunrevoked htenant hp hid hkey hhash hnonempty,
      if_pos hsame, hrole]

theorem provisioned_snoc {calls : List (Drawn × Seed)} {call : Drawn × Seed}
    (h : provisioned hashApiKey (calls ++ [call]) = some directory') :
    ∃ directory, provisioned hashApiKey calls = some directory ∧
      bootstrap hashApiKey directory call.1 call.2 = some directory' := by
  rw [provisioned, List.foldlM_append] at h
  obtain ⟨directory, hcalls, hlast⟩ := Option.bind_eq_some_iff.mp h
  refine ⟨directory, hcalls, ?_⟩
  simpa using hlast

theorem consistent_provisioned {calls : List (Drawn × Seed)}
    (h : provisioned hashApiKey calls = some directory) :
    Consistent hashApiKey (seedsOf calls) directory := by
  induction calls using List.reverseRecOn generalizing directory with
  | nil =>
      cases h
      exact consistent_empty
  | append_singleton calls call ih =>
      obtain ⟨before, hcalls, hlast⟩ := provisioned_snoc h
      simpa [seedsOf] using (ih hcalls).next hlast

end

/--
After any sequence of successful calls, only pairs of a tenant and a key that
some call named are accepted, and the pair of the last call is accepted, for its
subject and in its role, exactly when the call that first named the key named
the same tenant and subject.
-/
theorem bootstrap_authenticates (hashApiKey : String → String) {calls : List (Drawn × Seed)}
    {directory : Directory} (hcalls : provisioned hashApiKey calls = some directory) :
    (∀ tenantSlug apiKey principal,
        Collisionless hashApiKey (apiKey :: (seedsOf calls).map (·.apiKey)) →
          authenticate hashApiKey directory tenantSlug (some apiKey) = some principal →
            ∃ seed ∈ seedsOf calls, seed.tenantSlug = tenantSlug ∧ seed.apiKey = apiKey) ∧
      ∀ before drawn seed, calls = before ++ [(drawn, seed)] →
        Collisionless hashApiKey ((seedsOf calls).map (·.apiKey)) →
          (Authenticates hashApiKey directory seed ↔ NamedAlike (seedsOf calls) seed) := by
  have consistent := consistent_provisioned hcalls
  constructor
  · intro tenantSlug apiKey principal hcollisionless hauth
    exact consistent.only_named hcollisionless hauth
  · rintro before drawn seed rfl hcollisionless
    obtain ⟨directory', -, hlast⟩ := provisioned_snoc hcalls
    have hseeds : seedsOf (before ++ [(drawn, seed)]) = seedsOf before ++ [seed] := by
      simp [seedsOf]
    rw [hseeds] at consistent hcollisionless ⊢
    exact consistent.authenticates_iff hlast hcollisionless

/-! ## A key that moves to another tenant -/

def localKey : String := "replace-with-a-long-local-key"

/-- `hashApiKey` on the local key. -/
def localDigest (apiKey : String) : String :=
  if apiKey = localKey then
    "e050e3030e281b8c9e0ed074f6b92a82f30ea809f717c16024050cbac4f6c96c"
  else apiKey

def localSeed (tenantSlug : String) : Seed := ⟨tenantSlug, localKey, none, none⟩

/-- The server starts twice on one database, for the same tenant. -/
def restarted : List (Drawn × Seed) :=
  [(⟨1, 2, 3⟩, localSeed "demo-tenant"), (⟨4, 5, 6⟩, localSeed "demo-tenant")]

/-- The server starts for one tenant, and then with the same key for another one. -/
def renamed : List (Drawn × Seed) :=
  [(⟨1, 2, 3⟩, localSeed "demo-tenant"), (⟨4, 5, 6⟩, localSeed "other-tenant")]

theorem collisionless_self {hashApiKey : String → String} (apiKey : String) :
    Collisionless hashApiKey [apiKey, apiKey] := by
  intro a ha b hb _
  simp only [List.mem_cons, List.not_mem_nil, or_false, or_self] at ha hb
  rw [ha, hb]

theorem restarted_authenticates : ∃ directory, provisioned localDigest restarted = some directory ∧
    Authenticates localDigest directory (localSeed "demo-tenant") := by
  obtain ⟨directory, hcalls⟩ := Option.isSome_iff_exists.mp
    (show (provisioned localDigest restarted).isSome = true by decide)
  refine ⟨directory, hcalls, ?_⟩
  have hiff := (bootstrap_authenticates localDigest hcalls).2
    [(⟨1, 2, 3⟩, localSeed "demo-tenant")] ⟨4, 5, 6⟩ (localSeed "demo-tenant") rfl
    (collisionless_self localKey)
  exact hiff.mpr ⟨by decide, localSeed "demo-tenant", by decide, rfl, rfl⟩

theorem not_authenticates : ¬∀ hashApiKey calls directory before drawn seed,
    provisioned hashApiKey calls = some directory → calls = before ++ [(drawn, seed)] →
      Collisionless hashApiKey ((seedsOf calls).map (·.apiKey)) →
        Authenticates hashApiKey directory seed := by
  intro hall
  obtain ⟨directory, hcalls⟩ := Option.isSome_iff_exists.mp
    (show (provisioned localDigest renamed).isSome = true by decide)
  have hrefused : (provisioned localDigest renamed).all (fun directory =>
      (authenticate localDigest directory "other-tenant" (some localKey)).isNone) = true := by
    decide
  obtain ⟨tenant, -, -, hauth⟩ := hall localDigest renamed directory
    [(⟨1, 2, 3⟩, localSeed "demo-tenant")] ⟨4, 5, 6⟩ (localSeed "other-tenant") hcalls rfl
    (collisionless_self localKey)
  rw [hcalls, Option.all_some, Option.isNone_iff_eq_none] at hrefused
  exact absurd (hrefused.symm.trans hauth) (by simp)

end DurableRuntime.PostgresDurableStore
