import Mathlib.Data.List.Basic
import Mathlib.Data.List.Forall2
import Mathlib.Data.List.Nodup

/-!
# Keyed tables

A table is the list of its rows in the order of their insertion, and a key
column finds a row in it.  The operations are those of SQL on a unique key,
`select ... where key = k`, `update ... where key = k` and
`insert ... on conflict (key) do nothing`, and that of a map on an entry.
-/

namespace DurableRuntime.Foundation.Table

universe u v

variable {ρ : Type u} {κ : Type v} [DecidableEq κ] (key : ρ → κ)

def lookup (k : κ) (rows : List ρ) : Option ρ :=
  rows.find? fun row => key row = k

def modify (k : κ) (f : ρ → ρ) (rows : List ρ) : List ρ :=
  rows.map fun row => if key row = k then f row else row

/-- `Map.prototype.set`: an entry of the same key is replaced where it stands. -/
def put (row : ρ) (rows : List ρ) : List ρ :=
  if (lookup key (key row) rows).isSome then modify key (key row) (fun _ => row) rows
  else rows ++ [row]

def insertIfAbsent (row : ρ) (rows : List ρ) : List ρ :=
  if (lookup key (key row) rows).isSome then rows else rows ++ [row]

variable {key}

@[simp] theorem lookup_nil (k : κ) : lookup key k ([] : List ρ) = none := rfl

theorem lookup_key {k : κ} {rows : List ρ} {row : ρ}
    (h : lookup key k rows = some row) : key row = k := by
  simpa using List.find?_some h

theorem lookup_mem {k : κ} {rows : List ρ} {row : ρ}
    (h : lookup key k rows = some row) : row ∈ rows :=
  List.mem_of_find?_eq_some h

theorem lookup_eq_none {k : κ} {rows : List ρ} :
    lookup key k rows = none ↔ ∀ row ∈ rows, key row ≠ k := by
  simp [lookup]

theorem lookup_eq_none_iff {k : κ} {rows : List ρ} :
    lookup key k rows = none ↔ k ∉ rows.map key := by
  rw [lookup_eq_none]
  simp

theorem lookup_isSome {k : κ} {rows : List ρ} :
    (lookup key k rows).isSome ↔ ∃ row ∈ rows, key row = k := by
  simp [lookup]

theorem lookup_cons (k : κ) (row : ρ) (rows : List ρ) :
    lookup key k (row :: rows) =
      if key row = k then some row else lookup key k rows := by
  by_cases h : key row = k <;> simp [lookup, h]

/-- A new row is found only under its own key, and only when no older row has it. -/
theorem lookup_snoc (k : κ) (row : ρ) (rows : List ρ) :
    lookup key k (rows ++ [row]) =
      (lookup key k rows).or (if key row = k then some row else none) := by
  by_cases h : key row = k <;> simp [lookup, List.find?_append, h]

theorem lookup_of_prefix {k : κ} {row : ρ} {rows rows' : List ρ} ( hprefix : rows <+: rows')
    (h : lookup key k rows = some row) : lookup key k rows' = some row := by
  obtain ⟨tail, rfl⟩ := hprefix
  rw [lookup, List.find?_append]
  rw [lookup] at h
  rw [h, Option.some_or]

/-- An update keyed by `k` changes what is found under `k` and nothing else. -/
theorem lookup_modify (j k : κ) {f : ρ → ρ} (hf : ∀ row, key (f row) = key row)
    (rows : List ρ) :
    lookup key j (modify key k f rows) =
      if j = k then (lookup key k rows).map f else lookup key j rows := by
  induction rows with
  | nil => simp [modify]
  | cons row rows ih =>
      have tail : lookup key j (modify key k f (row :: rows)) =
          lookup key j ((if key row = k then f row else row) :: modify key k f rows) :=
        rfl
      rw [tail, lookup_cons, ih, lookup_cons, lookup_cons]
      by_cases hrow : key row = k
      · by_cases hj : j = k
        · simp [hrow, hf, hj]
        · simp [hrow, hf, hj, Ne.symm hj]
      · by_cases hj : j = k
        · subst hj
          simp [hrow]
        · simp [hrow, hj]

theorem lookup_modify_self {k : κ} {f : ρ → ρ} (hf : ∀ row, key (f row) = key row)
    (rows : List ρ) :
    lookup key k (modify key k f rows) = (lookup key k rows).map f := by
  rw [lookup_modify k k hf, if_pos rfl]

theorem modify_eq_self {k : κ} {f : ρ → ρ} {rows : List ρ}
    (h : lookup key k rows = none) : modify key k f rows = rows := by
  rw [lookup_eq_none] at h
  have fixed : ∀ row ∈ rows, (if key row = k then f row else row) = id row := by
    intro row hrow
    simp [h row hrow]
  rw [modify, List.map_congr_left fixed, List.map_id]

/-- A column that the update keeps. -/
theorem map_modify {γ : Type*} {column : ρ → γ} {k : κ} {f : ρ → ρ}
    (hf : ∀ row, column (f row) = column row) (rows : List ρ) :
    (modify key k f rows).map column = rows.map column := by
  rw [modify, List.map_map]
  refine List.map_congr_left ?_
  intro row _
  simp only [Function.comp_apply]
  split
  · exact hf row
  · rfl

theorem lookup_map {ρ' : Type*} {f : ρ' → ρ} {k : κ} {rows : List ρ'} :
    lookup key k (rows.map f) = (lookup (fun row => key (f row)) k rows).map f := by
  rw [lookup, List.find?_map]
  rfl

/-- An update that makes no row pass a test does not raise the number of rows that pass it. -/
theorem countP_modify_le {k : κ} {f : ρ → ρ} {rows : List ρ} {test : ρ → Bool}
    (h : ∀ row ∈ rows, key row = k → test (f row) = true → test row = true) :
    (modify key k f rows).countP test ≤ rows.countP test := by
  rw [modify, List.countP_map]
  refine List.countP_mono_left ?_
  intro row hrow htest
  simp only [Function.comp_apply] at htest
  split at htest
  · rename_i hkey
    exact h row hrow hkey htest
  · exact htest

theorem put_of_absent {row : ρ} {rows : List ρ} (h : lookup key (key row) rows = none) :
    put key row rows = rows ++ [row] := by
  rw [put, h]
  rfl

/-- After `set` the entry of its key is the new one, and every other entry is as before. -/
theorem lookup_put (k : κ) (row : ρ) (rows : List ρ) :
    lookup key k (put key row rows) = if k = key row then some row else lookup key k rows := by
  cases hrow : lookup key (key row) rows with
  | none =>
      rw [put_of_absent hrow, lookup_snoc]
      by_cases hk : k = key row
      · rw [hk, hrow]
        simp
      · simp [hk, Ne.symm hk]
  | some old =>
      rw [put, hrow, Option.isSome_some, if_pos rfl]
      by_cases hk : k = key row
      · subst hk
        rw [if_pos rfl]
        induction rows with
        | nil => cases hrow
        | cons head tail ih =>
            rw [modify, List.map_cons, lookup_cons]
            rw [lookup_cons] at hrow
            by_cases hhead : key head = key row
            · simp [hhead]
            · rw [if_neg hhead] at hrow
              simp only [hhead, if_false]
              exact ih hrow
      · rw [if_neg hk]
        clear hrow
        induction rows with
        | nil => rfl
        | cons head tail ih =>
            rw [modify, List.map_cons, lookup_cons, lookup_cons]
            by_cases hhead : key head = key row
            · simp only [hhead, if_true, if_neg (Ne.symm hk)]
              exact ih
            · simp only [hhead, if_false]
              rw [← ih]
              rfl

/-! ## A part of a table -/

section

variable {keep keep' : ρ → Bool} {rows own : List ρ} {k : κ} {row : ρ}

/-- `own` finds, under every key, what `rows` finds there if it is to be kept. -/
def Shows (key : ρ → κ) (keep : ρ → Bool) (rows own : List ρ) : Prop :=
  ∀ k, lookup key k own = (lookup key k rows).filter keep

theorem Shows.lookup_of_keep (h : Shows key keep rows own) (hrow : lookup key k rows = some row)
    (hkeep : keep row = true) : lookup key k own = some row := by
  rw [h, hrow, Option.filter_some, if_pos hkeep]

theorem Shows.lookup_of_absent (h : Shows key keep rows own) (hnone : lookup key k rows = none) :
    lookup key k own = none := by
  rw [h, hnone, Option.filter_none]

theorem Shows.congr (h : Shows key keep rows own)
    (hkeep : ∀ k row, lookup key k rows = some row → keep' row = keep row) :
    Shows key keep' rows own := by
  intro k
  rw [h]
  cases hrow : lookup key k rows with
  | none => rfl
  | some row => rw [Option.filter_some, Option.filter_some, hkeep k row hrow]

theorem Shows.put (h : Shows key keep rows own) (hkeep : keep row = true) :
    Shows key keep (put key row rows) (put key row own) := by
  intro k
  rw [lookup_put, lookup_put, h]
  split
  · rw [Option.filter_some, if_pos hkeep]
  · rfl

/-- A row of a new key that is not to be kept stays invisible. -/
theorem Shows.put_of_dropped (h : Shows key keep rows own) (hkeep : keep row = false)
    (hnew : lookup key (key row) rows = none) : Shows key keep (Table.put key row rows) own := by
  intro k
  rw [lookup_put, h]
  split
  · rename_i hk
    rw [hk, hnew, Option.filter_some, hkeep]
    rfl
  · rfl

theorem Shows.modify (h : Shows key keep rows own) {f : ρ → ρ} (hf : ∀ row, key (f row) = key row)
    (hkeep : ∀ row, keep (f row) = keep row) :
    Shows key keep (modify key k f rows) (modify key k f own) := by
  intro j
  rw [lookup_modify j k hf, lookup_modify j k hf, h, h]
  split
  · cases lookup key k rows with
    | none => rfl
    | some row =>
        rw [Option.map_some, Option.filter_some, Option.filter_some, hkeep]
        split <;> rfl
  · rfl

theorem Shows.modify_of_dropped (h : Shows key keep rows own) {f : ρ → ρ}
    (hf : ∀ row, key (f row) = key row) (hkeep : ∀ row, keep (f row) = keep row)
    (hdropped : ∀ row, lookup key k rows = some row → keep row = false) :
    Shows key keep (Table.modify key k f rows) own := by
  intro j
  rw [lookup_modify j k hf, h]
  split
  · rename_i hj
    subst hj
    cases hrow : lookup key j rows with
    | none => rfl
    | some row =>
        have hfalse := hdropped row hrow
        rw [Option.map_some, Option.filter_some, Option.filter_some, hkeep, hfalse]
        rfl
  · rfl

end

/-! ## Related tables -/

section

variable {ρ' : Type*} {κ' : Type*} [DecidableEq κ'] {key' : ρ' → κ'} {R S : ρ → ρ' → Prop}
  {rows : List ρ} {rows' : List ρ'} {k : κ} {k' : κ'}

/-- Related rows are found under corresponding keys. -/
theorem lookup_related (h : List.Forall₂ R rows rows')
    (hkey : ∀ row row', R row row' → (key row = k ↔ key' row' = k')) :
    Option.Rel R (lookup key k rows) (lookup key' k' rows') := by
  induction h with
  | nil => exact .none
  | @cons row row' rows rows' hrow _ ih =>
      rw [lookup_cons, lookup_cons]
      by_cases hk : key row = k
      · rw [if_pos hk, if_pos ((hkey row row' hrow).mp hk)]
        exact .some hrow
      · rw [if_neg hk, if_neg fun hk' => hk ((hkey row row' hrow).mpr hk')]
        exact ih

omit [DecidableEq κ] [DecidableEq κ'] in
theorem rel_cases {found : Option ρ} {found' : Option ρ'} (h : Option.Rel R found found') :
    (found = none ∧ found' = none) ∨
      ∃ row row', found = some row ∧ found' = some row' ∧ R row row' := by
  cases h with
  | none => exact .inl ⟨rfl, rfl⟩
  | some hrow => exact .inr ⟨_, _, rfl, rfl, hrow⟩

omit [DecidableEq κ] [DecidableEq κ'] in
theorem mem_related (h : List.Forall₂ R rows rows') {row' : ρ'} (hrow : row' ∈ rows') :
    ∃ row ∈ rows, R row row' := by
  induction h with
  | nil => cases hrow
  | cons hhead _ ih =>
      rcases List.mem_cons.mp hrow with rfl | htail
      · exact ⟨_, List.mem_cons_self, hhead⟩
      · obtain ⟨row, hmem, hrelated⟩ := ih htail
        exact ⟨row, List.mem_cons_of_mem _ hmem, hrelated⟩

omit [DecidableEq κ] [DecidableEq κ'] in
theorem imp_related (h : List.Forall₂ R rows rows')
    (himp : ∀ row row', R row row' → row ∈ rows → row' ∈ rows' → S row row') :
    List.Forall₂ S rows rows' := by
  induction h with
  | nil => exact .nil
  | cons hhead _ ih =>
      refine .cons (himp _ _ hhead List.mem_cons_self List.mem_cons_self) (ih ?_)
      intro row row' hrow hmem hmem'
      exact himp row row' hrow (List.mem_cons_of_mem _ hmem) (List.mem_cons_of_mem _ hmem')

theorem modify_related (h : List.Forall₂ R rows rows')
    (hkey : ∀ row row', R row row' → (key row = k ↔ key' row' = k')) {f : ρ → ρ} {f' : ρ' → ρ'}
    (hf : ∀ row row', R row row' → key row = k → S (f row) (f' row'))
    (hother : ∀ row row', R row row' → key row ≠ k → S row row') :
    List.Forall₂ S (modify key k f rows) (modify key' k' f' rows') := by
  rw [modify, modify, List.forall₂_map_left_iff, List.forall₂_map_right_iff]
  refine h.imp ?_
  intro row row' hrow
  by_cases hk : key row = k
  · rw [if_pos hk, if_pos ((hkey row row' hrow).mp hk)]
    exact hf row row' hrow hk
  · rw [if_neg hk, if_neg fun hk' => hk ((hkey row row' hrow).mpr hk')]
    exact hother row row' hrow hk

end

/-! ## Insertion on a unique key -/

theorem mem_insertIfAbsent {row other : ρ} {rows : List ρ}
    (h : other ∈ insertIfAbsent key row rows) :
    other ∈ rows ∨ (other = row ∧ ∀ old ∈ rows, key old ≠ key row) := by
  unfold insertIfAbsent at h
  split at h
  · exact .inl h
  · rename_i habsent
    rcases List.mem_append.mp h with h | h
    · exact .inl h
    · rw [List.mem_singleton] at h
      refine .inr ⟨h, ?_⟩
      rwa [Bool.not_eq_true, Option.isSome_eq_false_iff, Option.isNone_iff_eq_none,
        lookup_eq_none] at habsent

theorem prefix_insertIfAbsent (row : ρ) (rows : List ρ) :
    rows <+: insertIfAbsent key row rows := by
  unfold insertIfAbsent
  split
  · exact List.prefix_rfl
  · exact List.prefix_append rows [row]

/-- After the insertion some row has the key, whoever inserted it. -/
theorem exists_key_insertIfAbsent (row : ρ) (rows : List ρ) :
    ∃ other ∈ insertIfAbsent key row rows, key other = key row := by
  unfold insertIfAbsent
  split
  · rename_i hsome
    exact lookup_isSome.mp hsome
  · exact ⟨row, by simp, rfl⟩

/-- `on conflict do nothing` keeps the key column free of duplicates. -/
theorem nodup_insertIfAbsent {row : ρ} {rows : List ρ} (h : (rows.map key).Nodup) :
    ((insertIfAbsent key row rows).map key).Nodup := by
  unfold insertIfAbsent
  split
  · exact h
  · rename_i habsent
    rw [Bool.not_eq_true, Option.isSome_eq_false_iff, Option.isNone_iff_eq_none,
      lookup_eq_none] at habsent
    rw [List.map_append, List.map_singleton]
    refine List.nodup_append.mpr ⟨h, by simp, ?_⟩
    intro a ha b hb
    obtain ⟨old, hold, rfl⟩ := List.mem_map.mp ha
    rw [List.mem_singleton.mp hb]
    exact habsent old hold

/-- With distinct keys a row is what its own key finds. -/
theorem lookup_of_mem {rows : List ρ} (h : (rows.map key).Nodup) {row : ρ}
    (hrow : row ∈ rows) : lookup key (key row) rows = some row := by
  induction rows with
  | nil => cases hrow
  | cons head tail ih =>
      rw [List.map_cons, List.nodup_cons] at h
      rw [lookup_cons]
      rcases List.mem_cons.mp hrow with rfl | htail
      · simp
      · have hne : key head ≠ key row := by
          intro heq
          exact h.1 (heq ▸ List.mem_map_of_mem htail)
        rw [if_neg hne]
        exact ih h.2 htail

theorem eq_of_key_eq {rows : List ρ} (h : (rows.map key).Nodup) {row other : ρ}
    (hrow : row ∈ rows) (hother : other ∈ rows) (hkey : key row = key other) :
    row = other := by
  have hfound := lookup_of_mem h hrow
  rw [hkey, lookup_of_mem h hother, Option.some.injEq] at hfound
  exact hfound.symm

omit [DecidableEq κ] in
/-- With distinct keys, at most one row passes a test that fixes the key. -/
theorem length_filter_le_one {rows : List ρ} (h : (rows.map key).Nodup) {test : ρ → Bool}
    (hkey : ∀ row ∈ rows, ∀ other ∈ rows, test row = true → test other = true →
      key row = key other) : (rows.filter test).length ≤ 1 := by
  have hnodup : ((rows.filter test).map key).Nodup := h.sublist (List.filter_sublist.map key)
  cases hfilter : rows.filter test with
  | nil => simp
  | cons row tail =>
      cases tail with
      | nil => simp
      | cons other tail =>
          have hmem : ∀ x ∈ rows.filter test, x ∈ rows ∧ test x = true :=
            fun x => List.mem_filter.mp
          obtain ⟨hrow, htest⟩ := hmem row (by simp [hfilter])
          obtain ⟨hother, htest'⟩ := hmem other (by simp [hfilter])
          rw [hfilter, List.map_cons, List.map_cons, List.nodup_cons] at hnodup
          exact absurd (hkey row hrow other hother htest htest' ▸ List.mem_cons_self) hnodup.1

/-! ## Insertion that updates on conflict -/

section

variable {ι : Type*} [DecidableEq ι] {id : ρ → ι} {f : ρ → ρ} {row : ρ} {rows rows' : List ρ}

/--
`insert ... on conflict (key) do update`, in a table with a primary key besides:
a row of the same key is updated, and a new row needs an unused primary key.
-/
def insertOnConflict (key : ρ → κ) (id : ρ → ι) (f : ρ → ρ) (row : ρ) (rows : List ρ) :
    Option (List ρ) :=
  if (lookup key (key row) rows).isSome then some (modify key (key row) f rows)
  else if (lookup id (id row) rows).isSome then none
  else some (rows ++ [row])

theorem insertOnConflict_cases (h : insertOnConflict key id f row rows = some rows') :
    (∃ old, lookup key (key row) rows = some old ∧ rows' = modify key (key row) f rows) ∨
      (lookup key (key row) rows = none ∧ lookup id (id row) rows = none ∧
        rows' = rows ++ [row]) := by
  unfold insertOnConflict at h
  split at h
  · rename_i hsome
    obtain ⟨old, hold⟩ := Option.isSome_iff_exists.mp hsome
    cases h
    exact .inl ⟨old, hold, rfl⟩
  · rename_i hnone
    split at h
    · cases h
    · rename_i hid
      cases h
      exact .inr ⟨by simpa using hnone, by simpa using hid, rfl⟩

/-- What the statement leaves under the key of its row. -/
theorem lookup_insertOnConflict (hf : ∀ row, key (f row) = key row)
    (h : insertOnConflict key id f row rows = some rows') :
    lookup key (key row) rows' = some (((lookup key (key row) rows).map f).getD row) := by
  rcases insertOnConflict_cases h with ⟨old, hold, rfl⟩ | ⟨hnone, -, rfl⟩
  · rw [lookup_modify_self hf, hold]
    rfl
  · rw [lookup_snoc, hnone]
    simp

theorem mem_insertOnConflict (h : insertOnConflict key id f row rows = some rows') {new : ρ}
    (hnew : new ∈ rows') :
    (∃ old ∈ rows, new = if key old = key row then f old else old) ∨
      (new = row ∧ lookup key (key row) rows = none) := by
  rcases insertOnConflict_cases h with ⟨-, -, rfl⟩ | ⟨hnone, -, rfl⟩
  · obtain ⟨old, hold, rfl⟩ := List.mem_map.mp hnew
    exact .inl ⟨old, hold, rfl⟩
  · rcases List.mem_append.mp hnew with hold | hnew
    · have hne := lookup_eq_none.mp hnone new hold
      exact .inl ⟨new, hold, by rw [if_neg hne]⟩
    · exact .inr ⟨List.mem_singleton.mp hnew, hnone⟩

theorem insertOnConflict_mem (h : insertOnConflict key id f row rows = some rows') {old : ρ}
    (hold : old ∈ rows) : (if key old = key row then f old else old) ∈ rows' := by
  rcases insertOnConflict_cases h with ⟨-, -, rfl⟩ | ⟨hnone, -, rfl⟩
  · exact List.mem_map_of_mem hold
  · rw [if_neg (lookup_eq_none.mp hnone old hold)]
    exact List.mem_append_left _ hold

theorem nodup_insertOnConflict (hf : ∀ row, key (f row) = key row)
    (h : insertOnConflict key id f row rows = some rows') (hnodup : (rows.map key).Nodup) :
    (rows'.map key).Nodup := by
  rcases insertOnConflict_cases h with ⟨-, -, rfl⟩ | ⟨hnone, -, rfl⟩
  · rwa [map_modify hf]
  · rw [List.map_append, List.map_singleton, ← List.concat_eq_append]
    exact hnodup.concat (lookup_eq_none_iff.mp hnone)

theorem nodup_id_insertOnConflict (hf : ∀ row, id (f row) = id row)
    (h : insertOnConflict key id f row rows = some rows') (hnodup : (rows.map id).Nodup) :
    (rows'.map id).Nodup := by
  rcases insertOnConflict_cases h with ⟨-, -, rfl⟩ | ⟨-, hnone, rfl⟩
  · rwa [map_modify hf]
  · rw [List.map_append, List.map_singleton, ← List.concat_eq_append]
    exact hnodup.concat (lookup_eq_none_iff.mp hnone)

end

/-! ## Counting by keys -/

theorem countP_eq_keys {rows : List ρ} (h : (rows.map key).Nodup) (test : ρ → Bool) :
    rows.countP test = (rows.map key).countP fun k => (lookup key k rows).any test := by
  rw [List.countP_map]
  refine List.countP_congr fun row hrow => ?_
  simp only [Function.comp_apply, lookup_of_mem h hrow, Option.any_some]

/-- A table with the same keys counts no more rows if each row counted was counted before. -/
theorem countP_le_of_keys {rows rows' : List ρ} (h : (rows.map key).Nodup)
    (hkeys : rows'.map key = rows.map key) {test : ρ → Bool}
    (htest : ∀ k row row', lookup key k rows = some row → lookup key k rows' = some row' →
      test row' = true → test row = true) :
    rows'.countP test ≤ rows.countP test := by
  rw [countP_eq_keys (hkeys ▸ h), countP_eq_keys h, hkeys]
  refine List.countP_mono_left fun k hk hany => ?_
  obtain ⟨row, hrow, rfl⟩ := List.mem_map.mp hk
  obtain ⟨row', hrow', hcounted⟩ := (Option.any_eq_true _ _).mp hany
  rw [lookup_of_mem h hrow, Option.any_some]
  exact htest _ row row' (lookup_of_mem h hrow) hrow' hcounted

/-! ## Rows that a selection drops -/

section

variable {keep : ρ → Bool} {rows : List ρ}

theorem filter_append_of_dropped (rows : List ρ) {new : List ρ}
    (h : ∀ row ∈ new, keep row = false) : (rows ++ new).filter keep = rows.filter keep := by
  have hnew : new.filter keep = [] := by simpa [List.filter_eq_nil_iff] using h
  rw [List.filter_append, hnew, List.append_nil]

theorem filter_modify {k : κ} {f : ρ → ρ} (h : ∀ row, keep (f row) = keep row) :
    (modify key k f rows).filter keep = modify key k f (rows.filter keep) := by
  rw [modify, List.filter_map, modify]
  congr 2
  funext row
  simp only [Function.comp_apply]
  split
  · exact h row
  · rfl

/-- An update of rows that the selection drops. -/
theorem filter_modify_of_dropped {k : κ} {f : ρ → ρ} (hf : ∀ row, keep (f row) = keep row)
    (h : ∀ row ∈ rows, key row = k → keep row = false) :
    (modify key k f rows).filter keep = rows.filter keep := by
  rw [filter_modify hf, modify_eq_self]
  rw [lookup_eq_none]
  intro row hrow hkey
  obtain ⟨hmem, hkeep⟩ := List.mem_filter.mp hrow
  rw [h row hmem hkey] at hkeep
  cases hkeep

theorem filter_insertIfAbsent_of_dropped {row : ρ} (h : keep row = false) :
    (insertIfAbsent key row rows).filter keep = rows.filter keep := by
  unfold insertIfAbsent
  split
  · rfl
  · simp [h]

end

end DurableRuntime.Foundation.Table
