import Mathlib.Data.List.Sort

/-!
# Sequences that grow at their end

A log is read as a path: it starts with a first entry, and each further entry
follows the one before it.  Sorting a list that has grown by its greatest
element is sorting the list and appending that element, and the first elements
of a sorted list are those with few elements below them.
-/

namespace DurableRuntime.Foundation

universe u

variable {ε : Type u}

/-- `Path first follows entries last`: the entries are a path that ends in `last`. -/
inductive Path (first : ε → Prop) (follows : ε → ε → Prop) : List ε → ε → Prop
  | start {entry : ε} : first entry → Path first follows [entry] entry
  | step {entries : List ε} {last entry : ε} :
      Path first follows entries last → follows last entry →
        Path first follows (entries ++ [entry]) entry

theorem Path.getLast? {first : ε → Prop} {follows : ε → ε → Prop} {entries : List ε} {last : ε}
    (path : Path first follows entries last) : entries.getLast? = some last := by
  cases path with
  | start => rfl
  | step => exact List.getLast?_concat

section

variable (r : ε → ε → Prop) [DecidableRel r]

theorem orderedInsert_snoc {a x : ε} (h : r a x) (l : List ε) :
    (l ++ [x]).orderedInsert r a = l.orderedInsert r a ++ [x] := by
  induction l with
  | nil => simp [h]
  | cons b l ih =>
      simp only [List.cons_append, List.orderedInsert_cons]
      split
      · rfl
      · rw [ih, List.cons_append]

theorem insertionSort_snoc {x : ε} {l : List ε} (h : ∀ a ∈ l, r a x) :
    (l ++ [x]).insertionSort r = l.insertionSort r ++ [x] := by
  induction l with
  | nil => rfl
  | cons a l ih =>
      rw [List.cons_append, List.insertionSort_cons, List.insertionSort_cons,
        ih fun b hb => h b (List.mem_cons_of_mem a hb)]
      exact orderedInsert_snoc r (h a List.mem_cons_self) _

end

theorem mapM_some_of_mem {ζ : Type u} {f : ε → Option ζ} {l : List ε} {ys : List ζ}
    (h : l.mapM f = some ys) {a : ε} (ha : a ∈ l) : ∃ y ∈ ys, f a = some y := by
  induction l generalizing ys with
  | nil => cases ha
  | cons b l ih =>
      simp only [List.mapM_cons, Option.bind_eq_bind, Option.bind_eq_some_iff] at h
      obtain ⟨y, hy, rest, hrest, heq⟩ := h
      cases heq
      rcases List.mem_cons.mp ha with rfl | ha
      · exact ⟨y, List.mem_cons_self, hy⟩
      · obtain ⟨z, hz, hfz⟩ := ih hrest ha
        exact ⟨z, List.mem_cons_of_mem y hz, hfz⟩

/-- In a sorted list without equal keys, an element stands behind the smaller ones only. -/
theorem mem_take_of_sorted {key : ε → Nat} {l : List ε} {a : ε} {n : Nat}
    (hsorted : l.Pairwise fun b c => key b ≤ key c) (hnodup : (l.map key).Nodup) (ha : a ∈ l)
    (hcount : (l.countP fun b => key b < key a) < n) : a ∈ l.take n := by
  induction l generalizing n with
  | nil => cases ha
  | cons b l ih =>
      obtain ⟨hle, hsorted⟩ := List.pairwise_cons.mp hsorted
      obtain ⟨hfresh, hnodup⟩ := List.nodup_cons.mp hnodup
      cases n with
      | zero => cases hcount
      | succ n =>
          rcases List.mem_cons.mp ha with rfl | ha
          · exact List.mem_cons_self
          · have hne : key b ≠ key a := fun heq => hfresh (heq ▸ List.mem_map_of_mem ha)
            have hlt : key b < key a := Nat.lt_of_le_of_ne (hle a ha) hne
            rw [List.countP_cons, if_pos (decide_eq_true hlt)] at hcount
            exact List.mem_cons_of_mem b (ih hsorted hnodup ha (Nat.lt_of_succ_lt_succ hcount))

theorem mem_take_insertionSort {key : ε → Nat} {l : List ε} {a : ε} {n : Nat}
    (hnodup : (l.map key).Nodup) (ha : a ∈ l)
    (hcount : (l.countP fun b => key b < key a) < n) :
    a ∈ (l.insertionSort fun b c => key b ≤ key c).take n := by
  have hperm := List.perm_insertionSort (fun b c => key b ≤ key c) l
  have hsorted := List.pairwise_insertionSort (fun b c => key b ≤ key c) l
  refine mem_take_of_sorted hsorted ?_ (hperm.mem_iff.mpr ha) ?_
  · exact ((hperm.map key).nodup_iff).mpr hnodup
  · rwa [hperm.countP_eq]

/-- Sorting keeps what is left out of a list left out, and the rest in its order. -/
theorem sublist_insertionSort_of_sublist {key : ε → Nat} {l l' : List ε} (h : l.Sublist l') :
    (l.insertionSort fun b c => key b ≤ key c).Sublist
      (l'.insertionSort fun b c => key b ≤ key c) := by
  induction h with
  | slnil => exact .refl _
  | cons a _ ih => exact ih.trans (List.sublist_orderedInsert a _)
  | cons_cons a _ ih => exact ih.orderedInsert_sublist a (List.pairwise_insertionSort _ _)

end DurableRuntime.Foundation
