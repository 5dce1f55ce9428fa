import Mathlib.Data.List.Perm.Basic
import Mathlib.Data.List.Nodup

/-!
# Members

Lists of names with values in which the last member of a name counts, as in the
text of an object that is parsed member by member.
-/

namespace DurableRuntime.Foundation

universe u v w

variable {κ : Type u} {ν : Type v} [DecidableEq κ]

/-- The value of the last member with the name. -/
def last? (name : κ) (members : List (κ × ν)) : Option ν :=
  (members.reverse.find? fun member => member.1 = name).map Prod.snd

@[simp] theorem last?_nil (name : κ) : last? name ([] : List (κ × ν)) = none := rfl

theorem last?_cons (name : κ) (member : κ × ν) (members : List (κ × ν)) :
    last? name (member :: members) =
      (last? name members).or (if member.1 = name then some member.2 else none) := by
  rw [last?, List.reverse_cons, List.find?_append, last?]
  cases members.reverse.find? fun member => member.1 = name with
  | some found => rfl
  | none =>
      by_cases hname : member.1 = name <;> simp [hname]

theorem last?_eq_none {name : κ} {members : List (κ × ν)} :
    last? name members = none ↔ name ∉ members.map Prod.fst := by
  simp only [last?, Option.map_eq_none_iff, List.find?_eq_none, List.mem_reverse,
    decide_eq_true_eq, List.mem_map, not_exists, not_and]

theorem mem_of_last? {name : κ} {value : ν} {members : List (κ × ν)}
    (h : last? name members = some value) : (name, value) ∈ members := by
  obtain ⟨⟨other, found⟩, hfound, rfl⟩ := Option.map_eq_some_iff.mp h
  have hname := List.find?_some hfound
  simp only [decide_eq_true_eq] at hname
  subst hname
  exact List.mem_reverse.mp (List.mem_of_find?_eq_some hfound)

/-- Where names are distinct, every member counts, in whatever order. -/
theorem last?_eq_some {members : List (κ × ν)} (h : (members.map Prod.fst).Nodup) {name : κ}
    {value : ν} : last? name members = some value ↔ (name, value) ∈ members := by
  induction members with
  | nil => simp
  | cons member members ih =>
      obtain ⟨other, found⟩ := member
      rw [List.map_cons, List.nodup_cons] at h
      rw [last?_cons, List.mem_cons, ← ih h.2]
      by_cases hname : other = name
      · subst hname
        rw [last?_eq_none.mpr h.1]
        simp [eq_comm]
      · have hne : ¬(name, value) = (other, found) := fun heq => hname (Prod.mk.inj heq).1.symm
        simp [hname, hne]

theorem last?_perm {members others : List (κ × ν)} (h : (members.map Prod.fst).Nodup)
    (hperm : members.Perm others) (name : κ) : last? name members = last? name others := by
  have hothers : (others.map Prod.fst).Nodup := (hperm.map Prod.fst).nodup_iff.mp h
  apply Option.ext
  intro value
  rw [last?_eq_some h, last?_eq_some hothers, hperm.mem_iff]

end DurableRuntime.Foundation
