import Mathlib.Algebra.Ring.Nat
import Mathlib.Data.List.Basic

/-!
# Sessions and their locks

Concurrent sessions stand in a list and are known by their position.  A lock
table maps a resource to the session that holds it.  `regrant` is the table
after a move of one session that leaves it holding exactly the given resources;
a session only ever takes what nobody else holds, so the table always agrees
with what the sessions believe to hold, and no resource has two holders.
-/

namespace DurableRuntime.Foundation

universe u v w

section Lists

variable {β : Type u}

/-- What stands at a position after one session moved. -/
theorem getElem?_set_some {l : List β} {i j : Nat} {a b : β}
    (h : (l.set i a)[j]? = some b) :
    (j = i ∧ b = a) ∨ (j ≠ i ∧ l[j]? = some b) := by
  by_cases hij : j = i
  · subst hij
    rw [List.getElem?_set_self'] at h
    cases hl : l[j]? with
    | none => simp [hl] at h
    | some c =>
        simp only [hl] at h
        exact .inl ⟨rfl, by simpa using h.symm⟩
  · rw [List.getElem?_set_ne (Ne.symm hij)] at h
    exact .inr ⟨hij, h⟩

/-- What stands at a position after a session joined. -/
theorem getElem?_snoc_some {l : List β} {j : Nat} {a b : β}
    (h : (l ++ [a])[j]? = some b) :
    (j = l.length ∧ b = a) ∨ l[j]? = some b := by
  rw [List.getElem?_append] at h
  split at h
  · exact .inr h
  · rename_i hj
    rw [List.getElem?_singleton] at h
    split at h
    · rename_i hzero
      refine .inl ⟨by omega, ?_⟩
      simpa using h.symm
    · simp at h

theorem getElem?_set_self_of_some {l : List β} {i : Nat} {a b : β}
    (h : l[i]? = some b) : (l.set i a)[i]? = some a := by
  rw [List.getElem?_set_self']
  simp [h]

/-- A sum over the sessions changes by what the moved one counts. -/
theorem sum_map_set {f : β → Nat} {l : List β} {i : Nat} {a b : β} (h : l[i]? = some a) :
    ((l.set i b).map f).sum + f a = (l.map f).sum + f b := by
  induction l generalizing i with
  | nil => simp at h
  | cons c l ih =>
      cases i with
      | zero =>
          cases h
          simp only [List.set_cons_zero, List.map_cons, List.sum_cons]
          omega
      | succ i =>
          have := ih h
          simp only [List.set_cons_succ, List.map_cons, List.sum_cons]
          omega

/-- A session that comes nearer to its end brings all of them nearer. -/
theorem sum_map_set_lt {f : β → Nat} {l : List β} {i : Nat} {a b : β} (hb : l[i]? = some b)
    (hless : f a < f b) : ((l.set i a).map f).sum < (l.map f).sum := by
  have hsum := sum_map_set (f := f) (b := a) hb
  omega

/-- How many sessions pass a test changes by the moved one. -/
theorem countP_set_of_some {p : β → Bool} {l : List β} {i : Nat} {a b : β} (h : l[i]? = some a) :
    (l.set i b).countP p + (if p a then 1 else 0) = l.countP p + if p b then 1 else 0 := by
  obtain ⟨hlt, hget⟩ := List.getElem?_eq_some_iff.mp h
  have hmem : p a = true → 0 < l.countP p := fun hp =>
    List.countP_pos_iff.mpr ⟨a, List.mem_of_getElem? h, hp⟩
  rw [List.countP_set hlt, hget]
  split
  · have := hmem (by assumption)
    omega
  · omega

end Lists

section Locks

variable {R : Type u} {H : Type v} [DecidableEq R] [DecidableEq H]

def regrant (me : H) (held : List R) (locks : R → Option H) : R → Option H :=
  fun x =>
    if x ∈ held then some me
    else if locks x = some me then none
    else locks x

theorem regrant_mem {me : H} {held : List R} {locks : R → Option H} {x : R}
    (h : x ∈ held) : regrant me held locks x = some me := by
  simp [regrant, h]

theorem regrant_other {me you : H} {held : List R} {locks : R → Option H} {x : R}
    (hne : you ≠ me) (hx : x ∉ held) (h : locks x = some you) :
    regrant me held locks x = some you := by
  simp [regrant, hx, h, hne]

/-- Every resource that a session of the list believes to hold is its own in the table. -/
def HeldBy {β : Type w} (holder : Nat → H) (held : β → List R) (sessions : List β)
    (locks : R → Option H) : Prop :=
  ∀ i b, sessions[i]? = some b → ∀ x ∈ held b, locks x = some (holder i)

variable {β : Type w} {holder : Nat → H} {held : β → List R} {sessions : List β}
  {locks : R → Option H}

/-- A session moves, keeping or giving up resources, and taking only free ones. -/
theorem HeldBy.move (hinj : Function.Injective holder)
    (h : HeldBy holder held sessions locks) {i : Nat} {b : β} (b' : β)
    (hi : sessions[i]? = some b)
    (hfree : ∀ x ∈ held b', x ∈ held b ∨ locks x = none) :
    HeldBy holder held (sessions.set i b') (regrant (holder i) (held b') locks) := by
  intro j c hj x hx
  rcases getElem?_set_some hj with ⟨rfl, rfl⟩ | ⟨hne, hj⟩
  · exact regrant_mem hx
  · have hown := h j c hj x hx
    refine regrant_other (fun heq => hne (hinj heq)) ?_ hown
    intro hmem
    rcases hfree x hmem with hold | hnone
    · rw [h i b hi x hold, Option.some.injEq] at hown
      exact hne (hinj hown.symm)
    · rw [hnone] at hown
      cases hown

/-- A move of a session elsewhere leaves the resources of this list alone. -/
theorem HeldBy.frame (h : HeldBy holder held sessions locks) {me : H}
    (hme : ∀ i, holder i ≠ me) {newly : List R}
    (hfree : ∀ x ∈ newly, locks x = some me ∨ locks x = none) :
    HeldBy holder held sessions (regrant me newly locks) := by
  intro j c hj x hx
  have hown := h j c hj x hx
  refine regrant_other (hme j) ?_ hown
  intro hmem
  rcases hfree x hmem with hmine | hnone
  · rw [hmine, Option.some.injEq] at hown
    exact hme j hown.symm
  · rw [hnone] at hown
    cases hown

omit [DecidableEq R] [DecidableEq H] in
/-- A session that joins holds nothing. -/
theorem HeldBy.join (h : HeldBy holder held sessions locks) {b : β}
    (hb : held b = []) : HeldBy holder held (sessions ++ [b]) locks := by
  intro j c hj x hx
  rcases getElem?_snoc_some hj with ⟨rfl, rfl⟩ | hj
  · rw [hb] at hx
    cases hx
  · exact h j c hj x hx

end Locks

end DurableRuntime.Foundation
