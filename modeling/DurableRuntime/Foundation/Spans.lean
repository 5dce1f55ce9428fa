import DurableRuntime.Foundation.Patterns

/-!
# The spans of a global match

A relation says which matches start at a position and where they end.  A global
match visits the positions from left to right: it passes over a position
without a match, and of a position with one it goes to the end.  The spans are
the matches at the positions visited.
-/

namespace DurableRuntime.Foundation

universe u

section

variable (R : Nat → Nat → Prop) (n : Nat)

inductive Visited : Nat → Prop
  | start : Visited 0
  | pass {i : Nat} : Visited i → i < n → (∀ e, ¬ R i e) → Visited (i + 1)
  | skip {i e : Nat} : Visited i → R i e → Visited e

/-- A match that the global match takes. -/
def Span (s e : Nat) : Prop := Visited R n s ∧ R s e

/-- The positions of the spans. -/
def Taken (i : Nat) : Prop := ∃ s e, Span R n s e ∧ s ≤ i ∧ i < e

/-- Matches are not empty, stay inside the text and have one end. -/
structure Matches : Prop where
  lt : ∀ {s e}, R s e → s < e
  le : ∀ {s e}, R s e → e ≤ n
  unique : ∀ {s e e'}, R s e → R s e' → e = e'

end

section

variable {R : Nat → Nat → Prop} {n : Nat}

/-- No position inside a span is visited. -/
theorem Span.visited (hR : Matches R n) {s e i : Nat} (hspan : Span R n s e)
    (hi : Visited R n i) : i ≤ s ∨ e ≤ i := by
  obtain ⟨hs, hmatch⟩ := hspan
  -- on the sum of the two positions: a visit behind `s` came from `s` or from behind it
  induction hsum : s + i using Nat.strongRecOn generalizing s e i with
  | _ total ih =>
      by_cases hle : i ≤ s
      · exact Or.inl hle
      right
      cases hi with
      | start => omega
      | @pass j hj hlt hnone =>
          rcases Nat.lt_trichotomy j s with h | h | h
          · omega
          · subst h
            exact absurd hmatch (hnone e)
          · have hbefore := ih (s + j) (by omega) hj hs hmatch rfl
            omega
      | @skip j _ hj hskip =>
          rcases Nat.lt_trichotomy j s with h | h | h
          · have hbehind := ih (j + s) (by omega) hs hj hskip rfl
            omega
          · subst h
            exact Nat.le_of_eq (hR.unique hmatch hskip)
          · have hbefore := ih (s + j) (by have := hR.lt hskip; omega) hj hs hmatch rfl
            have := hR.lt hskip
            omega

theorem Span.disjoint (hR : Matches R n) {s e s' e' : Nat} (h : Span R n s e)
    (h' : Span R n s' e') : (s = s' ∧ e = e') ∨ e ≤ s' ∨ e' ≤ s := by
  rcases h.visited hR h'.1 with hle | hle
  · rcases h'.visited hR h.1 with hge | hge
    · have heq : s = s' := Nat.le_antisymm hge hle
      subst heq
      exact Or.inl ⟨rfl, hR.unique h.2 h'.2⟩
    · exact Or.inr (Or.inr hge)
  · exact Or.inr (Or.inl hle)

/-- Two spans with a common position are one. -/
theorem Span.unique (hR : Matches R n) {s e s' e' i : Nat} (h : Span R n s e)
    (h' : Span R n s' e') (hs : s ≤ i) (he : i < e) (hs' : s' ≤ i) (he' : i < e') :
    s = s' ∧ e = e' := by
  rcases h.disjoint hR h' with heq | hle | hle
  · exact heq
  · omega
  · omega

/-- Each position is visited or lies inside a span. -/
theorem visited_or_inside (hR : Matches R n) {i : Nat} (hi : i ≤ n) :
    Visited R n i ∨ ∃ s e, Span R n s e ∧ s < i ∧ i < e := by
  induction i with
  | zero => exact Or.inl .start
  | succ i ih =>
      rcases ih (by omega) with hvisited | ⟨s, e, hspan, hs, he⟩
      · by_cases hmatch : ∃ e, R i e
        · obtain ⟨e, hmatch⟩ := hmatch
          have hlt := hR.lt hmatch
          by_cases hend : e = i + 1
          · subst hend
            exact Or.inl (.skip hvisited hmatch)
          · exact Or.inr ⟨i, e, ⟨hvisited, hmatch⟩, by omega, by omega⟩
        · exact Or.inl (.pass hvisited (by omega) (fun e he => hmatch ⟨e, he⟩))
      · by_cases hend : e = i + 1
        · subst hend
          exact Or.inl (.skip hspan.1 hspan.2)
        · exact Or.inr ⟨s, e, hspan, by omega, by omega⟩

/-- Where a match starts, a span is. -/
theorem taken_of_match (hR : Matches R n) {i e : Nat} (h : R i e) : Taken R n i := by
  have hlt := hR.lt h
  have hle := hR.le h
  rcases visited_or_inside hR (i := i) (by omega) with hvisited | ⟨s, e', hspan, hs, he⟩
  · exact ⟨i, e, ⟨hvisited, h⟩, Nat.le_refl i, hlt⟩
  · exact ⟨s, e', hspan, by omega, he⟩

end

/-! ## The matches of a matcher in a text -/

section

variable {α : Type u}

/-- The unit before a position of a text. -/
def unitBefore (text : List α) (i : Nat) : Option α := (text.take i).getLast?

/-- The matcher matches from one position of the text to another. -/
def MatchAt (m : Matcher α) (text : List α) (s e : Nat) : Prop :=
  s < e ∧ e ≤ text.length ∧ m (unitBefore text s) (text.drop s) = some (text.drop e)

/-- The matches of a pattern that is applied globally. -/
def SpanOf (m : Matcher α) (text : List α) (s e : Nat) : Prop :=
  Span (MatchAt m text) text.length s e

/-- The positions of these. -/
def TakenBy (m : Matcher α) (text : List α) (i : Nat) : Prop :=
  Taken (MatchAt m text) text.length i

theorem matches_matchAt (m : Matcher α) (text : List α) :
    Matches (MatchAt m text) text.length := by
  constructor
  · intro s e h
    exact h.1
  · intro s e h
    exact h.2.1
  · intro s e e' h h'
    obtain ⟨_, hle, hrest⟩ := h
    obtain ⟨_, hle', hrest'⟩ := h'
    rw [hrest] at hrest'
    have hlength := congrArg List.length (Option.some.inj hrest')
    simp only [List.length_drop] at hlength
    omega

theorem unitBefore_zero (text : List α) : unitBefore text 0 = none := by
  simp [unitBefore]

theorem unitBefore_succ {text : List α} {i : Nat} {a : α} (h : text[i]? = some a) :
    unitBefore text (i + 1) = some a := by
  simp [unitBefore, List.take_add_one, h]

theorem drop_of_getElem? {text : List α} {i : Nat} {a : α} (h : text[i]? = some a) :
    text.drop i = a :: text.drop (i + 1) := by
  rw [List.drop_eq_getElem?_toList_append, h]
  rfl

/-- A matcher that takes something fails or matches up to a later position. -/
theorem matcher_cases {m : Matcher α} (hm : Takes 1 m) (text : List α) (i : Nat) :
    m (unitBefore text i) (text.drop i) = none ∧ (∀ e, ¬ MatchAt m text i e) ∨
      ∃ e, MatchAt m text i e := by
  cases hmatch : m (unitBefore text i) (text.drop i) with
  | none =>
      left
      refine ⟨rfl, ?_⟩
      intro e he
      have hsome := he.2.2
      rw [hmatch] at hsome
      cases hsome
  | some rest =>
      right
      obtain ⟨k, hk, hlength, rfl⟩ := hm _ _ _ hmatch
      rw [List.length_drop] at hlength
      refine ⟨i + k, by omega, by omega, ?_⟩
      rw [hmatch, List.drop_drop]

end

end DurableRuntime.Foundation
