import DurableRuntime.Foundation.Blanking

/-!
# Masked texts

A masked text has a unit or nothing at each position.  Where nothing stands, a
class reads the units of the marker.  What a pattern does on cells depends only
on the masked text that they show.
-/

namespace DurableRuntime.Foundation

universe u v

/-! ## Matches read in another alphabet -/

section

variable {α : Type u} {β : Type v} (g : β → α) (p : Pattern α) (text : List β)

theorem map_unitBefore (i : Nat) : (unitBefore text i).map g = unitBefore (text.map g) i := by
  simp [unitBefore, ← List.map_take, List.getLast?_map]

theorem matchAt_comap {s e : Nat} :
    MatchAt (p.comap g).matcher text s e ↔ MatchAt p.matcher (text.map g) s e := by
  have hfollows := follows_matcher (g := g) p (unitBefore text s) (text.drop s)
  rw [map_unitBefore, List.map_drop] at hfollows
  unfold MatchAt
  rw [List.length_map, ← hfollows, ← List.map_drop]
  constructor
  · rintro ⟨hlt, hle, hmatch⟩
    exact ⟨hlt, hle, by rw [hmatch, Option.map_some]⟩
  · rintro ⟨hlt, hle, hmatch⟩
    obtain ⟨rest, hrest, heq⟩ := Option.map_eq_some_iff.mp hmatch
    refine ⟨hlt, hle, ?_⟩
    have hsuffix : ∃ k, rest = text.drop k := by
      obtain ⟨n, _, _, hdrop⟩ := takes_matcher _ _ _ _ hrest
      exact ⟨s + n, by rw [hdrop, List.drop_drop]⟩
    obtain ⟨k, rfl⟩ := hsuffix
    have hlength := congrArg List.length heq
    simp only [List.length_map, List.length_drop] at hlength
    rw [hrest]
    congr 1
    rcases Nat.lt_or_ge k text.length with hk | hk
    · have : k = e := by omega
      rw [this]
    · rw [List.drop_eq_nil_of_le hk, List.drop_eq_nil_of_le (by omega)]

theorem matchAt_comap_eq :
    MatchAt (p.comap g).matcher text = MatchAt p.matcher (text.map g) := by
  funext s e
  exact propext (matchAt_comap g p text)

theorem spanOf_comap {s e : Nat} :
    SpanOf (p.comap g).matcher text s e ↔ SpanOf p.matcher (text.map g) s e := by
  unfold SpanOf
  rw [matchAt_comap_eq, List.length_map]

theorem takenBy_comap {i : Nat} :
    TakenBy (p.comap g).matcher text i ↔ TakenBy p.matcher (text.map g) i := by
  unfold TakenBy
  rw [matchAt_comap_eq, List.length_map]

end

/-! ## Reading a masked text -/

section

variable {τ : Type u} {σ : Type v}

/-- A class accepts a blank if it accepts all units of the marker. -/
def maskReads (marker : List τ) (accepts : τ → Bool) : Option τ → Bool
  | some a => accepts a
  | none => marker.all accepts

/-- The pattern on masked texts. -/
def Pattern.onMasks (marker : List τ) (p : Pattern τ) : Pattern (Option τ) :=
  p.map (maskReads marker)

/-- What a cell shows. -/
def Cell.shows (unit : σ → τ) (c : Cell σ) : Option τ := c.unit?.map unit

theorem onCells_eq_comap (unit : σ → τ) (marker : List σ) (p : Pattern τ) :
    (p.comap unit).onCells marker = (p.onMasks (marker.map unit)).comap (Cell.shows unit) := by
  unfold Pattern.onCells Pattern.onMasks Pattern.comap
  simp only [Pattern.map_map]
  congr 1
  funext accepts c
  cases c with
  | kept a => rfl
  | marked => simp [Cell.reads, Cell.shows, Cell.unit?, maskReads, List.all_map]
  | hidden => simp [Cell.reads, Cell.shows, Cell.unit?, maskReads, List.all_map]

theorem onMasks_eq_comap (marker : List τ) (p : Pattern τ) :
    (p.onMasks marker).comap some = p := by
  unfold Pattern.onMasks Pattern.comap
  rw [Pattern.map_map]
  induction p with
  | seq first second ihfirst ihsecond => simp only [Pattern.map, ihfirst, ihsecond]
  | alt first second ihfirst ihsecond => simp only [Pattern.map, ihfirst, ihsecond]
  | _ => rfl

theorem least_onMasks (marker : List τ) (p : Pattern τ) : (p.onMasks marker).least = p.least :=
  Pattern.least_map _ p

end

/-! ## Hiding positions -/

section

variable {τ : Type u}

open Classical in
/-- The text with the positions of a set left blank. -/
noncomputable def hide (P : Nat → Prop) (text : List τ) : List (Option τ) :=
  text.mapIdx fun i a => if P i then none else some a

variable {P : Nat → Prop} {text : List τ}

@[simp] theorem length_hide : (hide P text).length = text.length := by
  simp [hide]

theorem hide_of_mem {i : Nat} (hi : i < text.length) (h : P i) : (hide P text)[i]? = some none := by
  simp [hide, List.getElem?_eq_getElem hi, h]

theorem hide_of_not_mem {i : Nat} (h : ¬ P i) : (hide P text)[i]? = text[i]?.map some := by
  simp [hide, h]

theorem hide_eq_map (h : ∀ i, ¬ P i) : hide P text = text.map some := by
  apply List.ext_getElem?
  intro i
  rw [hide_of_not_mem (h i), List.getElem?_map]

theorem hide_blank_iff {i : Nat} : (hide P text)[i]? = some none ↔ i < text.length ∧ P i := by
  rcases Nat.lt_or_ge i text.length with hi | hi
  · by_cases h : P i
    · simp only [hide_of_mem hi h, hi, h, and_self]
    · simp [hide_of_not_mem h, List.getElem?_eq_getElem hi, h]
  · rw [List.getElem?_eq_none (by simpa using hi)]
    simp only [reduceCtorEq, false_iff, not_and]
    omega

/-- Of a text of which something is hidden, what one more set hides. -/
theorem hide_or {Q : Nat → Prop} {i : Nat} (h : ¬ Q i) :
    (hide (fun i => P i ∨ Q i) text)[i]? = (hide P text)[i]? := by
  rcases Nat.lt_or_ge i text.length with hi | hi
  · by_cases hP : P i
    · rw [hide_of_mem hi hP, hide_of_mem hi (Or.inl hP)]
    · rw [hide_of_not_mem hP, hide_of_not_mem (by simp [hP, h])]
  · rw [List.getElem?_eq_none (by simpa using hi), List.getElem?_eq_none (by simpa using hi)]

end

/-! ## What blanking cells does to the text they show -/

section

variable {τ : Type u} {σ : Type v} (unit : σ → τ) (marker : List σ) (p : Pattern τ)

theorem taken_of_span {m : Matcher (Option τ)} {H : List (Option τ)} {s e i : Nat}
    (h : SpanOf m H s e) (hle : s ≤ i) (hlt : i < e) : TakenBy m H i :=
  ⟨s, e, h, hle, hlt⟩

/-- Blanking, told by the masked text alone. -/
theorem blankOut_shows (hp : 1 ≤ p.least) {cells : List (Cell σ)} {H : List (Option τ)}
    (hshows : cells.map (Cell.shows unit) = H) {i : Nat} {c : Cell σ} (hc : cells[i]? = some c) :
    ∃ c', (blankOut ((p.comap unit).onCells marker).matcher cells)[i]? = some c' ∧
      ((c' = c ∧ ¬ TakenBy (p.onMasks (marker.map unit)).matcher H i) ∨
        (c' = .marked ∧ ∃ e, SpanOf (p.onMasks (marker.map unit)).matcher H i e) ∨
        (c' = .hidden ∧
          ∃ s e, SpanOf (p.onMasks (marker.map unit)).matcher H s e ∧ s < i ∧ i < e)) := by
  have htakes : Takes 1 ((p.comap unit).onCells marker).matcher := by
    apply (takes_matcher _).mono
    rw [onCells_eq_comap, Pattern.comap, Pattern.least_map, least_onMasks]
    exact hp
  obtain ⟨c', hc', hblanked⟩ := blankOut_spec htakes hc
  refine ⟨c', hc', ?_⟩
  unfold BlankedAs at hblanked
  simp only [onCells_eq_comap, spanOf_comap, takenBy_comap, hshows] at hblanked
  exact hblanked

theorem shows_blankOut (hp : 1 ≤ p.least) {cells : List (Cell σ)} {P : Nat → Prop} {text : List τ}
    (hshows : cells.map (Cell.shows unit) = hide P text) :
    (blankOut ((p.comap unit).onCells marker).matcher cells).map (Cell.shows unit) =
      hide (fun i => P i ∨ TakenBy (p.onMasks (marker.map unit)).matcher (hide P text) i) text := by
  have hlength : cells.length = text.length := by
    have h := congrArg List.length hshows
    simpa using h
  apply List.ext_getElem?
  intro i
  rw [List.getElem?_map]
  rcases Nat.lt_or_ge i cells.length with hi | hi
  · obtain ⟨c', hc', hblanked⟩ :=
      blankOut_shows unit marker p hp hshows (List.getElem?_eq_getElem hi)
    rw [hc', Option.map_some]
    rcases hblanked with ⟨rfl, hnot⟩ | ⟨rfl, e, hspan⟩ | ⟨rfl, s, e, hspan, hs, he⟩
    · rw [hide_or hnot, ← hshows, List.getElem?_map, List.getElem?_eq_getElem hi, Option.map_some]
    · have hlt := hspan.2.1
      rw [hide_of_mem (by omega) (Or.inr (taken_of_span hspan (Nat.le_refl i) hlt))]
      rfl
    · rw [hide_of_mem (by omega) (Or.inr (taken_of_span hspan (by omega) he))]
      rfl
  · rw [List.getElem?_eq_none (by rw [length_blankOut]; exact hi),
      List.getElem?_eq_none (by rw [length_hide]; omega)]
    rfl

end

end DurableRuntime.Foundation
