import DurableRuntime.Foundation.Spans

/-!
# Blanking instead of replacing

A replacement changes the length of a text, so that positions before and behind
it differ.  Blanking keeps them: each unit of a match becomes a blank cell, the
first of which stands for the marker.  A class of a pattern reads a blank as it
reads the units of the marker, and rendering the blanked cells gives the
replaced text.
-/

namespace DurableRuntime.Foundation

universe u v

/-- A position of a text: its unit, or a blank; a marker is written for the first of a match. -/
inductive Cell (τ : Type u) where
  | kept (unit : τ)
  | marked
  | hidden
  deriving DecidableEq, Repr

namespace Cell

variable {σ : Type v} {τ : Type u}

def unit? : Cell τ → Option τ
  | kept a => some a
  | marked => none
  | hidden => none

def map (g : σ → τ) : Cell σ → Cell τ
  | kept a => kept (g a)
  | marked => marked
  | hidden => hidden

/-- A class accepts a blank if it accepts all units of the marker. -/
def reads (marker : List τ) (accepts : τ → Bool) : Cell τ → Bool
  | kept a => accepts a
  | marked => marker.all accepts
  | hidden => marker.all accepts

/-- The text that a cell stands for. -/
def spelled (marker : List τ) : Cell τ → List τ
  | kept a => [a]
  | marked => marker
  | hidden => []

end Cell

section

variable {τ : Type u}

/-- The text that cells stand for. -/
def render (marker : List τ) (cells : List (Cell τ)) : List τ := cells.flatMap (Cell.spelled marker)

@[simp] theorem render_nil (marker : List τ) : render marker [] = [] := rfl

@[simp] theorem render_kept (marker : List τ) (a : τ) (cells : List (Cell τ)) :
    render marker (.kept a :: cells) = a :: render marker cells := rfl

@[simp] theorem render_marked (marker : List τ) (cells : List (Cell τ)) :
    render marker (.marked :: cells) = marker ++ render marker cells := rfl

@[simp] theorem render_hidden (marker : List τ) (cells : List (Cell τ)) :
    render marker (.hidden :: cells) = render marker cells := rfl

theorem render_append (marker : List τ) (cells cells' : List (Cell τ)) :
    render marker (cells ++ cells') = render marker cells ++ render marker cells' :=
  List.flatMap_append

theorem render_map_kept (marker text : List τ) : render marker (text.map Cell.kept) = text := by
  induction text with
  | nil => rfl
  | cons a text ih => simp [ih]

/-- The pattern on cells. -/
def Pattern.onCells (marker : List τ) (p : Pattern τ) : Pattern (Cell τ) :=
  p.map (Cell.reads marker)

/-- Blank the matches of a global match; the counter is that of `replaceFrom`. -/
def blankFrom (m : Matcher (Cell τ)) : Nat → Option (Cell τ) → List (Cell τ) → List (Cell τ)
  | _, _, [] => []
  | skip + 1, _, c :: cells => .hidden :: blankFrom m skip (some c) cells
  | 0, before, c :: cells =>
      match m before (c :: cells) with
      | none => c :: blankFrom m 0 (some c) cells
      | some rest => .marked :: blankFrom m (cells.length - rest.length) (some c) cells

def blankOut (m : Matcher (Cell τ)) (cells : List (Cell τ)) : List (Cell τ) :=
  blankFrom m 0 none cells

theorem length_blankFrom (m : Matcher (Cell τ)) (skip : Nat) (before : Option (Cell τ))
    (cells : List (Cell τ)) : (blankFrom m skip before cells).length = cells.length := by
  induction cells generalizing skip before with
  | nil => cases skip <;> rfl
  | cons c cells ih =>
      cases skip with
      | zero =>
          simp only [blankFrom]
          cases m before (c :: cells) <;> simp [ih]
      | succ skip => simp [blankFrom, ih]

theorem length_blankOut (m : Matcher (Cell τ)) (cells : List (Cell τ)) :
    (blankOut m cells).length = cells.length :=
  length_blankFrom m 0 none cells

/-! ### What is blanked -/

/-- Where the scan stands: at a position it visits, or so many units before the end of a span. -/
def Standing (m : Matcher (Cell τ)) (cells : List (Cell τ)) (skip i : Nat) : Prop :=
  (skip = 0 ∧ Visited (MatchAt m cells) cells.length i) ∨
    ∃ s, SpanOf m cells s (i + skip) ∧ s < i ∧ 0 < skip

/-- The cell that blanking leaves at a position. -/
def BlankedAs (m : Matcher (Cell τ)) (cells : List (Cell τ)) (i : Nat) (c c' : Cell τ) : Prop :=
  (c' = c ∧ ¬ TakenBy m cells i) ∨
    (c' = .marked ∧ ∃ e, SpanOf m cells i e) ∨
    (c' = .hidden ∧ ∃ s e, SpanOf m cells s e ∧ s < i ∧ i < e)

theorem Standing.inside {m : Matcher (Cell τ)} {cells : List (Cell τ)} {s e i : Nat}
    (hspan : SpanOf m cells s e) (hs : s ≤ i) (he : i < e) :
    Standing m cells (e - (i + 1)) (i + 1) := by
  rcases Nat.eq_or_lt_of_le he with rfl | hlt
  · exact Or.inl ⟨by omega, .skip hspan.1 hspan.2⟩
  · have hend : i + 1 + (e - (i + 1)) = e := by omega
    exact Or.inr ⟨s, hend.symm ▸ hspan, by omega, by omega⟩

/-- What blanking does at one position. -/
theorem blankFrom_step {m : Matcher (Cell τ)} (hm : Takes 1 m) {cells : List (Cell τ)}
    {skip i : Nat}
    (hstanding : Standing m cells skip i) {c : Cell τ} (hc : cells[i]? = some c) :
    ∃ c' skip', blankFrom m skip (unitBefore cells i) (cells.drop i) =
        c' :: blankFrom m skip' (unitBefore cells (i + 1)) (cells.drop (i + 1)) ∧
      BlankedAs m cells i c c' ∧ Standing m cells skip' (i + 1) := by
  have hdrop := drop_of_getElem? hc
  have hlt : i < cells.length := (List.getElem?_eq_some_iff.mp hc).1
  rw [unitBefore_succ hc]
  rcases hstanding with ⟨rfl, hvisited⟩ | ⟨s, hspan, hs, hpos⟩
  · rcases matcher_cases hm cells i with ⟨hnone, hno⟩ | ⟨e, hmatch⟩
    · refine ⟨c, 0, ?_, Or.inl ⟨rfl, ?_⟩, Or.inl ⟨rfl, .pass hvisited hlt hno⟩⟩
      · rw [hdrop] at hnone ⊢
        simp only [blankFrom, hnone]
      · rintro ⟨s, e, hspan, hs, he⟩
        rcases hspan.visited (matches_matchAt m cells) hvisited with hle | hle
        · have heq : i = s := by omega
          subst heq
          exact hno e hspan.2
        · omega
    · refine ⟨.marked, e - (i + 1), ?_, Or.inr (Or.inl ⟨rfl, e, hvisited, hmatch⟩),
        .inside ⟨hvisited, hmatch⟩ (Nat.le_refl i) hmatch.1⟩
      have hrest := hmatch.2.2
      have hle := hmatch.2.1
      have hskip : (cells.drop (i + 1)).length - (cells.drop e).length = e - (i + 1) := by
        simp only [List.length_drop]
        omega
      rw [hdrop] at hrest ⊢
      simp only [blankFrom, hrest, hskip]
  · obtain ⟨k, rfl⟩ := Nat.exists_eq_succ_of_ne_zero (Nat.pos_iff_ne_zero.mp hpos)
    have hk : i + k.succ - (i + 1) = k := by omega
    refine ⟨.hidden, k, ?_, Or.inr (Or.inr ⟨rfl, s, _, hspan, hs, by omega⟩), ?_⟩
    · rw [hdrop]
      rfl
    · have hinside := Standing.inside hspan (Nat.le_of_lt hs) (by omega)
      rwa [hk] at hinside

theorem blankFrom_spec {m : Matcher (Cell τ)} (hm : Takes 1 m) (cells : List (Cell τ))
    {skip i : Nat}
    (hstanding : Standing m cells skip i) {j : Nat} {c : Cell τ} (hij : i ≤ j)
    (hc : cells[j]? = some c) :
    ∃ c', (blankFrom m skip (unitBefore cells i) (cells.drop i))[j - i]? = some c' ∧
      BlankedAs m cells j c c' := by
  have hj : j < cells.length := (List.getElem?_eq_some_iff.mp hc).1
  induction hdist : j - i generalizing skip i with
  | zero =>
      have heq : i = j := by omega
      subst heq
      obtain ⟨c', skip', hstep, hblank, _⟩ := blankFrom_step hm hstanding hc
      exact ⟨c', by rw [hstep]; rfl, hblank⟩
  | succ d ih =>
      have hi : i < cells.length := by omega
      obtain ⟨a, skip', hstep, _, hnext⟩ :=
        blankFrom_step hm hstanding (List.getElem?_eq_getElem hi)
      obtain ⟨c', hc', hblank⟩ := ih hnext (by omega) (by omega)
      exact ⟨c', by rw [hstep, List.getElem?_cons_succ]; exact hc', hblank⟩

/-- Blanking, position by position. -/
theorem blankOut_spec {m : Matcher (Cell τ)} (hm : Takes 1 m) {cells : List (Cell τ)} {i : Nat}
    {c : Cell τ} (hc : cells[i]? = some c) :
    ∃ c', (blankOut m cells)[i]? = some c' ∧ BlankedAs m cells i c c' := by
  have hstart : Standing m cells 0 0 := Or.inl ⟨rfl, .start⟩
  obtain ⟨c', hc', hblank⟩ := blankFrom_spec hm cells hstart (Nat.zero_le i) hc
  rw [unitBefore_zero, List.drop_zero, Nat.sub_zero] at hc'
  exact ⟨c', hc', hblank⟩

end

end DurableRuntime.Foundation
