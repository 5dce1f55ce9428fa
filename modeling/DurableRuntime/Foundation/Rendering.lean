import DurableRuntime.Foundation.Blanking

/-!
# Blanked cells stand for the replaced text

A matcher on texts and a matcher on cells mirror each other if no match starts
in a marker and at every unit they match the same.  Then replacing in the text
that cells stand for is blanking the cells.
-/

namespace DurableRuntime.Foundation

universe u

variable {τ : Type u} {marker : List τ}

/-- A hidden cell stands behind a blank one; the flag says whether the cell before is blank. -/
def Solid : Bool → List (Cell τ) → Prop
  | _, [] => True
  | _, .kept _ :: cells => Solid false cells
  | _, .marked :: cells => Solid true cells
  | blank, .hidden :: cells => blank = true ∧ Solid true cells

theorem Solid.mono {cells : List (Cell τ)} (h : Solid false cells) (blank : Bool) :
    Solid blank cells := by
  cases cells with
  | nil => trivial
  | cons c cells =>
      cases c with
      | kept a => exact h
      | marked => exact h
      | hidden => cases h.1

theorem solid_map_kept (text : List τ) : Solid false (text.map Cell.kept) := by
  induction text with
  | nil => trivial
  | cons a text ih => exact ih

theorem solid_replicate {cells : List (Cell τ)} (h : Solid false cells) (k : Nat) :
    Solid true (List.replicate k .hidden ++ cells) := by
  induction k with
  | zero => exact h.mono true
  | succ k ih => exact ⟨rfl, ih⟩

theorem Solid.take {blank : Bool} {cells : List (Cell τ)} (h : Solid blank cells) (k : Nat) :
    Solid blank (cells.take k) := by
  induction cells generalizing blank k with
  | nil => simp [Solid]
  | cons c cells ih =>
      cases k with
      | zero => trivial
      | succ k =>
          cases c with
          | kept a =>
              have hrest : Solid false cells := h
              exact ih hrest k
          | marked =>
              have hrest : Solid true cells := h
              exact ih hrest k
          | hidden => exact ⟨h.1, ih h.2 k⟩

/-- The last unit of what a cell, and the blanks before it, stand for. -/
def lastUnit (marker : List τ) : Cell τ → Option τ
  | .kept a => some a
  | .marked => marker.getLast?
  | .hidden => marker.getLast?

theorem getLast?_render (hmarker : marker ≠ []) {blank : Bool} {cells : List (Cell τ)}
    (hsolid : Solid blank cells) (before : Option (Cell τ))
    (hblank : blank = true → before.bind (lastUnit marker) = marker.getLast?) :
    (render marker cells).getLast?.or (before.bind (lastUnit marker)) =
      (cells.getLast?.or before).bind (lastUnit marker) := by
  induction cells generalizing blank before with
  | nil => rfl
  | cons c cells ih =>
      have hlast : ∀ c' : Cell τ, ((c' :: cells).getLast?.or before) =
          cells.getLast?.or (some c') := by
        intro c'
        rw [List.getLast?_cons]
        cases cells.getLast? <;> rfl
      rw [hlast]
      cases c with
      | kept a =>
          have hrest : Solid false cells := hsolid
          rw [← ih hrest (some (.kept a)) (by simp), render_kept, List.getLast?_cons]
          cases (render marker cells).getLast? <;> rfl
      | marked =>
          have hrest : Solid true cells := hsolid
          rw [← ih hrest (some .marked) (fun _ => rfl), render_marked, List.getLast?_append,
            Option.or_assoc]
          obtain ⟨a, ha⟩ := Option.ne_none_iff_exists'.mp
            (fun h => hmarker (List.getLast?_eq_none_iff.mp h))
          simp [lastUnit, ha]
      | hidden =>
          rw [← ih hsolid.2 (some .hidden) (fun _ => rfl), render_hidden, hblank hsolid.1]
          rfl

/-! ## Passing over a match -/

theorem replaceFrom_skip (m : Matcher τ) (before : Option τ) {k : Nat} {text : List τ}
    (hk : k ≤ text.length) :
    replaceFrom m marker k before text =
      replaceFrom m marker 0 ((text.take k).getLast?.or before) (text.drop k) := by
  induction k generalizing before text with
  | zero => rfl
  | succ k ih =>
      cases text with
      | nil => simp at hk
      | cons a text =>
          simp only [List.length_cons, Nat.add_le_add_iff_right] at hk
          rw [List.take_succ_cons, List.drop_succ_cons, List.getLast?_cons]
          simp only [replaceFrom]
          rw [ih (some a) hk]
          cases (text.take k).getLast? <;> rfl

theorem blankFrom_skip (m : Matcher (Cell τ)) (before : Option (Cell τ)) {k : Nat}
    {cells : List (Cell τ)} (hk : k ≤ cells.length) :
    blankFrom m k before cells =
      List.replicate k .hidden ++
        blankFrom m 0 ((cells.take k).getLast?.or before) (cells.drop k) := by
  induction k generalizing before cells with
  | zero => rfl
  | succ k ih =>
      cases cells with
      | nil => simp at hk
      | cons c cells =>
          simp only [List.length_cons, Nat.add_le_add_iff_right] at hk
          rw [List.take_succ_cons, List.drop_succ_cons, List.getLast?_cons, List.replicate_succ,
            List.cons_append]
          simp only [blankFrom]
          rw [ih (some c) hk]
          cases (cells.take k).getLast? <;> rfl

theorem render_replicate_hidden (k : Nat) :
    render marker (List.replicate k Cell.hidden) = [] := by
  induction k with
  | zero => rfl
  | succ k ih => simpa [List.replicate_succ] using ih

/-! ## The two matchers -/

/-- The two matchers match the same at every unit, and nowhere else. -/
structure Mirrors (marker : List τ) (m : Matcher τ) (m' : Matcher (Cell τ)) : Prop where
  nonempty : marker ≠ []
  takes : Takes 1 m
  takes' : Takes 1 m'
  inert : ∀ {first a last}, marker = first ++ a :: last → ∀ before rest,
    m (first.getLast?.or before) (a :: last ++ rest) = none
  blank : ∀ before {c} cells, c.unit? = none → m' before (c :: cells) = none
  same : ∀ before a cells, Solid false cells →
    m (before.bind (lastUnit marker)) (a :: render marker cells) =
      (m' before (.kept a :: cells)).map (render marker)
  solid : ∀ {before a cells rest}, Solid false cells →
    m' before (.kept a :: cells) = some rest → Solid false rest

variable {m : Matcher τ} {m' : Matcher (Cell τ)}

theorem Mirrors.none_at_end (h : Mirrors marker m m') (before : Option τ) : m before [] = none := by
  cases hmatch : m before [] with
  | none => rfl
  | some rest =>
      obtain ⟨n, hn, hlength, _⟩ := h.takes _ _ _ hmatch
      simp only [List.length_nil] at hlength
      omega

/-- A marker in the text is left as it is. -/
theorem Mirrors.replace_marker (h : Mirrors marker m m') (first last : List τ)
    (hsplit : marker = first ++ last) (before : Option τ) (rest : List τ) :
    replaceFrom m marker 0 (first.getLast?.or before) (last ++ rest) =
      last ++ replaceFrom m marker 0 (marker.getLast?.or before) rest := by
  induction last generalizing first with
  | nil => simp [hsplit]
  | cons a last ih =>
      have hnone := h.inert hsplit before rest
      have hnext : marker = (first ++ [a]) ++ last := by simp [hsplit]
      have hstep := ih (first ++ [a]) hnext
      rw [List.getLast?_append, List.getLast?_singleton, Option.some_or, Option.some_or] at hstep
      rw [List.cons_append] at hnone ⊢
      simp only [replaceFrom, hnone, hstep, List.cons_append]

/-- How a match from a unit on goes over to the text: what it takes and what it leaves. -/
theorem Mirrors.match_at_unit (h : Mirrors marker m m') {before : Option (Cell τ)} {a : τ}
    {cells rest : List (Cell τ)} (hmatch : m' before (.kept a :: cells) = some rest) :
    ∃ k, k ≤ cells.length ∧ rest = cells.drop k ∧ cells.length - rest.length = k ∧
      render marker cells = render marker (cells.take k) ++ render marker rest := by
  obtain ⟨n, hn, hle, hdrop⟩ := h.takes' _ _ _ hmatch
  obtain ⟨k, rfl⟩ := Nat.exists_eq_add_of_le' hn
  simp only [List.drop_succ_cons, List.length_cons] at hdrop hle
  refine ⟨k, by omega, hdrop, ?_, ?_⟩
  · rw [hdrop, List.length_drop]
    omega
  · rw [hdrop, ← render_append, List.take_append_drop]

/-- Replacing a match in the text is going on with what stands behind it. -/
theorem replaceFrom_match {before : Option τ} {a : τ} {first rest : List τ}
    (hmatch : m before (a :: (first ++ rest)) = some rest) :
    replaceFrom m marker 0 before (a :: (first ++ rest)) =
      marker ++ replaceFrom m marker 0 (first.getLast?.or (some a)) rest := by
  have hfits : rest.length ≤ (first ++ rest).length := by
    rw [List.length_append]
    omega
  have hskip : (first ++ rest).length - rest.length = first.length := by
    rw [List.length_append]
    omega
  simp only [replaceFrom, hmatch, hfits, if_true, hskip]
  rw [replaceFrom_skip m _ (by rw [List.length_append]; omega), List.take_left, List.drop_left]

theorem Mirrors.lastUnit_marked (h : Mirrors marker m m') (before : Option τ) :
    marker.getLast?.or before = lastUnit marker .marked := by
  obtain ⟨a, ha⟩ := Option.ne_none_iff_exists'.mp
    (fun heq => h.nonempty (List.getLast?_eq_none_iff.mp heq))
  simp [lastUnit, ha]

theorem Mirrors.replace_render (h : Mirrors marker m m') {cells : List (Cell τ)} {blank : Bool}
    (hsolid : Solid blank cells) (before : Option (Cell τ))
    (hblank : blank = true → before.bind (lastUnit marker) = marker.getLast?) :
    replaceFrom m marker 0 (before.bind (lastUnit marker)) (render marker cells) =
        render marker (blankFrom m' 0 before cells) ∧
      Solid blank (blankFrom m' 0 before cells) := by
  -- on the number of cells: behind a match the scan goes on with what the match leaves
  induction hlength : cells.length using Nat.strongRecOn generalizing cells blank before with
  | _ total ih =>
      cases cells with
      | nil => simp [replaceFrom, blankFrom, h.none_at_end, Solid]
      | cons c cells =>
          simp only [List.length_cons] at hlength
          cases c with
          | kept a =>
              have hkept : Solid false cells := hsolid
              have hsame := h.same before a cells hkept
              rw [render_kept]
              cases hmatch : m' before (.kept a :: cells) with
              | none =>
                  obtain ⟨hrender, hnext⟩ :=
                    ih cells.length (by omega) hkept (some (.kept a)) (by simp) rfl
                  rw [hmatch, Option.map_none] at hsame
                  simp only [replaceFrom, blankFrom, hsame, hmatch, render_kept]
                  exact ⟨by rw [← hrender]; rfl, hnext⟩
              | some rest =>
                  obtain ⟨k, hk, hdrop, hskip, htext⟩ := h.match_at_unit hmatch
                  have hrest := h.solid hkept hmatch
                  have hlast := getLast?_render h.nonempty (hkept.take k) (some (.kept a)) (by simp)
                  obtain ⟨hrender, hnext⟩ :=
                    ih rest.length (by rw [hdrop, List.length_drop]; omega) hrest
                      ((cells.take k).getLast?.or (some (.kept a))) (by simp) rfl
                  rw [hmatch, Option.map_some, htext] at hsame
                  simp only [blankFrom, hmatch, hskip]
                  rw [htext, replaceFrom_match hsame, blankFrom_skip m' _ hk, ← hdrop,
                    render_marked, render_append, render_replicate_hidden, List.nil_append,
                    ← hrender, ← hlast]
                  exact ⟨rfl, solid_replicate hnext k⟩
          | marked =>
              have hmarked : Solid true cells := hsolid
              obtain ⟨hrender, hnext⟩ :=
                ih cells.length (by omega) hmarked (some .marked) (fun _ => rfl) rfl
              have hmarker := h.replace_marker [] marker rfl
                (before.bind (lastUnit marker)) (render marker cells)
              rw [List.getLast?_nil, Option.none_or, h.lastUnit_marked] at hmarker
              simp only [blankFrom, h.blank before cells (c := .marked) rfl, render_marked]
              rw [hmarker, ← hrender]
              exact ⟨rfl, hnext⟩
          | hidden =>
              obtain ⟨hflag, hsolid⟩ := hsolid
              obtain ⟨hrender, hnext⟩ :=
                ih cells.length (by omega) hsolid (some .hidden) (fun _ => rfl) rfl
              simp only [blankFrom, h.blank before cells (c := .hidden) rfl, render_hidden]
              rw [← hrender, hblank hflag]
              exact ⟨rfl, hflag, hnext⟩

theorem Mirrors.replaceAll_render {p : Pattern τ} (h : Mirrors marker p.matcher m')
    {cells : List (Cell τ)} (hsolid : Solid false cells) :
    p.replaceAll marker (render marker cells) = render marker (blankOut m' cells) :=
  (h.replace_render hsolid none (by simp)).1

theorem Mirrors.solid_blankOut (h : Mirrors marker m m') {cells : List (Cell τ)}
    (hsolid : Solid false cells) : Solid false (blankOut m' cells) :=
  (h.replace_render hsolid none (by simp)).2

/-! ## Matches in the text that cells stand for -/

theorem unitBefore_append (first last : List τ) :
    unitBefore (first ++ last) first.length = first.getLast? := by
  simp [unitBefore]

theorem not_match_iff (hm : Takes 1 m) {text : List τ} : (∀ s e, ¬ MatchAt m text s e) ↔
    ∀ first a last, text = first ++ a :: last → m first.getLast? (a :: last) = none := by
  constructor
  · rintro h first a last rfl
    rcases matcher_cases hm (first ++ a :: last) first.length with ⟨hnone, _⟩ | ⟨e, hmatch⟩
    · rwa [unitBefore_append, List.drop_left] at hnone
    · exact absurd hmatch (h _ e)
  · intro h s e hmatch
    have hlt : s < text.length := Nat.lt_of_lt_of_le hmatch.1 hmatch.2.1
    have hdrop := drop_of_getElem? (List.getElem?_eq_getElem hlt)
    have hnone := h (text.take s) text[s] (text.drop (s + 1)) (by
      rw [← hdrop, List.take_append_drop])
    have hsome := hmatch.2.2
    rw [hdrop] at hsome
    unfold unitBefore at hsome
    rw [hnone] at hsome
    cases hsome

theorem Mirrors.none_render (h : Mirrors marker m m') {cells : List (Cell τ)} {blank : Bool}
    (hsolid : Solid blank cells) (before : Option (Cell τ))
    (hblank : blank = true → before.bind (lastUnit marker) = marker.getLast?)
    (hnone : ∀ first c last, cells = first ++ c :: last →
      m' (first.getLast?.or before) (c :: last) = none)
    {first last : List τ} {a : τ} (hsplit : render marker cells = first ++ a :: last) :
    m (first.getLast?.or (before.bind (lastUnit marker))) (a :: last) = none := by
  induction cells generalizing blank before first with
  | nil => simp at hsplit
  | cons c cells ih =>
      have hnext : ∀ (first : List (Cell τ)) c' last, cells = first ++ c' :: last →
          m' (first.getLast?.or (some c)) (c' :: last) = none := by
        intro first c' last heq
        have h := hnone (c :: first) c' last (by rw [heq, List.cons_append])
        rw [List.getLast?_cons] at h
        cases hlast : first.getLast? <;> simpa [hlast] using h
      cases c with
      | kept b =>
          have hkept : Solid false cells := hsolid
          rw [render_kept] at hsplit
          cases first with
          | nil =>
              obtain ⟨rfl, rfl⟩ := List.cons.inj hsplit
              have hsame := h.same before b cells hkept
              have hhere := hnone [] (.kept b) cells rfl
              rw [List.getLast?_nil, Option.none_or] at hhere ⊢
              rw [hsame, hhere]
              rfl
          | cons b' first =>
              obtain ⟨rfl, hrest⟩ := List.cons.inj hsplit
              have hbehind := ih hkept (some (.kept b)) (by simp) hnext hrest
              rw [List.getLast?_cons]
              cases hlast : first.getLast? <;> simpa [hlast, lastUnit] using hbehind
      | marked =>
          have hmarked : Solid true cells := hsolid
          rw [render_marked] at hsplit
          rcases List.append_eq_append_iff.mp hsplit with
            ⟨behind, hfirst, hrest⟩ | ⟨inside, hmarker, hrest⟩
          · have hbehind := ih hmarked (some .marked) (fun _ => rfl) hnext hrest
            rw [hfirst, List.getLast?_append, Option.or_assoc, h.lastUnit_marked]
            exact hbehind
          · cases inside with
            | nil =>
                have hempty : render marker cells = [] ++ a :: last := hrest.symm
                have hbehind := ih hmarked (some .marked) (fun _ => rfl) hnext hempty
                rw [List.append_nil] at hmarker
                rw [← hmarker, h.lastUnit_marked]
                exact hbehind
            | cons b inside =>
                obtain ⟨rfl, rfl⟩ := List.cons.inj hrest
                exact h.inert hmarker _ _
      | hidden =>
          obtain ⟨hflag, hsolid⟩ := hsolid
          rw [render_hidden] at hsplit
          have hbehind := ih hsolid (some .hidden) (fun _ => rfl) hnext hsplit
          rw [hblank hflag]
          exact hbehind

/-- Where nothing matches in the cells, nothing matches in the text they stand for. -/
theorem Mirrors.free_render (h : Mirrors marker m m') {cells : List (Cell τ)}
    (hsolid : Solid false cells) (hfree : ∀ s e, ¬ MatchAt m' cells s e) :
    ∀ s e, ¬ MatchAt m (render marker cells) s e := by
  rw [not_match_iff h.takes'] at hfree
  rw [not_match_iff h.takes]
  intro first a last hsplit
  have hnone := h.none_render hsolid none (by simp) (by simpa using hfree) hsplit
  simpa using hnone

theorem Solid.behind_kept {blank : Bool} {first last : List (Cell τ)} {a : τ}
    (h : Solid blank (first ++ .kept a :: last)) : Solid false last := by
  induction first generalizing blank with
  | nil => exact h
  | cons c first ih =>
      cases c with
      | kept b =>
          have hrest : Solid false (first ++ .kept a :: last) := h
          exact ih hrest
      | marked =>
          have hrest : Solid true (first ++ .kept a :: last) := h
          exact ih hrest
      | hidden => exact ih h.2

/-- A match in the cells is one in the text they stand for. -/
theorem Mirrors.match_render (h : Mirrors marker m m') {cells : List (Cell τ)}
    (hsolid : Solid false cells) {s e : Nat} (hmatch : MatchAt m' cells s e) :
    ∃ s' e', MatchAt m (render marker cells) s' e' := by
  by_contra hnone
  have hfree : ∀ s' e', ¬ MatchAt m (render marker cells) s' e' :=
    fun s' e' hmatch' => hnone ⟨s', e', hmatch'⟩
  rw [not_match_iff h.takes] at hfree
  have hlt : s < cells.length := Nat.lt_of_lt_of_le hmatch.1 hmatch.2.1
  have hdrop := drop_of_getElem? (List.getElem?_eq_getElem hlt)
  have hsplit : cells = cells.take s ++ cells[s] :: cells.drop (s + 1) := by
    rw [← hdrop, List.take_append_drop]
  have hsome := hmatch.2.2
  rw [hdrop] at hsome
  cases hcell : cells[s] with
  | kept a =>
      rw [hcell] at hsome hsplit
      have hbehind : Solid false (cells.drop (s + 1)) := by
        rw [hsplit] at hsolid
        exact hsolid.behind_kept
      have hbefore := getLast?_render h.nonempty (hsolid.take s) none (by simp)
      simp only [Option.bind_none, Option.or_none] at hbefore
      have htext : render marker cells =
          render marker (cells.take s) ++ a :: render marker (cells.drop (s + 1)) := by
        have hrender := congrArg (render marker) hsplit
        rwa [render_append, render_kept] at hrender
      have hnone' := hfree _ _ _ htext
      rw [hbefore] at hnone'
      have hsame := h.same (cells.take s).getLast? a (cells.drop (s + 1)) hbehind
      rw [hnone'] at hsame
      unfold unitBefore at hsome
      rw [hsome] at hsame
      cases hsame
  | marked =>
      rw [hcell, h.blank _ _ rfl] at hsome
      cases hsome
  | hidden =>
      rw [hcell, h.blank _ _ rfl] at hsome
      cases hsome

/-- Where nothing matches, nothing is replaced. -/
theorem replaceAll_of_free {p : Pattern τ} (hm : Takes 1 p.matcher) {text : List τ}
    (hfree : ∀ s e, ¬ MatchAt p.matcher text s e) : p.replaceAll marker text = text := by
  rw [not_match_iff hm] at hfree
  have hrest : ∀ last first : List τ, text = first ++ last →
      replaceFrom p.matcher marker 0 first.getLast? last = last := by
    intro last
    induction last with
    | nil =>
        intro first _
        cases hmatch : p.matcher first.getLast? [] with
        | none => simp [replaceFrom, hmatch]
        | some rest =>
            obtain ⟨n, hn, hlength, _⟩ := hm _ _ _ hmatch
            simp only [List.length_nil] at hlength
            omega
    | cons a last ih =>
        intro first hsplit
        have hnext := ih (first ++ [a]) (by rw [hsplit, List.append_assoc]; rfl)
        rw [List.getLast?_concat] at hnext
        simp only [replaceFrom, hfree first a last hsplit, hnext]
  exact hrest text [] rfl

end DurableRuntime.Foundation
