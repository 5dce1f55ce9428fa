import DurableRuntime.ControlPlane.BlankedText
import DurableRuntime.ControlPlane.SecretCarry

/-!
# The positions that redaction takes

Which positions of a text redaction takes, told by matches of the patterns on
the text itself.  The first pattern takes its matches.  Those of the second are
the matches on the text with the first ones left blank: a blank goes on with a
value, so a value can be wider than in the text.  Those of the third are the
matches on what the first two have left, where blanks end an address.
-/

namespace DurableRuntime.ControlPlane

open Foundation

section

variable (x : List CodeUnit)

noncomputable abbrev bearerHidden : MaskedText := hide (TakenBy bearerPattern.matcher x) x

/-- The positions that an assignment takes over bearer matches left blank. -/
def WidenedIn (i : Nat) : Prop :=
  TakenBy (assignmentPattern.onMasks redactedMarker).matcher (bearerHidden x) i

/-- The positions taken before addresses are looked for. -/
def Covered (i : Nat) : Prop := TakenBy bearerPattern.matcher x i ∨ WidenedIn x i

/-- The text in which addresses are looked for. -/
noncomputable abbrev secretsHidden : MaskedText := hide (Covered x) x

/-- An address in what is left of the text. -/
def Remaining (s e : Nat) : Prop :=
  MatchAt (addressPattern.onMasks redactedMarker).matcher (secretsHidden x) s e

def RemainingIn (i : Nat) : Prop :=
  TakenBy (addressPattern.onMasks redactedMarker).matcher (secretsHidden x) i

def Redacted (i : Nat) : Prop := Covered x i ∨ RemainingIn x i

/-- The positions for which a marker is written. -/
def MarkedAt (i : Nat) : Prop :=
  ((∃ e, SpanOf bearerPattern.matcher x i e) ∧ ¬ WidenedIn x i) ∨
    (∃ e, SpanOf (assignmentPattern.onMasks redactedMarker).matcher (bearerHidden x) i e) ∨
    (∃ e, SpanOf (addressPattern.onMasks redactedMarker).matcher (secretsHidden x) i e)

open Classical in
/-- The number of units written for a position. -/
noncomputable def width (i : Nat) : Nat :=
  if Redacted x i then (if MarkedAt x i then redactedMarker.length else 0) else 1

/-- The number of units written for the positions before. -/
noncomputable def place (i : Nat) : Nat := ((List.range i).map (width x)).sum

end

/-! ## Redaction on cells -/

section

variable {τ : Type} (unit : τ → CodeUnit) (marker : List τ) (text : List τ)

/-- The cells of a text after all three patterns. -/
def blankedCells : List (Cell τ) :=
  secretPatterns.foldl
    (fun cells p => blankOut ((p.comap unit).onCells marker).matcher cells) (text.map Cell.kept)

variable {unit marker text}

theorem solid_blanked (hmarker : marker.map unit = redactedMarker)
    {patterns : List (Pattern CodeUnit)}
    (hpatterns : ∀ p ∈ patterns, Mirrored p) {cells : List (Cell τ)} (hsolid : Solid false cells) :
    Solid false (patterns.foldl
        (fun cells p => blankOut ((p.comap unit).onCells marker).matcher cells) cells) ∧
      render marker (patterns.foldl
          (fun cells p => blankOut ((p.comap unit).onCells marker).matcher cells) cells) =
        patterns.foldl (fun safe p => (p.comap unit).replaceAll marker safe)
          (render marker cells) := by
  induction patterns generalizing cells with
  | nil => exact ⟨hsolid, rfl⟩
  | cons p patterns ih =>
      have hmirrors := hpatterns p List.mem_cons_self hmarker
      have hnext := ih (fun q hq => hpatterns q (List.mem_cons_of_mem p hq))
        (hmirrors.solid_blankOut hsolid)
      rw [← hmirrors.replaceAll_render hsolid] at hnext
      exact hnext

theorem solid_blankedCells (hmarker : marker.map unit = redactedMarker) :
    Solid false (blankedCells unit marker text) :=
  (solid_blanked hmarker (fun _ hp => mirrored_secretPatterns hp) (solid_map_kept text)).1

theorem render_blankedCells (hmarker : marker.map unit = redactedMarker) :
    render marker (blankedCells unit marker text) =
      secretPatterns.foldl (fun safe p => (p.comap unit).replaceAll marker safe) text := by
  have h := (solid_blanked hmarker (fun _ hp => mirrored_secretPatterns hp)
    (solid_map_kept text)).2
  rw [render_map_kept] at h
  exact h

/-- What is left of a position: its unit, the marker or nothing. -/
def LeftAs (x : List CodeUnit) (i : Nat) (a : τ) (c : Cell τ) : Prop :=
  (¬ Redacted x i ∧ c = .kept a) ∨ (Redacted x i ∧ MarkedAt x i ∧ c = .marked) ∨
    (Redacted x i ∧ ¬ MarkedAt x i ∧ c = .hidden)

variable (unit marker text)

/-- The cells after the first pattern. -/
def bearerCells : List (Cell τ) :=
  blankOut ((bearerPattern.comap unit).onCells marker).matcher (text.map Cell.kept)

/-- The cells after the second one. -/
def assignmentCells : List (Cell τ) :=
  blankOut ((assignmentPattern.comap unit).onCells marker).matcher (bearerCells unit marker text)

theorem shows_text : (text.map Cell.kept).map (Cell.shows unit) =
    hide (fun _ => False) (text.map unit) := by
  rw [hide_eq_map (fun _ h => h), List.map_map, List.map_map]
  rfl

variable {unit marker text}

/-- The text with nothing hidden. -/
noncomputable abbrev unmasked (x : List CodeUnit) : MaskedText := hide (fun _ => False) x

section

variable (p : Pattern CodeUnit) {x : List CodeUnit} {s e i : Nat}

theorem matchAt_unmasked :
    MatchAt (p.onMasks redactedMarker).matcher (unmasked x) s e ↔ MatchAt p.matcher x s e := by
  have h := matchAt_comap some (p.onMasks redactedMarker) x (s := s) (e := e)
  rw [onMasks_eq_comap] at h
  rw [unmasked, hide_eq_map (fun _ h => h), h]

theorem span_unmasked :
    SpanOf (p.onMasks redactedMarker).matcher (unmasked x) s e ↔ SpanOf p.matcher x s e := by
  have h := spanOf_comap some (p.onMasks redactedMarker) x (s := s) (e := e)
  rw [onMasks_eq_comap] at h
  rw [unmasked, hide_eq_map (fun _ h => h), h]

theorem taken_unmasked :
    TakenBy (p.onMasks redactedMarker).matcher (unmasked x) i ↔ TakenBy p.matcher x i := by
  have h := takenBy_comap some (p.onMasks redactedMarker) x (i := i)
  rw [onMasks_eq_comap] at h
  rw [unmasked, hide_eq_map (fun _ h => h), h]

end

variable (text) in
theorem shows_bearerCells (hmarker : marker.map unit = redactedMarker) :
    (bearerCells unit marker text).map (Cell.shows unit) = bearerHidden (text.map unit) := by
  have h := shows_blankOut unit marker bearerPattern (by decide) (shows_text unit text)
  rw [hmarker] at h
  simp only [taken_unmasked, false_or] at h
  exact h

variable (text) in
theorem shows_assignmentCells (hmarker : marker.map unit = redactedMarker) :
    (assignmentCells unit marker text).map (Cell.shows unit) = secretsHidden (text.map unit) := by
  have h := shows_blankOut unit marker assignmentPattern (by decide)
    (shows_bearerCells text hmarker)
  rw [hmarker] at h
  exact h

variable (text) in
theorem shows_blankedCells (hmarker : marker.map unit = redactedMarker) :
    (blankedCells unit marker text).map (Cell.shows unit) =
      hide (Redacted (text.map unit)) (text.map unit) := by
  have h := shows_blankOut unit marker addressPattern (by decide)
    (shows_assignmentCells text hmarker)
  rw [hmarker] at h
  exact h

/-! ## What is left of a position -/

theorem not_hidden {x : List CodeUnit} {P : Nat → Prop} {accepts : CodeUnit → Bool}
    (hstops : redactedMarker.all accepts = false) {i : Nat}
    (h : Reads (hide P x) accepts i) : ¬ P i := by
  intro hP
  have hlt := h.lt
  rw [length_hide] at hlt
  rw [reads_blank (hide_of_mem hlt hP), hstops] at h
  cases h

theorem Remaining.not_covered {x : List CodeUnit} {s e i : Nat} (h : Remaining x s e) (hle : s ≤ i)
    (hlt : i < e) : ¬ Covered x i := by
  obtain ⟨_, d, c, hshape⟩ := matchAt_address.mp h
  exact not_hidden plain_stops (hshape.plain hle hlt)

theorem RemainingIn.not_covered {x : List CodeUnit} {i : Nat} (h : RemainingIn x i) :
    ¬ Covered x i := by
  obtain ⟨s, e, hspan, hle, hlt⟩ := h
  exact Remaining.not_covered hspan.2 hle hlt

/-- A position inside a span does not start one. -/
theorem not_span_inside {α : Type} {m : Matcher α} {H : List α} {s e e' i : Nat}
    (h : SpanOf m H s e) (hs : s < i) (he : i < e) : ¬ SpanOf m H i e' := by
  intro h'
  have hunique := h.unique (matches_matchAt m H) h' (Nat.le_of_lt hs) he (Nat.le_refl i) h'.2.1
  omega

theorem blankedCells_leftAs (hmarker : marker.map unit = redactedMarker) {i : Nat} {a : τ}
    (ha : text[i]? = some a) :
    ∃ c, (blankedCells unit marker text)[i]? = some c ∧ LeftAs (text.map unit) i a c := by
  have hkept : (text.map Cell.kept)[i]? = some (.kept a) := by rw [List.getElem?_map, ha]; rfl
  obtain ⟨c, hc, hfirst⟩ :=
    blankOut_shows unit marker bearerPattern (by decide) (shows_text unit text) hkept
  obtain ⟨c', hc', hsecond⟩ :=
    blankOut_shows unit marker assignmentPattern (by decide) (shows_bearerCells text hmarker) hc
  obtain ⟨c'', hc'', hthird⟩ :=
    blankOut_shows unit marker addressPattern (by decide) (shows_assignmentCells text hmarker) hc'
  simp only [hmarker, taken_unmasked, span_unmasked] at hfirst hsecond hthird
  refine ⟨c'', hc'', ?_⟩
  rcases hthird with ⟨rfl, hthird⟩ | ⟨rfl, e, hspan⟩ | ⟨rfl, s, e, hspan, hs, he⟩
  · -- no address takes the position
    have hnone : ∀ e, ¬ SpanOf (addressPattern.onMasks redactedMarker).matcher
        (secretsHidden (text.map unit)) i e :=
      fun e h => hthird (taken_of_span h (Nat.le_refl i) h.2.1)
    rcases hsecond with ⟨rfl, hsecond⟩ | ⟨rfl, e, hspan⟩ | ⟨rfl, s, e, hspan, hs, he⟩
    · have hnone' : ∀ e, ¬ SpanOf (assignmentPattern.onMasks redactedMarker).matcher
          (bearerHidden (text.map unit)) i e :=
        fun e h => hsecond (taken_of_span h (Nat.le_refl i) h.2.1)
      rcases hfirst with ⟨rfl, hfirst⟩ | ⟨rfl, e, hspan⟩ | ⟨rfl, s, e, hspan, hs, he⟩
      · left
        refine ⟨?_, rfl⟩
        rintro ((h | h) | h)
        · exact hfirst h
        · exact hsecond h
        · exact hthird h
      · right; left
        exact ⟨Or.inl (Or.inl ⟨i, e, hspan, Nat.le_refl i, hspan.2.1⟩),
          Or.inl ⟨⟨e, hspan⟩, hsecond⟩,
          rfl⟩
      · right; right
        refine ⟨Or.inl (Or.inl ⟨s, e, hspan, Nat.le_of_lt hs, he⟩), ?_, rfl⟩
        rintro (⟨⟨e', h⟩, _⟩ | ⟨e', h⟩ | ⟨e', h⟩)
        · exact not_span_inside hspan hs he h
        · exact hnone' e' h
        · exact hnone e' h
    · right; left
      exact ⟨Or.inl (Or.inr (taken_of_span hspan (Nat.le_refl i) hspan.2.1)),
        Or.inr (Or.inl ⟨e, hspan⟩), rfl⟩
    · right; right
      have htaken : WidenedIn (text.map unit) i := taken_of_span hspan (Nat.le_of_lt hs) he
      refine ⟨Or.inl (Or.inr htaken), ?_, rfl⟩
      rintro (⟨_, h⟩ | ⟨e', h⟩ | ⟨e', h⟩)
      · exact h htaken
      · exact not_span_inside hspan hs he h
      · exact hnone e' h
  · right; left
    exact ⟨Or.inr (taken_of_span hspan (Nat.le_refl i) hspan.2.1), Or.inr (Or.inr ⟨e, hspan⟩), rfl⟩
  · right; right
    have htaken : RemainingIn (text.map unit) i := taken_of_span hspan (Nat.le_of_lt hs) he
    refine ⟨Or.inr htaken, ?_, rfl⟩
    rintro (⟨⟨e', h⟩, _⟩ | ⟨e', h⟩ | ⟨e', h⟩)
    · exact htaken.not_covered (Or.inl ⟨i, e', h, Nat.le_refl i, h.2.1⟩)
    · exact htaken.not_covered (Or.inr (taken_of_span h (Nat.le_refl i) h.2.1))
    · exact not_span_inside hspan hs he h

/-- The text written for the positions before one is as long as the place says. -/
theorem length_render_take (hmarker : marker.map unit = redactedMarker) {i : Nat}
    (hi : i ≤ text.length) :
    (render marker ((blankedCells unit marker text).take i)).length = place (text.map unit) i := by
  induction i with
  | zero => rfl
  | succ i ih =>
      have hlt : i < text.length := hi
      obtain ⟨c, hc, hleft⟩ := blankedCells_leftAs hmarker (List.getElem?_eq_getElem hlt)
      have hlength : marker.length = redactedMarker.length := by rw [← hmarker, List.length_map]
      have hwidth : (c.spelled marker).length = width (text.map unit) i := by
        rcases hleft with ⟨hnot, rfl⟩ | ⟨hredacted, hmarked, rfl⟩ | ⟨hredacted, hmarked, rfl⟩
        · simp [width, hnot, Cell.spelled]
        · simp [width, hredacted, hmarked, Cell.spelled, hlength]
        · simp [width, hredacted, hmarked, Cell.spelled]
      have hone : render marker [c] = c.spelled marker := by simp [render]
      rw [List.take_add_one, hc, Option.toList_some, render_append, List.length_append, hone,
        ih (by omega), hwidth]
      simp [place, List.range_succ]

end

end DurableRuntime.ControlPlane
