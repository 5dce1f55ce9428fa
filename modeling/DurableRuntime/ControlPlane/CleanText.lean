import DurableRuntime.ControlPlane.RedactedSteps

/-!
# What redaction leaves is free of secrets

No pattern matches anywhere in the text before it is cut: what one pattern has
taken does not help another one to match, since a marker divides no word and
stands for a value.  The cut at 500 units can only make an address: one that
ends right before it.
-/

namespace DurableRuntime.ControlPlane

open Foundation

section

variable {x : List CodeUnit} {s e : Nat}

/-! ## Before the cut -/

theorem undivided_redactedHidden_bearer : Undivided (redactedHidden x) (bearerHidden x) :=
  undivided_address.trans masks_redactedHidden undivided_assignment masks_secretsHidden

/-- A part taken behind a unit that stays begins with a value unit. -/
theorem blanksValues_redacted : BlanksValues (redactedHidden x) (bearerHidden x) := by
  intro v hblank hkept
  obtain ⟨hlt, htaken⟩ := hide_blank_iff.mp hblank
  have hnot := not_hidden plain_stops hkept
  rcases htaken with (hbearer | ⟨a, e, hspan, ha, he⟩) | ⟨s, e, hspan, hs, he⟩
  · rw [reads_blank (hide_of_mem hlt hbearer)]
    decide
  · have hstart : a = v + 1 := by
      by_contra hne
      exact hnot (Or.inl (Or.inr (taken_of_span hspan (by omega) (by omega))))
    subst hstart
    obtain ⟨_, k, m, v', hshape⟩ := matchAt_assignment.mp hspan.2
    exact hshape.keyword.word.mono fun _ => word_value
  · have hstart : s = v + 1 := by
      by_contra hne
      exact hnot (Or.inr (taken_of_span hspan (by omega) (by omega)))
    subst hstart
    obtain ⟨_, d, c, hshape⟩ := matchAt_address.mp hspan.2
    have hlocal := hshape.localPart.reads (v + 1) (Nat.le_refl _) hshape.nonempty
    exact (masks_secretsHidden.reads (by decide) hlocal).mono fun _ => local_value

theorem bearer_free :
    ¬ MatchAt (bearerPattern.onMasks redactedMarker).matcher (redactedHidden x) s e := by
  intro h
  have hmasks :=
    masks_redactedHidden.trans ((masks_secretsHidden (x := x)).trans masks_bearerHidden)
  have hundivided := undivided_address.trans masks_redactedHidden
    (undivided_secretsHidden (x := x)) (masks_secretsHidden.trans masks_bearerHidden)
  obtain ⟨t, hmatch⟩ := bearer_unmask hmasks hundivided h
  obtain ⟨_, w, t', hshape⟩ := matchAt_bearer.mp h
  have hkept := not_hidden plain_stops (hshape.plain (Nat.le_refl s) (by
    have := hshape.gap
    have := hshape.nonempty
    omega))
  have htaken := taken_of_match (matches_matchAt _ _) ((matchAt_unmasked bearerPattern).mp hmatch)
  exact hkept (Or.inl (Or.inl htaken))

theorem assignment_free :
    ¬ MatchAt (assignmentPattern.onMasks redactedMarker).matcher (redactedHidden x) s e := by
  intro h
  obtain ⟨t, hmatch⟩ := assignment_unmask (masks_redactedHidden.trans masks_secretsHidden)
    undivided_redactedHidden_bearer blanksValues_redacted h
  obtain ⟨_, k, m, v, hshape⟩ := matchAt_assignment.mp h
  have hkept := not_hidden plain_stops (hshape.plain (Nat.le_refl s) (by
    have := hshape.order
    omega))
  exact hkept (Or.inl (Or.inr (taken_of_match (matches_matchAt _ _) hmatch)))

theorem address_free :
    ¬ MatchAt (addressPattern.onMasks redactedMarker).matcher (redactedHidden x) s e := by
  intro h
  obtain ⟨t, _, hmatch⟩ := address_unmask masks_redactedHidden undivided_address h
  obtain ⟨_, d, c, hshape⟩ := matchAt_address.mp h
  have hkept := not_hidden plain_stops (hshape.plain (Nat.le_refl s) h.1)
  exact hkept (Or.inr (taken_of_match (matches_matchAt _ _) hmatch))

end

/-! ## The cut -/

/-- The masked text up to a position, and behind it what the cut leaves of a marker. -/
structure CutAt (H T : MaskedText) (i k : Nat) : Prop where
  text : T = H.take i ++ (redactedMarker.take k).map some
  le : i ≤ H.length
  /-- Either no marker is cut, or the position shows nothing. -/
  marker : k = 0 ∨ H[i]? = some none

section

variable {H T : MaskedText} {i k s e j : Nat} {accepts : CodeUnit → Bool}

theorem CutAt.before (h : CutAt H T i k) (hj : j < i) : T[j]? = H[j]? := by
  have hle := h.le
  rw [h.text, List.getElem?_append_left (by rw [List.length_take]; omega),
    List.getElem?_take_of_lt hj]

theorem CutAt.behind (h : CutAt H T i k) (hj : i ≤ j) :
    T[j]? = (redactedMarker.take k)[j - i]?.map some := by
  have hle := h.le
  have hlength : (H.take i).length = i := by rw [List.length_take]; omega
  rw [h.text, List.getElem?_append_right (by omega), hlength, List.getElem?_map]

/-- Behind the position only units of the marker are read. -/
theorem CutAt.reads_behind (h : CutAt H T i k) (hj : i ≤ j) (hread : Reads T accepts j) :
    redactedMarker.any accepts = true := by
  unfold Reads at hread
  rw [h.behind hj] at hread
  cases hu : (redactedMarker.take k)[j - i]? with
  | none =>
      rw [hu] at hread
      cases hread
  | some u =>
      rw [hu] at hread
      exact List.any_eq_true.mpr ⟨u, List.mem_of_mem_take (List.mem_of_getElem? hu), hread⟩

theorem CutAt.at (h : CutAt H T i k) : T[i]? = none ∨ T[i]? = some (some 91) := by
  rw [h.behind (Nat.le_refl i), Nat.sub_self]
  cases k with
  | zero => exact Or.inl rfl
  | succ k => exact Or.inr rfl

theorem CutAt.not_plain (h : CutAt H T i k) : ¬ Reads T plainUnit i := by
  unfold Reads
  rcases h.at with hnone | hunit
  · rw [hnone]
    simp
  · rw [hunit]
    decide

/-- Where all positions from one before the cut on are plain, they are before the cut. -/
theorem CutAt.plain_le (h : CutAt H T i k) (hs : s < i)
    (hplain : ∀ j, s ≤ j → j < e → Reads T plainUnit j) : e ≤ i := by
  by_contra hlt
  exact h.not_plain (hplain i (Nat.le_of_lt hs) (by omega))

theorem CutAt.boundary (h : CutAt H T i k) (hs : s < i) (hboundary : Boundary T s) :
    Boundary H s := by
  unfold Boundary at hboundary ⊢
  rw [← reads_congr (h.before hs), ← hboundary]
  constructor
  · rintro ⟨hpos, hword⟩
    exact ⟨hpos, (reads_congr (h.before (by omega))).mpr hword⟩
  · rintro ⟨hpos, hword⟩
    exact ⟨hpos, (reads_congr (h.before (by omega))).mp hword⟩

theorem CutAt.bearer (h : CutAt H T i k)
    (hmatch : MatchAt (bearerPattern.onMasks redactedMarker).matcher T s e) :
    ∃ t, MatchAt (bearerPattern.onMasks redactedMarker).matcher H s t := by
  obtain ⟨hboundary, w, t, hshape⟩ := matchAt_bearer.mp hmatch
  have hgap := hshape.gap
  have hnonempty := hshape.nonempty
  have hs : s < i := by
    by_contra hge
    have hspace := hshape.spaces.reads (s + 6) (Nat.le_refl _) hgap
    exact absurd (h.reads_behind (by omega) hspace) (by decide)
  have hle := h.plain_le hs fun j hj hj' => hshape.plain hj hj'
  obtain ⟨t', e', hshape'⟩ := hshape.carry fun j hj hj' => h.before (by omega)
  exact ⟨e', matchAt_bearer.mpr ⟨h.boundary hs hboundary, w, t', hshape'⟩⟩

theorem CutAt.assignment (h : CutAt H T i k)
    (hmatch : MatchAt (assignmentPattern.onMasks redactedMarker).matcher T s e) :
    ∃ t, MatchAt (assignmentPattern.onMasks redactedMarker).matcher H s t := by
  obtain ⟨hboundary, l, m, v, hshape⟩ := matchAt_assignment.mp hmatch
  have horder := hshape.order
  have hs : s < i := by
    by_contra hge
    exact absurd (h.reads_behind (by omega) hshape.separator) (by decide)
  have hle := h.plain_le hs fun j hj hj' => hshape.plain hj hj'
  have hvalue : Reads H valueUnit v := by
    have hread := hshape.value.reads v (Nat.le_refl v) hshape.nonempty
    rcases Nat.eq_or_lt_of_le hle with rfl | hlt
    · rcases h.marker with rfl | hblank
      · unfold Reads at hread
        rw [h.behind (Nat.le_refl v)] at hread
        simp at hread
      · rw [reads_blank hblank]
        decide
    · exact (reads_congr (h.before hlt)).mp hread
  obtain ⟨e', hshape'⟩ := hshape.carry (fun j hj hj' => h.before (by omega)) hvalue
  exact ⟨e', matchAt_assignment.mpr ⟨h.boundary hs hboundary, l, m, v, hshape'⟩⟩

/-- An address of the cut text is one of the text, or it ends with the cut. -/
theorem CutAt.address (h : CutAt H T i k)
    (hmatch : MatchAt (addressPattern.onMasks redactedMarker).matcher T s e) :
    (∃ t, MatchAt (addressPattern.onMasks redactedMarker).matcher H s t) ∨
      (H[i]? ≠ some none ∧ k = 0 ∧ e = i) := by
  obtain ⟨hboundary, d, c, hshape⟩ := matchAt_address.mp hmatch
  have horder := hshape.order
  have hs : s < i := by
    by_contra hge
    exact absurd (h.reads_behind (by omega) hshape.sign) (by decide)
  have hle := h.plain_le hs fun j hj hj' => hshape.plain hj hj'
  have hcarry : ¬ Reads H wordUnit e →
      ∃ t, MatchAt (addressPattern.onMasks redactedMarker).matcher H s t := by
    intro hends
    obtain ⟨c', e', hshape', _⟩ := hshape.carry (fun j hj hj' => h.before (by omega)) hends
    exact ⟨e', matchAt_address.mpr ⟨h.boundary hs hboundary, d, c', hshape'⟩⟩
  rcases Nat.eq_or_lt_of_le hle with rfl | hlt
  · by_cases hblank : H[e]? = some none
    · left
      apply hcarry
      rw [reads_blank hblank, word_stops]
      simp
    · exact Or.inr ⟨hblank, h.marker.resolve_right hblank, rfl⟩
  · left
    apply hcarry
    rw [← reads_congr (h.before hlt)]
    exact hshape.last.top.ends

end

/-! ## Cutting the text of cells -/

section

variable {τ : Type} {marker : List τ}

/-- What is cut from the text of cells is the text of cells, with what is left of a marker. -/
theorem take_render (marker : List τ) (cells : List (Cell τ)) (n : Nat) : ∃ i k,
    (render marker cells).take n =
        render marker (cells.take i ++ (marker.take k).map Cell.kept) ∧ i ≤ cells.length ∧
      ((k = 0 ∧ (i = cells.length ∨ (render marker (cells.take i)).length = n)) ∨
        cells[i]? = some .marked) := by
  induction cells generalizing n with
  | nil => exact ⟨0, 0, by simp⟩
  | cons c cells ih =>
      have hnext : ∀ m, (render marker (c :: cells)).take n =
            c.spelled marker ++ (render marker cells).take m →
          (c.spelled marker).length + m = n →
          ∃ i k, (render marker (c :: cells)).take n =
              render marker ((c :: cells).take i ++ (marker.take k).map Cell.kept) ∧
            i ≤ (c :: cells).length ∧
            ((k = 0 ∧ (i = (c :: cells).length ∨
                (render marker ((c :: cells).take i)).length = n)) ∨
              (c :: cells)[i]? = some .marked) := by
        intro m htake hlength
        obtain ⟨i, k, hrender, hle, hcut⟩ := ih m
        have hsplit : ∀ rest, render marker (c :: rest) = c.spelled marker ++ render marker rest :=
          fun _ => rfl
        refine ⟨i + 1, k, ?_, by simpa using hle, ?_⟩
        · rw [htake, hrender, List.take_succ_cons, List.cons_append, hsplit]
        · rcases hcut with ⟨hk, hend | hfull⟩ | hmarked
          · exact Or.inl ⟨hk, Or.inl (by simpa using hend)⟩
          · refine Or.inl ⟨hk, Or.inr ?_⟩
            rw [List.take_succ_cons, hsplit, List.length_append]
            omega
          · exact Or.inr hmarked
      rcases Nat.lt_or_ge n (c.spelled marker).length with hlt | hge
      · cases c with
        | kept a =>
            have hzero : n = 0 := by simpa [Cell.spelled] using hlt
            subst hzero
            exact ⟨0, 0, by simp⟩
        | marked =>
            have hle : n ≤ marker.length := Nat.le_of_lt hlt
            refine ⟨0, n, ?_, Nat.zero_le _, Or.inr rfl⟩
            rw [render_marked, List.take_append_of_le_length hle, List.take_zero, List.nil_append,
              render_map_kept]
        | hidden => simp [Cell.spelled] at hlt
      · apply hnext (n - (c.spelled marker).length)
        · have hsplit : render marker (c :: cells) = c.spelled marker ++ render marker cells := rfl
          rw [hsplit, List.take_append, List.take_of_length_le hge]
        · omega

theorem solid_append_kept {blank : Bool} {cells : List (Cell τ)} (h : Solid blank cells)
    (text : List τ) : Solid blank (cells ++ text.map Cell.kept) := by
  induction cells generalizing blank with
  | nil => exact (solid_map_kept text).mono blank
  | cons c cells ih =>
      cases c with
      | kept a =>
          have hrest : Solid false cells := h
          exact ih hrest
      | marked =>
          have hrest : Solid true cells := h
          exact ih hrest
      | hidden => exact ⟨h.1, ih h.2⟩

end

/-! ## When redacted text is stable -/

/-- No pattern matches anywhere in the text. -/
def FreeOfSecrets (text : List CodeUnit) : Prop :=
  ∀ p ∈ secretPatterns, ∀ s e, ¬ MatchAt p.matcher text s e

/-- Redacted text is clean, and redacting it again leaves it as it is. -/
structure Stable (x : List CodeUnit) : Prop where
  clean : FreeOfSecrets (redactOperationalText x)
  fixed : redactOperationalText (redactOperationalText x) = redactOperationalText x

/--
There is a position for which exactly 500 units are written before, and what is
left of the text before it ends like an address.
-/
def CutsAddress (x : List CodeUnit) : Prop :=
  ∃ s i, i ≤ x.length ∧ place x i = 500 ∧
    MatchAt (addressPattern.onMasks redactedMarker).matcher ((redactedHidden x).take i) s i

theorem redactOperationalText_fixed {text : List CodeUnit} (hlength : text.length ≤ 500)
    (hfree : FreeOfSecrets text) : redactOperationalText text = text := by
  have hfold : ∀ patterns : List (Pattern CodeUnit), (∀ p ∈ patterns, p ∈ secretPatterns) →
      patterns.foldl (fun safe p => p.replaceAll redactedMarker safe) text = text := by
    intro patterns hpatterns
    induction patterns with
    | nil => rfl
    | cons p patterns ih =>
        have hp := hpatterns p List.mem_cons_self
        have htakes : Takes 1 p.matcher := by
          have hmirrors := mirrored_secretPatterns hp (List.map_id redactedMarker)
          rw [comap_id] at hmirrors
          exact hmirrors.takes
        rw [List.foldl_cons, replaceAll_of_free htakes (hfree p hp)]
        exact ih fun q hq => hpatterns q (List.mem_cons_of_mem p hq)
  rw [redactOperationalText, hfold secretPatterns (fun _ hp => hp), List.take_of_length_le hlength]

section

variable {x : List CodeUnit}

/-- The cells of the text. -/
def textCells (x : List CodeUnit) : List (Cell CodeUnit) := blankedCells id redactedMarker x

theorem redactOperationalText_eq :
    redactOperationalText x = (render redactedMarker (textCells x)).take 500 := by
  rw [textCells, render_blankedCells (List.map_id _)]
  simp only [comap_id]
  rfl

theorem shows_textCells : (textCells x).map (Cell.shows id) = redactedHidden x := by
  have h := shows_blankedCells x (List.map_id redactedMarker)
  rwa [List.map_id] at h

theorem solid_textCells : Solid false (textCells x) :=
  solid_blankedCells (List.map_id redactedMarker)

theorem length_render_textCells {i : Nat} (hi : i ≤ x.length) :
    (render redactedMarker ((textCells x).take i)).length = place x i := by
  have h := length_render_take (List.map_id redactedMarker) hi
  rwa [List.map_id] at h

theorem mirrors_text {p : Pattern CodeUnit} (hp : p ∈ secretPatterns) :
    Mirrors redactedMarker p.matcher ((p.comap id).onCells redactedMarker).matcher := by
  have h := mirrored_secretPatterns hp (List.map_id redactedMarker)
  rwa [comap_id] at h ⊢

theorem matchAt_onCells {p : Pattern CodeUnit} {cells : List (Cell CodeUnit)} {s e : Nat} :
    MatchAt ((p.comap id).onCells redactedMarker).matcher cells s e ↔
      MatchAt (p.onMasks redactedMarker).matcher (cells.map (Cell.shows id)) s e := by
  rw [onCells_eq_comap, matchAt_comap, List.map_id]

theorem clean_of_not_cut (h : ¬ CutsAddress x) : FreeOfSecrets (redactOperationalText x) := by
  obtain ⟨i, k, hrender, hle, hcut⟩ := take_render redactedMarker (textCells x) 500
  have hshows := shows_textCells (x := x)
  have hlength : (textCells x).length = x.length := by
    have h := congrArg List.length hshows
    simpa using h
  -- the masked text that the cut cells show
  have hcutAt : CutAt (redactedHidden x)
      (((textCells x).take i ++ (redactedMarker.take k).map Cell.kept).map (Cell.shows id))
        i k := by
    refine ⟨?_, by rw [← hshows, List.length_map]; exact hle, ?_⟩
    · rw [List.map_append, List.map_map, ← hshows, List.map_take]
      rfl
    · rcases hcut with ⟨hk, _⟩ | hmarked
      · exact Or.inl hk
      · right
        rw [← hshows, List.getElem?_map, hmarked]
        rfl
  have hsolid : Solid false ((textCells x).take i ++ (redactedMarker.take k).map Cell.kept) :=
    solid_append_kept (solid_textCells.take i) _
  intro p hp
  rw [redactOperationalText_eq, hrender]
  apply (mirrors_text hp).free_render hsolid
  intro s e hmatch
  rw [matchAt_onCells] at hmatch
  simp only [secretPatterns, List.mem_cons, List.not_mem_nil, or_false] at hp
  rcases hp with rfl | rfl | rfl
  · obtain ⟨t, ht⟩ := hcutAt.bearer hmatch
    exact bearer_free ht
  · obtain ⟨t, ht⟩ := hcutAt.assignment hmatch
    exact assignment_free ht
  · rcases hcutAt.address hmatch with ⟨t, ht⟩ | ⟨hkept, rfl, rfl⟩
    · exact address_free ht
    · rw [hcutAt.text, List.take_zero, List.map_nil, List.append_nil] at hmatch
      rcases hcut with ⟨_, hend | hfull⟩ | hmarked
      · rw [List.take_of_length_le (by rw [length_hide, hend, hlength])] at hmatch
        exact address_free hmatch
      · have hle' : e ≤ x.length := by omega
        exact h ⟨s, e, hle', (length_render_textCells hle').symm.trans hfull, hmatch⟩
      · apply hkept
        rw [← hshows, List.getElem?_map, hmarked]
        rfl

theorem stable_iff (x : List CodeUnit) : Stable x ↔ ¬ CutsAddress x := by
  constructor
  · rintro h ⟨s, i, hle, hplace, hmatch⟩
    have hlength := length_render_textCells hle
    rw [hplace] at hlength
    have hcut : redactOperationalText x = render redactedMarker ((textCells x).take i) := by
      have hsplit : render redactedMarker (textCells x) =
          render redactedMarker ((textCells x).take i) ++
            render redactedMarker ((textCells x).drop i) := by
        rw [← render_append, List.take_append_drop]
      rw [redactOperationalText_eq, hsplit, List.take_left' hlength]
    rw [← shows_textCells, ← List.map_take, ← matchAt_onCells] at hmatch
    obtain ⟨s', e', hmatch'⟩ :=
      (mirrors_text (by simp [secretPatterns])).match_render (solid_textCells.take i) hmatch
    rw [← hcut] at hmatch'
    exact h.clean addressPattern (by simp [secretPatterns]) s' e' hmatch'
  · intro h
    have hclean := clean_of_not_cut h
    refine ⟨hclean, redactOperationalText_fixed ?_ hclean⟩
    rw [redactOperationalText, List.length_take]
    exact Nat.min_le_left _ _

end

/-- The cut takes the digit from `a@b.co1`, and what is left is an address. -/
theorem not_stable :
    ¬ Stable (codeUnits (List.replicate 494 ' ' ++ ['a', '@', 'b', '.', 'c', 'o', '1'])) := by
  intro h
  exact absurd h.fixed (by decide +kernel)

end DurableRuntime.ControlPlane
