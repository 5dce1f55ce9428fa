import DurableRuntime.ControlPlane.BrokenAddresses

/-!
# Which secrets redaction covers

A run of redaction on units that carry the position they come from shows which
positions of the text survive.  A position that lies in a match of a pattern
survives where a bearer match has taken the keyword of an assignment and left
its value, or has taken a part of an address.
-/

namespace DurableRuntime.ControlPlane

open Foundation

/-! ## Redaction with the origin of each unit -/

/-- A unit and the position it comes from; the units of a marker come from nowhere. -/
structure SourceUnit where
  unit : CodeUnit
  origin : Option Nat
  deriving DecidableEq, Repr

def sourced (x : List CodeUnit) : List SourceUnit := x.mapIdx fun i u => ⟨u, some i⟩

def sourcedMarker : List SourceUnit := redactedMarker.map fun u => ⟨u, none⟩

/-- `redactOperationalText`, on units with their origin. -/
def redactSourced (x : List CodeUnit) : List SourceUnit :=
  (secretPatterns.foldl
      (fun safe pattern => (pattern.comap SourceUnit.unit).replaceAll sourcedMarker safe)
      (sourced x)).take 500

section

variable {x : List CodeUnit}

theorem sourced_unit : (sourced x).map SourceUnit.unit = x := by
  apply List.ext_getElem?
  intro i
  simp only [sourced, List.getElem?_map, List.getElem?_mapIdx, Option.map_map]
  exact congrFun Option.map_id x[i]?

theorem sourcedMarker_unit : sourcedMarker.map SourceUnit.unit = redactedMarker := by
  rw [sourcedMarker, List.map_map]
  exact List.map_id _

theorem foldl_sourced (patterns : List (Pattern CodeUnit)) (text : List SourceUnit) :
    (patterns.foldl
        (fun safe pattern => (pattern.comap SourceUnit.unit).replaceAll sourcedMarker safe)
        text).map SourceUnit.unit =
      patterns.foldl (fun safe pattern => pattern.replaceAll redactedMarker safe)
        (text.map SourceUnit.unit) := by
  induction patterns generalizing text with
  | nil => rfl
  | cons p patterns ih =>
      simp only [List.foldl_cons]
      rw [ih, Pattern.replaceAll_comap, sourcedMarker_unit]

/-- Without the origins it is the redacted text. -/
theorem redactSourced_unit : (redactSourced x).map SourceUnit.unit = redactOperationalText x := by
  rw [redactSourced, List.map_take, foldl_sourced, sourced_unit]
  rfl

end

/-! ## Units in what cells stand for -/

section

variable {τ : Type} {marker : List τ}

/-- What is cut from the text of cells comes from a marker or from a cell in front of the cut. -/
theorem mem_take_render {cells : List (Cell τ)} {n : Nat} {a : τ}
    (h : a ∈ (render marker cells).take n) :
    a ∈ marker ∨ ∃ i, cells[i]? = some (.kept a) ∧ (render marker (cells.take i)).length < n := by
  induction cells generalizing n with
  | nil => simp at h
  | cons c cells ih =>
      have hnext : ∀ m, a ∈ (render marker cells).take m →
          (c.spelled marker).length + m ≤ n → a ∈ marker ∨
          ∃ i, (c :: cells)[i]? = some (.kept a) ∧
            (render marker ((c :: cells).take i)).length < n := by
        intro m hmem hle
        rcases ih hmem with hmarker | ⟨i, hi, hlength⟩
        · exact Or.inl hmarker
        · refine Or.inr ⟨i + 1, hi, ?_⟩
          have hsplit : render marker ((c :: cells).take (i + 1)) =
              c.spelled marker ++ render marker (cells.take i) := rfl
          rw [hsplit, List.length_append]
          omega
      have hrender : render marker (c :: cells) = c.spelled marker ++ render marker cells := rfl
      rw [hrender, List.take_append, List.mem_append] at h
      rcases h with hhere | hrest
      · cases c with
        | kept b =>
            have hpos : 0 < n := by
              rcases Nat.eq_zero_or_pos n with rfl | hpos
              · simp at hhere
              · exact hpos
            have heq : a = b := by simpa [Cell.spelled] using List.mem_of_mem_take hhere
            subst heq
            exact Or.inr ⟨0, rfl, hpos⟩
        | marked => exact Or.inl (List.mem_of_mem_take hhere)
        | hidden => simp [Cell.spelled] at hhere
      · rcases Nat.lt_or_ge n (c.spelled marker).length with hlt | hge
        · rw [Nat.sub_eq_zero_of_le (Nat.le_of_lt hlt)] at hrest
          simp at hrest
        · exact hnext _ hrest (by omega)

theorem mem_take_render_of_kept {cells : List (Cell τ)} {n i : Nat} {a : τ}
    (hi : cells[i]? = some (.kept a)) (hlt : (render marker (cells.take i)).length < n) :
    a ∈ (render marker cells).take n := by
  have hsplit : render marker cells =
      render marker (cells.take i) ++ a :: render marker (cells.drop (i + 1)) := by
    have hcells := List.take_append_drop i cells
    rw [drop_of_getElem? hi] at hcells
    have hrender := congrArg (render marker) hcells
    rw [render_append, render_kept] at hrender
    exact hrender.symm
  rw [hsplit, List.take_append, List.mem_append]
  right
  obtain ⟨k, hk⟩ : ∃ k, n - (render marker (cells.take i)).length = k + 1 :=
    ⟨n - (render marker (cells.take i)).length - 1, by omega⟩
  rw [hk, List.take_succ_cons]
  exact List.mem_cons_self

end

theorem origins_ordered {cells : List (Cell SourceUnit)} {k : Nat}
    (h : ∀ i a, cells[i]? = some (.kept a) → a.origin = some (k + i)) :
    ((render sourcedMarker cells).filterMap SourceUnit.origin).Pairwise (· < ·) ∧
      ∀ j ∈ (render sourcedMarker cells).filterMap SourceUnit.origin, k ≤ j := by
  induction cells generalizing k with
  | nil => simp
  | cons c cells ih =>
      have hnext : ∀ i a, cells[i]? = some (.kept a) → a.origin = some (k + 1 + i) := by
        intro i a hi
        have horigin := h (i + 1) a hi
        rwa [show k + (i + 1) = k + 1 + i by omega] at horigin
      obtain ⟨hordered, hbound⟩ := ih hnext
      cases c with
      | kept a =>
          have horigin := h 0 a rfl
          rw [render_kept, List.filterMap_cons, horigin]
          constructor
          · refine List.pairwise_cons.mpr ⟨?_, hordered⟩
            intro j hj
            have := hbound j hj
            omega
          · intro j hj
            rcases List.mem_cons.mp hj with rfl | hj
            · omega
            · have := hbound j hj
              omega
      | marked =>
          have hmarker : sourcedMarker.filterMap SourceUnit.origin = [] := by decide
          rw [render_marked, List.filterMap_append, hmarker, List.nil_append]
          exact ⟨hordered, fun j hj => by have := hbound j hj; omega⟩
      | hidden =>
          rw [render_hidden]
          exact ⟨hordered, fun j hj => by have := hbound j hj; omega⟩

/-! ## What survives -/

section

variable (x : List CodeUnit)

/-- The position lies in a match of a pattern that is applied to the text itself. -/
def SecretAt (i : Nat) : Prop := ∃ p ∈ secretPatterns, TakenBy p.matcher x i

/--
Redaction covers the secrets of the text: what comes out is made of markers and
of units of the text that lie in no match of any pattern, in their order.
-/
structure Covers : Prop where
  text : (redactSourced x).map SourceUnit.unit = redactOperationalText x
  source : ∀ a ∈ redactSourced x, a ∈ sourcedMarker ∨
    ∃ i, a.origin = some i ∧ x[i]? = some a.unit ∧ ¬ SecretAt x i
  order : ((redactSourced x).filterMap SourceUnit.origin).Pairwise (· < ·)

/-- Less than 500 units are written for the positions before. -/
def Shown (i : Nat) : Prop := place x i < 500

variable {x} {i : Nat}

theorem place_mono {j : Nat} (hle : i ≤ j) : place x i ≤ place x j := by
  obtain ⟨k, rfl⟩ := Nat.exists_eq_add_of_le hle
  simp [place, List.range_add]

theorem Shown.mono {j : Nat} (h : Shown x j) (hle : i ≤ j) : Shown x i :=
  Nat.lt_of_le_of_lt (place_mono hle) h

theorem redactSourced_eq : redactSourced x =
    (render sourcedMarker (blankedCells SourceUnit.unit sourcedMarker (sourced x))).take 500 := by
  rw [render_blankedCells sourcedMarker_unit]
  rfl

theorem sourcedCell {u : CodeUnit} (hu : x[i]? = some u) :
    ∃ c, (blankedCells SourceUnit.unit sourcedMarker (sourced x))[i]? = some c ∧
      LeftAs x i ⟨u, some i⟩ c := by
  have hsourced : (sourced x)[i]? = some ⟨u, some i⟩ := by simp [sourced, hu]
  have h := blankedCells_leftAs sourcedMarker_unit hsourced
  rwa [sourced_unit] at h

theorem length_render_sourced (hi : i ≤ x.length) :
    (render sourcedMarker
        ((blankedCells SourceUnit.unit sourcedMarker (sourced x)).take i)).length = place x i := by
  have hle : i ≤ (sourced x).length := by simpa [sourced]
  have h := length_render_take sourcedMarker_unit hle
  rwa [sourced_unit] at h

theorem keptCell {a : SourceUnit}
    (h : (blankedCells SourceUnit.unit sourcedMarker (sourced x))[i]? = some (.kept a)) :
    i < x.length ∧ a.origin = some i ∧ x[i]? = some a.unit ∧ ¬ Redacted x i := by
  have hshows := shows_blankedCells (sourced x) sourcedMarker_unit
  rw [sourced_unit] at hshows
  have hlt : i < x.length := by
    have hlength := congrArg List.length hshows
    rw [List.length_map, length_hide] at hlength
    rw [← hlength]
    exact (List.getElem?_eq_some_iff.mp h).1
  obtain ⟨c, hc, hleft⟩ := sourcedCell (List.getElem?_eq_getElem hlt)
  rw [h] at hc
  cases hc
  rcases hleft with ⟨hnot, heq⟩ | ⟨_, _, heq⟩ | ⟨_, _, heq⟩
  · cases heq
    exact ⟨hlt, rfl, List.getElem?_eq_getElem hlt, hnot⟩
  · cases heq
  · cases heq

/-- Redaction covers a text if it takes all positions in matches that come before the cut. -/
theorem covers_iff_redacted : Covers x ↔ ∀ i, Shown x i → SecretAt x i → Redacted x i := by
  constructor
  · intro h i hshown hsecret
    by_contra hnot
    have hlt : i < x.length := by
      obtain ⟨p, _, s, e, hspan, _, hlt⟩ := hsecret
      exact Nat.lt_of_lt_of_le hlt hspan.2.2.1
    obtain ⟨c, hc, hleft⟩ := sourcedCell (List.getElem?_eq_getElem hlt)
    rcases hleft with ⟨_, rfl⟩ | ⟨hredacted, _⟩ | ⟨hredacted, _⟩
    · have hbefore := hshown
      unfold Shown at hbefore
      rw [← length_render_sourced (Nat.le_of_lt hlt)] at hbefore
      have hmem := mem_take_render_of_kept hc hbefore
      rw [← redactSourced_eq] at hmem
      rcases h.source _ hmem with hmarker | ⟨j, horigin, _, hnot'⟩
      · obtain ⟨u, _, hu⟩ := List.mem_map.mp hmarker
        cases hu
      · cases horigin
        exact hnot' hsecret
    · exact hnot hredacted
    · exact hnot hredacted
  · intro h
    refine ⟨redactSourced_unit, ?_, ?_⟩
    · intro a ha
      rw [redactSourced_eq] at ha
      rcases mem_take_render ha with hmarker | ⟨i, hi, hlength⟩
      · exact Or.inl hmarker
      · obtain ⟨hlt, horigin, hunit, hnot⟩ := keptCell hi
        rw [length_render_sourced (Nat.le_of_lt hlt)] at hlength
        exact Or.inr ⟨i, horigin, hunit, fun hsecret => hnot (h i hlength hsecret)⟩
    · rw [redactSourced_eq]
      have hordered := (origins_ordered (k := 0) fun i a hi => by
        rw [Nat.zero_add]
        exact (keptCell (x := x) hi).2.1).1
      exact hordered.sublist ((List.take_sublist 500 _).filterMap _)

theorem SecretAt.lt (h : SecretAt x i) : i < x.length := by
  obtain ⟨p, _, s, e, hspan, _, hlt⟩ := h
  exact Nat.lt_of_lt_of_le hlt hspan.2.2.1

theorem secretAt_iff : SecretAt x i ↔ TakenBy bearerPattern.matcher x i ∨
    TakenBy assignmentPattern.matcher x i ∨ TakenBy addressPattern.matcher x i := by
  simp [SecretAt, secretPatterns]

end

/-! ## Addresses that remain -/

section

variable {x : List CodeUnit} {s t e i : Nat}

theorem length_secretsHidden : (secretsHidden x).length = x.length := length_hide

/--
An address of the text of which each position in front of the cut remains, unless
it is taken before: the scan for what remains comes to its start.
-/
theorem visited_remaining (h : ∀ s t i, SpanOf addressPattern.matcher x s t → s ≤ i → i < t →
      Shown x i → ¬ Covered x i → ∃ t', i < t' ∧ Remaining x s t')
    (hspan : SpanOf addressPattern.matcher x s t) (hnot : ¬ Covered x s) (hshown : Shown x s) :
    Visited (Remaining x) (secretsHidden x).length s := by
  have hR := matches_matchAt addressPattern.matcher x
  have hR' := matches_matchAt (addressPattern.onMasks redactedMarker).matcher (secretsHidden x)
  induction s using Nat.strongRecOn generalizing t with
  | _ s ih =>
      have hle : s ≤ (secretsHidden x).length := by
        have := hspan.2.1
        have := hspan.2.2.1
        rw [length_secretsHidden]
        omega
      rcases visited_or_inside hR' hle with hvisited | ⟨s', e', hspan', hs', he'⟩
      · exact hvisited
      exfalso
      obtain ⟨t', ht', hmatch⟩ := Remaining.matchAt hspan'.2
      obtain ⟨s'', t'', hspan'', hs'', ht''⟩ := taken_of_match hR hmatch
      have hbefore : t'' ≤ s := by
        rcases hspan''.disjoint hR hspan with heq | hle' | hle'
        · omega
        · exact hle'
        · have := hspan.2.1
          omega
      have hnot' := Remaining.not_covered hspan'.2 (Nat.le_refl s') hspan'.2.1
      obtain ⟨e'', he'', hremains⟩ :=
        h s'' t'' s' hspan'' hs'' ht'' (hshown.mono (by omega)) hnot'
      rcases Nat.eq_or_lt_of_le hs'' with rfl | hlt
      · have hend := hR.unique hspan''.2 hmatch
        omega
      · have hnot'' := hremains.not_covered (Nat.le_refl s'') (by omega)
        have hvisited := ih s'' (by omega) hspan'' hnot'' (hshown.mono (by omega))
        have hinside := Span.visited hR' ⟨hvisited, hremains⟩ hspan'.1
        omega

/-- Where no secret survives, what remains of the addresses are addresses of the text. -/
theorem visited_text (h : ∀ i, Shown x i → SecretAt x i → Redacted x i)
    (hspan : SpanOf (addressPattern.onMasks redactedMarker).matcher (secretsHidden x) s e)
    (hshown : Shown x s) : Visited (MatchAt addressPattern.matcher x) x.length s := by
  have hR := matches_matchAt addressPattern.matcher x
  have hR' := matches_matchAt (addressPattern.onMasks redactedMarker).matcher (secretsHidden x)
  induction s using Nat.strongRecOn generalizing e with
  | _ s ih =>
      have hle : s ≤ x.length := by
        have hlt := hspan.2.1
        have hend := hspan.2.2.1
        rw [length_secretsHidden] at hend
        omega
      rcases visited_or_inside hR hle with hvisited | ⟨s', t', hspan', hs', ht'⟩
      · exact hvisited
      exfalso
      have hsecret : ∀ j, s' ≤ j → j < t' → SecretAt x j := fun j hj hj' =>
        secretAt_iff.mpr (Or.inr (Or.inr ⟨s', t', hspan', hj, hj'⟩))
      have hnot := Remaining.not_covered hspan.2 (Nat.le_refl s) hspan.2.1
      rcases h s' (hshown.mono (by omega)) (hsecret s' (Nat.le_refl s') (by omega)) with
        hcovered | ⟨s₁, e₁, hspan₁, hs₁, he₁⟩
      · -- what is taken ends inside the address and leaves a unit standing
        obtain ⟨c, hc, hc', hbefore, hnotc⟩ := exists_end hs' hcovered hnot
        rcases h c (hshown.mono hc') (hsecret c (by omega) (by omega)) with
          hcovered' | ⟨s₁, e₁, hspan₁, hs₁, he₁⟩
        · exact hnotc hcovered'
        · have hstart : s₁ = c := by
            by_contra hne
            exact Remaining.not_covered hspan₁.2 (i := c - 1) (by omega) (by omega) hbefore
          subst hstart
          exact not_remaining_behind hspan'.2 hc (by omega) hbefore hnotc hspan₁.2
      · have hbefore : e₁ ≤ s := by
          rcases hspan₁.disjoint hR' hspan with heq | hle' | hle'
          · omega
          · exact hle'
          · have := hspan.2.1
            omega
        rcases Nat.eq_or_lt_of_le hs₁ with rfl | hlt
        · exact not_two_remaining hspan'.2 hspan₁.2 hbefore ht' hspan.2
        · have hvisited := ih s₁ (by omega) hspan₁ (hshown.mono (by omega))
          obtain ⟨t₁, ht₁, hmatch⟩ := Remaining.matchAt hspan₁.2
          have hunique := Span.unique hR ⟨hvisited, hmatch⟩ hspan' (i := s') hs₁ (by omega)
            (Nat.le_refl s') (by omega)
          omega

/-- What remains of the addresses lies in the addresses of the text. -/
theorem remaining_in_text (h : ∀ i, Shown x i → SecretAt x i → Redacted x i)
    (hremaining : RemainingIn x i) (hshown : Shown x i) :
    ∃ s t e, SpanOf addressPattern.matcher x s t ∧ Remaining x s e ∧ s ≤ i ∧ i < e ∧ i < t := by
  obtain ⟨s, e, hspan, hs, he⟩ := hremaining
  have hvisited := visited_text h hspan (hshown.mono hs)
  obtain ⟨t, ht, hmatch⟩ := Remaining.matchAt hspan.2
  exact ⟨s, t, e, ⟨hvisited, hmatch⟩, hspan.2, hs, he, by omega⟩

end

/-! ## When redaction covers a text -/

/--
What the matches of the patterns on one text may do to each other in front of
the cut: an assignment is taken as a whole by the first two patterns and the
addresses of the text, no bearer match ends inside an address, and where a
bearer match or an assignment begins inside one, the part before is an address.
-/
structure SecretsApart (x : List CodeUnit) : Prop where
  assignments : ∀ i, Shown x i → TakenBy assignmentPattern.matcher x i →
    Covered x i ∨ TakenBy addressPattern.matcher x i
  ends : ∀ s t p q, SpanOf addressPattern.matcher x s t → SpanOf bearerPattern.matcher x p q →
    s < q → q < t → Shown x q → WidenedIn x q
  begins : ∀ s t c i, SpanOf addressPattern.matcher x s t → s ≤ i → i < c → c < t →
    (∀ j, s ≤ j → j < c → ¬ Covered x j) → Covered x c → Shown x i →
    ∃ t', i < t' ∧ Remaining x s t'

section

variable {x : List CodeUnit}

/-- Of an address of the text, each position in front of the cut remains or is taken before. -/
theorem SecretsApart.remains (h : SecretsApart x) {s t i : Nat}
    (hspan : SpanOf addressPattern.matcher x s t) (hs : s ≤ i) (ht : i < t) (hshown : Shown x i)
    (hnot : ¬ Covered x i) : ∃ t', i < t' ∧ Remaining x s t' := by
  have hfront : ∀ j, s ≤ j → j ≤ i → ¬ Covered x j := by
    intro j hj hj' hcovered
    have hlt : j < i := by
      rcases Nat.eq_or_lt_of_le hj' with rfl | hlt
      · exact absurd hcovered hnot
      · exact hlt
    obtain ⟨c, hc, hc', hbefore, hnotc⟩ := exists_end hlt hcovered hnot
    obtain ⟨p, hbearer⟩ :=
      bearer_ends_inside hspan.2 (by omega) (by omega) (by omega) hbefore hnotc
    exact hnotc (Or.inr (h.ends s t p c hspan hbearer (by omega) (by omega) (hshown.mono hc')))
  by_cases hbehind : ∃ j, i < j ∧ j < t ∧ Covered x j
  · obtain ⟨j, hj, hj', hcovered⟩ := hbehind
    -- the first position taken behind `i`
    have hfirst : ∃ c, i < c ∧ c < t ∧ Covered x c ∧ ∀ k, i ≤ k → k < c → ¬ Covered x k := by
      classical
      have hex : ∃ c, i < c ∧ Covered x c := ⟨j, hj, hcovered⟩
      refine ⟨Nat.find hex, (Nat.find_spec hex).1, ?_, (Nat.find_spec hex).2, ?_⟩
      · exact Nat.lt_of_le_of_lt (Nat.find_min' hex ⟨hj, hcovered⟩) hj'
      · intro k hk hk' hcoveredk
        rcases Nat.eq_or_lt_of_le hk with rfl | hlt
        · exact hnot hcoveredk
        · exact Nat.find_min hex hk' ⟨hlt, hcoveredk⟩
    obtain ⟨c, hc, hc', hcoveredc, hgap⟩ := hfirst
    apply h.begins s t c i hspan hs hc hc' _ hcoveredc hshown
    intro k hk hk'
    rcases Nat.lt_or_ge k i with hlt | hge
    · exact hfront k hk (Nat.le_of_lt hlt)
    · exact hgap k hge hk'
  · have hall : ∀ j, s ≤ j → j < t → ¬ Covered x j := by
      intro j hj hj' hcovered
      rcases Nat.lt_or_ge i j with hlt | hge
      · exact hbehind ⟨j, hlt, hj', hcovered⟩
      · exact hfront j hj hge hcovered
    obtain ⟨_, d, c, hshape⟩ := matchAt_address_shape.mp hspan.2
    have hboundary := boundary_remains hspan (hall s (Nat.le_refl s) hspan.2.1)
    obtain ⟨e, he, hremaining⟩ := hshape.remains hboundary hall
    exact ⟨e, by omega, hremaining⟩

theorem redacted_of_apart (h : SecretsApart x) {i : Nat} (hshown : Shown x i)
    (hsecret : SecretAt x i) : Redacted x i := by
  have haddress : TakenBy addressPattern.matcher x i → Redacted x i := by
    rintro ⟨s, t, hspan, hs, ht⟩
    by_cases hcovered : Covered x i
    · exact Or.inl hcovered
    · obtain ⟨t', ht', hremaining⟩ := h.remains hspan hs ht hshown hcovered
      have hnot := hremaining.not_covered (Nat.le_refl s) (by omega)
      have hvisited := visited_remaining
        (fun s t i hspan hs ht hshown hnot => h.remains hspan hs ht hshown hnot)
        hspan hnot (hshown.mono hs)
      exact Or.inr ⟨s, t', ⟨hvisited, hremaining⟩, hs, ht'⟩
  rcases secretAt_iff.mp hsecret with hbearer | hassignment | htaken
  · exact Or.inl (Or.inl hbearer)
  · rcases h.assignments i hshown hassignment with hcovered | htaken
    · exact Or.inl hcovered
    · exact haddress htaken
  · exact haddress htaken

theorem apart_of_redacted (h : ∀ i, Shown x i → SecretAt x i → Redacted x i) : SecretsApart x := by
  have hremains : ∀ s t i, SpanOf addressPattern.matcher x s t → s ≤ i → i < t → Shown x i →
      ¬ Covered x i → ∃ t', i < t' ∧ Remaining x s t' := by
    intro s t i hspan hs ht hshown hnot
    have hsecret : SecretAt x i := secretAt_iff.mpr (Or.inr (Or.inr ⟨s, t, hspan, hs, ht⟩))
    rcases h i hshown hsecret with hcovered | hremaining
    · exact absurd hcovered hnot
    · obtain ⟨s', t', e, hspan', hremaining, hs', he, ht'⟩ := remaining_in_text h hremaining hshown
      have hsame := Span.unique (matches_matchAt _ _) hspan' hspan hs' ht' hs ht
      rw [hsame.1] at hremaining
      exact ⟨e, he, hremaining⟩
  constructor
  · intro i hshown hassignment
    rcases h i hshown (secretAt_iff.mpr (Or.inr (Or.inl hassignment))) with hcovered | hremaining
    · exact Or.inl hcovered
    · obtain ⟨s, t, e, hspan, _, hs, _, ht⟩ := remaining_in_text h hremaining hshown
      exact Or.inr ⟨s, t, hspan, hs, ht⟩
  · intro s t p q hspan hbearer hs ht hshown
    by_contra hwidened
    have hbefore : Covered x (q - 1) := by
      have hlt := hbearer.2.1
      exact Or.inl ⟨p, q, hbearer, by omega, by omega⟩
    by_cases hcovered : Covered x q
    · rcases hcovered with ⟨p', q', hspan', hp', hq'⟩ | hcovered
      · -- another bearer match would start with a word
        have hstart : p' = q := by
          have := hbearer.2.1
          rcases hspan'.disjoint (matches_matchAt _ _) hbearer with heq | hle | hle
          · omega
          · omega
          · omega
        subst hstart
        obtain ⟨w, t', hshape⟩ := span_bearer_shape hspan'
        exact not_word_behind hspan.2 hs ht hbearer hshape.word
      · exact hwidened hcovered
    · obtain ⟨t', ht', hremaining⟩ := hremains s t q hspan (Nat.le_of_lt hs) ht hshown hcovered
      exact hremaining.not_covered (by omega) (by omega) hbefore
  · intro s t c i hspan hs hc ht hgap _ hshown
    exact hremains s t i hspan hs (by omega) hshown (hgap i hs hc)

/-- Redaction covers the secrets of a text if and only if its matches keep apart. -/
theorem covers_iff (x : List CodeUnit) : Covers x ↔ SecretsApart x := by
  rw [covers_iff_redacted]
  exact ⟨apart_of_redacted, fun h i hshown hsecret => redacted_of_apart h hshown hsecret⟩

end

/-- What is blanked in the text itself lies in a match of the pattern. -/
theorem taken_of_blanked {p : Pattern CodeUnit} (hp : 1 ≤ p.least) {x : List CodeUnit} {i : Nat}
    (h : (blankOut (p.onCells redactedMarker).matcher (x.map Cell.kept))[i]? = some .hidden) :
    TakenBy p.matcher x i := by
  have hlt : i < x.length := by
    have hlength := (List.getElem?_eq_some_iff.mp h).1
    rwa [length_blankOut, List.length_map] at hlength
  have hkept : (x.map Cell.kept)[i]? = some (.kept x[i]) := by
    rw [List.getElem?_map, List.getElem?_eq_getElem hlt]
    rfl
  obtain ⟨c, hc, hblanked⟩ := blankOut_shows id redactedMarker p hp (shows_text id x) hkept
  rw [comap_id, h] at hc
  cases hc
  rw [List.map_id, List.map_id] at hblanked
  rcases hblanked with ⟨hkeep, _⟩ | ⟨hmark, _⟩ | ⟨_, s, e, hspan, hs, he⟩
  · cases hkeep
  · cases hmark
  · exact ⟨s, e, (span_unmasked p).mp hspan, Nat.le_of_lt hs, he⟩

/--
The bearer token of `Bearer token=secret` is `token`, and what it leaves of the
assignment `token=secret` is the secret.
-/
theorem not_covers :
    ¬ Covers (codeUnits ['B', 'e', 'a', 'r', 'e', 'r', ' ', 't', 'o', 'k', 'e', 'n',
      '=', 's', 'e', 'c', 'r', 'e', 't']) := by
  intro h
  have hsurvives : (⟨115, some 13⟩ : SourceUnit) ∈
      redactSourced (codeUnits ['B', 'e', 'a', 'r', 'e', 'r', ' ', 't', 'o', 'k', 'e', 'n',
        '=', 's', 'e', 'c', 'r', 'e', 't']) := by
    decide +kernel
  have hsecret : TakenBy assignmentPattern.matcher (codeUnits ['B', 'e', 'a', 'r', 'e', 'r', ' ',
      't', 'o', 'k', 'e', 'n', '=', 's', 'e', 'c', 'r', 'e', 't']) 13 :=
    taken_of_blanked (by decide) (by decide +kernel)
  rcases h.source _ hsurvives with hmarker | ⟨i, horigin, _, hnot⟩
  · obtain ⟨u, _, hu⟩ := List.mem_map.mp hmarker
    cases hu
  · cases horigin
    exact hnot (secretAt_iff.mpr (Or.inr (Or.inl hsecret)))

end DurableRuntime.ControlPlane
