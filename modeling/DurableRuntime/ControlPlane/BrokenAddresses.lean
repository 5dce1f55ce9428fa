import DurableRuntime.ControlPlane.RedactedSteps

/-!
# Addresses that the first two patterns break

What the first two patterns take can begin or end inside an address of the
text.  An assignment does not end there, because all units of an address are
value units.  A bearer match that ends there leaves a unit at which no address
starts.
-/

namespace DurableRuntime.ControlPlane

open Foundation

/-! ## Units of an address -/

def addressUnit (u : CodeUnit) : Bool := localUnit u || literal '@' u || domainUnit u

section

variable {u : CodeUnit}

theorem addressUnit_iff : addressUnit u = true ↔
    localUnit u = true ∨ literal '@' u = true ∨ domainUnit u = true := by
  simp [addressUnit, or_assoc]

theorem address_value (h : addressUnit u = true) : valueUnit u = true := by
  rcases addressUnit_iff.mp h with hlocal | hsign | hdomain
  · exact local_value hlocal
  · exact within_value (by decide) hsign
  · exact within_value (by decide) hdomain

/-- A class apart from the three classes of an address is apart from its units. -/
theorem not_address (hlocal : localUnit u = false) (hsign : literal '@' u = false)
    (hdomain : domainUnit u = false) : addressUnit u = false := by
  simp [addressUnit, hlocal, hsign, hdomain]

theorem space_not_address (h : spaceUnit u = true) : addressUnit u = false :=
  not_address (within_apart (by decide) h) (within_apart (by decide) h)
    (within_apart (by decide) h)

theorem equals_not_address (h : literal '=' u = true) : addressUnit u = false :=
  not_address (within_apart (by decide) h) (within_apart (by decide) h)
    (within_apart (by decide) h)

theorem word_local (h : wordUnit u = true) : localUnit u = true := within_mono (by decide) h

theorem at_not_token (h : literal '@' u = true) : tokenUnit u = false := within_apart (by decide) h

theorem at_not_domain (h : literal '@' u = true) : domainUnit u = false :=
  within_apart (by decide) h

theorem AddressShape.units {H : MaskedText} {s d c e j : Nat} (h : AddressShape H s d c e)
    (hle : s ≤ j) (hlt : j < e) : Reads H addressUnit j := by
  rcases Nat.lt_trichotomy j d with hlocal | rfl | hsign
  · exact (h.localPart.reads j hle hlocal).mono fun u hu => by simp [addressUnit, hu]
  · exact h.sign.mono fun u hu => by simp [addressUnit, hu]
  · exact (h.domain hsign hlt).mono fun u hu => by simp [addressUnit, hu]

end

section

variable {x : List CodeUnit} {s t c e : Nat}

theorem matchAt_address_shape : MatchAt addressPattern.matcher x s t ↔
    Boundary (unmasked x) s ∧ ∃ d c, AddressShape (unmasked x) s d c t := by
  rw [← matchAt_unmasked, matchAt_address]

theorem span_bearer_shape (h : SpanOf bearerPattern.matcher x s e) :
    ∃ w t, BearerShape (unmasked x) s w t e :=
  (matchAt_bearer.mp ((matchAt_unmasked bearerPattern).mpr h.2)).2

theorem same_of_not_covered {j : Nat} (h : ¬ Covered x j) :
    (secretsHidden x)[j]? = (unmasked x)[j]? := by
  rw [hide_of_not_mem h, hide_of_not_mem (fun h => h)]

/-- An address that remains is one of the text, which may go on. -/
theorem Remaining.matchAt (h : Remaining x s e) :
    ∃ t, e ≤ t ∧ MatchAt addressPattern.matcher x s t := by
  obtain ⟨t, hle, hmatch⟩ := address_unmask (masks_secretsHidden.trans masks_bearerHidden)
    undivided_secretsHidden h
  exact ⟨t, hle, (matchAt_unmasked addressPattern).mp hmatch⟩

/-- What is taken before a position of an address that is not taken is a bearer match. -/
theorem bearer_ends_inside (haddress : MatchAt addressPattern.matcher x s t) (hle : s ≤ c)
    (hlt : c < t) (hpos : 0 < c) (hbefore : Covered x (c - 1)) (hnot : ¬ Covered x c) :
    ∃ p, SpanOf bearerPattern.matcher x p c := by
  rcases hbefore with ⟨p, q, hspan, hp, hq⟩ | ⟨a, e, hspan, ha, he⟩
  · refine ⟨p, ?_⟩
    by_cases hend : q = c
    · rwa [hend] at hspan
    · exact absurd (Or.inl ⟨p, q, hspan, by omega, by omega⟩) hnot
  · -- the value of an assignment would go on
    exfalso
    have hend : e = c := by
      by_contra hne
      exact hnot (Or.inr ⟨a, e, hspan, by omega, by omega⟩)
    subst hend
    obtain ⟨_, k, m, v, hshape⟩ := matchAt_assignment.mp hspan.2
    obtain ⟨_, d, c', haddress⟩ := matchAt_address_shape.mp haddress
    have hvalue := (haddress.units hle hlt).mono fun _ => address_value
    apply hshape.value.stops
    have hsame : (bearerHidden x)[e]? = (unmasked x)[e]? := by
      rw [hide_of_not_mem (fun h => hnot (Or.inl h)), hide_of_not_mem (fun h => h)]
    exact (reads_congr hsame).mpr hvalue

/-- A bearer match that ends inside an address ends with a token, before a unit of no word. -/
theorem not_word_behind {p : Nat} (haddress : MatchAt addressPattern.matcher x s t) (hlt : s < c)
    (hlt' : c < t) (hspan : SpanOf bearerPattern.matcher x p c) :
    ¬ Reads (unmasked x) wordUnit c := by
  obtain ⟨w, t', hbearer⟩ := span_bearer_shape hspan
  obtain ⟨_, d, c', hshape⟩ := matchAt_address_shape.mp haddress
  have hunits := hshape.units (j := c - 1) (by omega) (by omega)
  have hend : t' = c := by
    rcases Nat.eq_or_lt_of_le hbearer.equals.le with heq | hlt''
    · exact heq
    · have hequals := hbearer.equals.reads (c - 1) (by omega) (by omega)
      exact absurd hunits (hequals.apart fun _ => equals_not_address)
  subst hend
  exact fun hword => hbearer.token.stops (hword.mono fun _ => word_token)

/-- No address starts where a bearer match has ended inside one. -/
theorem not_remaining_behind (haddress : MatchAt addressPattern.matcher x s t) (hlt : s < c)
    (hlt' : c < t) (hbefore : Covered x (c - 1)) (hnot : ¬ Covered x c) : ¬ Remaining x c e := by
  intro hremaining
  obtain ⟨p, hspan⟩ :=
    bearer_ends_inside haddress (Nat.le_of_lt hlt) hlt' (by omega) hbefore hnot
  have hword := not_word_behind haddress hlt hlt' hspan
  obtain ⟨hboundary, _⟩ := matchAt_address.mp hremaining
  have hhere : ¬ Reads (secretsHidden x) wordUnit c := by
    rwa [reads_congr (same_of_not_covered hnot)]
  obtain ⟨_, hwordBefore⟩ := hboundary.mpr hhere
  exact not_hidden word_stops hwordBefore hbefore

/-- The first unit of the word that ends before a position. -/
theorem exists_wordStart {H : MaskedText} {i : Nat} (hi : 0 < i)
    (hword : Reads H wordUnit (i - 1)) :
    ∃ w, w < i ∧ Boundary H w ∧ ∀ j, w ≤ j → j < i → Reads H wordUnit j := by
  induction i with
  | zero => omega
  | succ i ih =>
      rw [Nat.add_sub_cancel] at hword
      by_cases hbefore : 0 < i ∧ Reads H wordUnit (i - 1)
      · obtain ⟨w, hw, hboundary, hall⟩ := ih hbefore.1 hbefore.2
        refine ⟨w, by omega, hboundary, ?_⟩
        intro j hj hj'
        rcases Nat.eq_or_lt_of_le (Nat.le_of_lt_succ hj') with rfl | hlt
        · exact hword
        · exact hall j hj hlt
      · refine ⟨i, by omega, ?_, ?_⟩
        · exact ⟨fun h => absurd h hbefore, fun h => absurd hword h⟩
        · intro j hj hj'
          have heq : j = i := by omega
          rwa [heq]

/-- A bearer match does not end where an address span of the text starts behind a word. -/
theorem not_bearer_before (hspan : SpanOf addressPattern.matcher x s t)
    (hpos : 0 < s) (hword : Reads (unmasked x) wordUnit (s - 1)) (p : Nat) :
    ¬ SpanOf bearerPattern.matcher x p s := by
  intro hbearer
  obtain ⟨w, t', hbearer⟩ := span_bearer_shape hbearer
  have hgap := hbearer.gap
  have hnonempty := hbearer.nonempty
  have hend : t' = s := by
    rcases Nat.eq_or_lt_of_le hbearer.equals.le with heq | hlt
    · exact heq
    · have hequals := hbearer.equals.reads (s - 1) (by omega) (by omega)
      exact absurd hword (hequals.apart fun _ => equals_not_word)
  subst hend
  obtain ⟨_, d, c, hshape⟩ := matchAt_address_shape.mp hspan.2
  obtain ⟨i, hi, hboundary, hall⟩ := exists_wordStart hpos hword
  -- an address matches from the start of the word on
  have hlong : MatchAt addressPattern.matcher x i t := by
    refine matchAt_address_shape.mpr ⟨hboundary, d, c, ?_, ?_, hshape.sign, hshape.first,
      hshape.last⟩
    · refine ⟨by have := hshape.nonempty; omega, ?_, hshape.localPart.stops⟩
      intro j hj hj'
      rcases Nat.lt_or_ge j t' with hlt | hge
      · exact (hall j hj hlt).mono fun _ => word_local
      · exact hshape.localPart.reads j hge hj'
    · have := hshape.nonempty
      omega
  have hR := matches_matchAt addressPattern.matcher x
  have hlt := hspan.2.1
  rcases visited_or_inside hR (i := i) (by have := hlong.2.1; have := hlong.1; omega) with
    hvisited | ⟨s₀, e₀, hspan₀, hs₀, he₀⟩
  · have hunique := Span.unique (i := t') hR ⟨hvisited, hlong⟩ hspan (by omega) (by omega)
      (Nat.le_refl t') hlt
    omega
  · -- the span that holds the start of the word ends with the word, before the bearer's token
    have hle : e₀ ≤ t' := by
      rcases hspan₀.disjoint hR hspan with heq | hle | hle
      · omega
      · exact hle
      · omega
    obtain ⟨_, d₀, c₀, hshape₀⟩ := matchAt_address_shape.mp hspan₀.2
    have horder₀ := hshape₀.order
    have heq : e₀ = t' := by
      by_contra hne
      exact hshape₀.last.top.ends (hall e₀ (by omega) (by omega))
    subst heq
    rcases Nat.lt_or_ge d₀ w with hlt₀ | hge₀
    · have hspace := hbearer.spaces.reads (w - 1) (by omega) (by omega)
      exact hspace.apart (fun _ => space_not_address) (hshape₀.units (by omega) (by omega))
    · have htoken := hbearer.token.reads d₀ hge₀ (by omega)
      exact hshape₀.sign.apart (fun _ => at_not_token) htoken

/-- The boundary before an address span stays where its first unit is not taken. -/
theorem boundary_remains (hspan : SpanOf addressPattern.matcher x s t) (hnot : ¬ Covered x s) :
    Boundary (secretsHidden x) s := by
  obtain ⟨hboundary, _⟩ := matchAt_address_shape.mp hspan.2
  have hmasks := (masks_secretsHidden (x := x)).trans masks_bearerHidden
  unfold Boundary at hboundary ⊢
  rw [reads_congr (same_of_not_covered hnot), ← hboundary]
  constructor
  · rintro ⟨hpos, hword⟩
    exact ⟨hpos, hmasks.reads word_stops hword⟩
  · rintro ⟨hpos, hword⟩
    refine ⟨hpos, ?_⟩
    by_cases hcovered : Covered x (s - 1)
    · obtain ⟨p, hbearer⟩ := bearer_ends_inside hspan.2 (Nat.le_refl s) hspan.2.1 hpos hcovered hnot
      exact absurd hbearer (not_bearer_before hspan hpos hword p)
    · exact (reads_congr (same_of_not_covered hcovered)).mpr hword

/-- Where no position of an address is taken, it remains. -/
theorem AddressShape.remains {d c' : Nat} (h : AddressShape (unmasked x) s d c' t)
    (hboundary : Boundary (secretsHidden x) s) (hnot : ∀ j, s ≤ j → j < t → ¬ Covered x j) :
    ∃ e, t ≤ e ∧ Remaining x s e := by
  have hends : ¬ Reads (secretsHidden x) wordUnit t := fun hword =>
    h.last.top.ends ((masks_secretsHidden.trans masks_bearerHidden).reads word_stops hword)
  obtain ⟨c'', e, hshape, hle⟩ := h.carry
    (fun j hle hlt => (same_of_not_covered (hnot j hle hlt)).symm) hends
  exact ⟨e, hle, matchAt_address.mpr ⟨hboundary, d, c'', hshape⟩⟩

/-- The least position from one on to another at which a property has ended. -/
theorem exists_end {P : Nat → Prop} {i j : Nat} (hle : i < j) (hi : P i) (hj : ¬ P j) :
    ∃ c, i < c ∧ c ≤ j ∧ P (c - 1) ∧ ¬ P c := by
  induction hdist : j - i generalizing i with
  | zero => omega
  | succ n ih =>
      by_cases hnext : P (i + 1)
      · have hlt : i + 1 < j := by
          rcases Nat.lt_or_ge (i + 1) j with h | h
          · exact h
          · have heq : i + 1 = j := by omega
            subst heq
            exact absurd hnext hj
        obtain ⟨c, hc, hrest⟩ := ih hlt hnext (by omega)
        exact ⟨c, by omega, hrest⟩
      · exact ⟨i + 1, by omega, by omega, hi, hnext⟩

/-- Of one address of the text no two remain. -/
theorem not_two_remaining {e' s' : Nat} (haddress : MatchAt addressPattern.matcher x s t)
    (hremaining : Remaining x s e) (hle : e ≤ s') (hlt : s' < t) : ¬ Remaining x s' e' := by
  intro hremaining'
  have hmasks := (masks_secretsHidden (x := x)).trans masks_bearerHidden
  obtain ⟨_, d, c, hshape⟩ := matchAt_address_shape.mp haddress
  obtain ⟨hboundary, d₁, c₁, hshape₁⟩ := matchAt_address.mp hremaining
  obtain ⟨_, d₂, c₂, hshape₂⟩ := matchAt_address.mp hremaining'
  have horder := hshape.order
  have horder₁ := hshape₁.order
  have horder₂ := hshape₂.order
  -- the at sign of the second one stands behind the address
  have hsign : d₁ = d := by
    have hrun : Run (unmasked x) localUnit s d₁ := by
      apply hshape₁.localPart.carry
      · exact fun j hj hj' => hmasks.same_of_reads plain_stops (hshape₁.plain hj (by omega))
      · exact (hmasks.reads (by decide) hshape₁.sign).apart fun _ => at_not_local
    exact hrun.unique hshape.localPart
  have hbehind : t ≤ d₂ := by
    by_contra hinside
    have hdomain := hshape.domain (k := d₂) (by omega) (by omega)
    exact (hmasks.reads (by decide) hshape₂.sign).apart (fun _ => at_not_domain) hdomain
  have hnot : ∀ j, s ≤ j → j < t → ¬ Covered x j := by
    intro j hj hj' hcovered
    rcases Nat.lt_or_ge j e with hfirst | hfirst
    · exact hremaining.not_covered hj hfirst hcovered
    · rcases Nat.lt_or_ge j s' with hgap | hgap
      · obtain ⟨c', hc, hc', hbefore, hnotc⟩ := exists_end hgap hcovered
          (hremaining'.not_covered (Nat.le_refl s') (by omega))
        obtain ⟨p, hspan⟩ :=
          bearer_ends_inside haddress (by omega) (by omega) (by omega) hbefore hnotc
        obtain ⟨w, t', hbearer⟩ := span_bearer_shape hspan
        have hgap' := hbearer.gap
        have hnonempty := hbearer.nonempty
        have hequals := hbearer.equals.le
        have hstart : e ≤ p := by
          by_contra hlt''
          exact hremaining.not_covered (i := e - 1) (by omega) (by omega)
            (Or.inl ⟨p, c', hspan, by omega, by omega⟩)
        have hspace := hbearer.spaces.reads (p + 6) (by omega) hgap'
        exact hspace.apart (fun _ => space_not_address) (hshape.units (by omega) (by omega))
      · exact hremaining'.not_covered hgap (by omega) hcovered
  obtain ⟨e₁, hle₁, hlong⟩ := hshape.remains hboundary hnot
  have heq := (matches_matchAt _ _).unique hremaining hlong
  omega

end

end DurableRuntime.ControlPlane
