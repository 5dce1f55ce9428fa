import DurableRuntime.ControlPlane.MaskedText

/-!
# Where the secret patterns match

The shape of a match of each pattern, and what it takes for a match to stand in
another masked text that agrees on its units.
-/

namespace DurableRuntime.ControlPlane

open Foundation

/-! ## Classes -/

section

variable {u : CodeUnit}

/-- All units but the first one of the marker. -/
def plainUnit (u : CodeUnit) : Bool := u != 91

theorem plainUnit_iff : plainUnit u = true ↔ u.toNat ≠ 91 := by
  unfold plainUnit
  rw [bne_iff_ne, Ne, ← UInt16.toNat_inj]
  rfl

/-- The letters of the patterns. -/
def AsciiLetter (c : Char) : Prop :=
  97 ≤ c.toNat ∧ c.toNat ≤ 122 ∨ 65 ≤ c.toNat ∧ c.toNat ≤ 90

instance (c : Char) : Decidable (AsciiLetter c) :=
  inferInstanceAs (Decidable (_ ∨ _))

theorem folded_letter {c : Char} (hc : AsciiLetter c) (h : ignoreCase (literal c) u = true) :
    letterUnit u = true := by
  unfold AsciiLetter at hc
  rw [foldedLiteral_iff] at h
  simp [letterUnit, within]
  rcases otherCase_toNat u with ⟨_, heq⟩ | ⟨_, heq⟩ | ⟨_, _, heq⟩
  · omega
  · omega
  · rw [heq] at h
    omega

theorem within_plain {ranges : List (Char × Char)}
    (h : (ranges.all fun r => decide (r.2.toNat < 91 ∨ 91 < r.1.toNat)) = true)
    (hu : within ranges u = true) : plainUnit u = true := by
  obtain ⟨r, hr, hlow, hhigh⟩ := within_iff.mp hu
  have hbounds := of_decide_eq_true (List.all_eq_true.mp h r hr)
  rw [plainUnit_iff]
  omega

theorem letter_plain (h : letterUnit u = true) : plainUnit u = true := within_plain (by decide) h

theorem space_plain (h : spaceUnit u = true) : plainUnit u = true := within_plain (by decide) h

theorem separator_plain (h : separatorUnit u = true) : plainUnit u = true :=
  within_plain (by decide) h

theorem join_plain (h : joinUnit u = true) : plainUnit u = true := within_plain (by decide) h

theorem token_plain (h : tokenUnit u = true) : plainUnit u = true := within_plain (by decide) h

theorem local_plain (h : localUnit u = true) : plainUnit u = true := within_plain (by decide) h

theorem domain_plain (h : domainUnit u = true) : plainUnit u = true := within_plain (by decide) h

theorem at_plain (h : literal '@' u = true) : plainUnit u = true := within_plain (by decide) h

theorem dot_domain (h : literal '.' u = true) : domainUnit u = true := within_mono (by decide) h

theorem letter_domain (h : letterUnit u = true) : domainUnit u = true := within_mono (by decide) h

theorem dot_not_letter (h : literal '.' u = true) : letterUnit u = false :=
  within_apart (by decide) h

theorem at_not_local (h : literal '@' u = true) : localUnit u = false := within_apart (by decide) h

theorem word_token (h : wordUnit u = true) : tokenUnit u = true := within_mono (by decide) h

theorem within_value {ranges : List (Char × Char)}
    (h : (ranges.all fun r => (spaceRanges ++ [(',', ','), (';', ';')]).all fun r' =>
      decide (r.2.toNat < r'.1.toNat ∨ r'.2.toNat < r.1.toNat)) = true)
    (hu : within ranges u = true) : valueUnit u = true := by
  rw [valueUnit, within_apart h hu]
  rfl

theorem word_value (h : wordUnit u = true) : valueUnit u = true := within_value (by decide) h

theorem local_value (h : localUnit u = true) : valueUnit u = true := within_value (by decide) h

theorem equals_not_word (h : literal '=' u = true) : wordUnit u = false :=
  within_apart (by decide) h

theorem value_not_space (h : valueUnit u = true) : spaceUnit u = false := by
  rw [Bool.eq_false_iff]
  intro hspace
  rw [space_not_value hspace] at h
  cases h

theorem token_not_space (h : tokenUnit u = true) : spaceUnit u = false := within_apart (by decide) h

theorem separator_not_space (h : separatorUnit u = true) : spaceUnit u = false :=
  within_apart (by decide) h

end

/-! ## Bearer tokens -/

section

variable (H : MaskedText)

structure BearerShape (s w t e : Nat) : Prop where
  name : Fits H (folded ['B', 'e', 'a', 'r', 'e', 'r']) s
  spaces : Run H spaceUnit (s + 6) w
  gap : s + 6 < w
  token : Run H tokenUnit w t
  nonempty : w < t
  equals : Run H (literal '=') t e

variable {H} {H' : MaskedText} {s w t e : Nat} {rest : MaskedText}

theorem passBearer_iff : passBearer maskRead (H.drop s) = some rest ↔
    ∃ w t e, BearerShape H s w t e ∧ rest = H.drop e := by
  unfold passBearer
  simp only [Option.map_eq_some_iff, Option.bind_eq_some_iff]
  constructor
  · rintro ⟨_, ⟨_, ⟨_, hletters, hafter⟩, hlast⟩, rfl⟩
    obtain ⟨hname, rfl⟩ := passLetters_iff.mp hletters
    obtain ⟨w, hgap, hspaces, rfl⟩ := passSome_iff.mp hafter
    obtain ⟨t, hsome, htoken, rfl⟩ := passSome_iff.mp hlast
    obtain ⟨e, hequals⟩ := exists_run (literal '=') H t
    exact ⟨w, t, e, ⟨hname, hspaces, hgap, htoken, hsome, hequals⟩, passMany_of_run hequals⟩
  · rintro ⟨w, t, e, h, rfl⟩
    refine ⟨H.drop t, ⟨H.drop w, ⟨H.drop (s + 6), ?_, ?_⟩, ?_⟩, passMany_of_run h.equals⟩
    · exact passLetters_iff.mpr ⟨h.name, rfl⟩
    · exact passSome_iff.mpr ⟨w, h.gap, h.spaces, rfl⟩
    · exact passSome_iff.mpr ⟨t, h.nonempty, h.token, rfl⟩

theorem BearerShape.length_le (h : BearerShape H s w t e) : e ≤ H.length := by
  have hlast :=
    (h.token.reads (t - 1) (by have := h.nonempty; omega) (by have := h.nonempty; omega)).lt
  exact h.equals.length_le (by omega)

theorem matchAt_bearer : MatchAt (bearerPattern.onMasks redactedMarker).matcher H s e ↔
    Boundary H s ∧ ∃ w t, BearerShape H s w t e := by
  have hmatcher : (bearerPattern.onMasks redactedMarker).matcher =
      atBoundary maskRead (passBearer maskRead) := bearerPattern_matcher reading_maskRead
  rw [hmatcher, matchAt_atBoundary]
  constructor
  · rintro ⟨_, hle, hboundary, hpass⟩
    obtain ⟨w, t, e', hshape, hdrop⟩ := passBearer_iff.mp hpass
    have heq : e = e' := drop_inj hle hshape.length_le hdrop
    subst heq
    exact ⟨hboundary, w, t, hshape⟩
  · rintro ⟨hboundary, w, t, hshape⟩
    have hgap := hshape.gap
    have hsome := hshape.nonempty
    have hequals := hshape.equals.le
    exact ⟨by omega, hshape.length_le, hboundary, passBearer_iff.mpr ⟨w, t, e, hshape, rfl⟩⟩

end

/-! ## Assignments -/

/-- What `keywordPattern` spells. -/
def keywordWords : List (List (CodeUnit → Bool)) :=
  [folded ['a', 'p', 'i'] ++ folded ['k', 'e', 'y'],
    folded ['a', 'p', 'i'] ++ joinUnit :: folded ['k', 'e', 'y'],
    folded ['t', 'o', 'k', 'e', 'n'],
    folded ['p', 'a', 's', 's', 'w', 'o', 'r', 'd'],
    folded ['c', 'r', 'e', 'd', 'e', 'n', 't', 'i', 'a', 'l']]

section

variable (H : MaskedText)

def KeywordAt (a k : Nat) : Prop :=
  ∃ classes ∈ keywordWords, Fits H classes a ∧ k = a + classes.length

structure AssignmentShape (a k m v e : Nat) : Prop where
  keyword : KeywordAt H a k
  spaces : Run H spaceUnit k m
  separator : Reads H separatorUnit m
  spaces' : Run H spaceUnit (m + 1) v
  value : Run H valueUnit v e
  nonempty : v < e

variable {H} {H' : MaskedText} {a k m v e : Nat} {rest : MaskedText}

theorem passLetters_none {c : Char} {letters : List Char} {accepts : CodeUnit → Bool}
    (hapart : ∀ u, accepts u = true → ignoreCase (literal c) u = false)
    (h : Reads H accepts a) : passLetters maskRead (c :: letters) (H.drop a) = none := by
  cases hpass : passLetters maskRead (c :: letters) (H.drop a) with
  | none => rfl
  | some rest =>
      have hfits := (passLetters_iff.mp hpass).1
      have hcons : folded (c :: letters) = ignoreCase (literal c) :: folded letters := rfl
      rw [hcons, fits_cons] at hfits
      exact absurd hfits.1 (h.apart hapart)

theorem passJoin_of_reads (h : Reads H joinUnit a) :
    passJoin maskRead (H.drop a) = H.drop (a + 1) := by
  rw [passJoin, passUnit_iff.mpr ⟨h, rfl⟩]
  rfl

theorem passJoin_of_not (h : ¬ Reads H joinUnit a) : passJoin maskRead (H.drop a) = H.drop a := by
  cases hpass : passUnit maskRead joinUnit (H.drop a) with
  | none => rw [passJoin, hpass, Option.getD_none]
  | some rest => exact absurd (passUnit_iff.mp hpass).1 h

theorem passApiKey_iff :
    ((passLetters maskRead ['a', 'p', 'i'] (H.drop a)).map (passJoin maskRead)).bind
        (passLetters maskRead ['k', 'e', 'y']) = some rest ↔
      (Fits H (folded ['a', 'p', 'i'] ++ folded ['k', 'e', 'y']) a ∧ rest = H.drop (a + 6)) ∨
        (Fits H (folded ['a', 'p', 'i'] ++ joinUnit :: folded ['k', 'e', 'y']) a ∧
          rest = H.drop (a + 7)) := by
  simp only [Option.bind_eq_some_iff, Option.map_eq_some_iff]
  constructor
  · rintro ⟨_, ⟨_, hletters, rfl⟩, hletters'⟩
    obtain ⟨hapi, rfl⟩ := passLetters_iff.mp hletters
    have hthree : a + ['a', 'p', 'i'].length = a + 3 := rfl
    rw [hthree] at hletters'
    by_cases hjoin : Reads H joinUnit (a + 3)
    · rw [passJoin_of_reads hjoin] at hletters'
      obtain ⟨hkey, rfl⟩ := passLetters_iff.mp hletters'
      exact Or.inr ⟨fits_append.mpr ⟨hapi, fits_cons.mpr ⟨hjoin, hkey⟩⟩, rfl⟩
    · rw [passJoin_of_not hjoin] at hletters'
      obtain ⟨hkey, rfl⟩ := passLetters_iff.mp hletters'
      exact Or.inl ⟨fits_append.mpr ⟨hapi, hkey⟩, rfl⟩
  · rintro (⟨hfits, rfl⟩ | ⟨hfits, rfl⟩)
    · obtain ⟨hapi, hkey⟩ := fits_append.mp hfits
      have hk : Reads H (ignoreCase (literal 'k')) (a + 3) := (fits_cons.mp hkey).1
      have hnot : ¬ Reads H joinUnit (a + 3) := fun hjoin => hjoin.apart (fun _ => join_not_key) hk
      refine ⟨H.drop (a + 3), ⟨H.drop (a + 3), passLetters_iff.mpr ⟨hapi, rfl⟩, ?_⟩, ?_⟩
      · exact passJoin_of_not hnot
      · exact passLetters_iff.mpr ⟨hkey, rfl⟩
    · obtain ⟨hapi, hjoinKey⟩ := fits_append.mp hfits
      obtain ⟨hjoin, hkey⟩ := fits_cons.mp hjoinKey
      refine ⟨H.drop (a + 4), ⟨H.drop (a + 3), passLetters_iff.mpr ⟨hapi, rfl⟩, ?_⟩, ?_⟩
      · exact passJoin_of_reads hjoin
      · exact passLetters_iff.mpr ⟨hkey, rfl⟩

theorem passKeyword_iff : passKeyword maskRead (H.drop a) = some rest ↔
    ∃ k, KeywordAt H a k ∧ rest = H.drop k := by
  unfold passKeyword
  constructor
  · intro h
    rcases Option.or_eq_some_iff.mp h with hapi | ⟨_, h⟩
    · rcases passApiKey_iff.mp hapi with ⟨hfits, rfl⟩ | ⟨hfits, rfl⟩
      · exact ⟨a + 6, ⟨_, by simp [keywordWords], hfits, rfl⟩, rfl⟩
      · exact ⟨a + 7, ⟨_, by simp [keywordWords], hfits, rfl⟩, rfl⟩
    · rcases Option.or_eq_some_iff.mp h with htoken | ⟨_, h⟩
      · obtain ⟨hfits, rfl⟩ := passLetters_iff.mp htoken
        exact ⟨a + 5, ⟨_, by simp [keywordWords], hfits, rfl⟩, rfl⟩
      · rcases Option.or_eq_some_iff.mp h with hpassword | ⟨_, hcredential⟩
        · obtain ⟨hfits, rfl⟩ := passLetters_iff.mp hpassword
          exact ⟨a + 8, ⟨_, by simp [keywordWords], hfits, rfl⟩, rfl⟩
        · obtain ⟨hfits, rfl⟩ := passLetters_iff.mp hcredential
          exact ⟨a + 10, ⟨_, by simp [keywordWords], hfits, rfl⟩, rfl⟩
  · rintro ⟨_, ⟨classes, hmem, hfits, rfl⟩, rfl⟩
    -- a first letter rules out the words before
    have hnone : ∀ c d : Char, 97 ≤ c.toNat ∧ c.toNat ≤ 122 → 97 ≤ d.toNat ∧ d.toNat ≤ 122 →
        c.toNat ≠ d.toNat → Reads H (ignoreCase (literal c)) a → ∀ letters,
        passLetters maskRead (d :: letters) (H.drop a) = none :=
      fun c d hc hd hne h letters => passLetters_none (fun u => foldedLiteral_ne hc hd hne) h
    simp only [keywordWords, List.mem_cons, List.not_mem_nil, or_false] at hmem
    rcases hmem with rfl | rfl | rfl | rfl | rfl
    · rw [passApiKey_iff.mpr (Or.inl ⟨hfits, rfl⟩)]
      rfl
    · rw [passApiKey_iff.mpr (Or.inr ⟨hfits, rfl⟩)]
      rfl
    · have hfirst := (fits_cons.mp hfits).1
      rw [hnone 't' 'a' (by decide) (by decide) (by decide) hfirst,
        passLetters_iff.mpr ⟨hfits, rfl⟩]
      rfl
    · have hfirst := (fits_cons.mp hfits).1
      rw [hnone 'p' 'a' (by decide) (by decide) (by decide) hfirst,
        hnone 'p' 't' (by decide) (by decide) (by decide) hfirst,
        passLetters_iff.mpr ⟨hfits, rfl⟩]
      rfl
    · have hfirst := (fits_cons.mp hfits).1
      rw [hnone 'c' 'a' (by decide) (by decide) (by decide) hfirst,
        hnone 'c' 't' (by decide) (by decide) (by decide) hfirst,
        hnone 'c' 'p' (by decide) (by decide) (by decide) hfirst,
        passLetters_iff.mpr ⟨hfits, rfl⟩]
      rfl

theorem passAssignment_iff : passAssignment maskRead (H.drop a) = some rest ↔
    ∃ k m v e, AssignmentShape H a k m v e ∧ rest = H.drop e := by
  unfold passAssignment passHead
  simp only [Option.map_eq_some_iff, Option.bind_eq_some_iff]
  constructor
  · rintro ⟨_, ⟨_, ⟨_, ⟨_, hpass, rfl⟩, hunit⟩, rfl⟩, hrun⟩
    obtain ⟨k, hkeyword, rfl⟩ := passKeyword_iff.mp hpass
    obtain ⟨m, hspaces⟩ := exists_run spaceUnit H k
    rw [passMany_of_run hspaces] at hunit
    obtain ⟨hseparator, rfl⟩ := passUnit_iff.mp hunit
    obtain ⟨v, hspaces'⟩ := exists_run spaceUnit H (m + 1)
    rw [passMany_of_run hspaces'] at hrun
    obtain ⟨e, hnonempty, hvalue, rfl⟩ := passSome_iff.mp hrun
    exact ⟨k, m, v, e, ⟨hkeyword, hspaces, hseparator, hspaces', hvalue, hnonempty⟩, rfl⟩
  · rintro ⟨k, m, v, e, h, rfl⟩
    refine ⟨H.drop v, ⟨H.drop (m + 1), ⟨H.drop m, ⟨H.drop k, ?_, ?_⟩, ?_⟩, ?_⟩, ?_⟩
    · exact passKeyword_iff.mpr ⟨k, h.keyword, rfl⟩
    · exact passMany_of_run h.spaces
    · exact passUnit_iff.mpr ⟨h.separator, rfl⟩
    · exact passMany_of_run h.spaces'
    · exact passSome_iff.mpr ⟨e, h.nonempty, h.value, rfl⟩

theorem KeywordAt.lt (h : KeywordAt H a k) : a < k := by
  obtain ⟨classes, hmem, _, rfl⟩ := h
  simp only [keywordWords, List.mem_cons, List.not_mem_nil, or_false] at hmem
  rcases hmem with rfl | rfl | rfl | rfl | rfl <;> simp [folded]

theorem AssignmentShape.length_le (h : AssignmentShape H a k m v e) : e ≤ H.length := by
  have hnonempty := h.nonempty
  have hlast := (h.value.reads (e - 1) (by omega) (by omega)).lt
  omega

theorem matchAt_assignment : MatchAt (assignmentPattern.onMasks redactedMarker).matcher H a e ↔
    Boundary H a ∧ ∃ k m v, AssignmentShape H a k m v e := by
  have hmatcher : (assignmentPattern.onMasks redactedMarker).matcher =
      atBoundary maskRead (passAssignment maskRead) := assignmentPattern_matcher reading_maskRead
  rw [hmatcher, matchAt_atBoundary]
  constructor
  · rintro ⟨_, hle, hboundary, hpass⟩
    obtain ⟨k, m, v, e', hshape, hdrop⟩ := passAssignment_iff.mp hpass
    have heq : e = e' := drop_inj hle hshape.length_le hdrop
    subst heq
    exact ⟨hboundary, k, m, v, hshape⟩
  · rintro ⟨hboundary, k, m, v, hshape⟩
    have hkeyword := hshape.keyword.lt
    have hspaces := hshape.spaces.le
    have hspaces' := hshape.spaces'.le
    have hnonempty := hshape.nonempty
    exact ⟨by omega, hshape.length_le, hboundary,
      passAssignment_iff.mpr ⟨k, m, v, e, hshape, rfl⟩⟩

end

/-! ## Addresses -/

section

variable (H : MaskedText)

/-- A top-level domain with the dot before it. -/
structure TopLevelAt (c e : Nat) : Prop where
  dot : Reads H (literal '.') c
  letters : Run H letterUnit (c + 1) e
  long : c + 3 ≤ e
  ends : ¬ Reads H wordUnit e

/-- Units of a domain from the one position to the other. -/
def DomainUpTo (j c : Nat) : Prop := ∀ k, j ≤ k → k < c → Reads H domainUnit k

/-- The last top-level domain in the run from a position. -/
structure LastTopLevel (j c e : Nat) : Prop where
  le : j ≤ c
  domain : DomainUpTo H j c
  top : TopLevelAt H c e
  last : ∀ {c' e'}, j ≤ c' → DomainUpTo H j c' → TopLevelAt H c' e' → c' ≤ c

structure AddressShape (s d c e : Nat) : Prop where
  localPart : Run H localUnit s d
  nonempty : s < d
  sign : Reads H (literal '@') d
  first : Reads H domainUnit (d + 1)
  last : LastTopLevel H (d + 2) c e

variable {H} {H' : MaskedText} {s d j c e : Nat} {rest : MaskedText}

theorem passTopLevel_iff : passTopLevel maskRead (H.drop c) = some rest ↔
    ∃ e, TopLevelAt H c e ∧ rest = H.drop e := by
  have hopens : ∀ e, opens maskRead wordUnit (H.drop e) = true ↔ Reads H wordUnit e := by
    intro e
    simp [opens, Reads, List.head?_drop]
  unfold passTopLevel
  simp only [Option.bind_eq_some_iff]
  constructor
  · rintro ⟨_, ⟨_, ⟨_, hpass, hpass'⟩, hpass''⟩, hends⟩
    obtain ⟨hdot, rfl⟩ := passUnit_iff.mp hpass
    obtain ⟨hletter, rfl⟩ := passUnit_iff.mp hpass'
    obtain ⟨e, hlt, hletters, rfl⟩ := passSome_iff.mp hpass''
    split at hends
    · cases hends
    · rename_i hword
      rw [hopens] at hword
      refine ⟨e, ⟨hdot, ⟨by omega, ?_, hletters.stops⟩, by omega, hword⟩,
        (Option.some.inj hends).symm⟩
      intro k hk hk'
      rcases Nat.eq_or_lt_of_le hk with rfl | hlt'
      · exact hletter
      · exact hletters.reads k hlt' hk'
  · rintro ⟨e, h, rfl⟩
    have hlong := h.long
    refine ⟨H.drop e, ⟨H.drop (c + 2), ⟨H.drop (c + 1), ?_, ?_⟩, ?_⟩, ?_⟩
    · exact passUnit_iff.mpr ⟨h.dot, rfl⟩
    · exact passUnit_iff.mpr ⟨h.letters.reads (c + 1) (by omega) (by omega), rfl⟩
    · refine passSome_iff.mpr ⟨e, by omega, ⟨by omega, ?_, h.letters.stops⟩, rfl⟩
      exact fun k hk hk' => h.letters.reads k (by omega) hk'
    · rw [if_neg (fun hword => h.ends ((hopens e).mp hword))]

theorem passDomain_none (hnone : passDomain maskRead (H.drop j) = none) (hle : j ≤ c)
    (hdomain : DomainUpTo H j c) : ¬ TopLevelAt H c e := by
  intro htop
  have hlt := htop.dot.lt
  induction hdist : c - j generalizing j with
  | zero =>
      have heq : j = c := by omega
      subst heq
      have hpass := passTopLevel_iff.mpr ⟨e, htop, rfl⟩
      obtain ⟨o, ho⟩ : ∃ o, H[j]? = some o := ⟨H[j], List.getElem?_eq_getElem hlt⟩
      rw [drop_of_getElem? ho] at hnone hpass
      simp only [passDomain, hpass] at hnone
      split at hnone <;> simp_all
  | succ n ih =>
      have hread := hdomain j (Nat.le_refl j) (by omega)
      have hread' := hread
      unfold Reads at hread
      obtain ⟨o, ho⟩ : ∃ o, H[j]? = some o := ⟨H[j], List.getElem?_eq_getElem hread'.lt⟩
      rw [ho, Option.any_some] at hread
      rw [drop_of_getElem? ho] at hnone
      simp only [passDomain, hread, if_true, Option.or_eq_none_iff] at hnone
      exact ih hnone.1 (by omega) (fun k hk hk' => hdomain k (by omega) hk') (by omega)

theorem passDomain_some (h : passDomain maskRead (H.drop j) = some rest) :
    ∃ c e, LastTopLevel H j c e ∧ rest = H.drop e := by
  induction hdist : H.length - j generalizing j with
  | zero =>
      rw [List.drop_eq_nil_of_le (by omega)] at h
      cases h
  | succ n ih =>
      obtain ⟨o, ho⟩ : ∃ o, H[j]? = some o := ⟨H[j], List.getElem?_eq_getElem (by omega)⟩
      have hdrop := drop_of_getElem? ho
      have hempty : DomainUpTo H j j := fun k hk hk' => by omega
      rw [hdrop] at h
      simp only [passDomain] at h
      rw [← hdrop] at h
      split at h
      · rename_i hread
        have hreads : Reads H domainUnit j := by
          unfold Reads
          rw [ho]
          exact hread
        have hcons : ∀ {c}, DomainUpTo H (j + 1) c → DomainUpTo H j c := by
          intro c hdomain k hk hk'
          rcases Nat.eq_or_lt_of_le hk with rfl | hlt
          · exact hreads
          · exact hdomain k hlt hk'
        rcases Option.or_eq_some_iff.mp h with hlong | ⟨hnone, hshort⟩
        · obtain ⟨c, e, hlast, rfl⟩ := ih hlong (by omega)
          refine ⟨c, e, ⟨by have := hlast.le; omega, hcons hlast.domain, hlast.top, ?_⟩, rfl⟩
          intro c' e' hle hdomain htop
          rcases Nat.eq_or_lt_of_le hle with rfl | hlt
          · have := hlast.le
            omega
          · exact hlast.last hlt (fun k hk hk' => hdomain k (by omega) hk') htop
        · obtain ⟨e, htop, rfl⟩ := passTopLevel_iff.mp hshort
          refine ⟨j, e, ⟨Nat.le_refl j, hempty, htop, ?_⟩, rfl⟩
          intro c' e' hle hdomain htop'
          rcases Nat.eq_or_lt_of_le hle with rfl | hlt
          · exact Nat.le_refl _
          · exact absurd htop' (passDomain_none hnone hlt fun k hk hk' => hdomain k (by omega) hk')
      · rename_i hread
        obtain ⟨e, htop, rfl⟩ := passTopLevel_iff.mp h
        refine ⟨j, e, ⟨Nat.le_refl j, hempty, htop, ?_⟩, rfl⟩
        intro c' e' hle hdomain htop'
        rcases Nat.eq_or_lt_of_le hle with rfl | hlt
        · exact Nat.le_refl _
        · have hreads := hdomain j (Nat.le_refl j) hlt
          unfold Reads at hreads
          rw [ho] at hreads
          exact absurd hreads hread

theorem LastTopLevel.unique (h : LastTopLevel H j c e) {c' e' : Nat} (h' : LastTopLevel H j c' e') :
    c = c' ∧ e = e' := by
  have heq : c = c' := Nat.le_antisymm (h'.last h.le h.domain h.top) (h.last h'.le h'.domain h'.top)
  subst heq
  exact ⟨rfl, h.top.letters.unique h'.top.letters⟩

/-- Where a domain has a top-level domain it has a last one. -/
theorem exists_last (hle : j ≤ c) (hdomain : DomainUpTo H j c) (htop : TopLevelAt H c e) :
    ∃ c' e', LastTopLevel H j c' e' ∧ e ≤ e' := by
  cases hpass : passDomain maskRead (H.drop j) with
  | none => exact absurd htop (passDomain_none hpass hle hdomain)
  | some rest =>
      obtain ⟨c', e', hlast, _⟩ := passDomain_some hpass
      refine ⟨c', e', hlast, ?_⟩
      have hlong := hlast.top.long
      rcases Nat.eq_or_lt_of_le (hlast.last hle hdomain htop) with rfl | hlt
      · exact Nat.le_of_eq (htop.letters.unique hlast.top.letters)
      · -- a dot is no letter, so the later one stands behind the letters
        rcases Nat.lt_or_ge c' e with hinside | hbehind
        · exact absurd (htop.letters.reads c' hlt hinside)
            (hlast.top.dot.apart fun _ => dot_not_letter)
        · omega

theorem passDomain_iff : passDomain maskRead (H.drop j) = some rest ↔
    ∃ c e, LastTopLevel H j c e ∧ rest = H.drop e := by
  constructor
  · exact passDomain_some
  · rintro ⟨c, e, hlast, rfl⟩
    cases hpass : passDomain maskRead (H.drop j) with
    | none => exact absurd hlast.top (passDomain_none hpass hlast.le hlast.domain)
    | some rest =>
        obtain ⟨c', e', hlast', rfl⟩ := passDomain_some hpass
        rw [(hlast.unique hlast').2]

theorem passAddress_iff : passAddress maskRead (H.drop s) = some rest ↔
    ∃ d c e, AddressShape H s d c e ∧ rest = H.drop e := by
  unfold passAddress
  simp only [Option.bind_eq_some_iff]
  constructor
  · rintro ⟨_, ⟨_, ⟨_, hpass, hpass'⟩, hpass''⟩, hdomain⟩
    obtain ⟨d, hnonempty, hlocal, rfl⟩ := passSome_iff.mp hpass
    obtain ⟨hsign, rfl⟩ := passUnit_iff.mp hpass'
    obtain ⟨hfirst, rfl⟩ := passUnit_iff.mp hpass''
    obtain ⟨c, e, hlast, rfl⟩ := passDomain_iff.mp hdomain
    exact ⟨d, c, e, ⟨hlocal, hnonempty, hsign, hfirst, hlast⟩, rfl⟩
  · rintro ⟨d, c, e, h, rfl⟩
    refine ⟨H.drop (d + 2), ⟨H.drop (d + 1), ⟨H.drop d, ?_, ?_⟩, ?_⟩, ?_⟩
    · exact passSome_iff.mpr ⟨d, h.nonempty, h.localPart, rfl⟩
    · exact passUnit_iff.mpr ⟨h.sign, rfl⟩
    · exact passUnit_iff.mpr ⟨h.first, rfl⟩
    · exact passDomain_iff.mpr ⟨c, e, h.last, rfl⟩

theorem AddressShape.length_le (h : AddressShape H s d c e) : e ≤ H.length := by
  have hlong := h.last.top.long
  have hlast := (h.last.top.letters.reads (e - 1) (by omega) (by omega)).lt
  omega

theorem AddressShape.order (h : AddressShape H s d c e) : s < d ∧ d + 2 ≤ c ∧ c + 3 ≤ e :=
  ⟨h.nonempty, h.last.le, h.last.top.long⟩

/-- Behind the at sign all is domain. -/
theorem AddressShape.domain (h : AddressShape H s d c e) {k : Nat} (hlt : d < k) (hle : k < e) :
    Reads H domainUnit k := by
  rcases Nat.eq_or_lt_of_le hlt with rfl | hlt
  · exact h.first
  · rcases Nat.lt_trichotomy k c with hdomain | rfl | hletters
    · exact h.last.domain k hlt hdomain
    · exact h.last.top.dot.mono fun _ => dot_domain
    · exact (h.last.top.letters.reads k hletters hle).mono fun _ => letter_domain

theorem matchAt_address : MatchAt (addressPattern.onMasks redactedMarker).matcher H s e ↔
    Boundary H s ∧ ∃ d c, AddressShape H s d c e := by
  have hmatcher : (addressPattern.onMasks redactedMarker).matcher =
      atBoundary maskRead (passAddress maskRead) := addressPattern_matcher reading_maskRead
  rw [hmatcher, matchAt_atBoundary]
  constructor
  · rintro ⟨_, hle, hboundary, hpass⟩
    obtain ⟨d, c, e', hshape, hdrop⟩ := passAddress_iff.mp hpass
    have heq : e = e' := drop_inj hle hshape.length_le hdrop
    subst heq
    exact ⟨hboundary, d, c, hshape⟩
  · rintro ⟨hboundary, d, c, hshape⟩
    have horder := hshape.order
    exact ⟨by omega, hshape.length_le, hboundary, passAddress_iff.mpr ⟨d, c, e, hshape, rfl⟩⟩

end

end DurableRuntime.ControlPlane
