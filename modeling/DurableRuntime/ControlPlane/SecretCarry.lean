import DurableRuntime.ControlPlane.SecretPositions

/-!
# Carrying matches from one masked text to another

A match stands in another text that has the same units where it reads them.
Two things remain to be seen: the word boundaries around it, and for an
assignment that its value starts with a value unit or a blank.

Masking a text keeps the boundaries before its units if no word is divided into
a part that is kept and one that is not.
-/

namespace DurableRuntime.ControlPlane

open Foundation

section

variable {H H' : MaskedText}

/-! ## What a match reads -/

theorem Fits.reads {classes : List (CodeUnit → Bool)} {accepts : CodeUnit → Bool} {i j : Nat}
    (h : Fits H classes i) (hmono : ∀ class' ∈ classes, ∀ u, class' u = true → accepts u = true)
    (hle : i ≤ j) (hlt : j < i + classes.length) : Reads H accepts j := by
  have hn : j - i < classes.length := by omega
  have hread := h (j - i) _ (List.getElem?_eq_getElem hn)
  have heq : i + (j - i) = j := by omega
  rw [heq] at hread
  exact hread.mono (hmono _ (List.getElem_mem hn))

theorem Fits.carry {classes : List (CodeUnit → Bool)} {i : Nat} (h : Fits H' classes i)
    (hsame : ∀ j, i ≤ j → j < i + classes.length → H'[j]? = H[j]?) : Fits H classes i := by
  intro n accepts hn
  have hlt : n < classes.length := by
    rcases Nat.lt_or_ge n classes.length with hlt | hge
    · exact hlt
    · rw [List.getElem?_eq_none hge] at hn
      cases hn
  exact (reads_congr (hsame (i + n) (by omega) (by omega))).mp (h n accepts hn)

theorem folded_letters {letters : List Char}
    (hletters : (letters.all fun c => decide (AsciiLetter c)) = true) :
    ∀ accepts ∈ folded letters, ∀ u, accepts u = true → letterUnit u = true := by
  intro accepts haccepts u hu
  obtain ⟨c, hc, rfl⟩ := List.mem_map.mp haccepts
  exact folded_letter (of_decide_eq_true (List.all_eq_true.mp hletters c hc)) hu

/-- Keywords are letters and joins, and start with a letter. -/
theorem keywordWords_classes {classes : List (CodeUnit → Bool)} (hmem : classes ∈ keywordWords) :
    (∀ accepts ∈ classes, ∀ u, accepts u = true → letterUnit u = true ∨ joinUnit u = true) ∧
      ∃ first rest, classes = first :: rest ∧ ∀ u, first u = true → letterUnit u = true := by
  have hword : ∀ letters : List Char, (letters.all fun c => decide (AsciiLetter c)) = true →
      ∀ accepts ∈ folded letters, ∀ u, accepts u = true → letterUnit u = true ∨ joinUnit u = true :=
    fun letters hletters accepts haccepts u hu =>
      Or.inl (folded_letters hletters accepts haccepts u hu)
  have hfirst : ∀ c : Char, 97 ≤ c.toNat ∧ c.toNat ≤ 122 →
      ∀ u, ignoreCase (literal c) u = true → letterUnit u = true :=
    fun c hc u hu => folded_letter (Or.inl hc) hu
  simp only [keywordWords, List.mem_cons, List.not_mem_nil, or_false] at hmem
  rcases hmem with rfl | rfl | rfl | rfl | rfl
  · refine ⟨?_, _, _, rfl, hfirst 'a' (by decide)⟩
    intro accepts haccepts
    rcases List.mem_append.mp haccepts with h | h
    · exact hword _ (by decide) accepts h
    · exact hword _ (by decide) accepts h
  · refine ⟨?_, _, _, rfl, hfirst 'a' (by decide)⟩
    intro accepts haccepts u hu
    rcases List.mem_append.mp haccepts with h | h
    · exact hword _ (by decide) accepts h u hu
    · rcases List.mem_cons.mp h with rfl | h
      · exact Or.inr hu
      · exact hword _ (by decide) accepts h u hu
  · exact ⟨hword _ (by decide), _, _, rfl, hfirst 't' (by decide)⟩
  · exact ⟨hword _ (by decide), _, _, rfl, hfirst 'p' (by decide)⟩
  · exact ⟨hword _ (by decide), _, _, rfl, hfirst 'c' (by decide)⟩

section

variable {s a w t k m v d c e : Nat}

theorem KeywordAt.plain (h : KeywordAt H a k) {j : Nat} (hle : a ≤ j) (hlt : j < k) :
    Reads H plainUnit j := by
  obtain ⟨classes, hmem, hfits, rfl⟩ := h
  apply hfits.reads _ hle hlt
  intro accepts haccepts u hu
  rcases (keywordWords_classes hmem).1 accepts haccepts u hu with hletter | hjoin
  · exact letter_plain hletter
  · exact join_plain hjoin

theorem KeywordAt.word (h : KeywordAt H a k) : Reads H wordUnit a := by
  obtain ⟨classes, hmem, hfits, _⟩ := h
  obtain ⟨first, rest, rfl, hfirst⟩ := (keywordWords_classes hmem).2
  exact (fits_cons.mp hfits).1.mono fun u hu => letter_word (hfirst u hu)

theorem KeywordAt.carry (h : KeywordAt H' a k) (hsame : ∀ j, a ≤ j → j < k → H'[j]? = H[j]?) :
    KeywordAt H a k := by
  obtain ⟨classes, hmem, hfits, rfl⟩ := h
  exact ⟨classes, hmem, hfits.carry hsame, rfl⟩

theorem bearerName_letters : ∀ accepts ∈ folded ['B', 'e', 'a', 'r', 'e', 'r'],
    ∀ u, accepts u = true → letterUnit u = true :=
  folded_letters (by decide)

theorem BearerShape.plain (h : BearerShape H s w t e) {j : Nat} (hle : s ≤ j) (hlt : j < t) :
    Reads H plainUnit j := by
  rcases Nat.lt_or_ge j (s + 6) with hname | hname
  · exact h.name.reads (fun accepts ha u hu => letter_plain (bearerName_letters accepts ha u hu))
      hle hname
  · rcases Nat.lt_or_ge j w with hspace | hspace
    · exact (h.spaces.reads j hname hspace).mono fun _ => space_plain
    · exact (h.token.reads j hspace hlt).mono fun _ => token_plain

theorem BearerShape.word (h : BearerShape H s w t e) : Reads H wordUnit s :=
  h.name.reads (fun accepts ha u hu => letter_word (bearerName_letters accepts ha u hu))
    (Nat.le_refl s) (by simp [folded])

theorem AssignmentShape.order (h : AssignmentShape H a k m v e) : a < k ∧ k ≤ m ∧ m < v ∧ v < e :=
  ⟨h.keyword.lt, h.spaces.le, h.spaces'.le, h.nonempty⟩

theorem AssignmentShape.plain (h : AssignmentShape H a k m v e) {j : Nat} (hle : a ≤ j)
    (hlt : j < v) : Reads H plainUnit j := by
  rcases Nat.lt_or_ge j k with hkeyword | hkeyword
  · exact h.keyword.plain hle hkeyword
  · rcases Nat.lt_trichotomy j m with hspace | rfl | hspace
    · exact (h.spaces.reads j hkeyword hspace).mono fun _ => space_plain
    · exact h.separator.mono fun _ => separator_plain
    · exact (h.spaces'.reads j hspace hlt).mono fun _ => space_plain

theorem AddressShape.plain (h : AddressShape H s d c e) {j : Nat} (hle : s ≤ j) (hlt : j < e) :
    Reads H plainUnit j := by
  rcases Nat.lt_trichotomy j d with hlocal | rfl | hsign
  · exact (h.localPart.reads j hle hlocal).mono fun _ => local_plain
  · exact h.sign.mono fun _ => at_plain
  · exact (h.domain hsign hlt).mono fun _ => domain_plain

/-! ## Standing in another text -/

theorem BearerShape.carry (h : BearerShape H' s w t e)
    (hsame : ∀ j, s ≤ j → j ≤ w → H'[j]? = H[j]?) : ∃ t' e', BearerShape H s w t' e' := by
  have hgap := h.gap
  have htoken : Reads H tokenUnit w :=
    (reads_congr (hsame w (by omega) (Nat.le_refl w))).mp
      (h.token.reads w (Nat.le_refl w) h.nonempty)
  obtain ⟨t', hnonempty, hrun⟩ := exists_run_of_reads htoken
  obtain ⟨e', hequals⟩ := exists_run (literal '=') H t'
  refine ⟨t', e', ?_, ?_, hgap, hrun, hnonempty, hequals⟩
  · apply h.name.carry
    intro j hle hlt
    have hsix : (folded ['B', 'e', 'a', 'r', 'e', 'r']).length = 6 := rfl
    exact hsame j hle (by omega)
  · apply h.spaces.carry
    · exact fun j hle hlt => hsame j (by omega) (by omega)
    · exact htoken.apart fun _ => token_not_space

theorem AssignmentShape.carry (h : AssignmentShape H' a k m v e)
    (hsame : ∀ j, a ≤ j → j < v → H'[j]? = H[j]?) (hvalue : Reads H valueUnit v) :
    ∃ e', AssignmentShape H a k m v e' := by
  have horder := h.order
  have hseparator : Reads H separatorUnit m :=
    (reads_congr (hsame m (by omega) (by omega))).mp h.separator
  obtain ⟨e', hnonempty, hrun⟩ := exists_run_of_reads hvalue
  refine ⟨e', ?_, ?_, hseparator, ?_, hrun, hnonempty⟩
  · exact h.keyword.carry fun j hle hlt => hsame j hle (by omega)
  · apply h.spaces.carry
    · exact fun j hle hlt => hsame j (by omega) (by omega)
    · exact hseparator.apart fun _ => separator_not_space
  · apply h.spaces'.carry
    · exact fun j hle hlt => hsame j (by omega) (by omega)
    · exact hvalue.apart fun _ => value_not_space

/-- The domain may go on in the other text, but no match is lost. -/
theorem AddressShape.carry (h : AddressShape H' s d c e)
    (hsame : ∀ j, s ≤ j → j < e → H'[j]? = H[j]?) (hends : ¬ Reads H wordUnit e) :
    ∃ c' e', AddressShape H s d c' e' ∧ e ≤ e' := by
  have horder := h.order
  have htop := h.last.top
  have hread : ∀ {accepts : CodeUnit → Bool} {j}, s ≤ j → j < e → Reads H' accepts j →
      Reads H accepts j := fun hle hlt hread => (reads_congr (hsame _ hle hlt)).mp hread
  have hsign : Reads H (literal '@') d := hread (by omega) (by omega) h.sign
  have htop' : TopLevelAt H c e := by
    refine ⟨hread (by omega) (by omega) htop.dot, ?_, htop.long, hends⟩
    apply htop.letters.carry
    · exact fun j hle hlt => hsame j (by omega) hlt
    · exact fun hletter => hends (hletter.mono fun _ => letter_word)
  have hdomain : DomainUpTo H (d + 2) c := fun j hle hlt =>
    hread (by omega) (by omega) (h.last.domain j hle hlt)
  obtain ⟨c', e', hlast, hle⟩ := exists_last h.last.le hdomain htop'
  refine ⟨c', e', ⟨?_, h.nonempty, hsign, hread (by omega) (by omega) h.first, hlast⟩, hle⟩
  apply h.localPart.carry
  · exact fun j hle hlt => hsame j hle (by omega)
  · exact hsign.apart fun _ => at_not_local

/-! ## No match ends inside a word -/

theorem BearerShape.ends (h : BearerShape H s w t e) (hlast : Reads H wordUnit (e - 1)) :
    ¬ Reads H wordUnit e := by
  have hnonempty := h.nonempty
  rcases Nat.eq_or_lt_of_le h.equals.le with rfl | hlt
  · exact fun hword => h.token.stops (hword.mono fun _ => word_token)
  · have hequals := h.equals.reads (e - 1) (by omega) (by omega)
    exact absurd hlast (hequals.apart fun _ => equals_not_word)

theorem AssignmentShape.ends (h : AssignmentShape H a k m v e) : ¬ Reads H wordUnit e :=
  fun hword => h.value.stops (hword.mono fun _ => word_value)

end

/-! ## Masking -/

/-- The one text is the other with further positions left blank. -/
structure Masks (H' H : MaskedText) : Prop where
  length_eq : H'.length = H.length
  blank_or_same : ∀ i : Nat, H'[i]? = some none ∨ H'[i]? = H[i]?

/-- Neighbouring units of a word are both kept or both blank. -/
def Undivided (H' H : MaskedText) : Prop :=
  ∀ i, Reads H wordUnit i → Reads H wordUnit (i + 1) →
    (H'[i]? = some none ↔ H'[i + 1]? = some none)

variable {i : Nat} {accepts : CodeUnit → Bool}

theorem Masks.same_of_reads (h : Masks H' H) (hstops : redactedMarker.all accepts = false)
    (hread : Reads H' accepts i) : H'[i]? = H[i]? := by
  rcases h.blank_or_same i with hblank | hsame
  · rw [reads_blank hblank, hstops] at hread
    cases hread
  · exact hsame

theorem Masks.reads (h : Masks H' H) (hstops : redactedMarker.all accepts = false)
    (hread : Reads H' accepts i) : Reads H accepts i :=
  (reads_congr (h.same_of_reads hstops hread)).mp hread

theorem Masks.trans {H'' : MaskedText} (h : Masks H'' H') (h' : Masks H' H) : Masks H'' H := by
  refine ⟨h.length_eq.trans h'.length_eq, ?_⟩
  intro i
  rcases h.blank_or_same i with hblank | hsame
  · exact Or.inl hblank
  · rw [hsame]
    exact h'.blank_or_same i

theorem word_stops : redactedMarker.all wordUnit = false := by decide

theorem plain_stops : redactedMarker.all plainUnit = false := by decide

theorem Undivided.trans {H'' : MaskedText} (h : Undivided H'' H') (hmasks : Masks H'' H')
    (h' : Undivided H' H) (hmasks' : Masks H' H) : Undivided H'' H := by
  intro i hword hword'
  have hnone : ∀ j : Nat, H'[j]? = some none → H''[j]? = some none := by
    intro j hblank
    rcases hmasks.blank_or_same j with h | h
    · exact h
    · rw [h, hblank]
  by_cases hblank : H'[i]? = some none
  · have hblank' := (h' i hword hword').mp hblank
    exact ⟨fun _ => hnone _ hblank', fun _ => hnone _ hblank⟩
  · have hblank' : H'[i + 1]? ≠ some none := fun h => hblank ((h' i hword hword').mpr h)
    have hsame := (hmasks'.blank_or_same i).resolve_left hblank
    have hsame' := (hmasks'.blank_or_same (i + 1)).resolve_left hblank'
    exact h i ((reads_congr hsame).mpr hword) ((reads_congr hsame').mpr hword')

/-- A boundary before a unit that is kept was one in the text. -/
theorem Boundary.unmask (h : Boundary H' i) (hmasks : Masks H' H) (hundivided : Undivided H' H)
    (hkept : Reads H' plainUnit i) : Boundary H i := by
  have hsame := hmasks.same_of_reads plain_stops hkept
  unfold Boundary at h ⊢
  rw [← reads_congr hsame, ← h]
  constructor
  · rintro ⟨hpos, hword⟩
    refine ⟨hpos, ?_⟩
    by_cases hhere : Reads H' wordUnit i
    · -- both are units of a word, so the one before is kept as well
      have hsucc : i - 1 + 1 = i := by omega
      have hboth := hundivided (i - 1) hword (by rw [hsucc]; exact hmasks.reads word_stops hhere)
      rw [hsucc] at hboth
      rcases hmasks.blank_or_same (i - 1) with hblank | hbefore
      · have hblank' := hboth.mp hblank
        rw [reads_blank hblank', plain_stops] at hkept
        cases hkept
      · exact (reads_congr hbefore).mpr hword
    · exact (h.mpr hhere).2
  · rintro ⟨hpos, hword⟩
    exact ⟨hpos, hmasks.reads word_stops hword⟩

/-- What is no word unit behind a kept word unit was none in the text. -/
theorem Undivided.not_word (hundivided : Undivided H' H) (hmasks : Masks H' H)
    (hword : Reads H' wordUnit i) (hends : ¬ Reads H' wordUnit (i + 1)) :
    ¬ Reads H wordUnit (i + 1) := by
  intro hword'
  have hboth := hundivided i (hmasks.reads word_stops hword) hword'
  rcases hmasks.blank_or_same (i + 1) with hblank | hsame
  · have hblank' := hboth.mpr hblank
    rw [reads_blank hblank', word_stops] at hword
    cases hword
  · exact hends ((reads_congr hsame).mpr hword')

/-! ## Masking makes no match -/

section

variable {s e : Nat}

theorem bearer_unmask (hmasks : Masks H' H) (hundivided : Undivided H' H)
    (h : MatchAt (bearerPattern.onMasks redactedMarker).matcher H' s e) :
    ∃ t, MatchAt (bearerPattern.onMasks redactedMarker).matcher H s t := by
  obtain ⟨hboundary, w, t, hshape⟩ := matchAt_bearer.mp h
  have hgap := hshape.gap
  have hnonempty := hshape.nonempty
  obtain ⟨t', e', hshape'⟩ := hshape.carry fun j hle hle' =>
    hmasks.same_of_reads plain_stops (hshape.plain hle (Nat.lt_of_le_of_lt hle' hnonempty))
  have hboundary' := hboundary.unmask hmasks hundivided
    (hshape.plain (Nat.le_refl s) (by omega))
  exact ⟨e', matchAt_bearer.mpr ⟨hboundary', w, t', hshape'⟩⟩

/-- Where a masked part begins behind a unit, it begins with a value unit. -/
def BlanksValues (H' H : MaskedText) : Prop :=
  ∀ v, H'[v + 1]? = some none → Reads H' plainUnit v → Reads H valueUnit (v + 1)

theorem assignment_unmask (hmasks : Masks H' H) (hundivided : Undivided H' H)
    (hvalues : BlanksValues H' H)
    (h : MatchAt (assignmentPattern.onMasks redactedMarker).matcher H' s e) :
    ∃ t, MatchAt (assignmentPattern.onMasks redactedMarker).matcher H s t := by
  obtain ⟨hboundary, k, m, v, hshape⟩ := matchAt_assignment.mp h
  have horder := hshape.order
  have hvalue : Reads H valueUnit v := by
    rcases hmasks.blank_or_same v with hblank | hsame
    · have hsucc : v - 1 + 1 = v := by omega
      have hbefore := hshape.plain (j := v - 1) (by omega) (by omega)
      have hread := hvalues (v - 1) (by rw [hsucc]; exact hblank) hbefore
      rwa [hsucc] at hread
    · exact (reads_congr hsame).mp (hshape.value.reads v (Nat.le_refl v) hshape.nonempty)
  obtain ⟨e', hshape'⟩ := hshape.carry
    (fun j hle hlt => hmasks.same_of_reads plain_stops (hshape.plain hle hlt)) hvalue
  have hboundary' := hboundary.unmask hmasks hundivided
    (hshape.plain (Nat.le_refl s) (by omega))
  exact ⟨e', matchAt_assignment.mpr ⟨hboundary', k, m, v, hshape'⟩⟩

theorem address_unmask (hmasks : Masks H' H) (hundivided : Undivided H' H)
    (h : MatchAt (addressPattern.onMasks redactedMarker).matcher H' s e) :
    ∃ t, e ≤ t ∧ MatchAt (addressPattern.onMasks redactedMarker).matcher H s t := by
  obtain ⟨hboundary, d, c, hshape⟩ := matchAt_address.mp h
  have horder := hshape.order
  have htop := hshape.last.top
  have hlast : Reads H' wordUnit (e - 1) :=
    (htop.letters.reads (e - 1) (by omega) (by omega)).mono fun _ => letter_word
  have hsucc : e - 1 + 1 = e := by omega
  have hends : ¬ Reads H wordUnit e := by
    have hnot := hundivided.not_word hmasks hlast (by rw [hsucc]; exact htop.ends)
    rwa [hsucc] at hnot
  obtain ⟨c', e', hshape', hle⟩ := hshape.carry
    (fun j hle hlt => hmasks.same_of_reads plain_stops (hshape.plain hle hlt)) hends
  have hboundary' := hboundary.unmask hmasks hundivided
    (hshape.plain (Nat.le_refl s) (by omega))
  exact ⟨e', hle, matchAt_address.mpr ⟨hboundary', d, c', hshape'⟩⟩

end

end

end DurableRuntime.ControlPlane
