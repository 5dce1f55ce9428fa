import DurableRuntime.ControlPlane.SecretShapes
import DurableRuntime.Foundation.Masks

/-!
# Secrets in a masked text

Where in a masked text a pattern matches, position by position.  A match of the
first pattern is a word, a run of white space, a run of token units and one of
equals signs; of the second a keyword, a separator between runs of white space,
and a run of value units; of the third a run of local units, an at sign and a
domain that ends with the last top-level domain in its run.

Only the class of the value units reads a blank.
-/

namespace DurableRuntime.ControlPlane

open Foundation

/-- What redaction has left of a text: its units, and nothing where something was taken. -/
abbrev MaskedText := List (Option CodeUnit)

/-- Letters of either case. -/
def folded (letters : List Char) : List (CodeUnit → Bool) :=
  letters.map fun c => ignoreCase (literal c)

def maskRead (accepts : CodeUnit → Bool) : Option CodeUnit → Bool :=
  maskReads redactedMarker accepts

theorem reading_maskRead : Reading maskRead := by
  constructor
  · intro accepts accepts' o h ho
    cases o with
    | some u => exact h u ho
    | none =>
        have hall : redactedMarker.all accepts = true := ho
        rw [List.all_eq_true] at hall
        exact List.all_eq_true.mpr fun u hu => h u (hall u hu)
  · intro accepts accepts' o h ho
    cases o with
    | some u => exact h u ho
    | none =>
        have hall : redactedMarker.all accepts = true := ho
        rw [List.all_eq_true] at hall
        have hmem : (91 : CodeUnit) ∈ redactedMarker := by decide
        exact List.all_eq_false.mpr ⟨91, hmem, by simp [h 91 (hall 91 hmem)]⟩

/-! ## Reading positions -/

section

variable (H : MaskedText)

/-- The class reads the position. -/
def Reads (accepts : CodeUnit → Bool) (i : Nat) : Prop := H[i]?.any (maskRead accepts) = true

/-- The longest run of the class from the position. -/
structure Run (accepts : CodeUnit → Bool) (i j : Nat) : Prop where
  le : i ≤ j
  reads : ∀ k, i ≤ k → k < j → Reads H accepts k
  stops : ¬ Reads H accepts j

/-- The classes read the positions one after another. -/
def Fits (classes : List (CodeUnit → Bool)) (i : Nat) : Prop :=
  ∀ n accepts, classes[n]? = some accepts → Reads H accepts (i + n)

/-- `\b` -/
def Boundary (i : Nat) : Prop := (0 < i ∧ Reads H wordUnit (i - 1)) ↔ ¬ Reads H wordUnit i

variable {H} {H' : MaskedText} {accepts accepts' : CodeUnit → Bool} {i j : Nat}

theorem Reads.lt (h : Reads H accepts i) : i < H.length := by
  unfold Reads at h
  rcases Nat.lt_or_ge i H.length with hlt | hge
  · exact hlt
  · rw [List.getElem?_eq_none hge] at h
    cases h

theorem reads_congr (h : H'[i]? = H[i]?) : Reads H' accepts i ↔ Reads H accepts i := by
  unfold Reads
  rw [h]

theorem Reads.mono (hmono : ∀ u, accepts u = true → accepts' u = true) (h : Reads H accepts i) :
    Reads H accepts' i := by
  unfold Reads at h ⊢
  cases ho : H[i]? with
  | none =>
      rw [ho] at h
      cases h
  | some o =>
      rw [ho] at h
      exact reading_maskRead.mono hmono h

theorem Reads.apart (hapart : ∀ u, accepts u = true → accepts' u = false)
    (h : Reads H accepts i) : ¬ Reads H accepts' i := by
  unfold Reads at h ⊢
  cases ho : H[i]? with
  | none => simp
  | some o =>
      rw [ho] at h
      simp only [Option.any_some] at h ⊢
      rw [reading_maskRead.apart hapart h]
      simp

/-- A class that does not read blanks reads a unit. -/
theorem Reads.unit (hstops : redactedMarker.all accepts = false) (h : Reads H accepts i) :
    ∃ u, H[i]? = some (some u) ∧ accepts u = true := by
  unfold Reads at h
  cases ho : H[i]? with
  | none =>
      rw [ho] at h
      cases h
  | some o =>
      rw [ho] at h
      cases o with
      | none =>
          have hall : redactedMarker.all accepts = true := h
          rw [hstops] at hall
          cases hall
      | some u => exact ⟨u, rfl, h⟩

theorem reads_blank (h : H[i]? = some none) :
    Reads H accepts i ↔ redactedMarker.all accepts = true := by
  unfold Reads
  rw [h]
  rfl

theorem exists_run (accepts : CodeUnit → Bool) (H : MaskedText) (i : Nat) :
    ∃ j, Run H accepts i j := by
  induction hdist : H.length - i generalizing i with
  | zero =>
      refine ⟨i, Nat.le_refl i, fun k hk hk' => by omega, ?_⟩
      intro h
      have := h.lt
      omega
  | succ d ih =>
      by_cases h : Reads H accepts i
      · obtain ⟨j, hle, hreads, hstops⟩ := ih (i + 1) (by omega)
        refine ⟨j, by omega, ?_, hstops⟩
        intro k hk hk'
        rcases Nat.eq_or_lt_of_le hk with rfl | hlt
        · exact h
        · exact hreads k hlt hk'
      · exact ⟨i, Nat.le_refl i, fun k hk hk' => by omega, h⟩

theorem Run.unique (h : Run H accepts i j) {j' : Nat} (h' : Run H accepts i j') : j = j' := by
  rcases Nat.lt_trichotomy j j' with hlt | heq | hlt
  · exact absurd (h'.reads j h.le hlt) h.stops
  · exact heq
  · exact absurd (h.reads j' h'.le hlt) h'.stops

/-- A run that is not empty starts with a unit of its class. -/
theorem exists_run_of_reads (h : Reads H accepts i) : ∃ j, i < j ∧ Run H accepts i j := by
  obtain ⟨j, hrun⟩ := exists_run accepts H i
  refine ⟨j, ?_, hrun⟩
  rcases Nat.eq_or_lt_of_le hrun.le with rfl | hlt
  · exact absurd h hrun.stops
  · exact hlt

theorem Run.empty (h : ¬ Reads H accepts i) : Run H accepts i i :=
  ⟨Nat.le_refl i, fun k hk hk' => by omega, h⟩

theorem Run.length_le (h : Run H accepts i j) (hi : i ≤ H.length) : j ≤ H.length := by
  rcases Nat.eq_or_lt_of_le h.le with rfl | hlt
  · exact hi
  · have := (h.reads (j - 1) (by omega) (by omega)).lt
    omega

theorem Run.carry (h : Run H' accepts i j) (hsame : ∀ k, i ≤ k → k < j → H'[k]? = H[k]?)
    (hstops : ¬ Reads H accepts j) : Run H accepts i j :=
  ⟨h.le, fun k hk hk' => (reads_congr (hsame k hk hk')).mp (h.reads k hk hk'), hstops⟩

end

/-! ## The readers at a position -/

section

variable {H : MaskedText} {accepts : CodeUnit → Bool} {i j : Nat} {rest : MaskedText}

theorem passUnit_iff : passUnit maskRead accepts (H.drop i) = some rest ↔
    Reads H accepts i ∧ rest = H.drop (i + 1) := by
  unfold Reads
  cases ho : H[i]? with
  | none =>
      have hlength := List.getElem?_eq_none_iff.mp ho
      simp [passUnit, List.drop_eq_nil_of_le hlength]
  | some o =>
      rw [drop_of_getElem? ho]
      simp only [passUnit, Option.any_some]
      split
      · rename_i hread
        simp [hread, eq_comm]
      · rename_i hread
        simp [hread]

theorem passMany_of_run (h : Run H accepts i j) :
    passMany maskRead accepts (H.drop i) = H.drop j := by
  have hstep : ∀ n k, i ≤ k → k + n = j → passMany maskRead accepts (H.drop k) = H.drop j := by
    intro n
    induction n with
    | zero =>
        intro k hk hkj
        have heq : k = j := by omega
        subst heq
        have hstops := h.stops
        unfold Reads at hstops
        cases ho : H[k]? with
        | none =>
            have hlength := List.getElem?_eq_none_iff.mp ho
            simp [passMany, List.drop_eq_nil_of_le hlength]
        | some o =>
            rw [ho] at hstops
            rw [drop_of_getElem? ho]
            simp only [Option.any_some] at hstops
            simp [passMany, hstops]
    | succ n ih =>
        intro k hk hkj
        have hread := h.reads k hk (by omega)
        unfold Reads at hread
        cases ho : H[k]? with
        | none =>
            rw [ho] at hread
            cases hread
        | some o =>
            rw [ho] at hread
            rw [drop_of_getElem? ho]
            simp only [Option.any_some] at hread
            have hnext := ih (k + 1) (by omega) (by omega)
            simp only [passMany] at hnext ⊢
            rw [List.dropWhile_cons, if_pos hread, hnext]
  exact hstep (j - i) i (Nat.le_refl i) (by have := h.le; omega)

theorem passSome_iff : passSome maskRead accepts (H.drop i) = some rest ↔
    ∃ j, i < j ∧ Run H accepts i j ∧ rest = H.drop j := by
  unfold passSome
  rw [Option.map_eq_some_iff]
  constructor
  · rintro ⟨tail, htail, rfl⟩
    obtain ⟨hread, rfl⟩ := passUnit_iff.mp htail
    obtain ⟨j, hrun⟩ := exists_run accepts H (i + 1)
    have hle := hrun.le
    refine ⟨j, by omega, ⟨by omega, ?_, hrun.stops⟩, passMany_of_run hrun⟩
    intro k hk hk'
    rcases Nat.eq_or_lt_of_le hk with rfl | hlt
    · exact hread
    · exact hrun.reads k hlt hk'
  · rintro ⟨j, hlt, hrun, rfl⟩
    have hread := hrun.reads i (Nat.le_refl i) hlt
    have htail : Run H accepts (i + 1) j :=
      ⟨hlt, fun k hk hk' => hrun.reads k (by omega) hk', hrun.stops⟩
    exact ⟨_, passUnit_iff.mpr ⟨hread, rfl⟩, passMany_of_run htail⟩

theorem fits_nil : Fits H [] i := fun n accepts h => by simp at h

theorem fits_cons {classes : List (CodeUnit → Bool)} : Fits H (accepts :: classes) i ↔
    Reads H accepts i ∧ Fits H classes (i + 1) := by
  have hstep : ∀ n, i + (n + 1) = i + 1 + n := fun n => by omega
  constructor
  · intro h
    refine ⟨h 0 accepts rfl, ?_⟩
    intro n accepts' hn
    rw [← hstep]
    exact h (n + 1) accepts' hn
  · rintro ⟨hfirst, hrest⟩ n accepts' hn
    cases n with
    | zero =>
        cases hn
        exact hfirst
    | succ n =>
        rw [hstep]
        exact hrest n accepts' hn

theorem fits_append {classes classes' : List (CodeUnit → Bool)} :
    Fits H (classes ++ classes') i ↔ Fits H classes i ∧ Fits H classes' (i + classes.length) := by
  induction classes generalizing i with
  | nil => simp [fits_nil]
  | cons accepts classes ih =>
      have heq : i + (accepts :: classes).length = i + 1 + classes.length := by
        simp only [List.length_cons]
        omega
      rw [List.cons_append, fits_cons, fits_cons, ih, heq, and_assoc]

theorem passLetters_iff {letters : List Char} :
    passLetters maskRead letters (H.drop i) = some rest ↔
      Fits H (folded letters) i ∧ rest = H.drop (i + letters.length) := by
  induction letters generalizing i with
  | nil => simp [passLetters, folded, fits_nil, eq_comm]
  | cons c letters ih =>
      have heq : i + (c :: letters).length = i + 1 + letters.length := by
        simp only [List.length_cons]
        omega
      have hcons : folded (c :: letters) = ignoreCase (literal c) :: folded letters := rfl
      simp only [passLetters, Option.bind_eq_some_iff]
      rw [hcons, fits_cons, heq]
      constructor
      · rintro ⟨tail, htail, hrest⟩
        obtain ⟨hread, rfl⟩ := passUnit_iff.mp htail
        obtain ⟨hfits, rfl⟩ := ih.mp hrest
        exact ⟨⟨hread, hfits⟩, rfl⟩
      · rintro ⟨⟨hread, hfits⟩, rfl⟩
        exact ⟨_, passUnit_iff.mpr ⟨hread, rfl⟩, ih.mpr ⟨hfits, rfl⟩⟩

theorem unitBefore_succ_eq (H : MaskedText) {i : Nat} (hi : i < H.length) :
    unitBefore H (i + 1) = H[i]? := by
  rw [List.getElem?_eq_getElem hi]
  exact unitBefore_succ (List.getElem?_eq_getElem hi)

theorem onBoundary_iff (hi : i ≤ H.length) :
    onBoundary maskRead (unitBefore H i) (H.drop i) = true ↔ Boundary H i := by
  have hopens : opens maskRead wordUnit (H.drop i) = H[i]?.any (maskRead wordUnit) := by
    simp [opens, List.head?_drop]
  unfold onBoundary Boundary Reads
  rw [hopens]
  cases i with
  | zero =>
      rw [unitBefore_zero]
      cases H[0]?.any (maskRead wordUnit) <;> simp
  | succ i =>
      rw [unitBefore_succ_eq H hi, Nat.add_sub_cancel]
      cases H[i]?.any (maskRead wordUnit) <;> cases H[i + 1]?.any (maskRead wordUnit) <;> simp

theorem matchAt_atBoundary {pass : MaskedText → Option MaskedText} {s e : Nat} :
    MatchAt (atBoundary maskRead pass) H s e ↔
      s < e ∧ e ≤ H.length ∧ Boundary H s ∧ pass (H.drop s) = some (H.drop e) := by
  unfold MatchAt atBoundary
  constructor
  · rintro ⟨hlt, hle, hmatch⟩
    split at hmatch
    · rename_i hboundary
      exact ⟨hlt, hle, (onBoundary_iff (by omega)).mp hboundary, hmatch⟩
    · cases hmatch
  · rintro ⟨hlt, hle, hboundary, hmatch⟩
    refine ⟨hlt, hle, ?_⟩
    rw [if_pos ((onBoundary_iff (by omega)).mpr hboundary)]
    exact hmatch

theorem drop_inj {e e' : Nat} (he : e ≤ H.length) (he' : e' ≤ H.length)
    (h : H.drop e = H.drop e') : e = e' := by
  have hlength := congrArg List.length h
  simp only [List.length_drop] at hlength
  omega

end

end DurableRuntime.ControlPlane
