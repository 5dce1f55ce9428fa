import DurableRuntime.ControlPlane.RedactedPositions

/-!
# What one pattern leaves to the next

Each of the three steps masks the text further and divides no word, since a
match starts at a word boundary and does not end inside a word.
-/

namespace DurableRuntime.ControlPlane

open Foundation

section

variable {x : List CodeUnit} {P Q : Nat → Prop}

theorem masks_hide (h : ∀ i, P i → Q i) : Masks (hide Q x) (hide P x) := by
  refine ⟨by rw [length_hide, length_hide], ?_⟩
  intro i
  rcases Nat.lt_or_ge i x.length with hi | hi
  · by_cases hQ : Q i
    · exact Or.inl (hide_of_mem hi hQ)
    · right
      rw [hide_of_not_mem hQ, hide_of_not_mem fun hP => hQ (h i hP)]
  · right
    rw [List.getElem?_eq_none (by simpa using hi), List.getElem?_eq_none (by simpa using hi)]

theorem undivided_hide {m : Matcher (Option CodeUnit)}
    (hstart : ∀ {s e}, MatchAt m (hide P x) s e → Boundary (hide P x) s)
    (hends : ∀ {s e}, MatchAt m (hide P x) s e → Reads (hide P x) wordUnit (e - 1) →
      ¬ Reads (hide P x) wordUnit e) :
    Undivided (hide (fun i => P i ∨ TakenBy m (hide P x) i) x) (hide P x) := by
  intro i hword hword'
  have hlt := hword'.lt
  rw [length_hide] at hlt
  have hnot := not_hidden word_stops hword
  have hnot' := not_hidden word_stops hword'
  rw [hide_blank_iff, hide_blank_iff]
  constructor
  · rintro ⟨_, hP | ⟨s, e, hspan, hle, hlt'⟩⟩
    · exact absurd hP hnot
    · refine ⟨hlt, Or.inr ⟨s, e, hspan, by omega, ?_⟩⟩
      by_contra hge
      have heq : e = i + 1 := by omega
      subst heq
      exact hends hspan.2 hword hword'
  · rintro ⟨_, hP | ⟨s, e, hspan, hle, hlt'⟩⟩
    · exact absurd hP hnot'
    · refine ⟨by omega, Or.inr ⟨s, e, hspan, ?_, by omega⟩⟩
      by_contra hge
      have heq : s = i + 1 := by omega
      subst heq
      exact (hstart hspan.2).mp ⟨by omega, hword⟩ hword'

noncomputable abbrev redactedHidden (x : List CodeUnit) : MaskedText := hide (Redacted x) x

theorem bearerHidden_eq : bearerHidden x = hide (fun i => False ∨
    TakenBy (bearerPattern.onMasks redactedMarker).matcher (unmasked x) i) x := by
  simp only [taken_unmasked, false_or]

theorem undivided_bearerHidden : Undivided (bearerHidden x) (unmasked x) := by
  rw [bearerHidden_eq]
  apply undivided_hide
  · exact fun h => (matchAt_bearer.mp h).1
  · intro s e h
    obtain ⟨_, w, t, hshape⟩ := matchAt_bearer.mp h
    exact hshape.ends

theorem undivided_assignment : Undivided (secretsHidden x) (bearerHidden x) := by
  apply undivided_hide
  · exact fun h => (matchAt_assignment.mp h).1
  · intro s e h _
    obtain ⟨_, k, m, v, hshape⟩ := matchAt_assignment.mp h
    exact hshape.ends

theorem undivided_address : Undivided (redactedHidden x) (secretsHidden x) := by
  apply undivided_hide
  · exact fun h => (matchAt_address.mp h).1
  · intro s e h _
    obtain ⟨_, d, c, hshape⟩ := matchAt_address.mp h
    exact hshape.last.top.ends

theorem masks_bearerHidden : Masks (bearerHidden x) (unmasked x) := masks_hide fun _ h => h.elim

theorem masks_secretsHidden : Masks (secretsHidden x) (bearerHidden x) := masks_hide fun _ => Or.inl

theorem masks_redactedHidden : Masks (redactedHidden x) (secretsHidden x) :=
  masks_hide fun _ => Or.inl

theorem undivided_secretsHidden : Undivided (secretsHidden x) (unmasked x) :=
  undivided_assignment.trans masks_secretsHidden undivided_bearerHidden masks_bearerHidden

end

end DurableRuntime.ControlPlane
