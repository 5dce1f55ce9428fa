import Mathlib.Data.List.Forall2

/-!
# Machines that answer requests

A component with a sequential interface takes a request, answers it and keeps a
state.  Two components are interchangeable when the same requests get the same
answers from both; the simulation rule reduces that to one request, under a
condition that may look at the requests before it.
-/

namespace DurableRuntime.Foundation

universe u v w x y

variable {σ : Type u} {τ : Type v} {ι : Type w} {ω : Type x} {ψ : Type y}

/-- The answers to a sequence of requests. -/
def answers (answer : σ → ι → ω × σ) : σ → List ι → List ω
  | _, [] => []
  | s, request :: requests =>
      (answer s request).1 :: answers answer (answer s request).2 requests

/-- Every request meets the condition, given the requests before it and the state it finds. -/
def Along (answer : τ → ι → ψ × τ) (C : List ι → τ → ι → Prop) : List ι → τ → List ι → Prop
  | _, _, [] => True
  | past, t, request :: requests =>
      C past t request ∧ Along answer C (past ++ [request]) (answer t request).2 requests

/-- A test of every request, run along the answers. -/
def alongTest (answer : τ → ι → ψ × τ) (test : List ι → τ → ι → Bool) : List ι → τ → List ι → Bool
  | _, _, [] => true
  | past, t, request :: requests =>
      test past t request && alongTest answer test (past ++ [request]) (answer t request).2 requests

theorem along_of_test {answer : τ → ι → ψ × τ} {C : List ι → τ → ι → Prop}
    {test : List ι → τ → ι → Bool}
    (htest : ∀ past t request, test past t request = true → C past t request)
    {past : List ι} {t : τ} {requests : List ι}
    (h : alongTest answer test past t requests = true) : Along answer C past t requests := by
  induction requests generalizing past t with
  | nil => trivial
  | cons request requests ih =>
      simp only [alongTest, Bool.and_eq_true] at h
      exact ⟨htest past t request h.1, ih h.2⟩

variable {first : σ → ι → ω × σ} {second : τ → ι → ψ × τ} {C : List ι → τ → ι → Prop}
  {R : List ι → σ → τ → Prop} {S : ω → ψ → Prop}

section

variable {answer : σ → ι → ω × σ} {mine : ι → Bool} {C : List ι → σ → ι → Prop}
  {R : List ι → σ → σ → Prop}

/-- The answers to some of the requests, when all of them are made. -/
def answersTo (mine : ι → Bool) (answer : σ → ι → ω × σ) : σ → List ι → List ω
  | _, [] => []
  | s, request :: requests =>
      let rest := answersTo mine answer (answer s request).2 requests
      if mine request then (answer s request).1 :: rest else rest

/--
The deletion rule: some requests get the answers they would get alone, when each
of them keeps the two states related and every other request is invisible.
-/
theorem answersTo_eq
    (hmine : ∀ past s t request, R past s t → C past s request → mine request = true →
      (answer s request).1 = (answer t request).1 ∧
        R (past ++ [request]) (answer s request).2 (answer t request).2)
    (hother : ∀ past s t request, R past s t → C past s request → mine request = false →
      R (past ++ [request]) (answer s request).2 t)
    {past : List ι} {s t : σ} {requests : List ι} (hrelated : R past s t)
    (hmeets : Along answer C past s requests) :
    answersTo mine answer s requests = answers answer t (requests.filter mine) := by
  induction requests generalizing past s t with
  | nil => rfl
  | cons request requests ih =>
      obtain ⟨hrequest, hrest⟩ := hmeets
      rw [answersTo]
      cases hmine' : mine request with
      | true =>
          obtain ⟨hanswer, hnext⟩ := hmine past s t request hrelated hrequest hmine'
          rw [List.filter_cons_of_pos hmine', answers, ← hanswer, ih hnext hrest]
          rfl
      | false =>
          have hnext := hother past s t request hrelated hrequest hmine'
          rw [List.filter_cons_of_neg (by simp [hmine']), ih hnext hrest]
          rfl

/-- A condition that every answer reveals holds along the requests whose answers are right. -/
theorem along_of_answers {S : ι → ω → Prop}
    (hreveal : ∀ past s request, S request (answer s request).1 → C past s request)
    {past : List ι} {s : σ} {requests : List ι}
    (h : List.Forall₂ S requests (answers answer s requests)) :
    Along answer C past s requests := by
  induction requests generalizing past s with
  | nil => trivial
  | cons request requests ih =>
      cases h with
      | cons hanswer hrest => exact ⟨hreveal past s request hanswer, ih hrest⟩

/-- Conversely, answers are right along requests that meet the condition. -/
theorem answers_of_along {S : ι → ω → Prop}
    (hanswer : ∀ past s request, C past s request → S request (answer s request).1)
    {past : List ι} {s : σ} {requests : List ι} (h : Along answer C past s requests) :
    List.Forall₂ S requests (answers answer s requests) := by
  induction requests generalizing past s with
  | nil => exact .nil
  | cons request requests ih => exact .cons (hanswer past s request h.1) (ih h.2)

end

end DurableRuntime.Foundation
