import DurableRuntime.Foundation.History
import Mathlib.Data.List.Forall2

/-!
# Pairs of runs

What an observer sees of a state is its image under a view.  When the view after
a step depends only on the view before it and on what the observer may know of
the action, two runs whose actions look alike end in states that look alike, and
a run with other hidden data always exists.
-/

namespace DurableRuntime.Foundation

universe u v w

section Lists

variable {β γ : Type*} {R : β → γ → Prop}

theorem forall₂_snoc {l : List β} {a : β} {l' : List γ} (h : List.Forall₂ R (l ++ [a]) l') :
    ∃ rest b, l' = rest ++ [b] ∧ List.Forall₂ R l rest ∧ R a b := by
  induction l generalizing l' with
  | nil =>
      cases h with
      | cons hab hnil =>
          cases hnil
          exact ⟨[], _, rfl, .nil, hab⟩
  | cons head l ih =>
      cases h with
      | cons hhead htail =>
          obtain ⟨rest, b, rfl, hrest, hab⟩ := ih htail
          exact ⟨_ :: rest, b, rfl, .cons hhead hrest, hab⟩

end Lists

variable {σ : Type u} {α : Type v} {υ : Type w} {next : σ → α → Option σ}

/-- The view of the next state depends on the view of the state and the looks of the action. -/
def Independent (next : σ → α → Option σ) (view : σ → υ) (alike : α → α → Prop) : Prop :=
  ∀ s s' a a', view s = view s' → alike a a' → (next s a).map view = (next s' a').map view

variable {view : σ → υ} {alike : α → α → Prop} {s₀ s₀' : σ}

theorem Independent.view_eq (hindependent : Independent next view alike)
    (hstart : view s₀ = view s₀') {h h' : History σ α} {s s' : σ}
    (run : Exec (fun s => s = s₀) next h s) (run' : Exec (fun s => s = s₀') next h' s')
    (halike : List.Forall₂ (fun p p' => alike p.2 p'.2) h h') : view s = view s' := by
  induction run generalizing h' s' with
  | start hs =>
      have hnil : h' = [] := List.forall₂_nil_left_iff.mp halike
      cases run' with
      | start hs' => rw [hs, hs', hstart]
      | step => simp at hnil
  | @step h s t a run hnext ih =>
      obtain ⟨rest, ⟨u, b⟩, rfl, hrest, hab⟩ := forall₂_snoc halike
      obtain ⟨run', hnext'⟩ := run'.last
      have hview := hindependent s u a b (ih run' hrest) hab
      rw [hnext, hnext'] at hview
      exact Option.some.inj hview

/-- The second run, from the first and any actions that look like its own. -/
theorem Independent.exists_run (hindependent : Independent next view alike)
    (hstart : view s₀ = view s₀') {h : History σ α} {s : σ}
    (run : Exec (fun s => s = s₀) next h s) {actions : List α}
    (halike : List.Forall₂ alike (h.map Prod.snd) actions) :
    ∃ h' s', Exec (fun s => s = s₀') next h' s' ∧ h'.map Prod.snd = actions ∧
      view s = view s' := by
  induction run generalizing actions with
  | start hs =>
      cases halike
      exact ⟨[], s₀', .start rfl, rfl, by rw [hs, hstart]⟩
  | @step h s t a run hnext ih =>
      rw [List.map_append, List.map_singleton] at halike
      obtain ⟨rest, b, rfl, hrest, hab⟩ := forall₂_snoc halike
      obtain ⟨h', s', run', hactions, hview⟩ := ih hrest
      have hsame := hindependent s s' a b hview hab
      rw [hnext, Option.map_some] at hsame
      obtain ⟨t', hnext', ht'⟩ := Option.map_eq_some_iff.mp hsame.symm
      exact ⟨h' ++ [(s', b)], t', run'.step hnext', by simp [hactions], ht'.symm⟩

end DurableRuntime.Foundation
