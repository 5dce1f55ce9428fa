import Mathlib.Data.List.Basic

/-!
# Commands that commit one by one

A command either commits a new state or fails and leaves the state it found.
A list of commands is performed in order, and the first failure ends it.
-/

namespace DurableRuntime.Foundation

universe u

variable {σ : Type u}

abbrev Command (σ : Type u) := σ → Option σ

/-- The state after every command of the list has committed. -/
def perform : List (Command σ) → σ → Option σ
  | [], s => some s
  | command :: commands, s => (command s).bind (perform commands)

@[simp] theorem perform_nil (s : σ) : perform [] s = some s := rfl

theorem perform_cons (command : Command σ) (commands : List (Command σ)) (s : σ) :
    perform (command :: commands) s = (command s).bind (perform commands) := rfl

theorem perform_append (first second : List (Command σ)) (s : σ) :
    perform (first ++ second) s = (perform first s).bind (perform second) := by
  induction first generalizing s with
  | nil => rfl
  | cons command first ih =>
      simp only [List.cons_append, perform_cons, Option.bind_assoc]
      congr 1
      funext next
      exact ih next

/-- Commands that leave a state as it is may be performed before others. -/
theorem perform_append_of_idle {first second : List (Command σ)} {s : σ}
    (hidle : ∀ command ∈ first, command s = some s) :
    perform (first ++ second) s = perform second s := by
  induction first with
  | nil => rfl
  | cons command first ih =>
      have hfirst := hidle command List.mem_cons_self
      have hrest : ∀ other ∈ first, other s = some s :=
        fun other hother => hidle other (List.mem_cons_of_mem _ hother)
      simp only [List.cons_append, perform_cons, hfirst, Option.bind_some]
      exact ih hrest

end DurableRuntime.Foundation
