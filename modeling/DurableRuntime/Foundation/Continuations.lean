import DurableRuntime.Foundation.History

/-!
# Continuations

Where a run can still go.  `Leads next allowed Q s` says that from `s` some
steps, each of them allowed in the state it is taken in, lead to a state in
which `Q` holds.
-/

namespace DurableRuntime.Foundation

universe u v

variable {σ : Type u} {α : Type v}

inductive Leads (next : σ → α → Option σ) (allowed : σ → α → Prop) (Q : σ → Prop) : σ → Prop
  | here {s : σ} : Q s → Leads next allowed Q s
  | step {s t : σ} {a : α} :
      allowed s a → next s a = some t → Leads next allowed Q t → Leads next allowed Q s

namespace Leads

variable {next : σ → α → Option σ} {allowed : σ → α → Prop} {P Q : σ → Prop} {s : σ}

theorem trans (h : Leads next allowed P s) (hrest : ∀ t, P t → Leads next allowed Q t) :
    Leads next allowed Q s := by
  induction h with
  | here hp => exact hrest _ hp
  | step ha hnext _ ih => exact .step ha hnext ih

theorem mono (h : Leads next allowed P s) (himp : ∀ t, P t → Q t) : Leads next allowed Q s :=
  h.trans fun t hp => .here (himp t hp)

/--
The rule for loops: where every stretch reaches the goal or makes the measure
smaller, the goal is reached.
-/
theorem of_decreasing (measure : σ → Nat)
    (hstretch : ∀ t, P t → Leads next allowed (fun u => Q u ∨ (P u ∧ measure u < measure t)) t)
    (hs : P s) : Leads next allowed Q s := by
  induction hmeasure : measure s using Nat.strongRecOn generalizing s with
  | ind n ih =>
      subst hmeasure
      refine (hstretch s hs).trans fun u hu => ?_
      rcases hu with hgoal | ⟨hu, hless⟩
      · exact .here hgoal
      · exact ih (measure u) hless hu rfl

/-- A run goes on to the goal by allowed steps. -/
theorem exec {start : σ → Prop} {h : History σ α} (hleads : Leads next allowed Q s)
    (run : Exec start next h s) :
    ∃ k t, Exec start next (h ++ k) t ∧ (∀ p ∈ k, allowed p.1 p.2) ∧ Q t := by
  induction hleads generalizing h with
  | @here s hq => exact ⟨[], s, by simpa using run, by simp, hq⟩
  | @step s t a ha hnext _ ih =>
      obtain ⟨k, u, run', hall, hq⟩ := ih (run.step hnext)
      refine ⟨(s, a) :: k, u, by simpa [List.append_assoc] using run', ?_, hq⟩
      intro p hp
      rcases List.mem_cons.mp hp with rfl | hp
      · exact ha
      · exact hall p hp

end Leads

end DurableRuntime.Foundation
