import Mathlib.Data.List.Induction

/-!
# Histories of transition systems

A partial step function `next : σ → α → Option σ` generates the runs of a
system: `next s a = none` says that action `a` cannot happen in `s`.  A history
records every step taken so far as the pair of the state it was taken in and
its action, oldest first.  Safety properties speak about the last state of a
run, temporal ones about the order of the pairs in its history.
-/

namespace DurableRuntime.Foundation

universe u v

variable {σ : Type u} {α : Type v}

/-- The steps taken so far, each with the state it was taken in. -/
abbrev History (σ : Type u) (α : Type v) := List (σ × α)

/-- `Exec start next h s`: some run from a start state has history `h` and ends in `s`. -/
inductive Exec (start : σ → Prop) (next : σ → α → Option σ) :
    History σ α → σ → Prop
  | start {s : σ} : start s → Exec start next [] s
  | step {h : History σ α} {s s' : σ} {a : α} :
      Exec start next h s → next s a = some s' →
        Exec start next (h ++ [(s, a)]) s'

/-- Every step of the history meets the condition, which may look at the steps before it. -/
def Within (C : History σ α → σ → α → Prop) (h : History σ α) : Prop :=
  ∀ h₁ s a h₂, h = h₁ ++ (s, a) :: h₂ → C h₁ s a

theorem within_nil {C : History σ α → σ → α → Prop} : Within C [] := by
  intro h₁ s a h₂ heq
  simp at heq

theorem within_snoc {C : History σ α → σ → α → Prop} {h : History σ α} {s : σ} {a : α} :
    Within C (h ++ [(s, a)]) ↔ Within C h ∧ C h s a := by
  constructor
  · intro hw
    refine ⟨?_, hw h s a [] rfl⟩
    intro h₁ t b h₂ heq
    exact hw h₁ t b (h₂ ++ [(s, a)]) (by simp [heq])
  · rintro ⟨hw, hc⟩ h₁ t b h₂ heq
    induction h₂ using List.reverseRecOn with
    | nil =>
        obtain ⟨rfl, hpair⟩ := List.append_inj' heq rfl
        simp only [List.cons.injEq, Prod.mk.injEq, and_true] at hpair
        obtain ⟨rfl, rfl⟩ := hpair
        exact hc
    | append_singleton h₂ p _ =>
        rw [← List.cons_append, ← List.append_assoc] at heq
        exact hw h₁ t b h₂ (List.append_inj' heq rfl).1

theorem Within.of_append {C : History σ α → σ → α → Prop} {h k : History σ α}
    (hw : Within C (h ++ k)) : Within C h := by
  intro h₁ s a h₂ heq
  exact hw h₁ s a (h₂ ++ k) (by simp [heq])

theorem Within.of_mem {C : σ → α → Prop} {h : History σ α} (hw : Within (fun _ => C) h)
    {s : σ} {a : α} (hp : (s, a) ∈ h) : C s a := by
  obtain ⟨h₁, h₂, heq⟩ := List.append_of_mem hp
  exact hw h₁ s a h₂ heq

theorem within_iff {C : σ → α → Prop} {h : History σ α} :
    Within (fun _ => C) h ↔ ∀ p ∈ h, C p.1 p.2 := by
  constructor
  · rintro hw ⟨s, a⟩ hp
    exact hw.of_mem hp
  · rintro hall h₁ s a h₂ rfl
    exact hall (s, a) (by simp)

/-- A test of every step together with the steps before it. -/
def checks (test : History σ α → σ → α → Bool) : History σ α → History σ α → Bool
  | _, [] => true
  | before, (s, a) :: rest => test before s a && checks test (before ++ [(s, a)]) rest

theorem within_of_checks {C : History σ α → σ → α → Prop} {test : History σ α → σ → α → Bool}
    (htest : ∀ h s a, test h s a = true → C h s a) {before rest : History σ α}
    (hbefore : Within C before) (h : checks test before rest = true) :
    Within C (before ++ rest) := by
  induction rest generalizing before with
  | nil => simpa using hbefore
  | cons p rest ih =>
      obtain ⟨s, a⟩ := p
      simp only [checks, Bool.and_eq_true] at h
      have hsnoc := within_snoc.mpr ⟨hbefore, htest before s a h.1⟩
      simpa [List.append_assoc] using ih hsnoc h.2

theorem Within.mono {C D : History σ α → σ → α → Prop} {h : History σ α}
    (hw : Within C h) (hmono : ∀ h₁ s a, C h₁ s a → D h₁ s a) : Within D h :=
  fun h₁ s a h₂ heq => hmono h₁ s a (hw h₁ s a h₂ heq)

variable {start : σ → Prop} {next : σ → α → Option σ}

/--
The invariant rule: what holds of the empty history in a start state, and is
preserved by one step of a run, holds at the end of every run.
-/
theorem Exec.invariant {Inv : History σ α → σ → Prop}
    (hstart : ∀ s, start s → Inv [] s)
    (hstep : ∀ h s a s', Exec start next h s → Inv h s → next s a = some s' →
      Inv (h ++ [(s, a)]) s')
    {h : History σ α} {s : σ} (run : Exec start next h s) : Inv h s := by
  induction run with
  | start hs => exact hstart _ hs
  | step run hnext ih => exact hstep _ _ _ _ run ih hnext

/-- The invariant rule for a property of states. -/
theorem Exec.always {P : σ → Prop} (hstart : ∀ s, start s → P s)
    (hstep : ∀ {h : History σ α} {s a s'}, Exec start next h s → P s → next s a = some s' →
      P s')
    {h : History σ α} {s : σ} (run : Exec start next h s) : P s := by
  induction run with
  | start hs => exact hstart _ hs
  | step run hnext ih => exact hstep run ih hnext

/-- The invariant rule for the runs whose steps all meet a condition. -/
theorem Exec.invariant_within {C : History σ α → σ → α → Prop}
    {Inv : History σ α → σ → Prop} (hstart : ∀ s, start s → Inv [] s)
    (hstep : ∀ h s a s', Exec start next h s → Within C h → Inv h s → C h s a →
      next s a = some s' → Inv (h ++ [(s, a)]) s')
    {h : History σ α} {s : σ} (run : Exec start next h s) (hw : Within C h) :
    Inv h s := by
  induction run with
  | start hs => exact hstart _ hs
  | step run hnext ih =>
      obtain ⟨hw, hc⟩ := within_snoc.mp hw
      exact hstep _ _ _ _ run hw (ih hw) hc hnext

/-- The same for a property of states. -/
theorem Exec.always_within {C : History σ α → σ → α → Prop} {P : σ → Prop}
    (hstart : ∀ s, start s → P s)
    (hstep : ∀ {h : History σ α} {s a s'}, Exec start next h s → P s → C h s a →
      next s a = some s' → P s')
    {h : History σ α} {s : σ} (run : Exec start next h s) (hw : Within C h) : P s := by
  induction run with
  | start hs => exact hstart _ hs
  | step run hnext ih =>
      obtain ⟨hw, hc⟩ := within_snoc.mp hw
      exact hstep run (ih hw) hc hnext

theorem Exec.weaken {start' : σ → Prop} (hstart : ∀ s, start s → start' s)
    {h : History σ α} {s : σ} (run : Exec start next h s) : Exec start' next h s := by
  induction run with
  | start hs => exact .start (hstart _ hs)
  | step run hnext ih => exact ih.step hnext

/-- A run that goes on where it stopped. -/
theorem Exec.append {h k : History σ α} {s t : σ} (run : Exec start next h s)
    (rest : Exec (fun u => u = s) next k t) : Exec start next (h ++ k) t := by
  induction rest with
  | start hs =>
      rw [hs, List.append_nil]
      exact run
  | step _ hnext ih =>
      rw [← List.append_assoc]
      exact ih.step hnext

/-- The termination rule: steps that all lower a measure are bounded by it. -/
theorem Exec.length_le {allowed : σ → α → Prop} (measure : σ → Nat)
    (hstep : ∀ {h : History σ α} {s a s'}, Exec start next h s → allowed s a →
      next s a = some s' → measure s' < measure s)
    {h k : History σ α} {s t : σ} (run : Exec start next h s)
    (rest : Exec (fun u => u = s) next k t) (hall : ∀ p ∈ k, allowed p.1 p.2) :
    k.length + measure t ≤ measure s := by
  induction rest with
  | start hs => simp [hs]
  | @step k t t' a rest hnext ih =>
      have hle := ih fun p hp => hall p (List.mem_append_left _ hp)
      have hless := hstep (run.append rest) (hall (t, a) (by simp)) hnext
      simp only [List.length_append, List.length_singleton]
      omega

/-- The last step of a run, undone. -/
theorem Exec.last {h : History σ α} {s t : σ} {a : α}
    (run : Exec start next (h ++ [(s, a)]) t) :
    Exec start next h s ∧ next s a = some t := by
  generalize hk : h ++ [(s, a)] = k at run
  cases run with
  | start => simp at hk
  | step run hnext =>
      obtain ⟨rfl, hpair⟩ := List.append_inj' hk rfl
      simp only [List.cons.injEq, Prod.mk.injEq, and_true] at hpair
      obtain ⟨rfl, rfl⟩ := hpair
      exact ⟨run, hnext⟩

/-- Every step of a history was taken by a run that had the steps before it as history. -/
theorem Exec.split {h₁ h₂ : History σ α} {s t : σ} {a : α}
    (run : Exec start next (h₁ ++ (s, a) :: h₂) t) :
    ∃ s', Exec start next h₁ s ∧ next s a = some s' ∧
      Exec start next (h₁ ++ [(s, a)]) s' := by
  induction h₂ using List.reverseRecOn generalizing t with
  | nil =>
      obtain ⟨run, hnext⟩ := run.last
      exact ⟨t, run, hnext, run.step hnext⟩
  | append_singleton h₂ p ih =>
      obtain ⟨s₂, a₂⟩ := p
      rw [← List.cons_append, ← List.append_assoc] at run
      exact ih run.last.1

/-- What holds in all states of a run holds after each of its steps. -/
theorem Exec.holds_after {C : History σ α → σ → Prop} {h₁ h₂ : History σ α} {s t : σ} {a : α}
    (run : Exec start next (h₁ ++ (s, a) :: h₂) t)
    (hall : Within (fun past s _ => C past s) (h₁ ++ (s, a) :: h₂))
    (hlast : C (h₁ ++ (s, a) :: h₂) t) :
    ∃ s', next s a = some s' ∧ C (h₁ ++ [(s, a)]) s' := by
  cases h₂ with
  | nil => exact ⟨t, run.last.2, hlast⟩
  | cons p rest =>
      obtain ⟨s', b⟩ := p
      have hsplit : h₁ ++ (s, a) :: (s', b) :: rest = (h₁ ++ [(s, a)]) ++ (s', b) :: rest := by
        simp
      rw [hsplit] at run
      obtain ⟨-, run', -⟩ := run.split
      exact ⟨s', run'.last.2, hall (h₁ ++ [(s, a)]) s' b rest hsplit⟩

/-- The invariant rule for what holds ever since a step of the run. -/
theorem Exec.since {Inv : History σ α → σ → Prop} {h₁ : History σ α} {s : σ} {a : α}
    (hbase : ∀ s', Exec start next h₁ s → next s a = some s' → Inv [] s')
    (hstep : ∀ h₂ t b t', Exec start next (h₁ ++ (s, a) :: h₂) t → Inv h₂ t →
      next t b = some t' → Inv (h₂ ++ [(t, b)]) t')
    {h₂ : History σ α} {t : σ} (run : Exec start next (h₁ ++ (s, a) :: h₂) t) : Inv h₂ t := by
  induction h₂ using List.reverseRecOn generalizing t with
  | nil =>
      obtain ⟨run, hnext⟩ := run.last
      exact hbase t run hnext
  | append_singleton h₂ p ih =>
      rw [← List.cons_append, ← List.append_assoc] at run
      obtain ⟨run, hnext⟩ := run.last
      exact hstep h₂ p.1 p.2 t run (ih run) hnext

/-- The same for a property of states. -/
theorem Exec.always_since {P : σ → Prop} {h₁ : History σ α} {s : σ} {a : α}
    (hbase : ∀ {s'}, Exec start next h₁ s → next s a = some s' → P s')
    (hstep : ∀ {h t b t'}, Exec start next h t → P t → next t b = some t' → P t')
    {h₂ : History σ α} {t : σ} (run : Exec start next (h₁ ++ (s, a) :: h₂) t) : P t :=
  @Exec.since _ _ _ _ (fun _ t => P t) _ _ _ (fun _ => hbase) (fun _ _ _ _ => hstep) _ _ run

/-- A membership in a history, as the run that led to it. -/
theorem Exec.of_mem {h : History σ α} {t : σ} (run : Exec start next h t)
    {s : σ} {a : α} (hp : (s, a) ∈ h) :
    ∃ h₁ h₂ s', h = h₁ ++ (s, a) :: h₂ ∧ Exec start next h₁ s ∧
      next s a = some s' := by
  obtain ⟨h₁, h₂, rfl⟩ := List.append_of_mem hp
  obtain ⟨s', run', hnext, -⟩ := run.split
  exact ⟨h₁, h₂, s', rfl, run', hnext⟩

/-- A preorder that no step decreases relates every state of a run to its last one. -/
theorem Exec.grows {R : σ → σ → Prop} (hrefl : ∀ s, R s s)
    (htrans : ∀ {s t u}, R s t → R t u → R s u)
    (hstep : ∀ {s a s'}, next s a = some s' → R s s') {h₁ h₂ : History σ α} {s t : σ} {a : α}
    (run : Exec start next (h₁ ++ (s, a) :: h₂) t) :
    ∃ s', next s a = some s' ∧ R s s' ∧ R s' t := by
  induction h₂ using List.reverseRecOn generalizing t with
  | nil =>
      obtain ⟨-, hnext⟩ := run.last
      exact ⟨t, hnext, hstep hnext, hrefl t⟩
  | append_singleton h₂ p ih =>
      obtain ⟨s₂, a₂⟩ := p
      rw [← List.cons_append, ← List.append_assoc] at run
      obtain ⟨run, hlast⟩ := run.last
      obtain ⟨s', hnext, hfirst, hrest⟩ := ih run
      exact ⟨s', hnext, hfirst, htrans hrest (hstep hlast)⟩

/-- Steps that pass the tests one after the other occur in the history, in this order. -/
def picks : List (σ × α → Bool) → History σ α → Bool
  | [], _ => true
  | _ :: _, [] => false
  | test :: tests, p :: h => if test p then picks tests h else picks (test :: tests) h

theorem sublist_of_picks {tests : List (σ × α → Bool)} {h : History σ α}
    (hpicks : picks tests h = true) :
    ∃ steps, steps.Sublist h ∧ List.Forall₂ (fun test p => test p = true) tests steps := by
  induction h generalizing tests with
  | nil =>
      cases tests with
      | nil => exact ⟨[], List.Sublist.refl [], .nil⟩
      | cons test tests => simp [picks] at hpicks
  | cons p h ih =>
      cases tests with
      | nil => exact ⟨[], List.nil_sublist _, .nil⟩
      | cons test tests =>
          simp only [picks] at hpicks
          split at hpicks
          · rename_i htest
            obtain ⟨steps, hsub, hall⟩ := ih hpicks
            exact ⟨p :: steps, hsub.cons_cons p, .cons htest hall⟩
          · obtain ⟨steps, hsub, hall⟩ := ih hpicks
            exact ⟨steps, hsub.cons p, hall⟩

/-- Take the actions in order, keeping the history. -/
def replay (next : σ → α → Option σ) : σ → List α → Option (History σ α × σ)
  | s, [] => some ([], s)
  | s, a :: rest =>
      match next s a with
      | none => none
      | some s' =>
          match replay next s' rest with
          | none => none
          | some (h, t) => some ((s, a) :: h, t)

theorem Exec.replay {h k : History σ α} {s t : σ} {actions : List α}
    (run : Exec start next h s) (hr : replay next s actions = some (k, t)) :
    Exec start next (h ++ k) t := by
  induction actions generalizing h k s with
  | nil =>
      simp only [Foundation.replay, Option.some.injEq, Prod.mk.injEq] at hr
      obtain ⟨rfl, rfl⟩ := hr
      simpa using run
  | cons a rest ih =>
      simp only [Foundation.replay] at hr
      cases hnext : next s a with
      | none => simp [hnext] at hr
      | some s' =>
          cases hrest : Foundation.replay next s' rest with
          | none => simp [hnext, hrest] at hr
          | some p =>
              obtain ⟨k', t'⟩ := p
              simp only [hnext, hrest, Option.some.injEq, Prod.mk.injEq] at hr
              obtain ⟨rfl, rfl⟩ := hr
              have tail := ih (run.step hnext) hrest
              simpa [List.append_assoc] using tail

theorem replay_actions {actions : List α} {s t : σ} {h : History σ α}
    (hr : replay next s actions = some (h, t)) : h.map Prod.snd = actions := by
  induction actions generalizing s h with
  | nil =>
      cases hr
      rfl
  | cons a rest ih =>
      simp only [replay] at hr
      cases hnext : next s a with
      | none => simp [hnext] at hr
      | some s' =>
          cases hrest : replay next s' rest with
          | none => simp [hnext, hrest] at hr
          | some p =>
              simp only [hnext, hrest, Option.some.injEq, Prod.mk.injEq] at hr
              obtain ⟨rfl, rfl⟩ := hr
              rw [List.map_cons, ih hrest]

/--
A run found by evaluation: when the actions can be taken from a start state and
the test holds of the history and state they lead to, that run exists.
-/
theorem exec_of_replay {s : σ} (hs : start s) {actions : List α}
    {test : History σ α → σ → Bool}
    (hr : (replay next s actions).any (fun p => test p.1 p.2) = true) :
    ∃ h t, Exec start next h t ∧ test h t = true := by
  cases hrun : replay next s actions with
  | none => simp [hrun] at hr
  | some p =>
      refine ⟨p.1, p.2, ?_, by simpa [hrun] using hr⟩
      simpa using Exec.replay (Exec.start hs) hrun

theorem actions_of_replay {s : σ} (hs : start s) {actions : List α} {test : σ → Bool}
    (hr : (replay next s actions).any (fun p => test p.2) = true) :
    ∃ h t, Exec start next h t ∧ h.map Prod.snd = actions ∧ test t = true := by
  cases hrun : replay next s actions with
  | none => simp [hrun] at hr
  | some p =>
      refine ⟨p.1, p.2, ?_, replay_actions hrun, by simpa [hrun] using hr⟩
      simpa using Exec.replay (Exec.start hs) hrun

end DurableRuntime.Foundation
