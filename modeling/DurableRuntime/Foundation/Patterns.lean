import Mathlib.Data.List.Basic

/-!
# Patterns for a backtracking matcher

Regular expressions whose quantifiers stand on single classes of units, with
the meaning a backtracking matcher gives them: a greedy quantifier takes as
many units as it can and gives them back one by one until what follows
matches, and an alternative is tried when the one before it has failed.

A matcher sees the unit before its position, for word boundaries, and the text
from its position on.  It yields the text behind the match.
-/

namespace DurableRuntime.Foundation

universe u v w

/-- What is left behind a match, given the unit before a position and the text from there. -/
abbrev Matcher (α : Type u) := Option α → List α → Option (List α)

inductive Pattern (α : Type u) where
  | nothing
  | unit (accepts : α → Bool)
  | optional (accepts : α → Bool)
  | many (accepts : α → Bool)
  | boundary (word : α → Bool)
  | seq (first second : Pattern α)
  | alt (first second : Pattern α)

namespace Pattern

variable {α : Type u} {β : Type v}

/-- `[…]*` in front of a continuation. -/
def runMany (accepts : α → Bool) (next : Matcher α) : Matcher α
  | before, [] => next before []
  | before, a :: rest =>
      if accepts a then
        (runMany accepts next (some a) rest).or (next before (a :: rest))
      else next before (a :: rest)

/-- The pattern in front of a continuation. -/
def run : Pattern α → Matcher α → Matcher α
  | .nothing, next => next
  | .unit accepts, next => fun _ text =>
      match text with
      | [] => none
      | a :: rest => if accepts a then next (some a) rest else none
  | .optional accepts, next => fun before text =>
      match text with
      | [] => next before []
      | a :: rest =>
          if accepts a then (next (some a) rest).or (next before (a :: rest))
          else next before (a :: rest)
  | .many accepts, next => runMany accepts next
  | .boundary word, next => fun before text =>
      if before.any word != text.head?.any word then next before text else none
  | .seq first second, next => first.run (second.run next)
  | .alt first second, next => fun before text =>
      (first.run next before text).or (second.run next before text)

/-- The end of every pattern. -/
def accept : Matcher α := fun _ rest => some rest

def matcher (p : Pattern α) : Matcher α := p.run accept

/-- `[…]+` -/
def oneOrMore (accepts : α → Bool) : Pattern α := .seq (.unit accepts) (.many accepts)

/-- The patterns of a list one after another. -/
def all : List (Pattern α) → Pattern α
  | [] => .nothing
  | p :: ps => .seq p (all ps)

/-- The pattern with each class read in another alphabet. -/
def map (read : (α → Bool) → β → Bool) : Pattern α → Pattern β
  | .nothing => .nothing
  | .unit accepts => .unit (read accepts)
  | .optional accepts => .optional (read accepts)
  | .many accepts => .many (read accepts)
  | .boundary word => .boundary (read word)
  | .seq first second => .seq (first.map read) (second.map read)
  | .alt first second => .alt (first.map read) (second.map read)

/-- The least number of units that a match takes. -/
def least : Pattern α → Nat
  | .nothing => 0
  | .unit _ => 1
  | .optional _ => 0
  | .many _ => 0
  | .boundary _ => 0
  | .seq first second => first.least + second.least
  | .alt first second => min first.least second.least

theorem run_nothing (next : Matcher α) : (nothing : Pattern α).run next = next := rfl

theorem run_seq (first second : Pattern α) (next : Matcher α) :
    (first.seq second).run next = first.run (second.run next) := rfl

theorem map_map {γ : Type w} (read : (α → Bool) → β → Bool) (read' : (β → Bool) → γ → Bool)
    (p : Pattern α) : (p.map read).map read' = p.map fun accepts => read' (read accepts) := by
  induction p with
  | seq first second ihfirst ihsecond => simp only [map, ihfirst, ihsecond]
  | alt first second ihfirst ihsecond => simp only [map, ihfirst, ihsecond]
  | _ => rfl

theorem least_map (read : (α → Bool) → β → Bool) (p : Pattern α) :
    (p.map read).least = p.least := by
  induction p with
  | seq first second ihfirst ihsecond => simp only [map, least, ihfirst, ihsecond]
  | alt first second ihfirst ihsecond => simp only [map, least, ihfirst, ihsecond]
  | _ => rfl

theorem map_oneOrMore (read : (α → Bool) → β → Bool) (accepts : α → Bool) :
    (oneOrMore accepts).map read = oneOrMore (read accepts) := rfl

end Pattern

/-! ## What a match leaves behind -/

section

variable {α : Type u}

/-- A match takes at least so many units and leaves the rest of the text. -/
def Takes (least : Nat) (m : Matcher α) : Prop :=
  ∀ before text rest, m before text = some rest →
    ∃ n, least ≤ n ∧ n ≤ text.length ∧ rest = text.drop n

theorem takes_accept : Takes 0 (@Pattern.accept α) := by
  intro before text rest h
  cases h
  exact ⟨0, Nat.le_refl 0, Nat.zero_le _, rfl⟩

theorem Takes.mono {k l : Nat} {m : Matcher α} (h : Takes l m) (hle : k ≤ l) : Takes k m := by
  intro before text rest hrest
  obtain ⟨n, hn, hlength, hdrop⟩ := h before text rest hrest
  exact ⟨n, Nat.le_trans hle hn, hlength, hdrop⟩

theorem Takes.unit {k : Nat} {next : Matcher α} (h : Takes k next) (a : α) {text rest : List α}
    (hrest : next (some a) text = some rest) :
    ∃ n, 1 + k ≤ n ∧ n ≤ (a :: text).length ∧ rest = (a :: text).drop n := by
  obtain ⟨n, hn, hlength, hdrop⟩ := h _ _ _ hrest
  refine ⟨n + 1, ?_, ?_, ?_⟩
  · omega
  · simp only [List.length_cons]
    omega
  · simpa using hdrop

theorem takes_runMany {k : Nat} {next : Matcher α} (h : Takes k next) (accepts : α → Bool) :
    Takes k (Pattern.runMany accepts next) := by
  intro before text rest hrest
  induction text generalizing before with
  | nil => exact h _ _ _ hrest
  | cons a text ih =>
      simp only [Pattern.runMany] at hrest
      split at hrest
      · rcases Option.or_eq_some_iff.mp hrest with hlong | ⟨_, hshort⟩
        · obtain ⟨n, hn, hlength, hdrop⟩ := ih _ hlong
          refine ⟨n + 1, ?_, ?_, ?_⟩
          · omega
          · simp only [List.length_cons]
            omega
          · simpa using hdrop
        · exact h _ _ _ hshort
      · exact h _ _ _ hrest

theorem takes_run (p : Pattern α) {k : Nat} {next : Matcher α} (h : Takes k next) :
    Takes (p.least + k) (p.run next) := by
  induction p generalizing k next with
  | nothing => simpa [Pattern.least, Pattern.run] using h
  | unit accepts =>
      intro before text rest hrest
      cases text with
      | nil => cases hrest
      | cons a text =>
          simp only [Pattern.run] at hrest
          split at hrest
          · exact h.unit a hrest
          · cases hrest
  | optional accepts =>
      intro before text rest hrest
      simp only [Pattern.least, Nat.zero_add]
      cases text with
      | nil => exact h _ _ _ hrest
      | cons a text =>
          simp only [Pattern.run] at hrest
          split at hrest
          · rcases Option.or_eq_some_iff.mp hrest with hlong | ⟨_, hshort⟩
            · obtain ⟨n, hn, hlength, hdrop⟩ := h.unit a hlong
              exact ⟨n, by omega, hlength, hdrop⟩
            · exact h _ _ _ hshort
          · exact h _ _ _ hrest
  | many accepts =>
      simp only [Pattern.least, Nat.zero_add]
      exact takes_runMany h accepts
  | boundary word =>
      intro before text rest hrest
      simp only [Pattern.run] at hrest
      split at hrest
      · simpa [Pattern.least] using h _ _ _ hrest
      · cases hrest
  | seq first second ihfirst ihsecond =>
      simp only [Pattern.least, Nat.add_assoc]
      exact ihfirst (ihsecond h)
  | alt first second ihfirst ihsecond =>
      intro before text rest hrest
      have hmin : min first.least second.least ≤ first.least := Nat.min_le_left _ _
      have hmin' : min first.least second.least ≤ second.least := Nat.min_le_right _ _
      simp only [Pattern.run] at hrest
      rcases Option.or_eq_some_iff.mp hrest with hfirst | ⟨_, hsecond⟩
      · exact (ihfirst h).mono (Nat.add_le_add_right hmin k) _ _ _ hfirst
      · exact (ihsecond h).mono (Nat.add_le_add_right hmin' k) _ _ _ hsecond

theorem takes_matcher (p : Pattern α) : Takes p.least p.matcher := takes_run p takes_accept

end

/-! ## Greedy quantifiers -/

section

variable {α : Type u} {accepts : α → Bool} {next : Matcher α}

/-- The last unit before what a quantifier leaves. -/
def lastTaken (before : Option α) (taken : List α) : Option α := taken.getLast?.or before

theorem lastTaken_cons (before : Option α) (a : α) (taken : List α) :
    lastTaken before (a :: taken) = lastTaken (some a) taken := by
  cases taken with
  | nil => rfl
  | cons b taken => simp [lastTaken, List.getLast?_cons]

theorem runMany_of_some {before : Option α} {text rest : List α}
    (h : next (lastTaken before (text.takeWhile accepts)) (text.dropWhile accepts) = some rest) :
    Pattern.runMany accepts next before text = some rest := by
  induction text generalizing before with
  | nil => simpa [Pattern.runMany, lastTaken] using h
  | cons a text ih =>
      cases haccepts : accepts a with
      | false => simpa [Pattern.runMany, lastTaken, haccepts] using h
      | true =>
          simp only [List.takeWhile_cons, List.dropWhile_cons, haccepts, if_true] at h
          rw [lastTaken_cons] at h
          simp [Pattern.runMany, haccepts, ih h]

/--
Where no match continues on a unit of the class, the quantifier keeps all it
takes.  What follows may depend on the unit before it.
-/
theorem runMany_of_stop (accepts : α → Bool) (next : Matcher α) {P : Option α → Prop}
    (hP : ∀ a, accepts a = true → P (some a))
    (hstop : ∀ before a rest, P before → accepts a = true → next before (a :: rest) = none)
    {before : Option α} (hbefore : P before) (text : List α) :
    Pattern.runMany accepts next before text =
      next (lastTaken before (text.takeWhile accepts)) (text.dropWhile accepts) := by
  cases hmax : next (lastTaken before (text.takeWhile accepts)) (text.dropWhile accepts) with
  | some rest => exact runMany_of_some hmax
  | none =>
      induction text generalizing before with
      | nil => simpa [Pattern.runMany, lastTaken] using hmax
      | cons a text ih =>
          cases haccepts : accepts a with
          | false => simpa [Pattern.runMany, lastTaken, haccepts] using hmax
          | true =>
              simp only [List.takeWhile_cons, List.dropWhile_cons, haccepts, if_true] at hmax
              rw [lastTaken_cons] at hmax
              have hlong := ih (hP a haccepts) hmax
              have hshort := hstop before a text hbefore haccepts
              simp [Pattern.runMany, haccepts, hlong, hshort]

end

/-! ## Reading a pattern in another alphabet -/

section

variable {α : Type u} {β : Type v} (g : β → α)

/-- The pattern on texts whose units carry more than the units of the pattern. -/
def Pattern.comap (p : Pattern α) : Pattern β := p.map fun accepts => accepts ∘ g

/-- One matcher does on a text what the other does on its image. -/
def Follows (m : Matcher β) (m' : Matcher α) : Prop :=
  ∀ before text, (m before text).map (List.map g) = m' (before.map g) (text.map g)

variable {g}

theorem follows_runMany {next : Matcher β} {next' : Matcher α} (h : Follows g next next')
    (accepts : α → Bool) :
    Follows g (Pattern.runMany (accepts ∘ g) next) (Pattern.runMany accepts next') := by
  intro before text
  induction text generalizing before with
  | nil => exact h before []
  | cons b text ih =>
      simp only [Pattern.runMany, List.map_cons, Function.comp_apply]
      split
      · have hlong := ih (some b)
        have hshort := h before (b :: text)
        simp only [Option.map_some] at hlong
        simp only [List.map_cons] at hshort
        rw [← hlong, ← hshort]
        cases Pattern.runMany (accepts ∘ g) next (some b) text <;> rfl
      · exact h before (b :: text)

theorem follows_run (p : Pattern α) {next : Matcher β} {next' : Matcher α}
    (h : Follows g next next') : Follows g ((p.comap g).run next) (p.run next') := by
  induction p generalizing next next' with
  | nothing => exact h
  | unit accepts =>
      intro before text
      cases text with
      | nil => rfl
      | cons b text =>
          simp only [Pattern.comap, Pattern.map, Pattern.run, List.map_cons, Function.comp_apply]
          split
          · exact h (some b) text
          · rfl
  | optional accepts =>
      intro before text
      cases text with
      | nil => exact h before []
      | cons b text =>
          simp only [Pattern.comap, Pattern.map, Pattern.run, List.map_cons, Function.comp_apply]
          split
          · have hlong := h (some b) text
            have hshort := h before (b :: text)
            simp only [Option.map_some] at hlong
            simp only [List.map_cons] at hshort
            rw [← hlong, ← hshort]
            cases next (some b) text <;> rfl
          · exact h before (b :: text)
  | many accepts => exact follows_runMany h accepts
  | boundary word =>
      intro before text
      have hbefore : before.any (word ∘ g) = (before.map g).any word := by cases before <;> rfl
      have hhead : text.head?.any (word ∘ g) = (text.map g).head?.any word := by
        cases text <;> rfl
      simp only [Pattern.comap, Pattern.map, Pattern.run, hbefore, hhead]
      split
      · exact h before text
      · rfl
  | seq first second ihfirst ihsecond => exact ihfirst (ihsecond h)
  | alt first second ihfirst ihsecond =>
      intro before text
      have hfirst := ihfirst h before text
      have hsecond := ihsecond h before text
      simp only [Pattern.comap] at hfirst hsecond
      simp only [Pattern.comap, Pattern.map, Pattern.run]
      rw [← hfirst, ← hsecond]
      cases (Pattern.map (fun accepts => accepts ∘ g) first).run next before text <;> rfl

theorem follows_matcher (p : Pattern α) : Follows g (p.comap g).matcher p.matcher := by
  apply follows_run
  intro before text
  rfl

end

/-! ## Replacing every match -/

section

variable {α : Type u}

/--
`text.replace(/…/g, marker)`: the matches are looked for in the text itself,
from left to right, each behind the one before it.  The counter says how many
units of a match are still to be passed over.
-/
def replaceFrom (m : Matcher α) (marker : List α) : Nat → Option α → List α → List α
  | 0, before, [] => if (m before []).isSome then marker else []
  | _ + 1, _, [] => []
  | skip + 1, _, a :: text => replaceFrom m marker skip (some a) text
  | 0, before, a :: text =>
      match m before (a :: text) with
      | none => a :: replaceFrom m marker 0 (some a) text
      | some rest =>
          if rest.length ≤ text.length then
            marker ++ replaceFrom m marker (text.length - rest.length) (some a) text
          else marker ++ a :: replaceFrom m marker 0 (some a) text

def Pattern.replaceAll (p : Pattern α) (marker text : List α) : List α :=
  replaceFrom p.matcher marker 0 none text

theorem replaceFrom_follows {β : Type v} {g : β → α} {m : Matcher β} {m' : Matcher α}
    (h : Follows g m m') (marker : List β) (skip : Nat) (before : Option β) (text : List β) :
    (replaceFrom m marker skip before text).map g =
      replaceFrom m' (marker.map g) skip (before.map g) (text.map g) := by
  induction text generalizing skip before with
  | nil =>
      have hend := h before []
      cases skip with
      | zero =>
          simp only [replaceFrom, List.map_nil] at hend ⊢
          rw [← hend]
          cases m before [] <;> simp
      | succ skip => rfl
  | cons b text ih =>
      cases skip with
      | zero =>
          have hmatch := h before (b :: text)
          simp only [List.map_cons] at hmatch
          simp only [replaceFrom, List.map_cons]
          rw [← hmatch]
          cases m before (b :: text) with
          | none => simp [ih]
          | some rest =>
              simp only [Option.map_some, List.length_map]
              split <;> simp [ih]
      | succ skip =>
          simp only [replaceFrom, List.map_cons]
          exact ih skip (some b)

theorem Pattern.replaceAll_comap {β : Type v} (g : β → α) (p : Pattern α)
    (marker text : List β) :
    ((p.comap g).replaceAll marker text).map g = p.replaceAll (marker.map g) (text.map g) :=
  replaceFrom_follows (follows_matcher p) marker 0 none text

end

end DurableRuntime.Foundation
