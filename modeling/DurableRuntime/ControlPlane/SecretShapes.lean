import DurableRuntime.ControlPlane.OperationalText

/-!
# What the secret patterns match

Each pattern as a reader of its own: which units it takes one after another.
No unit that a quantifier takes could be given back to what follows it, so the
first two patterns take the longest runs.  Of the third only the domain has a
choice: it ends with the last top-level domain in its run.

The units are those of any alphabet that the classes can be read in.
-/

namespace DurableRuntime.ControlPlane

open Foundation

/-! ## The classes -/

section

variable {u : CodeUnit}

theorem within_iff {ranges : List (Char × Char)} :
    within ranges u = true ↔
      ∃ range ∈ ranges, range.1.toNat ≤ u.toNat ∧ u.toNat ≤ range.2.toNat := by
  simp [within]

theorem otherCase_toNat (u : CodeUnit) :
    ((97 ≤ u.toNat ∧ u.toNat ≤ 122) ∧ (otherCase u).toNat = u.toNat - 32) ∨
      ((65 ≤ u.toNat ∧ u.toNat ≤ 90) ∧ (otherCase u).toNat = u.toNat + 32) ∨
      (¬ (97 ≤ u.toNat ∧ u.toNat ≤ 122) ∧ ¬ (65 ≤ u.toNat ∧ u.toNat ≤ 90) ∧ otherCase u = u) := by
  have hlt := u.toNat_lt
  unfold otherCase
  split
  · rename_i h
    simp [within] at h
    left
    refine ⟨h, ?_⟩
    rw [UInt16.toNat_ofNat']
    omega
  · rename_i h
    split
    · rename_i h'
      simp [within] at h'
      right; left
      refine ⟨h', ?_⟩
      rw [UInt16.toNat_ofNat']
      omega
    · rename_i h'
      simp [within] at h h'
      right; right
      exact ⟨by omega, by omega, rfl⟩

theorem literal_iff {c : Char} : literal c u = true ↔ u.toNat = c.toNat := by
  simp [literal, within]
  omega

theorem foldedLiteral_iff {c : Char} : ignoreCase (literal c) u = true ↔
    u.toNat = c.toNat ∨ (otherCase u).toNat = c.toNat := by
  unfold ignoreCase
  rw [Bool.or_eq_true, literal_iff, literal_iff]

/-- A class with both cases of its letters is not changed by the flag `i`. -/
theorem ignoreCase_closed {accepts : CodeUnit → Bool}
    (h : ∀ u v : CodeUnit, 65 ≤ u.toNat → u.toNat ≤ 90 → v.toNat = u.toNat + 32 →
      (accepts u = true ↔ accepts v = true)) : ignoreCase accepts = accepts := by
  funext u
  unfold ignoreCase
  rcases otherCase_toNat u with ⟨hlower, heq⟩ | ⟨hupper, heq⟩ | ⟨_, _, heq⟩
  · have hsame := h (otherCase u) u (by omega) (by omega) (by omega)
    rw [Bool.eq_iff_iff.mpr hsame, Bool.or_self]
  · have hsame := h u (otherCase u) hupper.1 hupper.2 heq
    rw [Bool.eq_iff_iff.mpr hsame, Bool.or_self]
  · rw [heq, Bool.or_self]

theorem ignoreCase_wordUnit : ignoreCase wordUnit = wordUnit := by
  apply ignoreCase_closed
  intro u v _ _ _
  simp [wordUnit, within]
  omega

theorem ignoreCase_spaceUnit : ignoreCase spaceUnit = spaceUnit := by
  apply ignoreCase_closed
  intro u v _ _ _
  simp [spaceUnit, spaceRanges, within]
  omega

theorem ignoreCase_tokenUnit : ignoreCase tokenUnit = tokenUnit := by
  apply ignoreCase_closed
  intro u v _ _ _
  simp [tokenUnit, within]
  omega

theorem ignoreCase_valueUnit : ignoreCase valueUnit = valueUnit := by
  apply ignoreCase_closed
  intro u v _ _ _
  simp [valueUnit, spaceRanges, within]
  omega

theorem ignoreCase_separatorUnit : ignoreCase separatorUnit = separatorUnit := by
  apply ignoreCase_closed
  intro u v _ _ _
  simp [separatorUnit, within]
  omega

theorem ignoreCase_joinUnit : ignoreCase joinUnit = joinUnit := by
  apply ignoreCase_closed
  intro u v _ _ _
  simp [joinUnit, within]
  omega

theorem ignoreCase_equals : ignoreCase (literal '=') = literal '=' := by
  apply ignoreCase_closed
  intro u v _ _ _
  simp [literal, within]
  omega

/-- Each range of the one class lies in a range of the other. -/
theorem within_mono {ranges ranges' : List (Char × Char)}
    (h : (ranges.all fun r => ranges'.any fun r' =>
      decide (r'.1.toNat ≤ r.1.toNat ∧ r.2.toNat ≤ r'.2.toNat)) = true)
    (hu : within ranges u = true) : within ranges' u = true := by
  obtain ⟨r, hr, hlow, hhigh⟩ := within_iff.mp hu
  obtain ⟨r', hr', hinside⟩ := List.any_eq_true.mp (List.all_eq_true.mp h r hr)
  have hbounds := of_decide_eq_true hinside
  exact within_iff.mpr ⟨r', hr', by omega, by omega⟩

/-- No range of the one class meets a range of the other. -/
theorem within_apart {ranges ranges' : List (Char × Char)}
    (h : (ranges.all fun r => ranges'.all fun r' =>
      decide (r.2.toNat < r'.1.toNat ∨ r'.2.toNat < r.1.toNat)) = true)
    (hu : within ranges u = true) : within ranges' u = false := by
  obtain ⟨r, hr, hlow, hhigh⟩ := within_iff.mp hu
  rw [Bool.eq_false_iff]
  intro hu'
  obtain ⟨r', hr', hlow', hhigh'⟩ := within_iff.mp hu'
  have hbounds := of_decide_eq_true (List.all_eq_true.mp (List.all_eq_true.mp h r hr) r' hr')
  omega

theorem space_not_token (h : spaceUnit u = true) : tokenUnit u = false :=
  within_apart (by decide) h

theorem space_not_separator (h : spaceUnit u = true) : separatorUnit u = false :=
  within_apart (by decide) h

theorem space_not_value (h : spaceUnit u = true) : valueUnit u = false := by
  rw [valueUnit, within_mono (by decide) h]
  rfl

theorem local_not_at (h : localUnit u = true) : literal '@' u = false :=
  within_apart (by decide) h

theorem letter_word (h : letterUnit u = true) : wordUnit u = true :=
  within_mono (by decide) h

theorem join_not_key (h : joinUnit u = true) : ignoreCase (literal 'k') u = false := by
  simp [joinUnit, within] at h
  simp [ignoreCase, literal, within]
  rcases otherCase_toNat u with ⟨_, heq⟩ | ⟨_, heq⟩ | ⟨_, _, heq⟩
  · omega
  · omega
  · rw [heq]
    omega

/-- Literals of different letters accept different units. -/
theorem foldedLiteral_ne {c d : Char} (hc : 97 ≤ c.toNat ∧ c.toNat ≤ 122)
    (hd : 97 ≤ d.toNat ∧ d.toNat ≤ 122) (hne : c.toNat ≠ d.toNat)
    (h : ignoreCase (literal c) u = true) : ignoreCase (literal d) u = false := by
  rw [foldedLiteral_iff] at h
  rw [Bool.eq_false_iff, Ne, foldedLiteral_iff]
  rcases otherCase_toNat u with ⟨_, heq⟩ | ⟨_, heq⟩ | ⟨_, _, heq⟩
  · omega
  · omega
  · rw [heq] at h ⊢
    omega

end

/-! ## Reading the classes in an alphabet -/

section

variable {α : Type}

/-- An alphabet in which the classes can be read: with their inclusions and exclusions. -/
structure Reading (read : (CodeUnit → Bool) → α → Bool) : Prop where
  mono : ∀ {accepts accepts' : CodeUnit → Bool} {a : α},
    (∀ u, accepts u = true → accepts' u = true) → read accepts a = true → read accepts' a = true
  apart : ∀ {accepts accepts' : CodeUnit → Bool} {a : α},
    (∀ u, accepts u = true → accepts' u = false) → read accepts a = true → read accepts' a = false

variable (read : (CodeUnit → Bool) → α → Bool)

/-- The text starts with a unit of the class. -/
def opens (accepts : CodeUnit → Bool) (text : List α) : Bool := text.head?.any (read accepts)

def onBoundary (before : Option α) (text : List α) : Bool :=
  before.any (read wordUnit) != opens read wordUnit text

/-- `[…]*` -/
def passMany (accepts : CodeUnit → Bool) (text : List α) : List α := text.dropWhile (read accepts)

/-- `[…]` -/
def passUnit (accepts : CodeUnit → Bool) : List α → Option (List α)
  | [] => none
  | a :: text => if read accepts a then some text else none

/-- `[…]+` -/
def passSome (accepts : CodeUnit → Bool) (text : List α) : Option (List α) :=
  (passUnit read accepts text).map (passMany read accepts)

/-- Letters of either case. -/
def passLetters : List Char → List α → Option (List α)
  | [], text => some text
  | c :: letters, text => (passUnit read (ignoreCase (literal c)) text).bind (passLetters letters)

/-- `[_-]?` -/
def passJoin (text : List α) : List α := (passUnit read joinUnit text).getD text

def passKeyword (text : List α) : Option (List α) :=
  (((passLetters read ['a', 'p', 'i'] text).map (passJoin read)).bind
      (passLetters read ['k', 'e', 'y'])).or
    ((passLetters read ['t', 'o', 'k', 'e', 'n'] text).or
      ((passLetters read ['p', 'a', 's', 's', 'w', 'o', 'r', 'd'] text).or
        (passLetters read ['c', 'r', 'e', 'd', 'e', 'n', 't', 'i', 'a', 'l'] text)))

def passBearer (text : List α) : Option (List α) :=
  (((passLetters read ['B', 'e', 'a', 'r', 'e', 'r'] text).bind (passSome read spaceUnit)).bind
    (passSome read tokenUnit)).map (passMany read (literal '='))

/-- A keyword, the separator and the white space around it. -/
def passHead (text : List α) : Option (List α) :=
  (((passKeyword read text).map (passMany read spaceUnit)).bind
    (passUnit read separatorUnit)).map (passMany read spaceUnit)

def passAssignment (text : List α) : Option (List α) :=
  (passHead read text).bind (passSome read valueUnit)

/-- A dot, two or more letters, and a word boundary behind them. -/
def passTopLevel (text : List α) : Option (List α) :=
  (((passUnit read (literal '.') text).bind (passUnit read letterUnit)).bind
    (passSome read letterUnit)).bind fun rest =>
      if opens read wordUnit rest then none else some rest

/-- The rest of a domain: the last top-level domain that its run holds. -/
def passDomain : List α → Option (List α)
  | [] => none
  | a :: text =>
      if read domainUnit a then (passDomain text).or (passTopLevel read (a :: text))
      else passTopLevel read (a :: text)

def passAddress (text : List α) : Option (List α) :=
  (((passSome read localUnit text).bind (passUnit read (literal '@'))).bind
    (passUnit read domainUnit)).bind (passDomain read)

/-- A reader that starts at a word boundary. -/
def atBoundary (pass : List α → Option (List α)) : Matcher α := fun before text =>
  if onBoundary read before text then pass text else none

end

/-! ## The patterns are these readers -/

section

variable {α : Type} {read : (CodeUnit → Bool) → α → Bool} {accepts : CodeUnit → Bool}
  {f : List α → Option (List α)}

/-- A continuation that does not look at the unit before it. -/
def blind (f : List α → Option (List α)) : Matcher α := fun _ text => f text

theorem run_unit (read : (CodeUnit → Bool) → α → Bool) (accepts : CodeUnit → Bool) :
    (Pattern.unit (read accepts)).run (blind f) =
    blind fun text => (passUnit read accepts text).bind f := by
  funext before text
  cases text with
  | nil => rfl
  | cons a text =>
      simp only [Pattern.run, blind, passUnit]
      split <;> rfl

theorem run_boundary : (Pattern.boundary (read wordUnit)).run (blind f) = atBoundary read f := rfl

theorem run_letters (read : (CodeUnit → Bool) → α → Bool)
    (letters : List Char) :
    (((spell letters).map ignoreCase).map read).run (blind f) =
      blind fun text => (passLetters read letters text).bind f := by
  induction letters with
  | nil => rfl
  | cons c letters ih =>
      have hrest := run_unit read (ignoreCase (literal c))
        (f := fun text => (passLetters read letters text).bind f)
      have hsplit : (((spell (c :: letters)).map ignoreCase).map read).run (blind f) =
          (Pattern.unit (read (ignoreCase (literal c)))).run
            ((((spell letters).map ignoreCase).map read).run (blind f)) := rfl
      rw [hsplit, ih, hrest]
      simp only [passLetters, Option.bind_assoc]

theorem run_many_of_stop (read : (CodeUnit → Bool) → α → Bool)
    (accepts : CodeUnit → Bool) (hstop : ∀ a text, read accepts a = true → f (a :: text) = none) :
    (Pattern.many (read accepts)).run (blind f) =
      blind fun text => f (passMany read accepts text) := by
  funext before text
  exact runMany_of_stop (read accepts) (blind f) (P := fun _ => True) (fun _ _ => trivial)
    (fun _ a text _ ha => hstop a text ha) trivial text

theorem run_many_of_some (read : (CodeUnit → Bool) → α → Bool)
    (accepts : CodeUnit → Bool) (hsome : ∀ text, (f text).isSome) :
    (Pattern.many (read accepts)).run (blind f) =
      blind fun text => f (passMany read accepts text) := by
  funext before text
  obtain ⟨rest, hrest⟩ := Option.isSome_iff_exists.mp (hsome (passMany read accepts text))
  simp only [Pattern.run, blind, hrest]
  exact runMany_of_some hrest

theorem run_oneOrMore {g : List α → Option (List α)}
    (hmany : (Pattern.many (read accepts)).run (blind f) = blind g) :
    (Pattern.oneOrMore (read accepts)).run (blind f) =
      blind fun text => (passUnit read accepts text).bind g := by
  have hunit := run_unit read accepts (f := g)
  simp only [Pattern.oneOrMore, Pattern.run_seq]
  rw [hmany, hunit]

/-- `[…]+` where the run ends as `[…]*` does. -/
theorem run_some
    (hmany : (Pattern.many (read accepts)).run (blind f) =
      blind fun text => f (passMany read accepts text)) :
    (Pattern.oneOrMore (read accepts)).run (blind f) =
      blind fun text => (passSome read accepts text).bind f := by
  rw [run_oneOrMore hmany]
  funext before text
  simp only [blind, passSome]
  cases passUnit read accepts text <;> rfl

theorem passUnit_none (hread : Reading read) {accepts' : CodeUnit → Bool}
    (hapart : ∀ u, accepts u = true → accepts' u = false) {a : α} (ha : read accepts a = true)
    (text : List α) : passUnit read accepts' (a :: text) = none := by
  have hnot : read accepts' a = false := hread.apart hapart ha
  simp [passUnit, hnot]

theorem passSome_none (hread : Reading read) {accepts' : CodeUnit → Bool}
    (hapart : ∀ u, accepts u = true → accepts' u = false) {a : α} (ha : read accepts a = true)
    (text : List α) : passSome read accepts' (a :: text) = none := by
  simp [passSome, passUnit_none hread hapart ha]

theorem bearerPattern_matcher (hread : Reading read) :
    (bearerPattern.map read).matcher = atBoundary read (passBearer read) := by
  have hequals := run_many_of_some read (literal '=') (f := some)
    (fun _ => rfl)
  have htoken := run_some (run_many_of_some read tokenUnit
    (f := fun text => some (passMany read (literal '=') text)) (fun _ => rfl))
  have hspace := run_some (run_many_of_stop read spaceUnit
    (f := fun text => (passSome read tokenUnit text).bind fun rest =>
      some (passMany read (literal '=') rest))
    (fun a text ha => by
      simp [passSome_none hread (fun _ => space_not_token) ha]))
  have hletters := run_letters read
    (f := fun text => (passSome read spaceUnit text).bind fun rest =>
      (passSome read tokenUnit rest).bind fun rest =>
        some (passMany read (literal '=') rest)) ['B', 'e', 'a', 'r', 'e', 'r']
  have haccept : (Pattern.accept : Matcher α) = blind some := rfl
  simp only [bearerPattern, Pattern.all, Pattern.map, Pattern.map_oneOrMore, Pattern.matcher,
    Pattern.run_seq, Pattern.run_nothing, ignoreCase_wordUnit, ignoreCase_spaceUnit,
    ignoreCase_tokenUnit, ignoreCase_equals, haccept]
  rw [hequals, htoken, hspace, hletters, run_boundary]
  congr 1
  funext text
  simp only [passBearer, Option.bind_assoc, Option.map_eq_bind, Function.comp_def]

theorem run_optional (read : (CodeUnit → Bool) → α → Bool)
    (accepts : CodeUnit → Bool) (hstop : ∀ a text, read accepts a = true → f (a :: text) = none) :
    (Pattern.optional (read accepts)).run (blind f) =
      blind fun text => f ((passUnit read accepts text).getD text) := by
  funext before text
  cases text with
  | nil => rfl
  | cons a text =>
      cases ha : read accepts a with
      | false => simp [Pattern.run, blind, passUnit, ha]
      | true => simp [Pattern.run, blind, passUnit, ha, hstop a text ha]

/-- Two words with different first letters are not both spelled. -/
theorem passLetters_apart (hread : Reading read) {c d : Char}
    (hapart : ∀ u, ignoreCase (literal c) u = true → ignoreCase (literal d) u = false)
    (letters letters' : List Char) (text : List α) :
    passLetters read (c :: letters) text = none ∨ passLetters read (d :: letters') text = none := by
  cases text with
  | nil => exact Or.inl rfl
  | cons a text =>
      cases ha : read (ignoreCase (literal c)) a with
      | false => simp [passLetters, passUnit, ha]
      | true =>
          right
          simp [passLetters, passUnit_none hread hapart ha]

theorem or_bind_of_apart {β γ : Type} {o o' : Option β} (hapart : o = none ∨ o' = none)
    (g : β → Option γ) : (o.bind g).or (o'.bind g) = (o.or o').bind g := by
  cases o with
  | none => rfl
  | some b =>
      have hnone : o' = none := by simpa using hapart
      simp [hnone]

theorem or_none_of_apart {β : Type} {o o' o'' : Option β} (h : o = none ∨ o' = none)
    (h' : o = none ∨ o'' = none) : o = none ∨ o'.or o'' = none := by
  cases o with
  | none => exact Or.inl rfl
  | some b => simp_all

theorem run_keyword (hread : Reading read) :
    ((keywordPattern.map ignoreCase).map read).run (blind f) =
      blind fun text => (passKeyword read text).bind f := by
  have hkey := run_letters read (f := f) ['k', 'e', 'y']
  have hjoin := run_optional read joinUnit
    (f := fun text => (passLetters read ['k', 'e', 'y'] text).bind f)
    (fun a text ha => by simp [passLetters, passUnit_none hread (fun _ => join_not_key) ha])
  have hapi := run_letters read
    (f := fun text => (passLetters read ['k', 'e', 'y'] (passJoin read text)).bind f)
    ['a', 'p', 'i']
  have htoken := run_letters read (f := f) ['t', 'o', 'k', 'e', 'n']
  have hpassword := run_letters read (f := f) ['p', 'a', 's', 's', 'w', 'o', 'r', 'd']
  have hcredential := run_letters read (f := f)
    ['c', 'r', 'e', 'd', 'e', 'n', 't', 'i', 'a', 'l']
  simp only [keywordPattern, Pattern.all, Pattern.map, Pattern.run, ignoreCase_joinUnit]
    at hkey hjoin hapi htoken hpassword hcredential ⊢
  rw [hkey, hjoin, htoken, hpassword, hcredential]
  have hstart : (fun text => (passLetters read ['k', 'e', 'y']
      ((passUnit read joinUnit text).getD text)).bind f) =
      fun text => (passLetters read ['k', 'e', 'y'] (passJoin read text)).bind f := rfl
  rw [hstart, hapi]
  funext before text
  have hfirst : ∀ c d : Char, 97 ≤ c.toNat ∧ c.toNat ≤ 122 → 97 ≤ d.toNat ∧ d.toNat ≤ 122 →
      c.toNat ≠ d.toNat → ∀ letters letters',
      passLetters read (c :: letters) text = none ∨ passLetters read (d :: letters') text = none :=
    fun c d hc hd hne letters letters' =>
      passLetters_apart hread (fun u => foldedLiteral_ne hc hd hne) letters letters' text
  have hapiNone : ∀ letters letters' : List Char, ∀ d : Char, 97 ≤ d.toNat ∧ d.toNat ≤ 122 →
      97 ≠ d.toNat →
      ((passLetters read ('a' :: letters) text).map (passJoin read)).bind
          (passLetters read ['k', 'e', 'y']) = none ∨
        passLetters read (d :: letters') text = none := by
    intro letters letters' d hd hne
    rcases hfirst 'a' d (by decide) hd hne letters letters' with h | h
    · exact Or.inl (by simp [h])
    · exact Or.inr h
  have hpc := hfirst 'p' 'c' (by decide) (by decide) (by decide)
    ['a', 's', 's', 'w', 'o', 'r', 'd'] ['r', 'e', 'd', 'e', 'n', 't', 'i', 'a', 'l']
  have htp := hfirst 't' 'p' (by decide) (by decide) (by decide)
    ['o', 'k', 'e', 'n'] ['a', 's', 's', 'w', 'o', 'r', 'd']
  have htc := hfirst 't' 'c' (by decide) (by decide) (by decide)
    ['o', 'k', 'e', 'n'] ['r', 'e', 'd', 'e', 'n', 't', 'i', 'a', 'l']
  have hat := hapiNone ['p', 'i'] ['o', 'k', 'e', 'n'] 't' (by decide) (by decide)
  have hap := hapiNone ['p', 'i'] ['a', 's', 's', 'w', 'o', 'r', 'd'] 'p' (by decide) (by decide)
  have hac := hapiNone ['p', 'i'] ['r', 'e', 'd', 'e', 'n', 't', 'i', 'a', 'l'] 'c' (by decide)
    (by decide)
  have htail := or_none_of_apart htp htc
  have hall := or_none_of_apart hat (or_none_of_apart hap hac)
  simp only [blind, passKeyword]
  rw [or_bind_of_apart hpc, or_bind_of_apart htail, ← or_bind_of_apart hall]
  simp only [Option.bind_assoc, Option.map_eq_bind, Function.comp_def, Option.bind_some]

theorem assignmentPattern_matcher (hread : Reading read) :
    (assignmentPattern.map read).matcher = atBoundary read (passAssignment read) := by
  have hvalue := run_some (run_many_of_some read valueUnit (f := some)
    (fun _ => rfl))
  have hspace := run_many_of_stop read spaceUnit
    (f := fun text => (passSome read valueUnit text).bind some)
    (fun a text ha => by simp [passSome_none hread (fun _ => space_not_value) ha])
  have hseparator := run_unit read separatorUnit
    (f := fun text => (passSome read valueUnit (passMany read spaceUnit text)).bind some)
  have hspace' := run_many_of_stop read spaceUnit
    (f := fun text => (passUnit read separatorUnit text).bind fun rest =>
      (passSome read valueUnit (passMany read spaceUnit rest)).bind some)
    (fun a text ha => by simp [passUnit_none hread (fun _ => space_not_separator) ha])
  have hkeyword := run_keyword hread
    (f := fun text => (passUnit read separatorUnit (passMany read spaceUnit text)).bind fun rest =>
      (passSome read valueUnit (passMany read spaceUnit rest)).bind some)
  have haccept : (Pattern.accept : Matcher α) = blind some := rfl
  simp only [assignmentPattern, Pattern.all, Pattern.map, Pattern.map_oneOrMore, Pattern.matcher,
    Pattern.run_seq, Pattern.run_nothing, ignoreCase_wordUnit, ignoreCase_spaceUnit,
    ignoreCase_separatorUnit, ignoreCase_valueUnit, haccept]
  rw [hvalue, hspace, hseparator, hspace', hkeyword, run_boundary]
  congr 1
  funext text
  simp only [passAssignment, passHead, Option.bind_assoc, Option.map_eq_bind, Function.comp_def,
    Option.bind_some, Option.bind_fun_some]

/-- Letters up to a word boundary: all that there are. -/
theorem run_lastLetters (hread : Reading read) :
    (Pattern.oneOrMore (read letterUnit)).run
        ((Pattern.boundary (read wordUnit)).run Pattern.accept) =
      blind fun text => (passSome read letterUnit text).bind fun rest =>
        if opens read wordUnit rest then none else some rest := by
  funext before text
  cases text with
  | nil => rfl
  | cons a text =>
      cases ha : read letterUnit a with
      | false => simp [Pattern.oneOrMore, Pattern.run, blind, passSome, passUnit, ha]
      | true =>
          have hword : ∀ b, read letterUnit b = true → (some b).any (read wordUnit) = true :=
            fun b hb => hread.mono (fun _ => letter_word) hb
          have hmany := runMany_of_stop (read letterUnit)
            ((Pattern.boundary (read wordUnit)).run Pattern.accept)
            (P := fun b => b.any (read wordUnit) = true) hword
            (fun before b rest hbefore hb => by
              have hb' := hword b hb
              simp only [Option.any_some] at hb'
              simp [Pattern.run, hbefore, hb'])
            (hword a ha) text
          have hlast : (lastTaken (some a) (text.takeWhile (read letterUnit))).any
              (read wordUnit) = true := by
            unfold lastTaken
            cases hlast : (text.takeWhile (read letterUnit)).getLast? with
            | none => exact hword a ha
            | some b =>
                have hall := List.all_takeWhile (p := read letterUnit) (l := text)
                exact hword b (List.all_eq_true.mp hall b (List.mem_of_getLast? hlast))
          simp only [Pattern.oneOrMore, Pattern.run, ha, if_true] at hmany ⊢
          rw [hmany, hlast]
          simp only [blind, passSome, passUnit, ha, passMany, opens, Pattern.accept, if_true,
            Option.map_some, Option.bind_some]
          by_cases hopens : (text.dropWhile (read letterUnit)).head?.any (read wordUnit) = true
          · simp [hopens]
          · simp [hopens]

theorem run_domain (read : (CodeUnit → Bool) → α → Bool) :
    (Pattern.many (read domainUnit)).run (blind (passTopLevel read)) = blind (passDomain read) := by
  funext before text
  simp only [Pattern.run, blind]
  induction text generalizing before with
  | nil => rfl
  | cons a text ih =>
      simp only [Pattern.runMany, passDomain]
      split
      · rw [ih (some a)]
        rfl
      · rfl

theorem addressPattern_matcher (hread : Reading read) :
    (addressPattern.map read).matcher = atBoundary read (passAddress read) := by
  have hlast := run_lastLetters hread
  have hletter := run_unit read letterUnit
    (f := fun text => (passSome read letterUnit text).bind fun rest =>
      if opens read wordUnit rest then none else some rest)
  have hdot := run_unit read (literal '.')
    (f := fun text => (passUnit read letterUnit text).bind fun text =>
      (passSome read letterUnit text).bind fun rest =>
        if opens read wordUnit rest then none else some rest)
  have htop : (fun text => (passUnit read (literal '.') text).bind fun text =>
      (passUnit read letterUnit text).bind fun text =>
        (passSome read letterUnit text).bind fun rest =>
          if opens read wordUnit rest then none else some rest) = passTopLevel read := by
    funext text
    simp [passTopLevel, Option.bind_assoc]
  have hdomain := run_domain read
  have hat := run_unit read (literal '@')
    (f := fun text => (passUnit read domainUnit text).bind (passDomain read))
  have hlocal := run_some (run_many_of_stop read localUnit
    (f := fun text => (passUnit read (literal '@') text).bind fun rest =>
      (passUnit read domainUnit rest).bind (passDomain read))
    (fun a text ha => by simp [passUnit_none hread (fun _ => local_not_at) ha]))
  rw [htop] at hdot
  have hdomains := run_oneOrMore hdomain
  simp only [addressPattern, Pattern.all, Pattern.map, Pattern.map_oneOrMore, Pattern.matcher,
    Pattern.run_seq, Pattern.run_nothing]
  rw [hlast, hletter, hdot, hdomains, hat, hlocal, run_boundary]
  congr 1
  funext text
  simp [passAddress, Option.bind_assoc]

end

end DurableRuntime.ControlPlane
