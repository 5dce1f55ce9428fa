import DurableRuntime.ControlPlane.SecretShapes
import DurableRuntime.Foundation.Rendering
import Mathlib.Tactic.IntervalCases

/-!
# Redaction as blanking

The marker `[REDACTED]` stands apart from the secret patterns: no match starts
in it, and each class takes all of it or stops in front of it.  So replacing
the matches of a pattern is blanking them.
-/

namespace DurableRuntime.ControlPlane

open Foundation

/-! ## The classes and the marker -/

/-- The class takes the whole marker or none of it. -/
def Uniform (accepts : CodeUnit → Bool) : Prop :=
  redactedMarker.all accepts = true ∨ redactedMarker.head?.any accepts = false

section

variable {τ : Type} (unit : τ → CodeUnit) (marker : List τ)

/-- The classes on units that carry a code unit. -/
def unitRead (accepts : CodeUnit → Bool) (a : τ) : Bool := accepts (unit a)

/-- The classes on cells of such units. -/
def cellRead (accepts : CodeUnit → Bool) : Cell τ → Bool :=
  Cell.reads marker (unitRead unit accepts)

theorem reading_unitRead : Reading (unitRead unit) := by
  constructor
  · intro accepts accepts' a h ha
    exact h (unit a) ha
  · intro accepts accepts' a h ha
    exact h (unit a) ha

variable {unit marker}

theorem all_unitRead (hmarker : marker.map unit = redactedMarker) (accepts : CodeUnit → Bool) :
    marker.all (unitRead unit accepts) = redactedMarker.all accepts := by
  rw [← hmarker, List.all_map]
  rfl

theorem cellRead_blank (hmarker : marker.map unit = redactedMarker) (accepts : CodeUnit → Bool)
    {c : Cell τ} (hc : c.unit? = none) :
    cellRead unit marker accepts c = redactedMarker.all accepts := by
  cases c with
  | kept a => cases hc
  | marked => exact all_unitRead hmarker accepts
  | hidden => exact all_unitRead hmarker accepts

theorem reading_cellRead (hmarker : marker.map unit = redactedMarker) :
    Reading (cellRead unit marker) := by
  constructor
  · intro accepts accepts' c h hc
    cases hkept : c.unit? with
    | some a =>
        cases c with
        | kept a => exact h (unit a) hc
        | marked => cases hkept
        | hidden => cases hkept
    | none =>
        rw [cellRead_blank hmarker _ hkept] at hc ⊢
        rw [List.all_eq_true] at hc ⊢
        exact fun u hu => h u (hc u hu)
  · intro accepts accepts' c h hc
    cases hkept : c.unit? with
    | some a =>
        cases c with
        | kept a => exact h (unit a) hc
        | marked => cases hkept
        | hidden => cases hkept
    | none =>
        rw [cellRead_blank hmarker _ hkept] at hc ⊢
        rw [List.all_eq_true] at hc
        have hmem : (91 : CodeUnit) ∈ redactedMarker := by decide
        rw [List.all_eq_false]
        exact ⟨91, hmem, by simp [h 91 (hc 91 hmem)]⟩

/-! ## Readers on the text that cells stand for -/

/-- A reader of texts and one of cells do the same. -/
def Commutes (marker : List τ) (f : List τ → Option (List τ))
    (f' : List (Cell τ) → Option (List (Cell τ))) : Prop :=
  ∀ cells, Solid false cells → f (render marker cells) = (f' cells).map (render marker) ∧
    ∀ rest, f' cells = some rest → Solid false rest

theorem Commutes.bind {f g : List τ → Option (List τ)}
    {f' g' : List (Cell τ) → Option (List (Cell τ))} (hf : Commutes marker f f')
    (hg : Commutes marker g g') :
    Commutes marker (fun text => (f text).bind g) (fun cells => (f' cells).bind g') := by
  intro cells hsolid
  obtain ⟨hsame, hrest⟩ := hf cells hsolid
  cases hmatch : f' cells with
  | none => simp [hsame, hmatch]
  | some rest =>
      obtain ⟨hnext, hlast⟩ := hg rest (hrest rest hmatch)
      simp only [hsame, hmatch, Option.map_some, Option.bind_some]
      exact ⟨hnext, hlast⟩

theorem Commutes.or {f g : List τ → Option (List τ)}
    {f' g' : List (Cell τ) → Option (List (Cell τ))} (hf : Commutes marker f f')
    (hg : Commutes marker g g') :
    Commutes marker (fun text => (f text).or (g text)) (fun cells => (f' cells).or (g' cells)) := by
  intro cells hsolid
  obtain ⟨hsame, hrest⟩ := hf cells hsolid
  obtain ⟨hsame', hrest'⟩ := hg cells hsolid
  simp only [hsame, hsame']
  constructor
  · cases f' cells <;> rfl
  · intro rest hor
    rcases Option.or_eq_some_iff.mp hor with h | ⟨_, h⟩
    · exact hrest rest h
    · exact hrest' rest h

theorem Commutes.map {f : List τ → Option (List τ)} {f' : List (Cell τ) → Option (List (Cell τ))}
    {g : List τ → List τ} {g' : List (Cell τ) → List (Cell τ)} (hf : Commutes marker f f')
    (hg : Commutes marker (fun text => some (g text)) (fun cells => some (g' cells))) :
    Commutes marker (fun text => (f text).map g) (fun cells => (f' cells).map g') := by
  have hbind := hf.bind hg
  simpa only [Option.map_eq_bind, Function.comp_def] using hbind

section

variable (hmarker : marker.map unit = redactedMarker) {accepts : CodeUnit → Bool}

include hmarker

theorem marker_cons : ∃ a last, marker = a :: last ∧ unit a = 91 := by
  cases marker with
  | nil => cases hmarker
  | cons a last =>
      refine ⟨a, last, rfl, ?_⟩
      have hhead := congrArg List.head? hmarker
      simpa [redactedMarker, codeUnits] using hhead

theorem opens_render (accepts : CodeUnit → Bool) (huniform : Uniform accepts)
    {cells : List (Cell τ)}
    (hsolid : Solid false cells) :
    opens (unitRead unit) accepts (render marker cells) =
      opens (cellRead unit marker) accepts cells := by
  cases cells with
  | nil => rfl
  | cons c cells =>
      cases c with
      | kept a => rfl
      | marked =>
          obtain ⟨a, last, hcons, ha⟩ := marker_cons hmarker
          have hblank := cellRead_blank hmarker accepts (c := .marked) rfl
          simp only [opens, List.head?_cons, Option.any_some, hblank, render_marked]
          rw [hcons, List.cons_append, List.head?_cons, Option.any_some, unitRead, ha]
          rcases huniform with hall | hnone
          · rw [hall]
            exact List.all_eq_true.mp hall 91 (by decide)
          · have hhead : accepts 91 = false := hnone
            rw [hhead]
            symm
            rw [List.all_eq_false]
            exact ⟨91, by decide, by simp [hhead]⟩
      | hidden => cases hsolid.1

/-- A class that stops in front of the marker. -/
theorem reads_marked (accepts : CodeUnit → Bool)
    (hstops : redactedMarker.head?.any accepts = false) :
    cellRead unit marker accepts .marked = false := by
  rw [cellRead_blank hmarker accepts rfl, List.all_eq_false]
  have hhead : accepts 91 = false := hstops
  exact ⟨91, by decide, by simp [hhead]⟩

theorem reads_markerHead (accepts : CodeUnit → Bool)
    (hstops : redactedMarker.head?.any accepts = false) (rest : List τ) :
    ∃ a text, marker ++ rest = a :: text ∧ unitRead unit accepts a = false := by
  obtain ⟨a, last, hcons, ha⟩ := marker_cons hmarker
  refine ⟨a, last ++ rest, by rw [hcons, List.cons_append], ?_⟩
  rw [unitRead, ha]
  exact hstops

theorem commutes_passUnit (accepts : CodeUnit → Bool)
    (hstops : redactedMarker.head?.any accepts = false) :
    Commutes marker (passUnit (unitRead unit) accepts)
      (passUnit (cellRead unit marker) accepts) := by
  intro cells hsolid
  cases cells with
  | nil => exact ⟨rfl, by simp [passUnit]⟩
  | cons c cells =>
      cases c with
      | kept a =>
          have hread : cellRead unit marker accepts (.kept a) = unitRead unit accepts a := rfl
          simp only [passUnit, render_kept, hread]
          split
          · refine ⟨rfl, ?_⟩
            intro rest hrest
            cases hrest
            exact hsolid
          · exact ⟨rfl, by simp⟩
      | marked =>
          obtain ⟨a, text, htext, ha⟩ :=
            reads_markerHead hmarker accepts hstops (render marker cells)
          simp [passUnit, htext, ha, reads_marked hmarker accepts hstops]
      | hidden => cases hsolid.1

/-- Runs of a class that takes the whole marker go on behind it. -/
theorem dropWhile_render_of_all (hall : redactedMarker.all accepts = true)
    {cells : List (Cell τ)} {blank : Bool} (hsolid : Solid blank cells) :
    passMany (unitRead unit) accepts (render marker cells) =
        render marker (passMany (cellRead unit marker) accepts cells) ∧
      Solid false (passMany (cellRead unit marker) accepts cells) := by
  induction cells generalizing blank with
  | nil => exact ⟨rfl, trivial⟩
  | cons c cells ih =>
      cases c with
      | kept a =>
          have hread : cellRead unit marker accepts (.kept a) = unitRead unit accepts a := rfl
          simp only [passMany, render_kept, List.dropWhile_cons, hread]
          split
          · have hrest : Solid false cells := hsolid
            exact ih hrest
          · exact ⟨rfl, hsolid⟩
      | marked =>
          have hread := (cellRead_blank hmarker accepts (c := .marked) rfl).trans hall
          have htakes : ∀ a ∈ marker, unitRead unit accepts a = true :=
            List.all_eq_true.mp ((all_unitRead hmarker accepts).trans hall)
          have hmarked : Solid true cells := hsolid
          obtain ⟨hrest, hnext⟩ := ih hmarked
          simp only [passMany] at hrest hnext
          simp only [passMany, render_marked, List.dropWhile_cons, hread, if_true]
          refine ⟨?_, hnext⟩
          rw [List.dropWhile_append_of_pos htakes]
          exact hrest
      | hidden =>
          have hread := (cellRead_blank hmarker accepts (c := .hidden) rfl).trans hall
          obtain ⟨hrest, hnext⟩ := ih hsolid.2
          simp only [passMany] at hrest hnext
          simp only [passMany, render_hidden, List.dropWhile_cons, hread, if_true]
          exact ⟨hrest, hnext⟩

/-- Runs of a class that stops in front of the marker. -/
theorem commutes_passMany (accepts : CodeUnit → Bool)
    (hstops : redactedMarker.head?.any accepts = false) :
    Commutes marker (fun text => some (passMany (unitRead unit) accepts text))
      (fun cells => some (passMany (cellRead unit marker) accepts cells)) := by
  intro cells hsolid
  simp only [Option.map_some, Option.some.injEq]
  suffices h : passMany (unitRead unit) accepts (render marker cells) =
        render marker (passMany (cellRead unit marker) accepts cells) ∧
      Solid false (passMany (cellRead unit marker) accepts cells) by
    exact ⟨h.1, fun rest hrest => hrest ▸ h.2⟩
  induction cells with
  | nil => exact ⟨rfl, trivial⟩
  | cons c cells ih =>
      cases c with
      | kept a =>
          have hread : cellRead unit marker accepts (.kept a) = unitRead unit accepts a := rfl
          simp only [passMany, render_kept, List.dropWhile_cons, hread]
          split
          · exact ih hsolid
          · exact ⟨rfl, hsolid⟩
      | marked =>
          obtain ⟨a, text, htext, ha⟩ :=
            reads_markerHead hmarker accepts hstops (render marker cells)
          simp only [passMany, render_marked, htext, List.dropWhile_cons, ha,
            reads_marked hmarker accepts hstops]
          exact ⟨htext.symm, hsolid⟩
      | hidden => cases hsolid.1

theorem commutes_passSome (accepts : CodeUnit → Bool)
    (hstops : redactedMarker.head?.any accepts = false) :
    Commutes marker (passSome (unitRead unit) accepts) (passSome (cellRead unit marker) accepts) :=
  (commutes_passUnit hmarker accepts hstops).map (commutes_passMany hmarker accepts hstops)

theorem commutes_passSome_of_all (accepts : CodeUnit → Bool)
    (hall : redactedMarker.all accepts = true) :
    Commutes marker (passSome (unitRead unit) accepts)
      (passSome (cellRead unit marker) accepts) := by
  intro cells hsolid
  have hrun := dropWhile_render_of_all hmarker hall hsolid
  -- a run that is not empty is what its class drops
  have hdrop : ∀ {α : Type} {read : (CodeUnit → Bool) → α → Bool} (text : List α),
      passSome read accepts text =
        if opens read accepts text then some (passMany read accepts text) else none := by
    intro α read text
    cases text with
    | nil => rfl
    | cons a text =>
        cases ha : read accepts a <;> simp [passSome, passUnit, passMany, opens, ha]
  rw [hdrop, hdrop, opens_render hmarker accepts (Or.inl hall) hsolid]
  split
  · simp only [Option.map_some, Option.some.injEq]
    exact ⟨hrun.1, fun rest hrest => hrest ▸ hrun.2⟩
  · exact ⟨rfl, by simp⟩

theorem commutes_passLetters (letters : List Char)
    (hstops : (letters.all fun c => !redactedMarker.head?.any (ignoreCase (literal c))) = true) :
    Commutes marker (passLetters (unitRead unit) letters)
      (passLetters (cellRead unit marker) letters) := by
  induction letters with
  | nil =>
      intro cells hsolid
      exact ⟨rfl, fun rest hrest => Option.some.inj hrest ▸ hsolid⟩
  | cons c letters ih =>
      rw [List.all_cons, Bool.and_eq_true, Bool.not_eq_true'] at hstops
      have hfirst := commutes_passUnit hmarker (ignoreCase (literal c)) hstops.1
      exact hfirst.bind (ih hstops.2)

theorem commutes_passJoin :
    Commutes marker (fun text => some (passJoin (unitRead unit) text))
      (fun cells => some (passJoin (cellRead unit marker) cells)) := by
  intro cells hsolid
  obtain ⟨hsame, hrest⟩ := commutes_passUnit hmarker joinUnit
    (by decide) cells hsolid
  simp only [passJoin, hsame]
  cases hmatch : passUnit (cellRead unit marker) joinUnit cells with
  | none => exact ⟨rfl, fun rest h => Option.some.inj h ▸ hsolid⟩
  | some rest => exact ⟨rfl, fun other h => Option.some.inj h ▸ hrest rest hmatch⟩

theorem commutes_passKeyword :
    Commutes marker (passKeyword (unitRead unit)) (passKeyword (cellRead unit marker)) := by
  have hapi := ((commutes_passLetters hmarker ['a', 'p', 'i'] (by decide)).map
    (commutes_passJoin hmarker)).bind
    (commutes_passLetters hmarker ['k', 'e', 'y'] (by decide))
  have htoken := commutes_passLetters hmarker ['t', 'o', 'k', 'e', 'n'] (by decide)
  have hpassword := commutes_passLetters hmarker ['p', 'a', 's', 's', 'w', 'o', 'r', 'd']
    (by decide)
  have hcredential := commutes_passLetters hmarker
    ['c', 'r', 'e', 'd', 'e', 'n', 't', 'i', 'a', 'l'] (by decide)
  exact hapi.or (htoken.or (hpassword.or hcredential))

theorem commutes_passBearer :
    Commutes marker (passBearer (unitRead unit)) (passBearer (cellRead unit marker)) := by
  have hletters := commutes_passLetters hmarker ['B', 'e', 'a', 'r', 'e', 'r'] (by decide)
  have hspace := commutes_passSome hmarker spaceUnit (by decide)
  have htoken := commutes_passSome hmarker tokenUnit (by decide)
  have hequals := commutes_passMany hmarker (literal '=') (by decide)
  exact ((hletters.bind hspace).bind htoken).map hequals

theorem commutes_passAssignment :
    Commutes marker (passAssignment (unitRead unit)) (passAssignment (cellRead unit marker)) := by
  have hkeyword := commutes_passKeyword hmarker
  have hspace := commutes_passMany hmarker spaceUnit (by decide)
  have hseparator := commutes_passUnit hmarker separatorUnit
    (by decide)
  have hvalue := commutes_passSome_of_all hmarker valueUnit
    (by decide)
  exact (((hkeyword.map hspace).bind hseparator).map hspace).bind hvalue

theorem commutes_passTopLevel :
    Commutes marker (passTopLevel (unitRead unit)) (passTopLevel (cellRead unit marker)) := by
  have hdot := commutes_passUnit hmarker (literal '.') (by decide)
  have hletter := commutes_passUnit hmarker letterUnit (by decide)
  have hletters := commutes_passSome hmarker letterUnit (by decide)
  apply ((hdot.bind hletter).bind hletters).bind
  intro cells hsolid
  have hopens := opens_render hmarker wordUnit (Or.inr (by decide)) hsolid
  simp only [hopens]
  split
  · exact ⟨rfl, by simp⟩
  · exact ⟨rfl, fun rest h => Option.some.inj h ▸ hsolid⟩

theorem commutes_passDomain :
    Commutes marker (passDomain (unitRead unit)) (passDomain (cellRead unit marker)) := by
  intro cells hsolid
  have htop := commutes_passTopLevel hmarker
  induction cells with
  | nil => exact ⟨rfl, by simp [passDomain]⟩
  | cons c cells ih =>
      cases c with
      | kept a =>
          have hread : cellRead unit marker domainUnit (.kept a) = unitRead unit domainUnit a := rfl
          simp only [passDomain, render_kept, hread]
          split
          · obtain ⟨hlong, hlongRest⟩ := ih hsolid
            obtain ⟨hshort, hshortRest⟩ := htop (.kept a :: cells) hsolid
            rw [render_kept] at hshort
            rw [hlong, hshort]
            constructor
            · cases passDomain (cellRead unit marker) cells <;> rfl
            · intro rest hor
              rcases Option.or_eq_some_iff.mp hor with h | ⟨_, h⟩
              · exact hlongRest rest h
              · exact hshortRest rest h
          · exact htop (.kept a :: cells) hsolid
      | marked =>
          obtain ⟨a, text, htext, ha⟩ := reads_markerHead hmarker domainUnit
            (by decide) (render marker cells)
          have hmarked := reads_marked hmarker domainUnit
            (by decide)
          have hboth := htop (.marked :: cells) hsolid
          rw [render_marked, htext] at hboth
          simp only [passDomain, render_marked, htext, ha, hmarked]
          exact hboth
      | hidden => cases hsolid.1

theorem commutes_passAddress :
    Commutes marker (passAddress (unitRead unit)) (passAddress (cellRead unit marker)) := by
  have hlocal := commutes_passSome hmarker localUnit (by decide)
  have hat := commutes_passUnit hmarker (literal '@') (by decide)
  have hdomain := commutes_passUnit hmarker domainUnit (by decide)
  exact ((hlocal.bind hat).bind hdomain).bind (commutes_passDomain hmarker)

end

/-! ## No match starts in the marker -/

theorem atBoundary_none {α : Type} {read : (CodeUnit → Bool) → α → Bool}
    {pass : List α → Option (List α)} {text : List α} (h : pass text = none) (before : Option α) :
    atBoundary read pass before text = none := by
  unfold atBoundary
  split
  · exact h
  · rfl

/-- A reader on code units that starts at no position of the marker. -/
def InertFor (pass : List CodeUnit → Option (List CodeUnit)) : Prop :=
  ∀ k < 10, ∀ before rest,
    atBoundary (unitRead id) pass ((redactedMarker.take k).getLast?.or before)
      (redactedMarker.drop k ++ rest) = none

theorem inert_passBearer : InertFor (passBearer (unitRead id)) := by
  intro k hk before rest
  interval_cases k
  · exact atBoundary_none rfl before
  all_goals rfl

theorem inert_passAssignment : InertFor (passAssignment (unitRead id)) := by
  intro k hk before rest
  interval_cases k
  · exact atBoundary_none rfl before
  all_goals rfl

theorem inert_passAddress : InertFor (passAddress (unitRead id)) := by
  intro k hk before rest
  interval_cases k
  · exact atBoundary_none rfl before
  all_goals rfl

/-! ## Blanking mirrors replacing -/

/-- A pattern whose matches can be blanked instead of replaced, whatever its units carry. -/
def Mirrored (p : Pattern CodeUnit) : Prop :=
  ∀ {τ : Type} {unit : τ → CodeUnit} {marker : List τ}, marker.map unit = redactedMarker →
    Mirrors marker (p.comap unit).matcher ((p.comap unit).onCells marker).matcher

theorem onCells_comap {τ : Type} (unit : τ → CodeUnit) (marker : List τ) (p : Pattern CodeUnit) :
    (p.comap unit).onCells marker = p.map (cellRead unit marker) :=
  Pattern.map_map _ _ p

theorem comap_id (p : Pattern CodeUnit) : p.comap id = p := by
  induction p with
  | seq first second ihfirst ihsecond =>
      simp only [Pattern.comap, Pattern.map] at ihfirst ihsecond ⊢
      rw [ihfirst, ihsecond]
  | alt first second ihfirst ihsecond =>
      simp only [Pattern.comap, Pattern.map] at ihfirst ihsecond ⊢
      rw [ihfirst, ihsecond]
  | _ => rfl

section

variable {τ : Type} {unit : τ → CodeUnit} {marker : List τ}

/-- A marker ends with no word unit, and a blank is none. -/
theorem onBoundary_render (hmarker : marker.map unit = redactedMarker) (before : Option (Cell τ))
    (a : τ) (cells : List (Cell τ)) :
    onBoundary (unitRead unit) (before.bind (lastUnit marker)) (a :: render marker cells) =
      onBoundary (cellRead unit marker) before (.kept a :: cells) := by
  have hword : redactedMarker.all wordUnit = false := by decide
  have hlast : marker.getLast?.any (unitRead unit wordUnit) = false := by
    have h := congrArg (fun us => us.getLast?.any wordUnit) hmarker
    simp only [List.getLast?_map] at h
    cases hlast : marker.getLast? with
    | none => rfl
    | some b =>
        rw [hlast] at h
        exact h
  have hbefore : (before.bind (lastUnit marker)).any (unitRead unit wordUnit) =
      before.any (cellRead unit marker wordUnit) := by
    cases before with
    | none => rfl
    | some c =>
        cases c with
        | kept b => rfl
        | marked =>
            have hblank := cellRead_blank hmarker wordUnit (c := .marked) rfl
            simp only [Option.bind_some, lastUnit, hlast, Option.any_some, hblank, hword]
        | hidden =>
            have hblank := cellRead_blank hmarker wordUnit (c := .hidden) rfl
            simp only [Option.bind_some, lastUnit, hlast, Option.any_some, hblank, hword]
  simp only [onBoundary, hbefore]
  rfl

/-- What is inert on code units is so on units that carry them. -/
theorem InertFor.comap {p : Pattern CodeUnit} {pass : List CodeUnit → Option (List CodeUnit)}
    (hmatcher : p.matcher = atBoundary (unitRead id) pass) (hinert : InertFor pass)
    (hmarker : marker.map unit = redactedMarker) {first last : List τ} {a : τ}
    (hsplit : marker = first ++ a :: last) (before : Option τ) (rest : List τ) :
    (p.comap unit).matcher (first.getLast?.or before) (a :: last ++ rest) = none := by
  have hfollow := follows_matcher (g := unit) p (first.getLast?.or before) (a :: last ++ rest)
  have hunits : redactedMarker = first.map unit ++ (a :: last).map unit := by
    rw [← hmarker, hsplit, List.map_append]
  have hlength : first.length < 10 := by
    have h := congrArg List.length hunits
    simp only [List.length_append, List.length_map, List.length_cons] at h
    have hten : redactedMarker.length = 10 := rfl
    omega
  have htake : redactedMarker.take first.length = first.map unit := by
    rw [hunits, List.take_left' (List.length_map ..)]
  have hdrop : redactedMarker.drop first.length = (a :: last).map unit := by
    rw [hunits, List.drop_left' (List.length_map ..)]
  have hnone := hinert first.length hlength (before.map unit) (rest.map unit)
  rw [htake, hdrop, ← List.map_append, List.getLast?_map, ← hmatcher] at hnone
  have hbefore : (first.getLast?.or before).map unit =
      (first.getLast?.map unit).or (before.map unit) := by
    cases first.getLast? <;> rfl
  rw [hbefore, hnone] at hfollow
  exact Option.map_eq_none_iff.mp hfollow

end

theorem mirrored_of {p : Pattern CodeUnit}
    {pass : ∀ {α : Type}, ((CodeUnit → Bool) → α → Bool) → List α → Option (List α)}
    (hmatcher : ∀ {α : Type} {read : (CodeUnit → Bool) → α → Bool}, Reading read →
      (p.map read).matcher = atBoundary read (pass read))
    (hcommutes : ∀ {τ : Type} {unit : τ → CodeUnit} {marker : List τ},
      marker.map unit = redactedMarker →
        Commutes marker (pass (unitRead unit)) (pass (cellRead unit marker)))
    (hinert : InertFor (pass (unitRead id)))
    (hblank : ∀ {τ : Type} {unit : τ → CodeUnit} {marker : List τ},
      marker.map unit = redactedMarker → ∀ {c : Cell τ} cells, c.unit? = none →
        pass (cellRead unit marker) (c :: cells) = none)
    (hleast : 1 ≤ p.least) : Mirrored p := by
  intro τ unit marker hmarker
  have htext : (p.comap unit).matcher = atBoundary (unitRead unit) (pass (unitRead unit)) :=
    hmatcher (reading_unitRead unit)
  have hcells : ((p.comap unit).onCells marker).matcher =
      atBoundary (cellRead unit marker) (pass (cellRead unit marker)) := by
    rw [onCells_comap]
    exact hmatcher (reading_cellRead hmarker)
  have hplain : p.matcher = atBoundary (unitRead id) (pass (unitRead id)) := by
    rw [← hmatcher (reading_unitRead id)]
    exact (congrArg Pattern.matcher (comap_id p)).symm
  constructor
  · rintro rfl
    cases hmarker
  · apply (takes_matcher _).mono
    rw [Pattern.comap, Pattern.least_map]
    exact hleast
  · apply (takes_matcher _).mono
    rw [onCells_comap, Pattern.least_map]
    exact hleast
  · intro first a last hsplit before rest
    exact hinert.comap hplain hmarker hsplit before rest
  · intro before c cells hc
    rw [hcells]
    exact atBoundary_none (hblank hmarker cells hc) before
  · intro before a cells hsolid
    rw [htext, hcells]
    simp only [atBoundary, onBoundary_render hmarker]
    split
    · exact (hcommutes hmarker (.kept a :: cells) hsolid).1
    · rfl
  · intro before a cells rest hsolid hmatch
    rw [hcells] at hmatch
    simp only [atBoundary] at hmatch
    split at hmatch
    · exact (hcommutes hmarker (.kept a :: cells) hsolid).2 rest hmatch
    · cases hmatch

section

variable {τ : Type} {unit : τ → CodeUnit} {marker : List τ}

theorem passUnit_blank (hmarker : marker.map unit = redactedMarker) (accepts : CodeUnit → Bool)
    (hstops : redactedMarker.all accepts = false) {c : Cell τ} (cells : List (Cell τ))
    (hc : c.unit? = none) : passUnit (cellRead unit marker) accepts (c :: cells) = none := by
  simp [passUnit, cellRead_blank hmarker accepts hc, hstops]

end

theorem mirrored_bearer : Mirrored bearerPattern := by
  apply mirrored_of bearerPattern_matcher commutes_passBearer inert_passBearer
  · intro τ unit marker hmarker c cells hc
    have hb := passUnit_blank hmarker (ignoreCase (literal 'B')) (by decide) cells hc
    simp [passBearer, passLetters, hb]
  · decide

theorem mirrored_assignment : Mirrored assignmentPattern := by
  apply mirrored_of assignmentPattern_matcher commutes_passAssignment inert_passAssignment
  · intro τ unit marker hmarker c cells hc
    have ha := passUnit_blank hmarker (ignoreCase (literal 'a')) (by decide) cells hc
    have ht := passUnit_blank hmarker (ignoreCase (literal 't')) (by decide) cells hc
    have hp := passUnit_blank hmarker (ignoreCase (literal 'p')) (by decide) cells hc
    have hc' := passUnit_blank hmarker (ignoreCase (literal 'c')) (by decide) cells hc
    simp [passAssignment, passHead, passKeyword, passLetters, ha, ht, hp, hc']
  · decide

theorem mirrored_address : Mirrored addressPattern := by
  apply mirrored_of addressPattern_matcher commutes_passAddress inert_passAddress
  · intro τ unit marker hmarker c cells hc
    have hlocal := passUnit_blank hmarker localUnit (by decide) cells hc
    simp [passAddress, passSome, hlocal]
  · decide

theorem mirrored_secretPatterns {p : Pattern CodeUnit} (hp : p ∈ secretPatterns) : Mirrored p := by
  simp only [secretPatterns, List.mem_cons, List.not_mem_nil, or_false] at hp
  rcases hp with rfl | rfl | rfl
  · exact mirrored_bearer
  · exact mirrored_assignment
  · exact mirrored_address

end

end DurableRuntime.ControlPlane
