import Mathlib.Data.List.Nodup

/-!
# Identity columns

A counter hands out the values of an identity column.  A session draws values
long before its transaction commits, and may lose them; so a value is either in
the table, or with one session that has yet to store it, or gone.  `Drawn` says
that no value is in two places, and `Drawn.move` what a move of one session may
do.
-/

namespace DurableRuntime.Foundation

universe u

structure Drawn {H : Type u} (next : Nat) (table : List Nat) (pending : H → List Nat) : Prop where
  stored : ∀ x ∈ table, x < next
  unique : table.Nodup
  drawn : ∀ me, ∀ x ∈ pending me, x < next
  fresh : ∀ me, ∀ x ∈ pending me, x ∉ table
  distinct : ∀ me, (pending me).Nodup
  apart : ∀ me you x, x ∈ pending me → x ∈ pending you → me = you

namespace Drawn

variable {H : Type u} {next next' : Nat} {table : List Nat} {pending pending' : H → List Nat}

/-- Values that nobody stores may be handed out at any time. -/
theorem advance (drawn : Drawn next table pending) (hnext : next ≤ next') :
    Drawn next' table pending :=
  { drawn with
    stored := fun x hx => Nat.lt_of_lt_of_le (drawn.stored x hx) hnext
    drawn := fun me x hx => Nat.lt_of_lt_of_le (drawn.drawn me x hx) hnext }

/--
One session stores some of its values, draws new ones and keeps or drops the
rest; the others keep theirs.
-/
theorem move (drawn : Drawn next table pending) (me : H) (hnext : next ≤ next')
    {stored : List Nat} (hstored : ∀ x ∈ stored, x ∈ pending me) (hnodup : stored.Nodup)
    (hothers : ∀ you, you ≠ me → pending' you = pending you) (hdistinct : (pending' me).Nodup)
    (hmine : ∀ x ∈ pending' me, (x ∈ pending me ∧ x ∉ stored) ∨ (next ≤ x ∧ x < next')) :
    Drawn next' (table ++ stored) pending' where
  stored := by
    intro x hx
    rcases List.mem_append.mp hx with hold | hnew
    · exact Nat.lt_of_lt_of_le (drawn.stored x hold) hnext
    · exact Nat.lt_of_lt_of_le (drawn.drawn me x (hstored x hnew)) hnext
  unique := by
    refine List.nodup_append'.mpr ⟨drawn.unique, hnodup, ?_⟩
    intro x hold hnew
    exact drawn.fresh me x (hstored x hnew) hold
  drawn := by
    intro you x hx
    by_cases hyou : you = me
    · subst hyou
      rcases hmine x hx with ⟨hold, -⟩ | ⟨-, hlt⟩
      · exact Nat.lt_of_lt_of_le (drawn.drawn you x hold) hnext
      · exact hlt
    · rw [hothers you hyou] at hx
      exact Nat.lt_of_lt_of_le (drawn.drawn you x hx) hnext
  fresh := by
    intro you x hx hmem
    by_cases hyou : you = me
    · subst hyou
      rcases hmine x hx with ⟨hold, hkept⟩ | ⟨hge, -⟩
      · rcases List.mem_append.mp hmem with htable | hnew
        · exact drawn.fresh you x hold htable
        · exact hkept hnew
      · rcases List.mem_append.mp hmem with htable | hnew
        · exact absurd (drawn.stored x htable) (Nat.not_lt.mpr hge)
        · exact absurd (drawn.drawn you x (hstored x hnew)) (Nat.not_lt.mpr hge)
    · rw [hothers you hyou] at hx
      rcases List.mem_append.mp hmem with htable | hnew
      · exact drawn.fresh you x hx htable
      · exact hyou (drawn.apart you me x hx (hstored x hnew))
  distinct := by
    intro you
    by_cases hyou : you = me
    · exact hyou ▸ hdistinct
    · rw [hothers you hyou]
      exact drawn.distinct you
  apart := by
    have alone : ∀ you x, you ≠ me → x ∈ pending' me → x ∈ pending you → False := by
      intro you x hne hx hyou
      rcases hmine x hx with ⟨hold, -⟩ | ⟨hge, -⟩
      · exact hne (drawn.apart you me x hyou hold)
      · exact absurd (drawn.drawn you x hyou) (Nat.not_lt.mpr hge)
    intro a b x ha hb
    by_cases hame : a = me <;> by_cases hbme : b = me
    · rw [hame, hbme]
    · subst hame
      rw [hothers b hbme] at hb
      exact (alone b x hbme ha hb).elim
    · subst hbme
      rw [hothers a hame] at ha
      exact (alone a x hame hb ha).elim
    · rw [hothers a hame] at ha
      rw [hothers b hbme] at hb
      exact drawn.apart a b x ha hb

/-- A value that is stored at once. -/
theorem insert (drawn : Drawn next table pending) : Drawn (next + 1) (table ++ [next]) pending where
  stored := by
    intro x hx
    rcases List.mem_append.mp hx with hold | hnew
    · exact Nat.lt_succ_of_lt (drawn.stored x hold)
    · rw [List.mem_singleton.mp hnew]
      exact Nat.lt_succ_self next
  unique := by
    refine List.nodup_append'.mpr ⟨drawn.unique, List.nodup_singleton next, ?_⟩
    intro x hold hnew
    rw [List.mem_singleton.mp hnew] at hold
    exact Nat.lt_irrefl next (drawn.stored next hold)
  drawn := fun me x hx => Nat.lt_succ_of_lt (drawn.drawn me x hx)
  fresh := by
    intro me x hx hmem
    rcases List.mem_append.mp hmem with hold | hnew
    · exact drawn.fresh me x hx hold
    · rw [List.mem_singleton.mp hnew] at hx
      exact Nat.lt_irrefl next (drawn.drawn me next hx)
  distinct := drawn.distinct
  apart := drawn.apart

end Drawn

/-- What one move of a session does to the values it has drawn: the values it stores, and those
it has afterwards. -/
inductive Exchange (next next' : Nat) (old : List Nat) : List Nat → List Nat → Prop
  | kept : Exchange next next' old [] old
  | dropped : Exchange next next' old [] []
  | stored : Exchange next next' old old []
  | drawn {n : Nat} (hnext : next' = next + n) : Exchange next next' old [] (List.range' next n)

theorem Drawn.exchange {H : Type u} {next next' : Nat} {table stored new : List Nat}
    {pending pending' : H → List Nat} (drawn : Drawn next table pending) (me : H)
    (hnext : next ≤ next') (hothers : ∀ you, you ≠ me → pending' you = pending you)
    (hnew : pending' me = new) (hexchange : Exchange next next' (pending me) stored new) :
    Drawn next' (table ++ stored) pending' := by
  subst hnew
  generalize hmine : pending' me = new at hexchange
  cases hexchange with
  | kept =>
      refine drawn.move me hnext (by simp) List.nodup_nil hothers ?_ ?_
      · exact hmine ▸ drawn.distinct me
      · exact fun x hx => .inl ⟨hmine ▸ hx, List.not_mem_nil⟩
  | dropped =>
      refine drawn.move me hnext (by simp) List.nodup_nil hothers ?_ ?_
      · rw [hmine]
        exact List.nodup_nil
      · simp [hmine]
  | stored =>
      refine drawn.move me hnext (fun x hx => hx) (drawn.distinct me) hothers ?_ ?_
      · rw [hmine]
        exact List.nodup_nil
      · simp [hmine]
  | drawn hcounter =>
      refine drawn.move me hnext (by simp) List.nodup_nil hothers ?_ ?_
      · rw [hmine]
        exact List.nodup_range'
      · intro x hx
        rw [hmine, List.mem_range'_1] at hx
        exact .inr ⟨hx.1, by omega⟩

end DurableRuntime.Foundation
