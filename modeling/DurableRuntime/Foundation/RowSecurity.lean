import Mathlib.Data.List.Basic

/-!
# Statements under grants and row policies

A role has its privileges on a table or on some of its columns, and where row
security is on it sees and writes only the rows that some policy for it lets
through.  The conditions and assignments of a statement are arbitrary functions
of the row.
-/

namespace DurableRuntime.Foundation

universe u v w x

inductive Privilege where
  | select
  | insert
  | update
  | delete
  deriving DecidableEq

/-- `grant ... (columns) on ... to ...`; without columns it is for the whole table. -/
structure Grant (Role : Type u) (κ : Type v) where
  roles : List Role
  privileges : List Privilege
  columns : Option (List κ)

/--
A permissive policy for all privileges; without roles it is for everybody, and `none`
is null.
-/
structure Policy (Role : Type u) (Ctx : Type w) (ρ : Type x) where
  roles : Option (List Role)
  usingRow : Ctx → ρ → Option Bool
  checkRow : Ctx → ρ → Option Bool

/-- The columns of a table, with the values they can have when an insertion leaves them out. -/
structure Columns (κ : Type v) (ρ : Type x) where
  Cell : κ → Type
  cell : ρ → (column : κ) → Cell column
  IsDefault : (column : κ) → Cell column → Prop

/-- Where grants are for the whole table, the row is one cell. -/
def Columns.whole (ρ : Type) : Columns Unit ρ where
  Cell := fun _ => ρ
  cell := fun row _ => row
  IsDefault := fun _ _ => False

structure Protection (Role : Type u) (Ctx : Type w) (κ : Type v) (ρ : Type x) where
  grants : List (Grant Role κ)
  rowSecurity : Bool
  policies : List (Policy Role Ctx ρ)

variable {Role : Type u} {κ : Type v} {Ctx : Type w} {ρ : Type x}

structure Insertion (columns : Columns κ ρ) where
  listed : List κ
  rows : List ρ
  defaults : ∀ row ∈ rows, ∀ column, column ∉ listed →
    columns.IsDefault column (columns.cell row column)

structure Assignment (columns : Columns κ ρ) where
  listed : List κ
  set : ρ → ρ
  frame : ∀ row column, column ∉ listed → columns.cell (set row) column = columns.cell row column

/-- `reads` are the columns of the conditions, the expressions and the result. -/
inductive Statement (columns : Columns κ ρ) where
  | select (reads : List κ) (condition : ρ → Bool)
  | selectForUpdate (reads : List κ) (condition : ρ → Bool)
  | insert (insertion : Insertion columns) (reads : List κ)
  | update (assignment : Assignment columns) (reads : List κ) (condition : ρ → Bool)
  | delete (reads : List κ) (condition : ρ → Bool)

section

variable [DecidableEq Role] [DecidableEq κ] {columns : Columns κ ρ}

namespace Protection

variable (table : Protection Role Ctx κ ρ) (role : Role) (ctx : Ctx)

def maySome (privilege : Privilege) : Bool :=
  table.grants.any fun grant => role ∈ grant.roles && privilege ∈ grant.privileges

def may (privilege : Privilege) (column : κ) : Bool :=
  table.grants.any fun grant =>
    role ∈ grant.roles && privilege ∈ grant.privileges && grant.columns.all fun cs => column ∈ cs

def mayWhole (privilege : Privilege) : Bool :=
  table.grants.any fun grant =>
    role ∈ grant.roles && privilege ∈ grant.privileges && grant.columns.isNone

def passes (rule : Policy Role Ctx ρ → Ctx → ρ → Option Bool) (row : ρ) : Bool :=
  !table.rowSecurity || table.policies.any fun policy =>
    policy.roles.all (fun roles => role ∈ roles) && rule policy ctx row = some true

def visible (row : ρ) : Bool := table.passes role ctx Policy.usingRow row

def checked (row : ρ) : Bool := table.passes role ctx Policy.checkRow row

def mayRead (reads : List κ) : Bool := reads.all (table.may role .select)

end Protection

namespace Statement

variable (table : Protection Role Ctx κ ρ) (role : Role) (ctx : Ctx)

def authorized : Statement columns → Bool
  | select reads _ => table.maySome role .select && table.mayRead role reads
  | selectForUpdate reads _ =>
      table.maySome role .select && table.maySome role .update && table.mayRead role reads
  | insert insertion reads =>
      table.maySome role .insert && insertion.listed.all (table.may role .insert) &&
        table.mayRead role reads
  | update assignment reads _ =>
      table.maySome role .update && assignment.listed.all (table.may role .update) &&
        table.mayRead role reads
  | delete reads _ => table.mayWhole role .delete && table.mayRead role reads

/-- The rows that the statement returns and the table after it; `none` when it is refused. -/
def run (statement : Statement columns) (rows : List ρ) : Option (List ρ × List ρ) :=
  if statement.authorized table role then
    match statement with
    | select _ condition | selectForUpdate _ condition =>
        some (rows.filter fun row => table.visible role ctx row && condition row, rows)
    | insert insertion _ =>
        if insertion.rows.all (table.checked role ctx) then
          some (insertion.rows, rows ++ insertion.rows)
        else none
    | update assignment _ condition =>
        let hit := fun row => table.visible role ctx row && condition row
        let changed := (rows.filter hit).map assignment.set
        if changed.all (table.checked role ctx) then
          some (changed, rows.map fun row => if hit row then assignment.set row else row)
        else none
    | delete _ condition =>
        let hit := fun row => table.visible role ctx row && condition row
        some (rows.filter hit, rows.filter fun row => !hit row)
  else none

end Statement

/-- What a statement that is not refused has done. -/
inductive Ran (table : Protection Role Ctx κ ρ) (role : Role) (ctx : Ctx) (rows : List ρ) :
    Statement columns → List ρ → List ρ → Prop
  | select {reads condition} (hread : table.maySome role .select = true) :
      Ran table role ctx rows (.select reads condition)
        (rows.filter fun row => table.visible role ctx row && condition row) rows
  | selectForUpdate {reads condition} (hread : table.maySome role .select = true) :
      Ran table role ctx rows (.selectForUpdate reads condition)
        (rows.filter fun row => table.visible role ctx row && condition row) rows
  | insert {insertion reads} (hsome : table.maySome role .insert = true)
      (hlisted : ∀ column ∈ insertion.listed, table.may role .insert column = true)
      (hchecked : ∀ row ∈ insertion.rows, table.checked role ctx row = true) :
      Ran table role ctx rows (.insert insertion reads) insertion.rows (rows ++ insertion.rows)
  | update {assignment reads condition} (hsome : table.maySome role .update = true)
      (hlisted : ∀ column ∈ assignment.listed, table.may role .update column = true)
      (hchecked : ∀ row ∈ rows, table.visible role ctx row = true → condition row = true →
        table.checked role ctx (assignment.set row) = true) :
      Ran table role ctx rows (.update assignment reads condition)
        ((rows.filter fun row => table.visible role ctx row && condition row).map assignment.set)
        (rows.map fun row =>
          if table.visible role ctx row && condition row then assignment.set row else row)
  | delete {reads condition} (hwhole : table.mayWhole role .delete = true) :
      Ran table role ctx rows (.delete reads condition)
        (rows.filter fun row => table.visible role ctx row && condition row)
        (rows.filter fun row => !(table.visible role ctx row && condition row))

variable {table : Protection Role Ctx κ ρ} {role : Role} {ctx : Ctx} {rows shown rows' : List ρ}
  {statement : Statement columns}

theorem Statement.run_ran (h : statement.run table role ctx rows = some (shown, rows')) :
    Ran table role ctx rows statement shown rows' := by
  unfold Statement.run at h
  split at h
  · rename_i hauthorized
    cases statement with
    | select reads condition =>
        cases h
        simp only [Statement.authorized, Bool.and_eq_true] at hauthorized
        exact .select hauthorized.1
    | selectForUpdate reads condition =>
        cases h
        simp only [Statement.authorized, Bool.and_eq_true] at hauthorized
        exact .selectForUpdate hauthorized.1.1
    | insert insertion reads =>
        simp only [Statement.authorized, Bool.and_eq_true, List.all_eq_true] at hauthorized
        simp only at h
        split at h
        · rename_i hchecked
          cases h
          exact .insert hauthorized.1.1 hauthorized.1.2 (List.all_eq_true.mp hchecked)
        · cases h
    | update assignment reads condition =>
        simp only [Statement.authorized, Bool.and_eq_true, List.all_eq_true] at hauthorized
        simp only at h
        split at h
        · rename_i hchecked
          cases h
          refine .update hauthorized.1.1 hauthorized.1.2 ?_
          intro row hrow hvisible hcondition
          refine List.all_eq_true.mp hchecked _
            (List.mem_map_of_mem (List.mem_filter.mpr ⟨hrow, ?_⟩))
          rw [hvisible, hcondition]
          rfl
        · cases h
    | delete reads condition =>
        cases h
        simp only [Statement.authorized, Bool.and_eq_true] at hauthorized
        exact .delete hauthorized.1
  · cases h

/-! ## What is not refused -/

namespace Statement

/-- The rows that the statement is about, apart from those it inserts. -/
def hits : Statement columns → ρ → Bool
  | select _ condition | selectForUpdate _ condition | update _ _ condition
  | delete _ condition => condition
  | insert _ _ => fun _ => false

/-- The rows as the statement writes them. -/
def written (rows : List ρ) : Statement columns → List ρ
  | insert insertion _ => insertion.rows
  | update assignment _ condition => (rows.filter condition).map assignment.set
  | _ => []

/-- What the statement returns and leaves where everybody may do everything. -/
def effect (rows : List ρ) : Statement columns → List ρ × List ρ
  | select _ condition | selectForUpdate _ condition => (rows.filter condition, rows)
  | insert insertion _ => (insertion.rows, rows ++ insertion.rows)
  | update assignment _ condition =>
      ((rows.filter condition).map assignment.set,
        rows.map fun row => if condition row then assignment.set row else row)
  | delete _ condition => (rows.filter condition, rows.filter fun row => !condition row)

/-- No grant is missing, and no policy hides or refuses a row. -/
structure Unhindered (table : Protection Role Ctx κ ρ) (role : Role) (ctx : Ctx) (rows : List ρ)
    (statement : Statement columns) : Prop where
  authorized : statement.authorized table role = true
  visible : ∀ row ∈ rows, statement.hits row = true → table.visible role ctx row = true
  checked : ∀ row ∈ statement.written rows, table.checked role ctx row = true

/-- Grants and policies then change nothing about the statement. -/
theorem Unhindered.run (h : statement.Unhindered table role ctx rows) :
    statement.run table role ctx rows = some (statement.effect rows) := by
  obtain ⟨hauthorized, hvisible, hchecked⟩ := h
  have hhit : ∀ condition : ρ → Bool, (∀ row ∈ rows, condition row = true →
      table.visible role ctx row = true) → ∀ row ∈ rows,
        (table.visible role ctx row && condition row) = condition row := by
    intro condition hsees row hrow
    cases hcondition : condition row with
    | false => exact Bool.and_false _
    | true => rw [hsees row hrow hcondition, Bool.true_and]
  have hfilter : ∀ condition : ρ → Bool, (∀ row ∈ rows, condition row = true →
      table.visible role ctx row = true) →
        rows.filter (fun row => table.visible role ctx row && condition row) =
          rows.filter condition :=
    fun condition hsees => List.filter_congr (hhit condition hsees)
  unfold Statement.run
  rw [if_pos hauthorized]
  cases statement with
  | select reads condition => simp only [hfilter condition hvisible, effect]
  | selectForUpdate reads condition => simp only [hfilter condition hvisible, effect]
  | insert insertion reads =>
      have hall : insertion.rows.all (table.checked role ctx) = true :=
        List.all_eq_true.mpr hchecked
      simp only [hall, if_true, effect]
  | update assignment reads condition =>
      have hall :
          ((rows.filter condition).map assignment.set).all (table.checked role ctx) = true :=
        List.all_eq_true.mpr hchecked
      simp only [hfilter condition hvisible, hall, if_true, effect, Option.some.injEq,
        Prod.mk.injEq, true_and]
      exact List.map_congr_left fun row hrow => by simp only [hhit condition hvisible row hrow]
  | delete reads condition =>
      simp only [hfilter condition hvisible, effect, Option.some.injEq, Prod.mk.injEq, true_and]
      exact List.filter_congr fun row hrow => congrArg _ (hhit condition hvisible row hrow)

end Statement

/-! ## What no statement of a role can do -/

theorem Statement.run_denied (hselect : table.maySome role .select = false)
    (hinsert : table.maySome role .insert = false) (hupdate : table.maySome role .update = false)
    (hdelete : table.mayWhole role .delete = false) : statement.run table role ctx rows = none := by
  cases hrun : statement.run table role ctx rows with
  | none => rfl
  | some result =>
      obtain ⟨returned, later⟩ := result
      cases Statement.run_ran hrun with
      | select hread => rw [hselect] at hread; cases hread
      | selectForUpdate hread => rw [hselect] at hread; cases hread
      | insert hsome => rw [hinsert] at hsome; cases hsome
      | update hsome => rw [hupdate] at hsome; cases hsome
      | delete hwhole => rw [hdelete] at hwhole; cases hwhole

/-- Rows that the policies neither show nor let in stay as they are. -/
theorem Ran.unseen (h : Ran table role ctx rows statement shown rows') {p : ρ → Bool}
    (hvisible : ∀ row, p row = true → table.visible role ctx row = false)
    (hchecked : ∀ row, p row = true → table.checked role ctx row = false) :
    rows'.filter p = rows.filter p := by
  cases h with
  | select => rfl
  | selectForUpdate => rfl
  | @insert insertion reads hsome hlisted hall =>
      have hnone : insertion.rows.filter p = [] := by
        rw [List.filter_eq_nil_iff]
        intro row hrow hp
        have hcheck := hall row hrow
        rw [hchecked row hp] at hcheck
        cases hcheck
      rw [List.filter_append, hnone, List.append_nil]
  | @update assignment reads condition hsome hlisted hall =>
      induction rows with
      | nil => rfl
      | cons row rows ih =>
          have ih := ih fun other hother => hall other (List.mem_cons_of_mem _ hother)
          rw [List.map_cons, List.filter_cons, List.filter_cons, ih]
          by_cases hhit : (table.visible role ctx row && condition row) = true
          · obtain ⟨hsees, hcondition⟩ := Bool.and_eq_true_iff.mp hhit
            have hold : p row = false := by
              by_contra hp
              rw [hvisible row (by simpa using hp)] at hsees
              cases hsees
            have hnew : p (assignment.set row) = false := by
              by_contra hp
              have hcheck := hall row List.mem_cons_self hsees hcondition
              rw [hchecked _ (by simpa using hp)] at hcheck
              cases hcheck
            rw [if_pos hhit, hold, hnew]
            rfl
          · rw [if_neg hhit]
  | @delete reads condition =>
      rw [List.filter_filter]
      refine List.filter_congr fun row _ => ?_
      cases hp : p row with
      | false => rfl
      | true => rw [hvisible row hp]; rfl

/-- A statement returns visible rows only, apart from the rows it has written itself. -/
theorem Ran.shown_passes (h : Ran table role ctx rows statement shown rows') {row : ρ}
    (hrow : row ∈ shown) :
    table.visible role ctx row = true ∨ table.checked role ctx row = true := by
  cases h with
  | insert hsome hlisted hall => exact .inr (hall row hrow)
  | update hsome hlisted hall =>
      obtain ⟨old, hold, rfl⟩ := List.mem_map.mp hrow
      obtain ⟨hmem, hhit⟩ := List.mem_filter.mp hold
      obtain ⟨hsees, hcondition⟩ := Bool.and_eq_true_iff.mp hhit
      exact .inr (hall old hmem hsees hcondition)
  | select => exact .inl (Bool.and_eq_true_iff.mp (List.mem_filter.mp hrow).2).1
  | selectForUpdate => exact .inl (Bool.and_eq_true_iff.mp (List.mem_filter.mp hrow).2).1
  | delete => exact .inl (Bool.and_eq_true_iff.mp (List.mem_filter.mp hrow).2).1

theorem Ran.unchanged (h : Ran table role ctx rows statement shown rows')
    (hinsert : table.maySome role .insert = false) (hupdate : table.maySome role .update = false)
    (hdelete : table.mayWhole role .delete = false) : rows' = rows := by
  cases h with
  | select => rfl
  | selectForUpdate => rfl
  | insert hsome => rw [hinsert] at hsome; cases hsome
  | update hsome => rw [hupdate] at hsome; cases hsome
  | delete hwhole => rw [hdelete] at hwhole; cases hwhole

/-- The table has gained rows, and keeps the cells of the columns the role may not update. -/
structure Grown (table : Protection Role Ctx κ ρ) (role : Role) (ctx : Ctx) (columns : Columns κ ρ)
    (rows rows' new : List ρ) : Prop where
  length : rows'.length = (rows ++ new).length
  cells : ∀ column, table.may role .update column = false →
    rows'.map (columns.cell · column) = (rows ++ new).map (columns.cell · column)
  appended : table.maySome role .update = false → rows' = rows ++ new
  admitted : ∀ row ∈ new, table.checked role ctx row = true
  granted : new ≠ [] → table.maySome role .insert = true
  defaults : ∀ row ∈ new, ∀ column, table.may role .insert column = false →
    columns.IsDefault column (columns.cell row column)

theorem Grown.refl (table : Protection Role Ctx κ ρ) (role : Role) (ctx : Ctx)
    (columns : Columns κ ρ) (rows : List ρ) : Grown table role ctx columns rows rows [] :=
  ⟨by simp, fun _ _ => by simp, fun _ => by simp, by simp, by simp, by simp⟩

theorem Ran.grown (h : Ran table role ctx rows statement shown rows')
    (hdelete : table.mayWhole role .delete = false) :
    ∃ new, Grown table role ctx columns rows rows' new := by
  cases h with
  | select => exact ⟨[], .refl table role ctx columns rows⟩
  | selectForUpdate => exact ⟨[], .refl table role ctx columns rows⟩
  | @insert insertion reads hsome hlisted hall =>
      refine ⟨insertion.rows, rfl, fun _ _ => rfl, fun _ => rfl, hall, fun _ => hsome, ?_⟩
      intro row hrow column hcolumn
      refine insertion.defaults row hrow column fun hmem => ?_
      rw [hlisted column hmem] at hcolumn
      cases hcolumn
  | @update assignment reads condition hsome hlisted hall =>
      refine ⟨[], by simp, fun column hcolumn => ?_, fun hnone => ?_, by simp, by simp, by simp⟩
      · rw [List.append_nil, List.map_map]
        refine List.map_congr_left fun row _ => ?_
        simp only [Function.comp_apply]
        split
        · refine assignment.frame row column fun hmem => ?_
          rw [hlisted column hmem] at hcolumn
          cases hcolumn
        · rfl
      · rw [hnone] at hsome
        cases hsome
  | delete hwhole =>
      rw [hdelete] at hwhole
      cases hwhole

theorem Ran.length_le (h : Ran table role ctx rows statement shown rows')
    (hdelete : table.mayWhole role .delete = false) : rows.length ≤ rows'.length := by
  obtain ⟨new, hgrown⟩ := h.grown hdelete
  rw [hgrown.length, List.length_append]
  exact Nat.le_add_right _ _

end

end DurableRuntime.Foundation
