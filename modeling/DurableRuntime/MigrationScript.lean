import DurableRuntime.Foundation.Commands

/-!
# The migration script

`container-migrate.sh` creates the table `schema_migrations` and goes through
the files of the migration directory in order.  A file whose name the table
does not hold is given to `psql -f` with `ON_ERROR_STOP`, which commits its
statements one by one, and a second `psql` then inserts the name.  The script
runs under `set -eu`, so the first command that fails ends it.

The schema and the statements are those of any database: a statement commits a
new schema or fails and leaves the old one.
-/

namespace DurableRuntime

open Foundation

structure MigrationFile (σ : Type) where
  name : String
  statements : List (Command σ)

/-- The pattern itself, which stays as it is where it matches nothing; `psql -f` finds no file. -/
def MigrationFile.unmatched {σ : Type} : MigrationFile σ := ⟨"*.sql", [fun _ => none]⟩

/-- The files that `/migrations/*.sql` matches: no two have one name. -/
structure MigrationDirectory (σ : Type) where
  found : List (MigrationFile σ)
  distinct : (found.map MigrationFile.name).Nodup

/-- What the loop of the script goes through. -/
def MigrationDirectory.files {σ : Type} (directory : MigrationDirectory σ) :
    List (MigrationFile σ) :=
  if directory.found.isEmpty then [.unmatched] else directory.found

theorem MigrationDirectory.files_distinct {σ : Type} (directory : MigrationDirectory σ) :
    (directory.files.map MigrationFile.name).Nodup := by
  unfold MigrationDirectory.files
  split
  · simp
  · exact directory.distinct

def MigrationDirectory.names {σ : Type} (directory : MigrationDirectory σ) : List String :=
  directory.files.map MigrationFile.name

def MigrationDirectory.statements {σ : Type} (directory : MigrationDirectory σ) :
    List (Command σ) :=
  directory.files.flatMap MigrationFile.statements

/--
The database the script works on.  `schemaMigrations` is the table of that name
once it exists.  `applied` is no table: it is the history of the files whose
last statement has been committed, over all runs of the script.
-/
structure MigrationTarget (σ : Type) where
  schema : σ
  schemaMigrations : Option (List String)
  applied : List String

namespace MigrationTarget

variable {σ : Type}

/-- A database that no migration has seen. -/
def fresh (schema : σ) : MigrationTarget σ :=
  { schema, schemaMigrations := none, applied := [] }

/-- `create table if not exists schema_migrations` -/
def createTable (t : MigrationTarget σ) : MigrationTarget σ :=
  { t with schemaMigrations := some (t.schemaMigrations.getD []) }

/-- `select 1 from schema_migrations where name = '$name'` -/
def isApplied (t : MigrationTarget σ) (name : String) : Option Bool :=
  t.schemaMigrations.map fun names => decide (name ∈ names)

/-- `insert into schema_migrations (name) values ('$name')`; the name is the primary key. -/
def record (t : MigrationTarget σ) (name : String) : Option (MigrationTarget σ) :=
  match t.schemaMigrations with
  | none => none
  | some names =>
      if name ∈ names then none
      else some { t with schemaMigrations := some (names ++ [name]) }

/-- The file is through when none of its statements is left. -/
def through (t : MigrationTarget σ) (name : String) (left : List (Command σ)) :
    MigrationTarget σ :=
  { t with applied := if left.isEmpty then t.applied ++ [name] else t.applied }

end MigrationTarget

/-- Where the script stands. -/
inductive ScriptStage (σ : Type) where
  | creating
  | loop (files : List (MigrationFile σ))
  | applying (file : MigrationFile σ) (left : List (Command σ)) (files : List (MigrationFile σ))
  | finished
  | failed

structure ScriptState (σ : Type) where
  target : MigrationTarget σ
  stage : ScriptStage σ

variable {σ : Type}

/-- One command of the script, or one statement of the file that `psql -f` works on. -/
def scriptStep (directory : MigrationDirectory σ) (c : ScriptState σ) : ScriptState σ :=
  match c.stage with
  | .creating => ⟨c.target.createTable, .loop directory.files⟩
  | .loop [] => ⟨c.target, .finished⟩
  | .loop (file :: files) =>
      match c.target.isApplied file.name with
      | none => ⟨c.target, .failed⟩
      | some true => ⟨c.target, .loop files⟩
      | some false =>
          ⟨c.target.through file.name file.statements, .applying file file.statements files⟩
  | .applying file (statement :: left) files =>
      match statement c.target.schema with
      | none => ⟨c.target, .failed⟩
      | some schema =>
          ⟨({ c.target with schema }).through file.name left, .applying file left files⟩
  | .applying file [] files =>
      match c.target.record file.name with
      | none => ⟨c.target, .failed⟩
      | some target => ⟨target, .loop files⟩
  | .finished => c
  | .failed => c

def scriptSteps (directory : MigrationDirectory σ) : Nat → ScriptState σ → ScriptState σ
  | 0, c => c
  | n + 1, c => scriptSteps directory n (scriptStep directory c)

/-- The script when it has just been started on a database. -/
def MigrationTarget.start (t : MigrationTarget σ) : ScriptState σ := ⟨t, .creating⟩

/-- `psql -f` over the statements that are left of a file, and the insert behind it. -/
def applyFile (name : String) : List (Command σ) → MigrationTarget σ → Option (MigrationTarget σ)
  | [], t => t.record name
  | statement :: left, t =>
      (statement t.schema).bind fun schema =>
        applyFile name left (({ t with schema }).through name left)

/-- `for file in /migrations/*.sql` -/
def migrationLoop : List (MigrationFile σ) → MigrationTarget σ → Option (MigrationTarget σ)
  | [], t => some t
  | file :: files, t =>
      match t.isApplied file.name with
      | none => none
      | some true => migrationLoop files t
      | some false =>
          (applyFile file.name file.statements (t.through file.name file.statements)).bind
            (migrationLoop files)

/-- A run of the script that nothing interrupts. -/
def containerMigrate (directory : MigrationDirectory σ) (t : MigrationTarget σ) :
    Option (MigrationTarget σ) :=
  migrationLoop directory.files t.createTable

/--
The states in which the runs of the script were interrupted: the first run is
cut off after the first number of steps, the next one starts on the database it
left behind, and so on.
-/
def interruptions (directory : MigrationDirectory σ) :
    MigrationTarget σ → List Nat → List (ScriptState σ)
  | _, [] => []
  | t, stop :: stops =>
      let c := scriptSteps directory stop t.start
      c :: interruptions directory c.target stops

/-- The database that the interrupted runs leave behind. -/
def leftBehind (directory : MigrationDirectory σ) :
    MigrationTarget σ → List Nat → MigrationTarget σ
  | t, [] => t
  | t, stop :: stops => leftBehind directory (scriptSteps directory stop t.start).target stops

/-! ## The uninterrupted run, step by step -/

/-- What is left of an uninterrupted run of the script. -/
def resume (directory : MigrationDirectory σ) (c : ScriptState σ) : Option (MigrationTarget σ) :=
  match c.stage with
  | .creating => containerMigrate directory c.target
  | .loop files => migrationLoop files c.target
  | .applying file left files => (applyFile file.name left c.target).bind (migrationLoop files)
  | .finished => some c.target
  | .failed => none

theorem resume_step (directory : MigrationDirectory σ) (c : ScriptState σ) :
    resume directory (scriptStep directory c) = resume directory c := by
  obtain ⟨t, stage⟩ := c
  cases stage with
  | creating => rfl
  | loop files =>
      cases files with
      | nil => rfl
      | cons file files =>
          cases happlied : t.isApplied file.name with
          | none => simp [scriptStep, resume, migrationLoop, happlied]
          | some known =>
              cases known <;> simp [scriptStep, resume, migrationLoop, happlied]
  | applying file left files =>
      cases left with
      | nil =>
          cases hrecord : t.record file.name <;>
            simp [scriptStep, resume, applyFile, hrecord]
      | cons statement left =>
          cases hstatement : statement t.schema <;>
            simp [scriptStep, resume, applyFile, hstatement]
  | finished => rfl
  | failed => rfl

theorem resume_steps (directory : MigrationDirectory σ) (n : Nat) (c : ScriptState σ) :
    resume directory (scriptSteps directory n c) = resume directory c := by
  induction n generalizing c with
  | zero => rfl
  | succ n ih =>
      have hrest := ih (scriptStep directory c)
      have hfirst := resume_step directory c
      exact hrest.trans hfirst

theorem scriptSteps_add (directory : MigrationDirectory σ) (m n : Nat) (c : ScriptState σ) :
    scriptSteps directory (m + n) c = scriptSteps directory n (scriptSteps directory m c) := by
  induction m generalizing c with
  | zero => simp [scriptSteps]
  | succ m ih =>
      rw [Nat.succ_add]
      exact ih (scriptStep directory c)

theorem applyFile_runs (directory : MigrationDirectory σ) {file : MigrationFile σ}
    {left : List (Command σ)} (files : List (MigrationFile σ)) {t t' : MigrationTarget σ}
    (h : applyFile file.name left t = some t') :
    ∃ n, scriptSteps directory n ⟨t, .applying file left files⟩ = ⟨t', .loop files⟩ := by
  induction left generalizing t with
  | nil =>
      refine ⟨1, ?_⟩
      have hrecord : t.record file.name = some t' := h
      simp [scriptSteps, scriptStep, hrecord]
  | cons statement left ih =>
      simp only [applyFile, Option.bind_eq_some_iff] at h
      obtain ⟨schema, hstatement, hleft⟩ := h
      obtain ⟨n, hn⟩ := ih hleft
      refine ⟨n + 1, ?_⟩
      simp only [scriptSteps, scriptStep, hstatement]
      exact hn

theorem migrationLoop_runs (directory : MigrationDirectory σ) {files : List (MigrationFile σ)}
    {t t' : MigrationTarget σ} (h : migrationLoop files t = some t') :
    ∃ n, scriptSteps directory n ⟨t, .loop files⟩ = ⟨t', .finished⟩ := by
  induction files generalizing t with
  | nil =>
      refine ⟨1, ?_⟩
      cases h
      rfl
  | cons file files ih =>
      cases happlied : t.isApplied file.name with
      | none => simp [migrationLoop, happlied] at h
      | some known =>
          cases known with
          | true =>
              simp only [migrationLoop, happlied] at h
              obtain ⟨n, hn⟩ := ih h
              refine ⟨n + 1, ?_⟩
              simp only [scriptSteps, scriptStep, happlied]
              exact hn
          | false =>
              simp only [migrationLoop, happlied, Option.bind_eq_some_iff] at h
              obtain ⟨opened, hfile, hfiles⟩ := h
              obtain ⟨m, hm⟩ := applyFile_runs directory files hfile
              obtain ⟨n, hn⟩ := ih hfiles
              refine ⟨(m + n) + 1, ?_⟩
              simp only [scriptSteps, scriptStep, happlied, scriptSteps_add, hm]
              exact hn

/-- An uninterrupted run finishes in the database that `containerMigrate` computes. -/
theorem containerMigrate_runs (directory : MigrationDirectory σ) (t t' : MigrationTarget σ) :
    containerMigrate directory t = some t' ↔
      ∃ n, scriptSteps directory n t.start = ⟨t', .finished⟩ := by
  constructor
  · intro hrun
    have hloop : migrationLoop directory.files t.createTable = some t' := hrun
    obtain ⟨n, hn⟩ := migrationLoop_runs directory hloop
    exact ⟨n + 1, hn⟩
  · rintro ⟨n, hn⟩
    have hresume := resume_steps directory n t.start
    rw [hn] at hresume
    exact hresume.symm

end DurableRuntime
