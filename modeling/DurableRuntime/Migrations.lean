import DurableRuntime.MigrationFiles

/-!
# Interrupted migrations

A run of the script can be interrupted after any command and after any
statement of a file.  What the next run makes of the database depends on the
file that was in progress: its name is not recorded, so the script runs it
again from its first statement.
-/

namespace DurableRuntime

open Foundation

variable {σ : Type}

/-! ## What a run does to a database -/

section

variable {t : MigrationTarget σ} {known : List String}

/-- The files whose names the table does not hold. -/
def pending (known : List String) (files : List (MigrationFile σ)) : List (MigrationFile σ) :=
  files.filter fun file => decide (file.name ∉ known)

/-- Recording a file does not change which of the others are pending. -/
theorem pending_record (known : List String) {name : String} {files : List (MigrationFile σ)}
    (hother : name ∉ files.map MigrationFile.name) :
    pending (known ++ [name]) files = pending known files := by
  apply List.filter_congr
  intro other hmem
  have hne : other.name ≠ name := by
    intro heq
    apply hother
    rw [← heq]
    exact List.mem_map_of_mem hmem
  simp [hne]

/-- The database with a schema and further files recorded. -/
def MigrationTarget.upTo (t : MigrationTarget σ) (known applied recorded : List String)
    (schema : σ) : MigrationTarget σ :=
  { schema, schemaMigrations := some (known ++ recorded), applied := t.applied ++ applied }

theorem isApplied_of_known (htable : t.schemaMigrations = some known) (name : String) :
    t.isApplied name = some (decide (name ∈ known)) := by
  simp [MigrationTarget.isApplied, htable]

theorem record_of_known (htable : t.schemaMigrations = some known) {name : String}
    (hname : name ∉ known) :
    t.record name = some { t with schemaMigrations := some (known ++ [name]) } := by
  simp [MigrationTarget.record, htable, hname]

/-- What is left of a file: its statements, then its name. -/
theorem applyFile_eq (htable : t.schemaMigrations = some known) {name : String}
    (hname : name ∉ known) (left : List (Command σ)) :
    applyFile name left t = (perform left t.schema).map
      (t.upTo known (if left.isEmpty then [] else [name]) [name]) := by
  induction left generalizing t with
  | nil => simp [applyFile, record_of_known htable hname, MigrationTarget.upTo]
  | cons statement left ih =>
      simp only [applyFile, perform_cons]
      cases statement t.schema with
      | none => rfl
      | some schema =>
          simp only [Option.bind_some]
          have hleft := ih (t := ({ t with schema }).through name left) htable
          refine hleft.trans ?_
          congr 1
          funext final
          cases left <;> simp [MigrationTarget.upTo, MigrationTarget.through]

/-- A whole file that is not recorded yet. -/
theorem applyFile_through (htable : t.schemaMigrations = some known) {name : String}
    (hname : name ∉ known) (statements : List (Command σ)) :
    applyFile name statements (t.through name statements) =
      (perform statements t.schema).map (t.upTo known [name] [name]) := by
  rw [applyFile_eq (t := t.through name statements) htable hname]
  congr 1
  funext final
  cases statements <;> simp [MigrationTarget.upTo, MigrationTarget.through]

/-- The loop performs the statements of the files that are not recorded, and records these. -/
theorem migrationLoop_eq (htable : t.schemaMigrations = some known)
    {files : List (MigrationFile σ)} (hdistinct : (files.map MigrationFile.name).Nodup) :
    migrationLoop files t =
      (perform ((pending known files).flatMap MigrationFile.statements) t.schema).map
        (t.upTo known ((pending known files).map MigrationFile.name)
          ((pending known files).map MigrationFile.name)) := by
  induction files generalizing t known with
  | nil =>
      cases t
      cases htable
      simp [migrationLoop, pending, MigrationTarget.upTo]
  | cons file files ih =>
      simp only [List.map_cons, List.nodup_cons] at hdistinct
      obtain ⟨hother, hdistinct⟩ := hdistinct
      simp only [migrationLoop, isApplied_of_known htable]
      by_cases hname : file.name ∈ known
      · have hskip : pending known (file :: files) = pending known files := by
          simp [pending, hname]
        simp only [hname, decide_true, hskip]
        exact ih htable hdistinct
      · have htake : pending known (file :: files) = file :: pending known files := by
          simp [pending, hname]
        have hsame := pending_record known hother
        simp only [hname, decide_false, htake, List.flatMap_cons, List.map_cons, perform_append,
          applyFile_through htable hname]
        cases perform file.statements t.schema with
        | none => rfl
        | some schema =>
            simp only [Option.map_some, Option.bind_some]
            rw [ih (t := t.upTo known [file.name] [file.name] schema) rfl hdistinct, hsame]
            congr 1
            funext final
            simp [MigrationTarget.upTo]

end

/-! ## Where a run can be interrupted -/

/-- The names that the table of a database holds. -/
def MigrationTarget.known (t : MigrationTarget σ) : List String := t.schemaMigrations.getD []

/--
What holds of a run after any number of steps: the files before the one in
progress are recorded, that one is not, and the statements of it that are not
left have been committed on the schema that the run opened it with.
-/
def Underway (directory : MigrationDirectory σ) (c : ScriptState σ) : Prop :=
  match c.stage with
  | .creating => True
  | .loop files =>
      ∃ passed, directory.files = passed ++ files ∧
        c.target.schemaMigrations = some c.target.known ∧
        ∀ file ∈ passed, file.name ∈ c.target.known
  | .applying file left files =>
      ∃ passed gone, directory.files = passed ++ file :: files ∧ file.statements = gone ++ left ∧
        (∃ opened, perform gone opened = some c.target.schema) ∧
        c.target.schemaMigrations = some c.target.known ∧
        (∀ other ∈ passed, other.name ∈ c.target.known) ∧ file.name ∉ c.target.known
  | .finished =>
      c.target.schemaMigrations = some c.target.known ∧
        ∀ file ∈ directory.files, file.name ∈ c.target.known
  | .failed => True

theorem underway_step {directory : MigrationDirectory σ} {c : ScriptState σ}
    (h : Underway directory c) : Underway directory (scriptStep directory c) := by
  obtain ⟨t, stage⟩ := c
  cases stage with
  | creating => exact ⟨[], rfl, rfl, by simp⟩
  | loop files =>
      obtain ⟨passed, hfiles, htable, hpassed⟩ := h
      cases files with
      | nil =>
          refine ⟨htable, ?_⟩
          intro file hfile
          apply hpassed
          simpa [hfiles] using hfile
      | cons file files =>
          simp only [scriptStep, isApplied_of_known htable]
          by_cases hname : file.name ∈ t.known
          · simp only [hname, decide_true]
            refine ⟨passed ++ [file], by simp [hfiles], htable, ?_⟩
            intro other hother
            rcases List.mem_append.mp hother with hother | hother
            · exact hpassed other hother
            · cases List.mem_singleton.mp hother
              exact hname
          · simp only [hname, decide_false]
            exact ⟨passed, [], hfiles, rfl, ⟨t.schema, rfl⟩, htable, hpassed, hname⟩
  | applying file left files =>
      obtain ⟨passed, gone, hfiles, hgone, ⟨opened, hopened⟩, htable, hpassed, hname⟩ := h
      cases left with
      | nil =>
          simp only [scriptStep, record_of_known htable hname]
          refine ⟨passed ++ [file], by simp [hfiles], rfl, ?_⟩
          intro other hother
          apply List.mem_append.mpr
          rcases List.mem_append.mp hother with hother | hother
          · exact Or.inl (hpassed other hother)
          · cases List.mem_singleton.mp hother
            exact Or.inr (List.mem_singleton.mpr rfl)
      | cons statement left =>
          cases hstatement : statement t.schema with
          | none => simp [scriptStep, hstatement, Underway]
          | some schema =>
              simp only [scriptStep, hstatement]
              have hcommitted : perform (gone ++ [statement]) opened = some schema := by
                rw [perform_append, hopened]
                simp [perform_cons, hstatement]
              exact ⟨passed, gone ++ [statement], hfiles, by simp [hgone], ⟨opened, hcommitted⟩,
                htable, hpassed, hname⟩
  | finished => exact h
  | failed => trivial

theorem underway_steps {directory : MigrationDirectory σ} (n : Nat) {c : ScriptState σ}
    (h : Underway directory c) : Underway directory (scriptSteps directory n c) := by
  induction n generalizing c with
  | zero => exact h
  | succ n ih => exact ih (underway_step h)

theorem pending_of_passed {known : List String} {passed files : List (MigrationFile σ)}
    (hpassed : ∀ file ∈ passed, file.name ∈ known) :
    pending known (passed ++ files) = pending known files := by
  have hnone : pending known passed = [] := by
    simp only [pending, List.filter_eq_nil_iff, decide_eq_true_eq, not_not]
    exact hpassed
  simp only [pending, List.filter_append] at hnone ⊢
  rw [hnone, List.nil_append]

theorem distinct_behind {directory : MigrationDirectory σ} {passed files : List (MigrationFile σ)}
    (hfiles : directory.files = passed ++ files) : (files.map MigrationFile.name).Nodup := by
  have hall := directory.files_distinct
  rw [hfiles, List.map_append] at hall
  exact (List.nodup_append.mp hall).2.1

/-- A run of the script in terms of the files that are not recorded when it starts. -/
theorem containerMigrate_eq (directory : MigrationDirectory σ) (t : MigrationTarget σ) :
    containerMigrate directory t =
      (perform ((pending t.known directory.files).flatMap MigrationFile.statements) t.schema).map
        (t.upTo t.known ((pending t.known directory.files).map MigrationFile.name)
          ((pending t.known directory.files).map MigrationFile.name)) := by
  have htable : t.createTable.schemaMigrations = some t.known := rfl
  exact migrationLoop_eq htable directory.files_distinct

/-! ## Recovery -/

/--
The interruption leaves a file in progress that can be run again: it is not
through, and its statements, performed from the first one on the schema as it
is, and those of the files behind it, end in the schema in which going on from
the interrupted statement would have ended.
-/
def Harmless (c : ScriptState σ) : Prop :=
  match c.stage with
  | .applying file left files =>
      let behind := (pending c.target.known files).flatMap MigrationFile.statements
      left ≠ [] ∧
        perform (file.statements ++ behind) c.target.schema =
          perform (left ++ behind) c.target.schema
  | _ => True

/--
After the interrupted runs, a run that nothing interrupts finishes, every
migration has been applied once, every name is recorded once, and the schema is
that of a single uninterrupted run.
-/
def Recovers (directory : MigrationDirectory σ) (schema : σ) (stops : List Nat) : Prop :=
  ∃ single recovered,
    containerMigrate directory (.fresh schema) = some single ∧
    containerMigrate directory (leftBehind directory (.fresh schema) stops) = some recovered ∧
    recovered.applied = directory.names ∧
    recovered.schemaMigrations = some directory.names ∧
    recovered.schema = single.schema

/-- What going on from a statement of a file comes to. -/
theorem resume_applying {directory : MigrationDirectory σ} {t : MigrationTarget σ}
    {known : List String} (htable : t.schemaMigrations = some known) {file : MigrationFile σ}
    (hname : file.name ∉ known) {files : List (MigrationFile σ)}
    (hother : file.name ∉ files.map MigrationFile.name)
    (hdistinct : (files.map MigrationFile.name).Nodup) (left : List (Command σ)) :
    resume directory ⟨t, .applying file left files⟩ =
      (perform (left ++ (pending known files).flatMap MigrationFile.statements) t.schema).map
        (t.upTo known
          ((if left.isEmpty then [] else [file.name]) ++
            (pending known files).map MigrationFile.name)
          (file.name :: (pending known files).map MigrationFile.name)) := by
  simp only [resume, applyFile_eq htable hname, perform_append]
  cases perform left t.schema with
  | none => rfl
  | some schema =>
      simp only [Option.map_some, Option.bind_some]
      have hloop := migrationLoop_eq
        (t := t.upTo known (if left.isEmpty then [] else [file.name]) [file.name] schema)
        rfl hdistinct
      rw [hloop, pending_record known hother]
      congr 1
      funext final
      simp [MigrationTarget.upTo]

/-- A run that starts where another one was interrupted ends as that one would have. -/
theorem containerMigrate_interrupted {directory : MigrationDirectory σ} {c : ScriptState σ}
    {t : MigrationTarget σ} (hunderway : Underway directory c)
    (hresume : resume directory c = some t) :
    containerMigrate directory c.target = some t ↔ Harmless c := by
  obtain ⟨u, stage⟩ := c
  cases stage with
  | creating => simp [Harmless, ← hresume, resume]
  | loop files =>
      obtain ⟨passed, hfiles, htable, hpassed⟩ := hunderway
      simp only [resume] at hresume
      rw [migrationLoop_eq htable (distinct_behind hfiles)] at hresume
      simp only [Harmless, iff_true]
      rw [containerMigrate_eq, hfiles, pending_of_passed hpassed]
      exact hresume
  | applying file left files =>
      obtain ⟨passed, _, hfiles, _, _, htable, hpassed, hname⟩ := hunderway
      obtain ⟨hother, hdistinct⟩ := List.nodup_cons.mp (distinct_behind hfiles)
      rw [resume_applying htable hname hother hdistinct] at hresume
      have hpending : pending u.known directory.files = file :: pending u.known files := by
        rw [hfiles, pending_of_passed hpassed]
        simp [pending, hname]
      rw [containerMigrate_eq, hpending]
      simp only [List.flatMap_cons, List.map_cons, Harmless]
      obtain ⟨final, hfinal, rfl⟩ := Option.map_eq_some_iff.mp hresume
      rw [hfinal]
      constructor
      · intro hrun
        obtain ⟨again, hagain, hsame⟩ := Option.map_eq_some_iff.mp hrun
        have hschema : again = final := congrArg MigrationTarget.schema hsame
        have happlied := congrArg (fun t => t.applied.length) hsame
        constructor
        · rintro rfl
          simp [MigrationTarget.upTo] at happlied
        · rw [hagain, hschema]
      · rintro ⟨hleft, hagain⟩
        rw [hagain]
        cases left with
        | nil => exact absurd rfl hleft
        | cons statement left => rfl
  | finished =>
      obtain ⟨htable, hall⟩ := hunderway
      simp only [resume, Option.some.injEq] at hresume
      subst hresume
      simp only [Harmless, iff_true]
      have hnone : pending u.known directory.files = [] := by
        simp only [pending, List.filter_eq_nil_iff, decide_eq_true_eq, not_not]
        exact hall
      rw [containerMigrate_eq, hnone]
      cases u
      simp only [MigrationTarget.upTo, List.append_nil, List.map_nil, List.flatMap_nil,
        perform_nil, Option.map_some]
      simp only at htable
      rw [htable]
      rfl
  | failed => simp [resume] at hresume

theorem resume_start (directory : MigrationDirectory σ) (t : MigrationTarget σ) (stop : Nat) :
    resume directory (scriptSteps directory stop t.start) = containerMigrate directory t :=
  resume_steps directory stop t.start

theorem leftBehind_of_harmless {directory : MigrationDirectory σ} {stops : List Nat}
    {t t' : MigrationTarget σ} (hrun : containerMigrate directory t = some t')
    (hharmless : ∀ c ∈ interruptions directory t stops, Harmless c) :
    containerMigrate directory (leftBehind directory t stops) = some t' := by
  induction stops generalizing t with
  | nil => exact hrun
  | cons stop stops ih =>
      simp only [interruptions, List.mem_cons, forall_eq_or_imp] at hharmless
      obtain ⟨hfirst, hrest⟩ := hharmless
      have hunderway : Underway directory (scriptSteps directory stop t.start) :=
        underway_steps stop trivial
      have hresume := (resume_start directory t stop).trans hrun
      exact ih ((containerMigrate_interrupted hunderway hresume).mpr hfirst) hrest

theorem harmless_of_leftBehind {directory : MigrationDirectory σ} {stops : List Nat}
    {t t' : MigrationTarget σ}
    (hall : ∀ k, containerMigrate directory (leftBehind directory t (stops.take k)) = some t') :
    ∀ c ∈ interruptions directory t stops, Harmless c := by
  induction stops generalizing t with
  | nil => simp [interruptions]
  | cons stop stops ih =>
      have hunderway : Underway directory (scriptSteps directory stop t.start) :=
        underway_steps stop trivial
      have hresume := (resume_start directory t stop).trans (hall 0)
      simp only [interruptions, List.mem_cons, forall_eq_or_imp]
      constructor
      · exact (containerMigrate_interrupted hunderway hresume).mp (hall 1)
      · apply ih
        intro k
        exact hall (k + 1)

theorem interruptions_take (directory : MigrationDirectory σ) (t : MigrationTarget σ)
    (stops : List Nat) (k : Nat) :
    interruptions directory t (stops.take k) = (interruptions directory t stops).take k := by
  induction stops generalizing t k with
  | nil => simp [interruptions]
  | cons stop stops ih =>
      cases k with
      | zero => rfl
      | succ k =>
          simp only [List.take_succ_cons, interruptions]
          rw [ih]

/-- A single uninterrupted run applies and records every migration once. -/
theorem containerMigrate_fresh (directory : MigrationDirectory σ) (schema : σ) :
    containerMigrate directory (.fresh schema) =
      (perform directory.statements schema).map fun final =>
        { schema := final, schemaMigrations := some directory.names,
          applied := directory.names } := by
  have hall : pending (MigrationTarget.fresh schema).known directory.files = directory.files := by
    simp [pending, MigrationTarget.known, MigrationTarget.fresh]
  rw [containerMigrate_eq, hall]
  rfl

theorem recovers_of_harmless {directory : MigrationDirectory σ} {schema : σ} {stops : List Nat}
    (hsome : (perform directory.statements schema).isSome)
    (hharmless : ∀ c ∈ interruptions directory (.fresh schema) stops, Harmless c) (k : Nat) :
    Recovers directory schema (stops.take k) := by
  obtain ⟨final, hfinal⟩ := Option.isSome_iff_exists.mp hsome
  have hsingle := containerMigrate_fresh directory schema
  rw [hfinal, Option.map_some] at hsingle
  have hharmless : ∀ c ∈ interruptions directory (.fresh schema) (stops.take k), Harmless c := by
    intro c hc
    rw [interruptions_take] at hc
    exact hharmless c (List.mem_of_mem_take hc)
  have hagain := leftBehind_of_harmless hsingle hharmless
  exact ⟨_, _, hsingle, hagain, rfl, rfl, rfl⟩

theorem harmless_of_recovers {directory : MigrationDirectory σ} {schema : σ} {stops : List Nat}
    (hall : ∀ k, Recovers directory schema (stops.take k)) :
    (perform directory.statements schema).isSome ∧
      ∀ c ∈ interruptions directory (.fresh schema) stops, Harmless c := by
  have hsame : ∀ k, ∃ final, perform directory.statements schema = some final ∧
      containerMigrate directory (leftBehind directory (.fresh schema) (stops.take k)) =
        some ⟨final, some directory.names, directory.names⟩ := by
    intro k
    obtain ⟨single, recovered, hsingle, hrecovered, happlied, htable, hschema⟩ := hall k
    rw [containerMigrate_fresh] at hsingle
    obtain ⟨final, hfinal, rfl⟩ := Option.map_eq_some_iff.mp hsingle
    refine ⟨final, hfinal, ?_⟩
    rw [hrecovered]
    cases recovered
    simp only at happlied htable hschema
    rw [happlied, htable, hschema]
  obtain ⟨final, hfinal, _⟩ := hsame 0
  constructor
  · rw [hfinal]
    rfl
  · apply harmless_of_leftBehind
    intro k
    obtain ⟨other, hother, hrun⟩ := hsame k
    rw [hfinal] at hother
    cases hother
    exact hrun

/--
Migrations survive a sequence of interruptions, after each of them, exactly if
a single run goes through and every interruption is harmless.
-/
theorem recovers_iff (directory : MigrationDirectory σ) (schema : σ) (stops : List Nat) :
    (∀ k, Recovers directory schema (stops.take k)) ↔
      (perform directory.statements schema).isSome ∧
        ∀ c ∈ interruptions directory (.fresh schema) stops, Harmless c := by
  constructor
  · exact harmless_of_recovers
  · rintro ⟨hsome, hharmless⟩
    exact recovers_of_harmless hsome hharmless

/-- Cut off behind `create type dar_role`, the first migration cannot be run again. -/
theorem not_recovers :
    ¬ ∀ (directory : MigrationDirectory Schema) (schema : Schema) (stops : List Nat),
      Recovers directory schema stops := by
  intro hall
  obtain ⟨_, recovered, _, hrecovered, _⟩ := hall migrations.directory [] [4]
  have hstuck : (containerMigrate migrations.directory
      (leftBehind migrations.directory (.fresh []) [4])).isNone = true := by
    decide +kernel
  rw [hrecovered] at hstuck
  cases hstuck

/-! ## Which interruptions files of DDL statements survive -/

section

variable {ddl : DdlDirectory} {c : ScriptState Schema} {t t' : MigrationTarget Schema}

/-- The statements of the file in progress that the interrupted run has committed. -/
def committedDdl (ddl : DdlDirectory) (file : MigrationFile Schema)
    (left : List (Command Schema)) : List Ddl :=
  ((ddl.sources.lookup file.name).getD []).take (file.statements.length - left.length)

/-- No file is in progress, or one of which only repeatable statements are committed. -/
def NothingCreated (ddl : DdlDirectory) (c : ScriptState Schema) : Prop :=
  match c.stage with
  | .applying file left _ => left ≠ [] ∧ ∀ d ∈ committedDdl ddl file left, d.Repeatable
  | _ => True

theorem committedDdl_spec {file : MigrationFile Schema} (hfile : file ∈ ddl.directory.files)
    {gone left : List (Command Schema)} (hgone : file.statements = gone ++ left) :
    gone = (committedDdl ddl file left).map Ddl.run := by
  rw [ddl.files_eq] at hfile
  obtain ⟨source, hsource, rfl⟩ := List.mem_map.mp hfile
  have hlookup := DdlDirectory.lookup_eq ddl.distinct hsource
  have hlength := congrArg List.length hgone
  have htake := congrArg (List.take gone.length) hgone
  simp only [ddlFile, List.length_map, List.length_append, ← List.map_take,
    List.take_left] at hlength htake
  simp only [committedDdl, ddlFile, hlookup, Option.getD_some, List.length_map, hlength,
    Nat.add_sub_cancel]
  exact htake.symm

theorem harmless_iff_nothingCreated (hunderway : Underway ddl.directory c)
    (hresume : resume ddl.directory c = some t) : Harmless c ↔ NothingCreated ddl c := by
  obtain ⟨u, stage⟩ := c
  cases stage with
  | creating => simp [Harmless, NothingCreated]
  | loop files => simp [Harmless, NothingCreated]
  | applying file left files =>
      obtain ⟨passed, gone, hfiles, hgone, ⟨opened, hopened⟩, htable, hpassed, hname⟩ := hunderway
      have hmem : file ∈ ddl.directory.files := by simp [hfiles]
      have hcommitted := committedDdl_spec hmem hgone
      rw [hcommitted] at hopened
      simp only [Harmless, NothingCreated]
      apply and_congr_right
      intro _
      constructor
      · intro hagain d hd
        unfold Ddl.Repeatable
        by_contra hcreates
        obtain ⟨object, hobject⟩ := List.exists_mem_of_ne_nil _ hcreates
        have hexists := exists_of_perform hopened hd hobject
        have hnone := perform_none_of_exists hd hobject hexists
        have hgoes : perform (left ++ (pending u.known files).flatMap MigrationFile.statements)
            u.schema ≠ none := by
          obtain ⟨hother, hdistinct⟩ := List.nodup_cons.mp (distinct_behind hfiles)
          rw [resume_applying htable hname hother hdistinct] at hresume
          obtain ⟨final, hfinal, _⟩ := Option.map_eq_some_iff.mp hresume
          simp [hfinal]
        apply hgoes
        rw [← hagain, hgone, hcommitted, List.append_assoc, perform_append, hnone]
        rfl
      · intro hrepeat
        rw [hgone, hcommitted, List.append_assoc]
        apply perform_append_of_idle
        intro command hcommand
        obtain ⟨d, hd, rfl⟩ := List.mem_map.mp hcommand
        exact idle_of_perform hopened hrepeat d hd
  | finished => simp [Harmless, NothingCreated]
  | failed => simp [Harmless, NothingCreated]

theorem interruptions_harmless_iff {stops : List Nat}
    (hrun : containerMigrate ddl.directory t = some t') :
    (∀ c ∈ interruptions ddl.directory t stops, Harmless c) ↔
      ∀ c ∈ interruptions ddl.directory t stops, NothingCreated ddl c := by
  induction stops generalizing t with
  | nil => simp [interruptions]
  | cons stop stops ih =>
      have hunderway : Underway ddl.directory (scriptSteps ddl.directory stop t.start) :=
        underway_steps stop trivial
      have hresume := (resume_start ddl.directory t stop).trans hrun
      have hfirst := harmless_iff_nothingCreated hunderway hresume
      simp only [interruptions, List.mem_cons, forall_eq_or_imp]
      constructor
      · rintro ⟨hharmless, hrest⟩
        have hagain := (containerMigrate_interrupted hunderway hresume).mpr hharmless
        exact ⟨hfirst.mp hharmless, (ih hagain).mp hrest⟩
      · rintro ⟨hcreated, hrest⟩
        have hharmless := hfirst.mpr hcreated
        have hagain := (containerMigrate_interrupted hunderway hresume).mpr hharmless
        exact ⟨hharmless, (ih hagain).mpr hrest⟩

/--
Files of DDL statements survive exactly those interruptions that do not leave a
file in progress with a `create` or an `add column` committed.
-/
theorem ddl_recovers_iff (ddl : DdlDirectory) (schema : Schema) (stops : List Nat) :
    (∀ k, Recovers ddl.directory schema (stops.take k)) ↔
      (perform ddl.directory.statements schema).isSome ∧
        ∀ c ∈ interruptions ddl.directory (.fresh schema) stops, NothingCreated ddl c := by
  have hcreated : (perform ddl.directory.statements schema).isSome →
      ((∀ c ∈ interruptions ddl.directory (.fresh schema) stops, Harmless c) ↔
        ∀ c ∈ interruptions ddl.directory (.fresh schema) stops, NothingCreated ddl c) := by
    intro hsome
    obtain ⟨final, hfinal⟩ := Option.isSome_iff_exists.mp hsome
    have hsingle := containerMigrate_fresh ddl.directory schema
    rw [hfinal, Option.map_some] at hsingle
    exact interruptions_harmless_iff hsingle
  constructor
  · intro hall
    obtain ⟨hsome, hharmless⟩ := harmless_of_recovers hall
    exact ⟨hsome, (hcreated hsome).mp hharmless⟩
  · rintro ⟨hsome, hnothing⟩
    exact recovers_of_harmless hsome ((hcreated hsome).mpr hnothing)

end

theorem migrations_apply : (perform migrations.directory.statements []).isSome := by
  decide +kernel

end DurableRuntime
