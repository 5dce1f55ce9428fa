import DurableRuntime.Foundation.Sequences
import DurableRuntime.Identity
import DurableRuntime.Jsonb
import DurableRuntime.Scenario

/-!
# One workflow language

The schema of the control plane and the switches of the worker agree.  What a
`jsonb` column gives back of an accepted definition, with or without its schema
version, the worker decodes to the same steps and hosts; and since the members
of a step are named apart even when case is folded, it does so whatever order
they come in.  No step it decodes then leads into a branch for unknown words.
-/

namespace DurableRuntime

open DurableRuntime.Foundation

/-- A definition as it was stored before definitions had a schema version. -/
def WorkflowDefinition.legacyJson (workflow : WorkflowDefinition) : Json :=
  .obj [("name", .str workflow.name), ("version", .str workflow.version),
    ("steps", .arr (workflow.steps.map WorkflowStep.toJson)),
    ("budgetCents", .num workflow.budgetCents),
    ("allowedHosts", .arr (workflow.allowedHosts.map Json.str))]

/-- The worker decodes the stored value to the workflow: its hosts, and its steps in order. -/
def Reads (json : Json) (workflow : WorkflowDefinition) : Prop :=
  ∃ definition, Worker.unmarshalDefinition json = some definition ∧
    Worker.supportedWorkflowSchema definition.schemaVersion = true ∧
    definition.allowedHosts = workflow.allowedHosts ∧
    definition.steps.mapM Worker.unmarshalStep = some (workflow.steps.map Worker.stepOf)

/-- The failures of `execute` for a word of the workflow language that the worker does not know. -/
def isLanguageFailure (state : RunState) (code : String) : Bool :=
  code ∈ ["unsupported_workflow_schema", "invalid_workflow_step", "unsupported_transform",
    "unsupported_step", "tool_not_registered"] ||
  (state = .failed && code = "provider_not_configured")

structure LanguagesAgree (t : State) : Prop where
  decoded : ∀ workflow, Accepted workflow → Reads workflow.toJson.jsonb workflow
  legacy : ∀ workflow, Accepted workflow → Reads workflow.legacyJson.jsonb workflow
  executed : ∀ (index : Nat) (session : Worker.Session) run state code after,
    t.workers[index]? = some session → session.pc = .terminate run state code after →
      isLanguageFailure state code = false

/-- A start with stored definitions, of this version or of older ones. -/
structure Seeded (s : State) : Prop where
  workers : s.workers = []
  definitions : ∀ row ∈ s.db.definitions, ∃ workflow, Accepted workflow ∧
    (row.definition = workflow.toJson.jsonb ∨ row.definition = workflow.legacyJson.jsonb)

namespace Worker

/-! ## Decoding in any order -/

theorem unmarshalField_filter {β : Type} (name : String) (zero : β)
    (decode : β → Json → Option β) (members : List (String × Json)) :
    unmarshalField name zero decode members =
      (members.filter fun member => foldName member.1 = foldName name).foldlM
        (fun value member => decode value member.2) zero := by
  unfold unmarshalField
  induction members generalizing zero with
  | nil => rfl
  | cons member members ih =>
      rw [List.foldlM_cons, List.filter_cons]
      by_cases hname : foldName member.1 = foldName name
      · simp only [hname, if_true, decide_true, List.foldlM_cons]
        cases decode zero member.2 with
        | none => rfl
        | some value => exact ih value
      · simp only [hname, if_false, decide_false]
        exact ih zero

/-- The members of an object that the control plane has written. -/
structure Wire (members : List (String × Json)) : Prop where
  nodup : (members.map Prod.fst).Nodup
  names : ∀ member ∈ members, member.1 ∈ wireNames

theorem Wire.filter_length {members : List (String × Json)} (wire : Wire members)
    {name : String} (hname : name ∈ wireNames) :
    (members.filter fun member => foldName member.1 = foldName name).length ≤ 1 := by
  have hsame : members.filter (fun member => foldName member.1 = foldName name) =
      members.filter fun member => member.1 = name := by
    refine List.filter_congr ?_
    intro member hmember
    simp only [foldName_eq_iff (wire.names member hmember) hname]
  have hcount := List.nodup_iff_count_le_one.mp wire.nodup name
  rw [hsame]
  rw [List.count_eq_countP, List.countP_map, List.countP_eq_length_filter] at hcount
  exact hcount

theorem Wire.unmarshalField {members stored : List (String × Json)} (wire : Wire members)
    (hperm : stored.Perm members) {name : String} (hname : name ∈ wireNames) {β : Type}
    (zero : β) (decode : β → Json → Option β) :
    unmarshalField name zero decode stored = unmarshalField name zero decode members := by
  rw [unmarshalField_filter, unmarshalField_filter]
  have hfilter := hperm.filter fun member => foldName member.1 = foldName name
  have hlength := wire.filter_length hname
  congr 1
  cases hrest : members.filter fun member => foldName member.1 = foldName name with
  | nil =>
      rw [hrest] at hfilter
      exact hfilter.eq_nil
  | cons member rest =>
      rw [hrest] at hfilter hlength
      cases rest with
      | nil => exact hfilter.eq_singleton
      | cons => simp at hlength

theorem wire_jsonb {members : List (String × Json)} (wire : Wire members) :
    ∃ stored, (Json.obj members).jsonb = .obj stored ∧
      stored.Perm (Json.jsonbMembers members) ∧ Wire (Json.jsonbMembers members) := by
  obtain ⟨stored, hstored, hperm⟩ := Json.jsonb_obj wire.nodup
  have hnames := Json.jsonbMembers_names members
  refine ⟨stored, hstored, hperm, ⟨by rw [hnames]; exact wire.nodup, ?_⟩⟩
  intro member hmember
  have hname := List.mem_map_of_mem (f := Prod.fst) hmember
  rw [hnames] at hname
  obtain ⟨old, hold, heq⟩ := List.mem_map.mp hname
  exact heq ▸ wire.names old hold

theorem unmarshalStep_jsonb {members : List (String × Json)} (wire : Wire members) :
    unmarshalStep (Json.obj members).jsonb = unmarshalStep (.obj (Json.jsonbMembers members)) := by
  obtain ⟨stored, hstored, hperm, wire'⟩ := wire_jsonb wire
  rw [hstored]
  simp (disch := decide) only [unmarshalStep, wire'.unmarshalField hperm]

theorem unmarshalDefinition_jsonb {members : List (String × Json)} (wire : Wire members) :
    unmarshalDefinition (Json.obj members).jsonb =
      unmarshalDefinition (.obj (Json.jsonbMembers members)) := by
  obtain ⟨stored, hstored, hperm, wire'⟩ := wire_jsonb wire
  rw [hstored]
  simp (disch := decide) only [unmarshalDefinition, wire'.unmarshalField hperm]

theorem wire_of_names {members : List (String × Json)}
    (hnodup : (members.map Prod.fst).Nodup)
    (hnames : ∀ name ∈ members.map Prod.fst, name ∈ wireNames) : Wire members :=
  ⟨hnodup, fun _ hmember => hnames _ (List.mem_map_of_mem hmember)⟩

/-- A stored step decodes to itself. -/
theorem unmarshalStep_stored (step : WorkflowStep) :
    unmarshalStep step.toJson.jsonb = some (stepOf step) := by
  rw [← unmarshalStep_toJson step]
  cases step with
  | model provider promptTemplate =>
      exact unmarshalStep_jsonb (wire_of_names (by simp) (by simp [wireNames]))
  | transform operation input =>
      exact unmarshalStep_jsonb (wire_of_names (by simp) (by simp [wireNames]))
  | tool name sideEffect =>
      exact unmarshalStep_jsonb (wire_of_names (by simp) (by simp [wireNames]))
  | approval reason =>
      exact unmarshalStep_jsonb (wire_of_names (by simp) (by simp [wireNames]))

theorem mapM_unmarshalStep (steps : List WorkflowStep) :
    (steps.map fun step => step.toJson.jsonb).mapM unmarshalStep = some (steps.map stepOf) := by
  induction steps with
  | nil => rfl
  | cons step steps ih => rw [List.map_cons, List.mapM_cons, unmarshalStep_stored, ih]; rfl

theorem stored_hosts (hosts : List String) :
    Json.jsonbItems (hosts.map Json.str) = hosts.map Json.str := by
  rw [Json.jsonbItems_eq_map, List.map_map]
  apply List.map_congr_left
  intro host _
  rw [Function.comp_apply, Json.jsonb]

theorem stored_steps (steps : List WorkflowStep) :
    Json.jsonbItems (steps.map WorkflowStep.toJson) =
      steps.map fun step => step.toJson.jsonb := by
  rw [Json.jsonbItems_eq_map, List.map_map]
  rfl

theorem reads_toJson (workflow : WorkflowDefinition) (haccepted : Accepted workflow) :
    Reads workflow.toJson.jsonb workflow := by
  have hhosts : decodeStrings [] (.arr (workflow.allowedHosts.map Json.str)) =
      some workflow.allowedHosts := mapM_decodeString _
  refine ⟨⟨workflow.schemaVersion, workflow.allowedHosts,
    workflow.steps.map fun step => step.toJson.jsonb⟩, ?_, ?_, rfl, mapM_unmarshalStep _⟩
  · rw [WorkflowDefinition.toJson,
      unmarshalDefinition_jsonb (wire_of_names (by simp) (by simp [wireNames]))]
    simp (disch := decide) [Json.jsonbMembers, stored_hosts, stored_steps, unmarshalDefinition,
      unmarshalField_cons, unmarshalField_nil, hhosts, decodeString, decodeRaw, Json.jsonb]
  · rw [haccepted.schemaVersion]
    rfl

theorem reads_legacyJson (workflow : WorkflowDefinition) :
    Reads workflow.legacyJson.jsonb workflow := by
  have hhosts : decodeStrings [] (.arr (workflow.allowedHosts.map Json.str)) =
      some workflow.allowedHosts := mapM_decodeString _
  refine ⟨⟨"", workflow.allowedHosts, workflow.steps.map fun step => step.toJson.jsonb⟩, ?_, rfl,
    rfl, mapM_unmarshalStep _⟩
  rw [WorkflowDefinition.legacyJson,
    unmarshalDefinition_jsonb (wire_of_names (by simp) (by simp [wireNames]))]
  simp (disch := decide) [Json.jsonbMembers, stored_hosts, stored_steps, unmarshalDefinition,
    unmarshalField_cons, unmarshalField_nil, hhosts, decodeRaw, Json.jsonb]

/-! ## What a worker executes -/

/-- Every word of the definition is one that the worker knows. -/
structure Known (definition : Definition) : Prop where
  version : supportedWorkflowSchema definition.schemaVersion = true
  steps : ∀ raw ∈ definition.steps, ∃ step, unmarshalStep raw = some (stepOf step)

theorem executeStep_known {env : Env} {run other : LeasedRun} {index : Nat} {step : WorkflowStep}
    {state : RunState} {code : String} {after : After}
    (h : executeStep env other index (stepOf step) = .terminate run state code after) :
    isLanguageFailure state code = false := by
  cases step with
  | model provider promptTemplate =>
      cases provider with
      | mock => cases h
      | openaiCompatible =>
          change executeProviderModel env other index _ = _ at h
          unfold executeProviderModel at h
          repeat' split at h
          all_goals cases h
          all_goals decide
  | transform operation input => cases operation <;> cases h
  | tool name sideEffect =>
      cases name with
      | allowlistedHttpFetch =>
          change (if validateURL env (inputUrl other) other.definition.allowedHosts then _
            else fail other "http_url_not_allowed" _) = _ at h
          split at h <;> cases h
          decide
      | mockTicketWrite => cases h
      | mockDataRead => cases h
  | approval reason => cases h

theorem known_of_steps {definition : Definition} {steps : List WorkflowStep}
    (hversion : supportedWorkflowSchema definition.schemaVersion = true)
    (hsteps : definition.steps.mapM unmarshalStep = some (steps.map stepOf)) :
    Known definition := by
  refine ⟨hversion, ?_⟩
  intro raw hraw
  obtain ⟨current, hcurrent, hdecode⟩ := mapM_some_of_mem hsteps hraw
  obtain ⟨step, -, rfl⟩ := List.mem_map.mp hcurrent
  exact ⟨step, hdecode⟩

theorem known_toJson {workflow : WorkflowDefinition} (haccepted : Accepted workflow) :
    Known ⟨workflow.schemaVersion, workflow.allowedHosts,
      workflow.steps.map WorkflowStep.toJson⟩ := by
  refine ⟨by rw [haccepted.schemaVersion]; rfl, ?_⟩
  intro raw hraw
  obtain ⟨step, -, rfl⟩ := List.mem_map.mp hraw
  exact ⟨step, unmarshalStep_toJson step⟩

theorem fetchFailure_known {env : Env} {reply : FetchReply} {code : String}
    (h : fetchFailure env reply = some code) : isLanguageFailure .failed code = false := by
  unfold fetchFailure at h
  repeat' split at h
  all_goals cases h
  all_goals decide

/-- A worker that executes a known definition does not reach a failure for an unknown word. -/
theorem Turn.known {env : Env} {s : Shared} {session : Session} {pc : Pc} {effect : Effect}
    (hturn : Turn env s session pc effect)
    (hknown : ∀ run, session.pc.leased? = some run → Known run.definition) {run : LeasedRun}
    {state : RunState} {code : String} {after : After}
    (hpc : pc = .terminate run state code after) :
    isLanguageFailure state code = false := by
  cases hturn with
  | error => cases hpc
  | crash => cases hpc
  | move hmove =>
      generalize session.pc = old at hmove hknown
      cases hmove with
      | received runId =>
          unfold process at hpc
          repeat' split at hpc
          all_goals cases hpc
      | execute run =>
          unfold execute at hpc
          rw [if_pos (hknown run rfl).version] at hpc
          cases hpc
      | loop run index =>
          unfold loop at hpc
          split at hpc
          · cases hpc
          · rename_i raw hraw
            obtain ⟨step, hstep⟩ := (hknown run rfl).steps raw (List.mem_of_getElem? hraw)
            rw [hstep] at hpc
            exact executeStep_known hpc
      | consume run index handle prompt delivery =>
          unfold withCredential at hpc
          repeat' split at hpc
          all_goals cases hpc
          all_goals decide
      | providerFailed =>
          cases hpc
          decide
      | fetchFailed hfailure =>
          cases hpc
          exact fetchFailure_known hfailure
      | @record _ run index kind status safeLabel hfree => cases status <;> cases hpc
      | @eventCommit _ run row after hfree => cases after <;> cases hpc
      | _ => cases hpc

end Worker

/-! ## Runs -/

/-- Every definition that is stored or being executed is known to the worker. -/
structure AllKnown (s : State) : Prop where
  rows : ∀ row ∈ s.db.definitions, ∀ definition,
    Worker.unmarshalDefinition row.definition = some definition → Worker.Known definition
  claims : ∀ (index : Nat) (session : Worker.Session) row definition,
    s.workers[index]? = some session → session.pc.claiming? = some (row, definition) →
      definition ∈ s.db.definitions
  leased : ∀ (index : Nat) (session : Worker.Session) run, s.workers[index]? = some session →
    session.pc.leased? = some run → Worker.Known run.definition
  failures : ∀ (index : Nat) (session : Worker.Session) run state code after,
    s.workers[index]? = some session → session.pc = .terminate run state code after →
      isLanguageFailure state code = false

theorem Reads.known {json : Json} {workflow : WorkflowDefinition} (h : Reads json workflow)
    {definition : Worker.Definition} (hdecode : Worker.unmarshalDefinition json = some definition) :
    Worker.Known definition := by
  obtain ⟨read, hread, hversion, -, hsteps⟩ := h
  rw [hdecode, Option.some.injEq] at hread
  subst hread
  exact Worker.known_of_steps hversion hsteps

theorem Seeded.allKnown {s : State} (hs : Seeded s) : AllKnown s := by
  refine ⟨?_, by simp [hs.workers], by simp [hs.workers], by simp [hs.workers]⟩
  intro row hrow definition hdecode
  obtain ⟨workflow, haccepted, hstored | hstored⟩ := hs.definitions row hrow
  · exact (Worker.reads_toJson workflow haccepted).known (hstored ▸ hdecode)
  · exact (Worker.reads_legacyJson workflow).known (hstored ▸ hdecode)

section

variable {env : Env} {s s' t : State} {a : Action} {h : History State Action}

theorem definitions_next (hnext : next env s a = some s') {row : DefinitionRow}
    (hrow : row ∈ s'.db.definitions) :
    row ∈ s.db.definitions ∨ ∃ workflow, Accepted workflow ∧ row.definition = workflow.toJson := by
  obtain ⟨events, outbox, audits, hdb⟩ := next_db hnext
  rw [hdb] at hrow
  cases hcommit : commitOf env s a with
  | none =>
      rw [hcommit] at hrow
      exact .inl hrow
  | some change =>
      rw [hcommit] at hrow
      rcases mem_definitions_commit hrow with hold | ⟨audit, rfl⟩
      · exact .inl hold
      · cases commitOf_commits hcommit with
        | createWorkflow hschema hinsertable => exact .inr ⟨_, ⟨_, hschema⟩, rfl⟩

theorem AllKnown.next (known : AllKnown s) (hnext : next env s a = some s') : AllKnown s' := by
  have hextends := next_extends hnext
  constructor
  · intro row hrow definition hdecode
    rcases definitions_next hnext hrow with hold | ⟨workflow, haccepted, hstored⟩
    · exact known.rows row hold definition hdecode
    · rw [hstored, Worker.unmarshalDefinition_toJson, Option.some.injEq] at hdecode
      subst hdecode
      exact Worker.known_toJson haccepted
  · intro index session row definition hworker hclaiming
    cases worker_case hnext hworker with
    | kept hold =>
        exact hextends.definitions.subset (known.claims index _ row definition hold hclaiming)
    | joined => cases hclaiming
    | turned hold hactor hcommit hturn hstate =>
        refine hextends.definitions.subset ?_
        rcases hturn.claiming? hclaiming with hmine | hread
        · exact known.claims index _ row definition hold hmine
        · exact Table.lookup_mem hread
  · intro index session run hworker hleased
    cases worker_case hnext hworker with
    | kept hold => exact known.leased index _ run hold hleased
    | joined => cases hleased
    | turned hold hactor hcommit hturn hstate =>
        rcases hturn.leased? hleased with hmine | ⟨ref, now, row, definition, hpc, hdecode⟩
        · exact known.leased index _ run hold hmine
        · have hrow := known.claims index _ row definition hold (by rw [hpc]; rfl)
          exact known.rows definition hrow _ (Worker.leasedRun_reads hdecode).2
  · intro index session run state code after hworker hpc
    cases worker_case hnext hworker with
    | kept hold => exact known.failures index _ run state code after hold hpc
    | joined => cases hpc
    | turned hold hactor hcommit hturn hstate =>
        exact hturn.known (fun run => known.leased index _ run hold) hpc

theorem languagesAgree (run : Exec Seeded (next env) h t) : LanguagesAgree t where
  decoded workflow := Worker.reads_toJson workflow
  legacy workflow _ := Worker.reads_legacyJson workflow
  executed := by
    have known : AllKnown t := run.always (fun _ hs => hs.allKnown) fun _ known => known.next
    exact known.failures

end

/-- A workflow stored by an older version. -/
def legacyWorkflow : WorkflowDefinition :=
  { schemaVersion := "1", name := "demo", version := "v1", steps := [.tool .mockDataRead false],
    budgetCents := 100, allowedHosts := ["example.com"] }

def startLegacy : State :=
  { Scenario.start 5 with
    db := { (Scenario.start 5).db with
      definitions := [⟨Scenario.workflowId, Scenario.tenantId, "demo", "v1",
        legacyWorkflow.legacyJson.jsonb, 100⟩] } }

theorem seeded_startLegacy : Seeded startLegacy := by
  refine ⟨rfl, ?_⟩
  intro row hrow
  refine ⟨legacyWorkflow, ⟨Scenario.workflow [Scenario.dataRead], by decide +kernel⟩, .inr ?_⟩
  rw [List.mem_singleton.mp hrow]

/-- The run of an old definition, up to its success. -/
def legacyRun : List Action :=
  Scenario.createRun :: List.replicate 12 (.call 0 Scenario.runId) ++ Scenario.publishActions 0 ++
    Scenario.claimActions 0 0 ++ Scenario.workerActions 0 7

theorem legacyRun_languagesAgree : ∃ h t, Exec Seeded (next Scenario.env) h t ∧
    ((t.db.run? Scenario.runId).any fun row => row.state = .succeeded) = true ∧
      LanguagesAgree t := by
  obtain ⟨h, t, run, htest⟩ := @exec_of_replay State Action Seeded (next Scenario.env) startLegacy
    seeded_startLegacy legacyRun
    (fun _ t => (t.db.run? Scenario.runId).any fun row => row.state = .succeeded)
    (by decide +kernel)
  exact ⟨h, t, run, htest, languagesAgree run⟩

end DurableRuntime
