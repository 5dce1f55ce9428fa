import DurableRuntime.EffectLedger

/-!
# The spelling of a run id

The database compares run ids as `uuid`s, and the worker splices the text of the
message into its effect keys.  `isUUID` accepts hex letters of either case, so
that one run has many accepted spellings and one step as many keys.
-/

namespace DurableRuntime

open DurableRuntime.Foundation

/-- Two different texts that are the same in lower case. -/
def DifferInCase (a b : String) : Prop := a ≠ b ∧ a.toLower = b.toLower

/-- Keys of two run ids are the same for the same step of one run, and for nothing else. -/
structure KeysIdentify (a b : String) : Prop where
  same : Uuid.ofText? a = Uuid.ofText? b →
    ∀ index, Worker.effectKey a index = Worker.effectKey b index
  apart : ∀ i j, Uuid.ofText? a ≠ Uuid.ofText? b ∨ i ≠ j →
    Worker.effectKey a i ≠ Worker.effectKey b j

/-- A replayed ticket has been committed by the same step of the same run. -/
def ReplaysOwnEffect (s : State) (a : Action) : Prop :=
  ∀ (index : Nat) reply (session : Worker.Session) run step, a = .worker index reply →
    s.workers[index]? = some session → session.pc = .effect run step →
      (s.db.effect? run.tenantId (Worker.effectKey run.ref.text step)).isSome = true →
        s.db.effectsAt run.tenantId run.ref.id step ≠ []

structure OneEffectAStep (h : History State Action) (t : State) : Prop where
  single : ∀ tenantId runId step, (t.db.effectsAt tenantId runId step).length ≤ 1
  unsuppressed : Within (fun _ => ReplaysOwnEffect) h

/-- The run ids of the messages in the stream. -/
def State.spellings (s : State) : List String :=
  s.stream.map fun message => message.payload.runId

/-- The runs from a state before the first request, with any messages in the stream. -/
abbrev RedeliveredRun (env : Env) : History State Action → State → Prop :=
  Exec (fun s => Initial { s with stream := [] }) (next env)

/-! ## Keys -/

theorem effectKey_spelled {a b : String} (ha : isUUID a = true) (hb : isUUID b = true)
    {i j : Nat} (h : Worker.effectKey a i = Worker.effectKey b j) : a = b ∧ i = j := by
  have hlength : ∀ {text : String}, isUUID text = true → text.toList.length = 36 := by
    intro text htext
    simp only [isUUID, Bool.and_eq_true, beq_iff_eq] at htext
    rw [← utf8ByteSize_of_ascii (utf8Size_of_isUUIDFrom htext.2), String.ofList_toList, htext.1]
  exact effectKey_of_length (by rw [hlength ha, hlength hb]) h

theorem ofText?_eq_iff {a b : String} (ha : isUUID a = true) (hb : isUUID b = true) :
    Uuid.ofText? a = Uuid.ofText? b ↔ a.toLower = b.toLower := by
  obtain ⟨id, hid, hlower⟩ := ofText?_of_isUUID ha
  obtain ⟨id', hid', hlower'⟩ := ofText?_of_isUUID hb
  rw [hid, hid', hlower, hlower', Option.some.injEq]
  constructor
  · intro h
    rw [h]
  · exact text_inj

theorem keysIdentify_iff {a b : String} (ha : isUUID a = true) (hb : isUUID b = true) :
    KeysIdentify a b ↔ ¬DifferInCase a b := by
  constructor
  · rintro ⟨hsame, -⟩ ⟨hne, hlower⟩
    have hkey := hsame ((ofText?_eq_iff ha hb).mpr hlower) 0
    exact hne (effectKey_spelled ha hb hkey).1
  · intro hcase
    constructor
    · intro hid index
      have heq : a = b := by
        by_contra hne
        exact hcase ⟨hne, (ofText?_eq_iff ha hb).mp hid⟩
      rw [heq]
    · intro i j hdiffer hkey
      obtain ⟨rfl, rfl⟩ := effectKey_spelled ha hb hkey
      simp at hdiffer

/-! ## Rows and their keys -/

/-- An accepted spelling of the run in the stream. -/
structure Spells (s : State) (text : String) (id : Uuid) : Prop where
  sent : text ∈ s.spellings
  accepted : isUUID text = true
  names : Uuid.ofText? text = some id

/-- Workers and effect rows go by the spellings in the stream. -/
structure Spelled (s : State) : Prop where
  received : ∀ (index : Nat) (session : Worker.Session) runId, s.workers[index]? = some session →
    session.pc = .received runId → runId ∈ s.spellings
  refs : ∀ (index : Nat) (session : Worker.Session) ref, s.workers[index]? = some session →
    session.pc.ref? = some ref → Spells s ref.text ref.id
  keys : (s.db.effects.map EffectRow.key).Nodup
  rows : ∀ row ∈ s.db.effects, ∃ text, Spells s text row.runId ∧
    row.effectKey = Worker.effectKey text row.stepIndex

section

variable {env : Env} {s s' t : State} {a : Action} {h : History State Action}

theorem spellings_next (hnext : next env s a = some s') {text : String}
    (htext : text ∈ s.spellings) : text ∈ s'.spellings := by
  obtain ⟨message, hmessage, rfl⟩ := List.mem_map.mp htext
  obtain ⟨position, hposition⟩ := List.mem_iff_getElem?.mp hmessage
  obtain ⟨new, hnew, hlater⟩ := stream_later hnext hposition
  exact List.mem_map.mpr ⟨new, List.mem_of_getElem? hnew, by rw [hlater.payload]⟩

theorem Spells.next (hnext : next env s a = some s') {text : String} {id : Uuid}
    (hspells : Spells s text id) : Spells s' text id :=
  ⟨spellings_next hnext hspells.sent, hspells.accepted, hspells.names⟩

theorem Worker.process_accepts {runId : String} {ref : Worker.RunRef}
    (h : (Worker.process runId).ref? = some ref) : isUUID runId = true := by
  unfold Worker.process at h
  split at h
  · assumption
  · cases h

theorem Spelled.next (shaped : Shaped s) (spelled : Spelled s) (hnext : next env s a = some s') :
    Spelled s' := by
  obtain ⟨events, outbox, audits, hdb⟩ := next_db hnext
  have heffects : s'.db.effects = s.db.effects ∨ ∃ row text,
      Spells s text row.runId ∧ row.effectKey = Worker.effectKey text row.stepIndex ∧
        s'.db.effects = Table.insertIfAbsent EffectRow.key row s.db.effects := by
    rw [hdb]
    cases hcommit : commitOf env s a with
    | none => exact .inl rfl
    | some change =>
        rcases effects_commit (s.db.draw events outbox audits) change with
          hsame | ⟨row, rfl, hinsert⟩
        · exact .inl hsame
        · cases commitOf_commits hcommit with
          | @effect index reply session run step hworker hpc hfree habsent =>
              have hspells := spelled.refs index session run.ref hworker (by rw [hpc]; rfl)
              exact .inr ⟨Worker.effectRow run step, run.ref.text, hspells, rfl, hinsert⟩
  constructor
  · intro index session runId hworker hpc
    cases worker_case hnext hworker with
    | kept hold hactor => exact spellings_next hnext (spelled.received index _ runId hold hpc)
    | joined haction hmessage hunacked =>
        cases hpc
        exact spellings_next hnext (List.mem_map_of_mem (List.mem_of_getElem? hmessage))
    | turned hold hactor hcommit hturn hstate => exact absurd hpc (hturn.not_received runId)
  · intro index session ref hworker href
    cases worker_case hnext hworker with
    | kept hold hactor => exact (spelled.refs index _ ref hold href).next hnext
    | joined => cases href
    | turned hold hactor hcommit hturn hstate =>
        rcases hturn.ref? (shaped.workers index _ hold) href with hmine | ⟨runId, hpc, rfl⟩
        · exact (spelled.refs index _ ref hold hmine).next hnext
        · obtain ⟨htext, hid⟩ := Worker.process_ref href
          have hsent := spelled.received index _ runId hold hpc
          rw [htext]
          exact ⟨spellings_next hnext hsent, Worker.process_accepts href, hid⟩
  · rcases heffects with hsame | ⟨row, text, -, -, hinsert⟩
    · rw [hsame]
      exact spelled.keys
    · rw [hinsert]
      exact Table.nodup_insertIfAbsent spelled.keys
  · have later : ∀ row ∈ s.db.effects, ∃ text, Spells s' text row.runId ∧
        row.effectKey = Worker.effectKey text row.stepIndex := by
      intro row hrow
      obtain ⟨text, hspells, hkey⟩ := spelled.rows row hrow
      exact ⟨text, hspells.next hnext, hkey⟩
    intro row hrow
    rcases heffects with hsame | ⟨new, text, hspells, hkey, hinsert⟩
    · rw [hsame] at hrow
      exact later row hrow
    · rw [hinsert] at hrow
      rcases Table.mem_insertIfAbsent hrow with hold | ⟨rfl, -⟩
      · exact later row hold
      · exact ⟨text, hspells.next hnext, hkey⟩

theorem run_spelled (run : RedeliveredRun env h t) : Spelled t := by
  refine And.right (@Exec.always _ _ _ _ (fun s => Shaped s ∧ Spelled s) ?_ ?_ _ _ run)
  · intro s hs
    have hworkers : s.workers = [] := hs.workers
    have hcalls : s.calls = [] := hs.calls
    have heffects : s.db.effects = [] := hs.effects
    refine ⟨⟨by simp [hworkers], by simp [hcalls]⟩, ?_⟩
    exact ⟨by simp [hworkers], by simp [hworkers], by simp [heffects], by simp [heffects]⟩
  · rintro h s a s' run ⟨shaped, spelled⟩ hnext
    exact ⟨shaped.next hnext, spelled.next shaped hnext⟩

/-- Messages that name one run spell it in one way. -/
def SpelledAlike (s : State) : Prop :=
  ∀ a ∈ s.spellings, ∀ b ∈ s.spellings, isUUID a = true → isUUID b = true → ¬DifferInCase a b

theorem Spelled.single (spelled : Spelled s) (halike : SpelledAlike s) (tenantId runId : Uuid)
    (step : Nat) : (s.db.effectsAt tenantId runId step).length ≤ 1 := by
  refine Table.length_filter_le_one spelled.keys ?_
  intro row hrow other hother hat hat'
  simp only [Bool.and_eq_true, decide_eq_true_eq] at hat hat'
  obtain ⟨⟨htenant, hrun⟩, hstep⟩ := hat
  obtain ⟨⟨htenant', hrun'⟩, hstep'⟩ := hat'
  obtain ⟨text, hspells, hkey⟩ := spelled.rows row hrow
  obtain ⟨text', hspells', hkey'⟩ := spelled.rows other hother
  have hid : Uuid.ofText? text = Uuid.ofText? text' := by
    rw [hspells.names, hspells'.names, hrun, hrun']
  have hidentify := (keysIdentify_iff hspells.accepted hspells'.accepted).mpr
    (halike text hspells.sent text' hspells'.sent hspells.accepted hspells'.accepted)
  simp only [EffectRow.key, Prod.mk.injEq]
  rw [htenant, htenant', hkey, hkey', hstep, hstep']
  exact ⟨rfl, hidentify.same hid step⟩

/-- The row under the key of a step belongs to the step. -/
theorem Spelled.replaysOwnEffect (spelled : Spelled s) : ReplaysOwnEffect s a := by
  intro index reply session run step haction hworker hpc hfound
  obtain ⟨row, hrow⟩ := Option.isSome_iff_exists.mp hfound
  have hmem := Table.lookup_mem hrow
  have hkey := Table.lookup_key hrow
  simp only [EffectRow.key, Prod.mk.injEq] at hkey
  obtain ⟨text, hspells, hspelled⟩ := spelled.rows row hmem
  have hmine := spelled.refs index session run.ref hworker (by rw [hpc]; rfl)
  rw [hspelled] at hkey
  obtain ⟨htext, hstep⟩ := effectKey_spelled hspells.accepted hmine.accepted hkey.2
  have hid : row.runId = run.ref.id := by
    have hnames := hspells.names
    rw [htext, hmine.names, Option.some.injEq] at hnames
    exact hnames.symm
  exact List.ne_nil_of_mem (mem_effectsAt.mpr ⟨hmem, hkey.1, hid, hstep⟩)

end

/--
Two accepted run ids have the right keys exactly if they do not differ in the
case of their letters; while the messages of a run spell its id in one way, each
of its steps has one effect, whatever is redelivered.
-/
theorem effectKeys (env : Env) :
    (∀ a b, isUUID a = true → isUUID b = true → (KeysIdentify a b ↔ ¬DifferInCase a b)) ∧
      ∀ h t, RedeliveredRun env h t → SpelledAlike t → OneEffectAStep h t := by
  constructor
  · intro a b ha hb
    exact keysIdentify_iff ha hb
  · intro h t run halike
    constructor
    · exact (run_spelled run).single halike
    · rintro h₁ s a h₂ rfl
      obtain ⟨s', run₁, -⟩ := run.split
      exact (run_spelled run₁).replaysOwnEffect

theorem ticketReplayed_oneEffectAStep : ∃ h t, RedeliveredRun Scenario.env h t ∧
    (∃ result ∈ t.db.stepResults, result.label = "mock-ticket-replayed") ∧
      OneEffectAStep h t := by
  obtain ⟨h, t, run, htest⟩ := @exec_of_replay State Action
    (fun s => Initial { s with stream := [] }) (next Scenario.env) (Scenario.start 5)
    (Scenario.initial 5) ticketReplayed
    (fun _ t => (t.db.stepResults.any fun result => result.label = "mock-ticket-replayed") &&
      t.spellings.all fun text => text = Scenario.runId.text) (by decide +kernel)
  simp only [Bool.and_eq_true, List.any_eq_true, List.all_eq_true, decide_eq_true_eq] at htest
  obtain ⟨hreplayed, hspelled⟩ := htest
  refine ⟨h, t, run, hreplayed, (effectKeys Scenario.env).2 h t run ?_⟩
  intro a ha b hb _ _ hdiffer
  exact hdiffer.1 ((hspelled a ha).trans (hspelled b hb).symm)

/-! ## A run id in upper case -/

def upperText : String := "00000000-0000-0000-0000-00000000000A"

theorem upperText_differs : isUUID upperText = true ∧ DifferInCase upperText (Uuid.text 10) := by
  have haccepted : isUUID upperText = true := by decide +kernel
  have hid : Uuid.ofText? upperText = some 10 := by decide +kernel
  refine ⟨haccepted, by decide +kernel, ?_⟩
  rw [← ofText?_eq_iff haccepted (isUUID_text 10), hid, ofText?_text]

def spelledUpper : Message :=
  ⟨0, "dar.run.queued", ⟨upperText⟩, Scenario.tenantId, false, 0⟩

def startRespelled : State := { Scenario.start 5 with stream := [spelledUpper] }

/-- The ticket is written under the upper-case id, and again when the crashed run is redelivered. -/
def ticketTwice : List Action :=
  .createWorkflow Scenario.owner Scenario.workflowId
      (Scenario.workflow [Scenario.approval, Scenario.ticketWrite]) ::
    Scenario.createRun :: List.replicate 12 (.call 0 10) ++ Scenario.publishActions 0 ++
      Scenario.claimActions 1 0 ++ Scenario.workerActions 0 7 ++
        Scenario.transitionActions (.approve (Uuid.text 10)) 1 10 ++ Scenario.publishActions 1 ++
          Scenario.claimActions 0 1 ++ Scenario.workerActions 1 3 ++ [.crash 1, .tick 180000000] ++
            Scenario.claimActions 2 2 ++ Scenario.workerActions 2 3

theorem not_effectKeys :
    (¬∀ a b, isUUID a = true → isUUID b = true → KeysIdentify a b) ∧
      ¬∀ env h t, RedeliveredRun env h t → OneEffectAStep h t := by
  constructor
  · intro hall
    obtain ⟨haccepted, hdiffer⟩ := upperText_differs
    have hidentify := hall upperText (Uuid.text 10) haccepted (isUUID_text 10)
    exact (keysIdentify_iff haccepted (isUUID_text 10)).mp hidentify hdiffer
  · intro hall
    obtain ⟨h, t, run, htest⟩ :=
      @exec_of_replay State Action (fun s => Initial { s with stream := [] })
      (next Scenario.env) startRespelled (Scenario.initial 5) ticketTwice
      (fun _ t => (t.db.effectsAt Scenario.tenantId 10 1).length = 2) (by decide +kernel)
    have hsingle := (hall Scenario.env h t run).single Scenario.tenantId 10 1
    rw [of_decide_eq_true htest] at hsingle
    omega

end DurableRuntime
