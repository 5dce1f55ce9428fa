import DurableRuntime.CredentialUse
import DurableRuntime.IdentityColumns
import DurableRuntime.TenantIsolation

/-!
# The constraints of the tables

The migrations give the tables primary keys, unique keys, foreign keys and
checks.  Only the keys that a concurrent request can take are dealt with in the
code; the others no statement of the system ever fails, since they hold of
whatever it can come to write.
-/

namespace DurableRuntime

open DurableRuntime.Foundation

/-- `char_length(detail) <= 500`. -/
def detailLimit : Nat := 500

/-- `principal_id uuid references principals(id)`, and the principal is one of the tenant. -/
def AuditRow.Attributed (db : Db) (row : AuditRow) : Prop :=
  ∀ id, row.principalId = some id →
    ∃ principal ∈ db.principals, principal.id = id ∧ principal.tenantId = row.tenantId

/-- What the checks and unique keys ask of single rows, or of the rows of one statement. -/
structure Db.Checked (db : Db) : Prop where
  definitionIds : (db.definitions.map DefinitionRow.id).Nodup
  definitionKeys : (db.definitions.map fun row => (row.tenantId, row.name, row.version)).Nodup
  versions : ∀ row ∈ db.definitions, isVersion row.version = true
  keyLengths : ∀ key ∈ db.runs.map RunRow.idempotencyKey, 16 ≤ key.length ∧ key.length ≤ 128
  details : ∀ row ∈ db.events, row.detail.length ≤ detailLimit
  resultKeys : (db.stepResults.map StepResultRow.key).Nodup
  effectKeys : (db.effects.map EffectRow.key).Nodup
  audits : ∀ row ∈ db.audits, row.Attributed db

/-- The constraints on the tables of the runtime. -/
structure Db.Constrained (db : Db) : Prop extends db.Checked, db.Closed where
  runIds : (db.runs.map RunRow.id).Nodup
  runKeys : (db.runs.map RunRow.key).Nodup
  handles : (db.runs.filterMap RunRow.providerCredentialHandle).Nodup
  eventIds : (db.events.map EventRow.id).Nodup
  outboxIds : (db.outbox.map OutboxRow.id).Nodup
  auditIds : (db.audits.map AuditRow.id).Nodup

/-! ## Details of events -/

namespace Worker

/-- The details that a position carries to an event. -/
def Pc.details : Pc → List String
  | event _ _ detail _ => [detail]
  | pc => pc.drawn.map EventRow.detail

theorem loop_details (env : Env) (run : LeasedRun) (index : Nat) :
    (loop env run index).details = [] := by
  unfold loop executeStep executeTool executeProviderModel
  repeat' split
  all_goals rfl

theorem withCredential_details (env : Env) (run : LeasedRun) (index : Nat) (prompt : String)
    (credential : Option String) :
    (withCredential env run index prompt credential).details = [] := by
  unfold withCredential
  repeat' split
  all_goals rfl

theorem Turn.details {env : Env} {s : Shared} {session : Session} {pc : Pc} {effect : Effect}
    (hturn : Turn env s session pc effect) {detail : String} (h : detail ∈ pc.details) :
    detail ∈ session.pc.details ∨ detail.length ≤ detailLimit := by
  cases hturn with
  | error => cases h
  | crash => cases h
  | move hmove =>
      generalize session.pc = old at hmove
      cases hmove with
      | received runId =>
          unfold process at h
          repeat' split at h
          all_goals cases h
      | claimEvents hdecode =>
          refine .inr ?_
          rcases List.mem_pair.mp h with rfl | rfl
          · exact (by decide : "Worker lease acquired".length ≤ detailLimit)
          · exact (by decide : "Worker execution started".length ≤ detailLimit)
      | execute run =>
          unfold execute at h
          split at h
          all_goals cases h
      | loop run index =>
          rw [loop_details] at h
          cases h
      | consume run index handle prompt delivery =>
          rw [withCredential_details] at h
          cases h
      | @record _ run index kind status safeLabel => cases status <;> cases h
      | awaitApproval =>
          rw [List.mem_singleton.mp h]
          exact .inr (by decide)
      | complete =>
          rw [List.mem_singleton.mp h]
          exact .inr (by decide)
      | event => exact .inl h
      | @eventCommit _ run row after => cases after <;> cases h
      | _ => cases h

end Worker

namespace ControlPlane

def Pc.details : Pc → List String
  | insertEvent _ _ detail _ => [detail]
  | pc => ((pc.writes?.bind Writes.event).map EventRow.detail).toList

/-- The rows that a position is about to insert fit their checks. -/
structure Pc.Fits (db : Db) (pc : Pc) : Prop where
  details : ∀ detail ∈ pc.details, detail.length ≤ detailLimit
  keys : ∀ writes row, pc.writes? = some writes → writes.run = .insert row →
    16 ≤ row.idempotencyKey.length ∧ row.idempotencyKey.length ≤ 128
  audits : ∀ writes row, pc.writes? = some writes → writes.audit = some row → row.Attributed db

theorem Pc.Fits.of_idle {db : Db} {pc : Pc} (h : pc.writes? = none) : pc.Fits db where
  details := by
    intro detail hdetail
    cases pc <;> first | cases hdetail; done | cases h
  keys := by
    intro writes row hwrites
    rw [h] at hwrites
    cases hwrites
  audits := by
    intro writes row hwrites
    rw [h] at hwrites
    cases hwrites

theorem auditRow_attributed (s : Shared) (principal : Principal) (now : Int) (action : String)
    (resourceId : Uuid) : (auditRow s principal now action resourceId).Attributed s.db := by
  intro id hid
  obtain ⟨row, hrow, rfl⟩ := Option.map_eq_some_iff.mp hid
  have hfound := List.find?_some hrow
  simp only [decide_eq_true_eq] at hfound
  exact ⟨row, List.mem_of_find?_eq_some hrow, rfl, hfound.1⟩

section

variable {env : Env} {s : Shared} {choice : Uuid} {session moved : Session} {pc pc' : Pc}
  {effect : Effect}

/-- A move that keeps the detail, the inserted run and the audit record keeps what they fit. -/
theorem Pc.Fits.carry {db : Db} (h : pc.Fits db) {writes writes' : Writes}
    (hwrites : pc.writes? = some writes) (hwrites' : pc'.writes? = some writes')
    (hdetails : ∀ detail ∈ pc'.details, detail ∈ pc.details) (hrun : writes'.run = writes.run)
    (haudit : ∀ row, writes'.audit = some row → writes.audit = some row ∨ row.Attributed db) :
    pc'.Fits db where
  details := fun detail hdetail => h.details detail (hdetails detail hdetail)
  keys := by
    intro other row hother hinsert
    rw [hwrites', Option.some.injEq] at hother
    rw [← hother, hrun] at hinsert
    exact h.keys writes row hwrites hinsert
  audits := by
    intro other row hother hrow
    rw [hwrites', Option.some.injEq] at hother
    rw [← hother] at hrow
    exact (haudit row hrow).elim (h.audits writes row hwrites) id

theorem PcMove.fits (hmove : PcMove env s choice session pc pc' effect)
    (hargs : ∀ args now row, pc = .transitionUpdate args now row →
      args = approveArgs ∨ args = cancelArgs) (h : pc.Fits s.db) : pc'.Fits s.db := by
  cases hmove with
  | inserted hfree habsent hinsertable =>
      refine ⟨?_, ?_, ?_⟩
      · intro detail hdetail
        rw [List.mem_singleton.mp hdetail]
        decide
      · rintro writes row ⟨⟩ ⟨⟩
        simp only [insertable, Bool.and_eq_true, decide_eq_true_eq] at hinsertable
        exact hinsertable.2
      · rintro writes row ⟨⟩ haudit
        cases haudit
  | transitionUpdate args now row =>
      refine ⟨?_, ?_, ?_⟩
      · intro detail hdetail
        rw [List.mem_singleton.mp hdetail]
        rcases hargs args now row rfl with rfl | rfl <;> decide
      · rintro writes row' ⟨⟩ hinsert
        cases hinsert
      · rintro writes row' ⟨⟩ haudit
        cases haudit
  | eventQueued => exact h.carry rfl rfl (fun _ hdetail => hdetail) rfl fun _ => .inl
  | eventUnqueued => exact h.carry rfl rfl (fun _ hdetail => hdetail) rfl fun _ => .inl
  | queueOutbox => exact h.carry rfl rfl (fun _ hdetail => hdetail) rfl fun _ => .inl
  | readEvents => exact h.carry rfl rfl (fun _ hdetail => hdetail) rfl fun _ => .inl
  | audit now eventType writes =>
      refine h.carry rfl rfl (fun _ hdetail => hdetail) rfl ?_
      rintro row ⟨⟩
      exact .inr (auditRow_attributed s session.principal now _ _)
  | approve => exact .of_idle (startTransition_idle _ _ _).2
  | cancel => exact .of_idle (startTransition_idle _ _ _).2
  | readRun => exact .of_idle (readRunCheck_idle _ _ _).2
  | _ => exact .of_idle rfl

theorem Turn.fits (hturn : Turn env s session moved effect) (shaped : Shaped session)
    (h : session.pc.Fits s.db) : moved.pc.Fits s.db := by
  cases hturn with
  | error => exact .of_idle rfl
  | move hmove =>
      cases hmove with
      | start hpc hrequest hstart =>
          cases startCreate_start hstart with
          | _ => exact .of_idle rfl
      | inner hmove =>
          refine hmove.fits ?_ h
          intro args now row hpc
          rw [Shaped, hpc] at shaped
          exact shaped.1

end

end ControlPlane

/-! ## What the sessions are about to store -/

theorem principals_commit (db : Db) (change : Commit) :
    (db.commit change).principals = db.principals := by
  cases change with
  | request writes =>
      obtain ⟨write, event, outbox, audit⟩ := writes
      cases write <;> rfl
  | _ => rfl

structure Fitting (s : State) : Prop where
  workers : ∀ (index : Nat) (session : Worker.Session), s.workers[index]? = some session →
    ∀ detail ∈ session.pc.details, detail.length ≤ detailLimit
  calls : ∀ (index : Nat) (session : ControlPlane.Session), s.calls[index]? = some session →
    session.pc.Fits s.db

section

variable {env : Env} {s s' : State} {a : Action} {h : History State Action}

theorem principals_next (hnext : next env s a = some s') : s'.db.principals = s.db.principals := by
  obtain ⟨events, outbox, audits, hdb⟩ := next_db hnext
  rw [hdb]
  cases commitOf env s a with
  | none => rfl
  | some change => exact principals_commit _ change

theorem ControlPlane.Pc.Fits.of_principals {db db' : Db} {pc : ControlPlane.Pc}
    (h : pc.Fits db) (hprincipals : db'.principals = db.principals) : pc.Fits db' where
  details := h.details
  keys := h.keys
  audits := by
    intro writes row hwrites hrow
    unfold AuditRow.Attributed
    rw [hprincipals]
    exact h.audits writes row hwrites hrow

theorem Fitting.next (sound : Sound s) (fitting : Fitting s) (hnext : next env s a = some s') :
    Fitting s' := by
  constructor
  · intro index session hworker detail hdetail
    cases worker_case hnext hworker with
    | kept hold hactor => exact fitting.workers index _ hold detail hdetail
    | joined => cases hdetail
    | turned hold hactor hcommit hturn hstate =>
        exact (hturn.details hdetail).elim (fitting.workers index _ hold detail) id
  · intro index session hcall
    refine ControlPlane.Pc.Fits.of_principals ?_ (principals_next hnext)
    cases call_case hnext hcall with
    | kept hold hactor => exact fitting.calls index _ hold
    | joined => exact .of_idle rfl
    | turned hold hactor hcommit hturn hstate =>
        exact hturn.fits (sound.shaped.calls index _ hold) (fitting.calls index _ hold)

theorem run_fitting (run : Run env h s) : Fitting s := by
  refine run.always ?_ ?_
  · intro s hs
    exact ⟨by simp [hs.workers], by simp [hs.calls]⟩
  · intro h s a s' run fitting hnext
    exact fitting.next (run_sound run) hnext

end

/-! ## Commits -/

/-- The definition that a commit inserts. -/
def Commit.defined? : Commit → Option DefinitionRow
  | .createWorkflow row _ => some row
  | _ => none

theorem definitions_commit (db : Db) (change : Commit) :
    (db.commit change).definitions = db.definitions ++ change.defined?.toList := by
  cases change with
  | createWorkflow => rfl
  | request writes =>
      obtain ⟨write, event, outbox, audit⟩ := writes
      cases write <;> exact (List.append_nil _).symm
  | _ => exact (List.append_nil _).symm

theorem stepResults_commit (db : Db) (change : Commit) :
    (db.commit change).stepResults = db.stepResults ∨
      ∃ row, (db.commit change).stepResults =
        Table.insertIfAbsent StepResultRow.key row db.stepResults := by
  cases change with
  | stepResult row => exact .inr ⟨row, rfl⟩
  | request writes =>
      obtain ⟨write, event, outbox, audit⟩ := writes
      cases write <;> exact .inl rfl
  | _ => exact .inl rfl

theorem definitionInsertable_apart {db : Db} {row : DefinitionRow}
    (h : definitionInsertable db row = true) :
    row.id ∉ db.definitions.map DefinitionRow.id ∧
      (row.tenantId, row.name, row.version) ∉
        db.definitions.map fun row => (row.tenantId, row.name, row.version) := by
  simp only [definitionInsertable, List.all_eq_true, Bool.and_eq_true, Bool.or_eq_true,
    decide_eq_true_eq] at h
  constructor
  · intro hmem
    obtain ⟨other, hother, hid⟩ := List.mem_map.mp hmem
    exact (h other hother).1 hid
  · intro hmem
    obtain ⟨other, hother, hkey⟩ := List.mem_map.mp hmem
    simp only [Prod.mk.injEq] at hkey
    rcases (h other hother).2 with (htenant | hname) | hversion
    · exact htenant hkey.1
    · exact hname hkey.2.1
    · exact hversion hkey.2.2

theorem nodup_append_toList {α : Type} {l : List α} {row : Option α} (h : l.Nodup)
    (hnew : ∀ a, row = some a → a ∉ l) : (l ++ row.toList).Nodup := by
  cases row with
  | none => simpa using h
  | some a => simpa using h.concat (hnew a rfl)

namespace Db.Checked

theorem draw {db : Db} (checked : db.Checked) (events outbox audits : Nat) :
    (db.draw events outbox audits).Checked :=
  { checked with }

theorem commit {db : Db} {change : Commit} (checked : db.Checked)
    (hdefined : ∀ row, change.defined? = some row →
      definitionInsertable db row = true ∧ isVersion row.version = true)
    (hinserted : ∀ row, change.inserted? = some row →
      16 ≤ row.idempotencyKey.length ∧ row.idempotencyKey.length ≤ 128)
    (hevents : ∀ row ∈ change.newEvents, row.detail.length ≤ detailLimit)
    (haudits : ∀ row ∈ change.newAudits, row.Attributed db) : (db.commit change).Checked where
  definitionIds := by
    rw [definitions_commit, List.map_append, ← Option.toList_map]
    refine nodup_append_toList checked.definitionIds ?_
    intro id hid
    obtain ⟨row, hrow, rfl⟩ := Option.map_eq_some_iff.mp hid
    exact (definitionInsertable_apart (hdefined row hrow).1).1
  definitionKeys := by
    rw [definitions_commit, List.map_append, ← Option.toList_map]
    refine nodup_append_toList checked.definitionKeys ?_
    intro key hkey
    obtain ⟨row, hrow, rfl⟩ := Option.map_eq_some_iff.mp hkey
    exact (definitionInsertable_apart (hdefined row hrow).1).2
  versions := by
    intro row hrow
    rw [definitions_commit] at hrow
    rcases List.mem_append.mp hrow with hold | hnew
    · exact checked.versions row hold
    · exact (hdefined row (Option.mem_toList.mp hnew)).2
  keyLengths := by
    intro key hkey
    rw [runs_commit_map RunRow.idempotencyKey (fun h => h.idempotencyKey)] at hkey
    rcases List.mem_append.mp hkey with hold | hnew
    · exact checked.keyLengths key hold
    · obtain ⟨row, hrow, rfl⟩ := Option.map_eq_some_iff.mp (Option.mem_toList.mp hnew)
      exact hinserted row hrow
  details := by
    intro row hrow
    rw [events_commit] at hrow
    exact (List.mem_append.mp hrow).elim (checked.details row) (hevents row)
  resultKeys := by
    rcases stepResults_commit db change with heq | ⟨row, heq⟩
    · rw [heq]
      exact checked.resultKeys
    · rw [heq]
      exact Table.nodup_insertIfAbsent checked.resultKeys
  effectKeys := by
    rcases effects_commit db change with heq | ⟨row, -, heq⟩
    · rw [heq]
      exact checked.effectKeys
    · rw [heq]
      exact Table.nodup_insertIfAbsent checked.effectKeys
  audits := by
    intro row hrow id hid
    rw [principals_commit]
    rw [audits_commit] at hrow
    exact (List.mem_append.mp hrow).elim (fun hold => checked.audits row hold id hid)
      fun hnew => haudits row hnew id hid

end Db.Checked

section

variable {env : Env} {s s' : State} {a : Action} {h : History State Action}

theorem Fitting.checked_commit (fitting : Fitting s) {change : Commit}
    (hcommits : Commits env s a change) {db : Db} (hdefinitions : db.definitions = s.db.definitions)
    (hprincipals : db.principals = s.db.principals) (checked : db.Checked) :
    (db.commit change).Checked := by
  cases hcommits with
  | @createWorkflow principal id body workflow hschema hinsertable =>
      refine checked.commit ?_ (by simp [Commit.inserted?]) (by simp [Commit.newEvents]) ?_
      · rintro row ⟨⟩
        refine ⟨?_, Accepted.version ⟨body, hschema⟩⟩
        rwa [definitionInsertable, hdefinitions]
      · intro row hrow
        rw [List.mem_singleton.mp hrow, AuditRow.Attributed, hprincipals]
        exact ControlPlane.auditRow_attributed s.toShared principal s.clock _ _
  | @request index choice session writes run hcall hpc =>
      have hfits := fitting.calls index session hcall
      have hwrites : session.pc.writes? = some writes := by rw [hpc]; rfl
      refine checked.commit (by simp [Commit.defined?]) ?_ ?_ ?_
      · intro row hrow
        cases hwrite : writes.run with
        | insert new =>
            simp only [Commit.inserted?, RunWrite.inserted?, hwrite, Option.some.injEq] at hrow
            subst hrow
            exact hfits.keys writes new hwrites hwrite
        | update => simp [Commit.inserted?, RunWrite.inserted?, hwrite] at hrow
      · intro row hrow
        have hevent : writes.event = some row := Option.mem_toList.mp hrow
        apply hfits.details
        rw [hpc]
        simp [ControlPlane.Pc.details, ControlPlane.Pc.writes?, hevent]
      · intro row hrow
        have hattributed := hfits.audits writes row hwrites (Option.mem_toList.mp hrow)
        rwa [AuditRow.Attributed, ← hprincipals] at hattributed
  | @claim index reply session now row events run hworker hpc =>
      refine checked.commit (by simp [Commit.defined?]) (by simp [Commit.inserted?]) ?_
        (by simp [Commit.newAudits])
      intro event hevent
      apply fitting.workers index session hworker
      rw [hpc]
      exact List.mem_map_of_mem hevent
  | @event index reply session run row after hworker hpc =>
      refine checked.commit (by simp [Commit.defined?]) (by simp [Commit.inserted?]) ?_
        (by simp [Commit.newAudits])
      intro event hevent
      apply fitting.workers index session hworker
      rw [hpc]
      exact List.mem_map_of_mem hevent
  | _ =>
      exact checked.commit (by simp [Commit.defined?]) (by simp [Commit.inserted?])
        (by simp [Commit.newEvents]) (by simp [Commit.newAudits])

theorem run_checked (run : Run env h s) : s.db.Checked := by
  refine run.always (P := fun s => s.db.Checked) ?_ ?_
  · intro s hs
    constructor <;> simp [hs.definitions, hs.runs, hs.events, hs.stepResults, hs.effects, hs.audits]
  · intro h s a s' run checked hnext
    obtain ⟨events, outbox, audits, hdb⟩ := next_db hnext
    rw [hdb]
    cases hcommit : commitOf env s a with
    | none => exact checked.draw events outbox audits
    | some change =>
        exact (run_fitting run).checked_commit (commitOf_commits hcommit) rfl rfl
          (checked.draw events outbox audits)

theorem run_handles (run : Run env h s) :
    (s.db.runs.filterMap RunRow.providerCredentialHandle).Nodup := by
  have hids := (run_runsKeyed run).ids
  rw [List.Nodup, List.pairwise_filterMap]
  refine (List.pairwise_map.mp hids).imp_of_mem ?_
  intro row row' hrow hrow' hne handle hhandle handle' hhandle' heq
  refine hne (run_handlesApart run row.id row'.id row row' handle ?_ ?_ hhandle (heq ▸ hhandle'))
  · exact Table.lookup_of_mem hids hrow
  · exact Table.lookup_of_mem hids hrow'

/-- Whatever runs side by side, no row ever breaks a constraint of its table. -/
theorem constrained (run : Run env h s) : s.db.Constrained :=
  { run_checked run, (run_tenanted run).closed with
    runIds := (run_runsKeyed run).ids
    runKeys := (run_runsKeyed run).keys
    handles := run_handles run
    eventIds := (run_eventIds run).unique
    outboxIds := (run_outboxKeyed run).nodup
    auditIds := (run_auditIds run).unique }

end

/-- Two requests insert a run each, and the worker of the first stores its events between them. -/
def overlappingInserts : List Action :=
  Scenario.createActions [Scenario.dataRead] ++
    .request Scenario.owner
        (.createRun ⟨Scenario.workflowId, .obj [], none, "idempotency-key-2"⟩) ::
      List.replicate 8 (.call 1 4) ++ Scenario.publishActions 0 ++ Scenario.claimActions 0 0 ++
        List.replicate 4 (.call 1 4)

theorem overlappingInserts_constrained : ∃ h s, Run Scenario.env h s ∧
    s.db.events.map EventRow.id = [1, 3, 4, 2] ∧ s.db.Constrained := by
  obtain ⟨h, s, run, htest⟩ := Scenario.exists_run 5 overlappingInserts
    (fun _ s => s.db.events.map EventRow.id = [1, 3, 4, 2]) (by decide +kernel)
  exact ⟨h, s, run, of_decide_eq_true htest, constrained run⟩

end DurableRuntime
