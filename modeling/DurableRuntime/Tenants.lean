import DurableRuntime.ControlPlane.Reads
import DurableRuntime.EventIds

/-!
# Tenants

Every row and every position carries the tenant of its session: a request works
for the tenant of its principal, a delivery for the tenant of its message, which
is the tenant of the run that the message names.  So a commit writes rows of one
tenant, about runs of that tenant, and leaves the rows of the others as they are.
-/

namespace DurableRuntime

open DurableRuntime.Foundation

/-! ## References -/

/-- The tenant has a run with this id. -/
def Db.RunOf (db : Db) (tenantId runId : Uuid) : Prop :=
  ∃ row, db.run? runId = some row ∧ row.tenantId = tenantId

/-- The payload names a run of the tenant. -/
def Db.Addresses (db : Db) (tenantId : Uuid) (payload : Payload) : Prop :=
  ∃ runId, payload = ⟨runId.text⟩ ∧ db.RunOf tenantId runId

/-- Every row refers to runs and definitions of its own tenant. -/
structure Db.Closed (db : Db) : Prop where
  runs : ∀ row ∈ db.runs, db.Defines row.tenantId row.workflowId
  events : ∀ row ∈ db.events, db.RunOf row.tenantId row.runId
  stepResults : ∀ row ∈ db.stepResults, db.RunOf row.tenantId row.runId
  effects : ∀ row ∈ db.effects, db.RunOf row.tenantId row.runId
  outbox : ∀ row ∈ db.outbox, db.RunOf row.tenantId row.runId

/-- The rows of the tenant are the same, whatever becomes of the others. -/
structure Db.Unchanged (tenantId : Uuid) (db db' : Db) : Prop where
  definitions : db'.definitions.filter (fun row => row.tenantId = tenantId) =
    db.definitions.filter fun row => row.tenantId = tenantId
  runs : db'.runs.filter (fun row => row.tenantId = tenantId) =
    db.runs.filter fun row => row.tenantId = tenantId
  events : db'.events.filter (fun row => row.tenantId = tenantId) =
    db.events.filter fun row => row.tenantId = tenantId
  stepResults : db'.stepResults.filter (fun row => row.tenantId = tenantId) =
    db.stepResults.filter fun row => row.tenantId = tenantId
  effects : db'.effects.filter (fun row => row.tenantId = tenantId) =
    db.effects.filter fun row => row.tenantId = tenantId
  outbox : db'.outbox.filter (fun row => row.tenantId = tenantId) =
    db.outbox.filter fun row => row.tenantId = tenantId
  audits : db'.audits.filter (fun row => row.tenantId = tenantId) =
    db.audits.filter fun row => row.tenantId = tenantId

theorem Db.Unchanged.refl (tenantId : Uuid) (db : Db) : db.Unchanged tenantId db :=
  ⟨rfl, rfl, rfl, rfl, rfl, rfl, rfl⟩

section

variable {db db' : Db} {tenantId runId : Uuid}

theorem Db.RunOf.extends (h : db.RunOf tenantId runId) (hextends : db.Extends db') :
    db'.RunOf tenantId runId := by
  obtain ⟨row, hrow, htenant⟩ := h
  obtain ⟨row', hrow', hsame⟩ := hextends.runs runId row hrow
  exact ⟨row', hrow', hsame.tenantId.trans htenant⟩

theorem Db.Addresses.extends {payload : Payload} (h : db.Addresses tenantId payload)
    (hextends : db.Extends db') : db'.Addresses tenantId payload := by
  obtain ⟨runId, hpayload, hrun⟩ := h
  exact ⟨runId, hpayload, hrun.extends hextends⟩

theorem Db.Defines.extends {workflowId : Uuid} (h : db.Defines tenantId workflowId)
    (hextends : db.Extends db') : db'.Defines tenantId workflowId := by
  obtain ⟨definition, hdefinition, htenant⟩ := h
  exact ⟨definition, hextends.definition? hdefinition, htenant⟩

theorem Db.RunOf.unique {other : Uuid} (h : db.RunOf tenantId runId)
    (hother : db.RunOf other runId) : tenantId = other := by
  obtain ⟨row, hrow, rfl⟩ := h
  obtain ⟨row', hrow', rfl⟩ := hother
  rw [hrow, Option.some.injEq] at hrow'
  rw [hrow']

/-- With unique ids, every row of that id is the tenant's. -/
theorem Db.RunOf.tenant (h : db.RunOf tenantId runId) (keyed : RunsKeyed db) {row : RunRow}
    (hrow : row ∈ db.runs) (hid : row.id = runId) : row.tenantId = tenantId := by
  obtain ⟨found, hfound, rfl⟩ := h
  have hsame := Table.lookup_of_mem keyed.ids hrow
  rw [hid] at hsame
  rw [Db.run?, hsame, Option.some.injEq] at hfound
  rw [hfound]

end

/-! ## Commits of a tenant -/

/-- Rows of the tenant only, about a run that the tenant has or that is new. -/
def Commit.OfTenant (db : Db) (tenantId : Uuid) : Commit → Prop
  | .createWorkflow row audit => row.tenantId = tenantId ∧ audit.tenantId = tenantId
  | .request writes =>
      (match writes.run with
        | .insert row => row.tenantId = tenantId ∧ db.Defines tenantId row.workflowId
        | .update before _ _ _ => db.RunOf tenantId before.id) ∧
      (∀ event, writes.event = some event →
        event.tenantId = tenantId ∧ event.runId = writes.run.row.id) ∧
      (∀ row, writes.outbox = some row →
        row.tenantId = tenantId ∧ row.runId = writes.run.row.id) ∧
      ∀ audit, writes.audit = some audit → audit.tenantId = tenantId
  | .claim runId _ _ events =>
      db.RunOf tenantId runId ∧
        ∀ event ∈ events, event.tenantId = tenantId ∧ event.runId = runId
  | .heartbeat runId _ _ | .awaitApproval runId _ | .terminate runId _ _ | .complete runId =>
      db.RunOf tenantId runId
  | .event row => row.tenantId = tenantId ∧ db.RunOf tenantId row.runId
  | .stepResult row => row.tenantId = tenantId ∧ db.RunOf tenantId row.runId
  | .effect row => row.tenantId = tenantId ∧ db.RunOf tenantId row.runId
  | .outboxAttempts _ | .outboxPublished _ _ => False

section

variable {db : Db} {tenantId other : Uuid} {change : Commit}

theorem updateRun_unchanged (keyed : RunsKeyed db) {runId : Uuid} (hrun : db.RunOf other runId)
    (hne : tenantId ≠ other) {f : RunRow → RunRow} (hf : ∀ row : RunRow, row.SameRequest (f row)) :
    db.Unchanged tenantId (db.updateRun runId f) := by
  refine { Db.Unchanged.refl tenantId db with runs := ?_ }
  refine Table.filter_modify_of_dropped ?_ ?_
  · intro row
    rw [(hf row).tenantId]
  · intro row hrow hid
    rw [hrun.tenant keyed hrow hid]
    exact decide_eq_false (Ne.symm hne)

/-- What one tenant commits leaves the rows of the others as they are. -/
theorem Commit.OfTenant.unchanged (h : change.OfTenant db other) (keyed : RunsKeyed db)
    (hne : tenantId ≠ other) : db.Unchanged tenantId (db.commit change) := by
  have same := Db.Unchanged.refl tenantId db
  have dropped : ∀ {found : Uuid}, found = other → decide (found = tenantId) = false := by
    rintro found rfl
    exact decide_eq_false (Ne.symm hne)
  cases change with
  | createWorkflow row audit =>
      exact { same with
        definitions := Table.filter_append_of_dropped _ (by simpa using dropped h.1)
        audits := Table.filter_append_of_dropped _ (by simpa using dropped h.2) }
  | request writes =>
      obtain ⟨write, event, outbox, audit⟩ := writes
      obtain ⟨hrun, hevent, houtbox, haudit⟩ := h
      have hevents := Table.filter_append_of_dropped db.events
        fun row hrow => dropped (hevent row (Option.mem_toList.mp hrow)).1
      have hqueued := Table.filter_append_of_dropped db.outbox
        fun row hrow => dropped (houtbox row (Option.mem_toList.mp hrow)).1
      have haudits := Table.filter_append_of_dropped db.audits
        fun row hrow => dropped (haudit row (Option.mem_toList.mp hrow))
      cases write with
      | insert row =>
          exact { same with
            runs := Table.filter_append_of_dropped _ (by simpa using dropped hrun.1)
            events := hevents
            outbox := hqueued
            audits := haudits }
      | update before state approved now =>
          exact { updateRun_unchanged keyed hrun hne
              (RunRow.sameRequest_transition state approved now) with
            events := hevents
            outbox := hqueued
            audits := haudits }
  | claim runId owner now events =>
      exact { updateRun_unchanged keyed h.1 hne (RunRow.sameRequest_claim owner now) with
        events := Table.filter_append_of_dropped _ fun row hrow => dropped (h.2 row hrow).1 }
  | heartbeat runId step now =>
      exact updateRun_unchanged keyed h hne (RunRow.sameRequest_heartbeat step now)
  | awaitApproval runId index =>
      exact updateRun_unchanged keyed h hne (RunRow.sameRequest_awaitApproval index)
  | terminate runId state code =>
      exact updateRun_unchanged keyed h hne (RunRow.sameRequest_terminate state code)
  | complete runId => exact updateRun_unchanged keyed h hne RunRow.sameRequest_complete
  | event row =>
      exact { same with events := Table.filter_append_of_dropped _ (by simpa using dropped h.1) }
  | stepResult row =>
      exact { same with stepResults := Table.filter_insertIfAbsent_of_dropped (dropped h.1) }
  | effect row =>
      exact { same with effects := Table.filter_insertIfAbsent_of_dropped (dropped h.1) }
  | outboxAttempts => exact h.elim
  | outboxPublished => exact h.elim

/-- References stay inside tenants when those of the new rows do. -/
theorem Db.Closed.commit (closed : db.Closed) (change : Commit)
    (hinserted : ∀ row, change.inserted? = some row → db.Defines row.tenantId row.workflowId)
    (hevents : ∀ row ∈ change.newEvents, (db.commit change).RunOf row.tenantId row.runId)
    (hresult : ∀ row, change = .stepResult row → db.RunOf row.tenantId row.runId)
    (heffect : ∀ row, change = .effect row → db.RunOf row.tenantId row.runId)
    (hqueued : ∀ row, change.queued? = some row →
      (db.commit change).RunOf row.tenantId row.runId) : (db.commit change).Closed := by
  have hextends := commit_extends db change
  constructor
  · intro row hrow
    have hcolumn :=
      List.mem_map_of_mem (f := fun row : RunRow => (row.tenantId, row.workflowId)) hrow
    rw [runs_commit_map (fun row : RunRow => (row.tenantId, row.workflowId))
      (fun h => by rw [h.tenantId, h.workflowId]), List.mem_append] at hcolumn
    rcases hcolumn with hold | hnew
    · obtain ⟨old, hold, hsame⟩ := List.mem_map.mp hold
      rw [Prod.mk.injEq] at hsame
      rw [← hsame.1, ← hsame.2]
      exact (closed.runs old hold).extends hextends
    · rw [Option.mem_toList, Option.map_eq_some_iff] at hnew
      obtain ⟨new, hnew, hsame⟩ := hnew
      rw [Prod.mk.injEq] at hsame
      rw [← hsame.1, ← hsame.2]
      exact (hinserted new hnew).extends hextends
  · intro row hrow
    rw [events_commit] at hrow
    rcases List.mem_append.mp hrow with hold | hnew
    · exact (closed.events row hold).extends hextends
    · exact hevents row hnew
  · intro row hrow
    rcases mem_stepResults_commit hrow with hold | hnew
    · exact (closed.stepResults row hold).extends hextends
    · exact (hresult row hnew).extends hextends
  · intro row hrow
    rcases effects_commit db change with hsame | ⟨new, hnew, heffects⟩
    · exact (closed.effects row (hsame ▸ hrow)).extends hextends
    · rw [heffects] at hrow
      rcases Table.mem_insertIfAbsent hrow with hold | ⟨rfl, -⟩
      · exact (closed.effects row hold).extends hextends
      · exact (heffect row hnew).extends hextends
  · intro row hrow
    rcases mem_outbox_commit hrow with ⟨old, hold, hsame⟩ | ⟨writes, rfl, hnew⟩
    · rw [hsame.tenantId, hsame.runId]
      exact (closed.outbox old hold).extends hextends
    · exact hqueued row hnew

theorem Commit.OfTenant.runOf_request {writes : Writes}
    (h : (Commit.request writes).OfTenant db tenantId)
    (hfresh : ∀ row, writes.run = .insert row → db.run? row.id = none) :
    (db.commit (.request writes)).RunOf tenantId writes.run.row.id := by
  obtain ⟨write, event, outbox, audit⟩ := writes
  cases write with
  | insert row =>
      refine ⟨row, ?_, h.1.1⟩
      rw [run?_commit]
      simp only [Commit.rowAfter, RunWrite.rowAfter, RunWrite.row, hfresh row rfl, Option.none_or,
        if_true]
  | update before state approved now => exact Db.RunOf.extends h.1 (commit_extends db _)

theorem Commit.OfTenant.closed (h : change.OfTenant db tenantId)
    (hfresh : ∀ row, change.inserted? = some row → db.run? row.id = none)
    (closed : db.Closed) : (db.commit change).Closed := by
  have hextends := commit_extends db change
  refine closed.commit change ?_ ?_ ?_ ?_ ?_
  · intro row hrow
    cases change with
    | request writes =>
        obtain ⟨write, event, outbox, audit⟩ := writes
        cases write with
        | insert new =>
            cases hrow
            obtain ⟨rfl, hdefines⟩ := h.1
            exact hdefines
        | update => cases hrow
    | _ => cases hrow
  · intro row hrow
    cases change with
    | request writes =>
        obtain ⟨htenant, hrun⟩ := h.2.1 row (Option.mem_toList.mp hrow)
        rw [htenant, hrun]
        exact h.runOf_request fun new hnew => hfresh new (by
          simp [Commit.inserted?, RunWrite.inserted?, hnew])
    | claim runId owner now events =>
        obtain ⟨htenant, hrun⟩ := h.2 row hrow
        rw [htenant, hrun]
        exact Db.RunOf.extends h.1 hextends
    | event new =>
        cases List.mem_singleton.mp hrow
        obtain ⟨rfl, hrun⟩ := h
        exact hrun.extends hextends
    | _ => cases hrow
  · rintro row rfl
    obtain ⟨rfl, hrun⟩ := h
    exact hrun
  · rintro row rfl
    obtain ⟨rfl, hrun⟩ := h
    exact hrun
  · intro row hrow
    cases change with
    | request writes =>
        obtain ⟨htenant, hrun⟩ := h.2.2.1 row hrow
        rw [htenant, hrun]
        exact h.runOf_request fun new hnew => hfresh new (by
          simp [Commit.inserted?, RunWrite.inserted?, hnew])
    | _ => cases hrow

end

/-! ## Positions of a tenant -/

namespace Worker

/-- The tenants of the rows that a position carries besides its run. -/
def Pc.rowTenants : Pc → List Uuid
  | claimUpdate _ _ row _ | claimEvents _ _ row _ => [row.tenantId]
  | claimCommit _ row events run =>
      row.tenantId :: run.tenantId :: events.map EventRow.tenantId
  | eventCommit _ row _ => [row.tenantId]
  | _ => []

def Pc.tenants (pc : Pc) : List Uuid :=
  (pc.executing?.map LeasedRun.tenantId).toList ++ pc.rowTenants

variable {env : Env} {s : Shared} {session : Session} {pc : Pc} {effect : Effect}

theorem tenants_of_branch {run : LeasedRun} (hbranch : pc.isBranch = true)
    (h : pc.executing? = some run) : pc.tenants = [run.tenantId] := by
  cases pc <;> cases h <;> first | rfl | cases hbranch

/-- A delivery gets to know a tenant only from the row it claims. -/
theorem Turn.tenants (hturn : Turn env s session pc effect) {tenantId : Uuid}
    (h : tenantId ∈ pc.tenants) :
    tenantId ∈ session.pc.tenants ∨ ∃ ref row, session.pc.ref? = some ref ∧
      s.db.run? ref.id = some row ∧ tenantId = row.tenantId := by
  cases hturn with
  | error => cases h
  | crash => cases h
  | move hmove =>
      generalize session.pc = old at hmove
      cases hmove with
      | received runId =>
          unfold process at h
          repeat' split at h
          all_goals cases h
      | claimFound hselect =>
          obtain ⟨-, hrow, -⟩ := claimable_free hselect
          cases List.mem_singleton.mp h
          exact .inr ⟨_, _, rfl, hrow, rfl⟩
      | claimUpdate => exact .inl h
      | @claimEvents _ ref now row definition run hdecode =>
          have htenant : run.tenantId = row.tenantId := by
            simp only [leasedRun, Option.bind_eq_bind, Option.bind_eq_some_iff] at hdecode
            obtain ⟨workflow, -, input, -, hrun⟩ := hdecode
            cases hrun
            rfl
          simp only [Pc.tenants, Pc.rowTenants, claimEventRows, htenant] at h ⊢
          simp only [Pc.executing?, Option.map_none, Option.toList_none, List.nil_append,
            List.map_cons, List.map_nil, List.mem_cons, List.not_mem_nil, or_false,
            or_self] at h ⊢
          exact .inl h
      | claimCommit now row events run =>
          cases List.mem_singleton.mp h
          exact .inl (List.mem_cons_of_mem _ List.mem_cons_self)
      | execute run =>
          rw [tenants_of_branch (execute_branch run) (execute_executing run)] at h
          exact .inl h
      | loop run index =>
          rw [tenants_of_branch (loop_branch env run index) (loop_executing env run index)] at h
          exact .inl h
      | consume run index handle prompt delivery =>
          rw [tenants_of_branch (withCredential_branch env run index prompt _)
            (withCredential_executing env run index prompt _)] at h
          exact .inl h
      | @record _ run index kind status safeLabel hfree => cases status <;> exact .inl h
      | event run eventType detail after =>
          simp only [Pc.tenants, Pc.rowTenants, Pc.executing?, Option.map_some,
            Option.toList_some, List.cons_append, List.nil_append, List.append_nil,
            List.mem_cons, List.not_mem_nil, or_false, or_self] at h ⊢
          exact .inl h
      | @eventCommit _ run row after hfree =>
          cases after with
          | ret => cases h
          | advance index =>
              cases List.mem_singleton.mp h
              exact .inl List.mem_cons_self
      | claimBegin => cases h
      | claimEmpty => cases h
      | claimUndecodable => cases h
      | terminate => cases h
      | nak => cases h
      | ack => cases h
      | _ => exact .inl h

end Worker

namespace ControlPlane

def Writes.tenants (writes : Writes) : List Uuid :=
  writes.run.row.tenantId :: (writes.event.map EventRow.tenantId).toList ++
    (writes.outbox.map OutboxRow.tenantId).toList ++ (writes.audit.map AuditRow.tenantId).toList

/-- The tenants of the rows that a position carries. -/
def Pc.tenants : Pc → List Uuid
  | transitionUpdate _ _ row => [row.tenantId]
  | pc => ((pc.writes?.map Writes.tenants).toList).flatten

variable {env : Env} {s : Shared} {choice : Uuid} {session moved : Session} {pc pc' : Pc}
  {effect : Effect} {tenantId : Uuid}

theorem tenants_of_idle (hlocked : pc.lockedRow? = none) (hwrites : pc.writes? = none) :
    pc.tenants = [] := by
  cases pc <;> first | rfl | cases hlocked | cases hwrites

theorem PcMove.tenants (hmove : PcMove env s choice session pc pc' effect)
    (h : tenantId ∈ pc'.tenants) :
    tenantId ∈ pc.tenants ∨ tenantId = session.principal.tenantId := by
  cases hmove with
  | approve =>
      obtain ⟨hlocked, hwrites⟩ := startTransition_idle session.principal.role _ approveArgs
      rw [tenants_of_idle hlocked hwrites] at h
      cases h
  | cancel =>
      obtain ⟨hlocked, hwrites⟩ := startTransition_idle session.principal.role _ cancelArgs
      rw [tenants_of_idle hlocked hwrites] at h
      cases h
  | readRun args runId =>
      obtain ⟨hlocked, hwrites⟩ := readRunCheck_idle args runId
        (runOfTenant? s session.principal.tenantId runId)
      rw [tenants_of_idle hlocked hwrites] at h
      cases h
  | inserted =>
      exact .inr (by simpa [Pc.tenants, Pc.writes?, Writes.tenants, RunWrite.row, newRun] using h)
  | transitionLocked hrow =>
      rw [List.mem_singleton.mp h]
      exact .inr (runOfTenant?_run? hrow).2.1
  | transitionUpdate args now row =>
      refine .inl ?_
      simpa [Pc.tenants, Pc.writes?, Writes.tenants, RunWrite.row, RunRow.transition] using h
  | @eventQueued now eventType detail writes hqueues =>
      refine .inl ?_
      simp only [Pc.tenants, Pc.writes?, Option.map_some, Option.toList_some,
        List.flatten_singleton] at h ⊢
      simp [Writes.tenants, eventRow] at h ⊢
      exact h.imp_right .inr
  | @eventUnqueued now eventType detail writes hqueues =>
      refine .inl ?_
      simp only [Pc.tenants, Pc.writes?, Option.map_some, Option.toList_some,
        List.flatten_singleton] at h ⊢
      simp [Writes.tenants, eventRow] at h ⊢
      exact h.imp_right .inr
  | @queueOutbox now eventType writes hqueued =>
      refine .inl ?_
      simp only [Pc.tenants, Pc.writes?, Option.map_some, Option.toList_some,
        List.flatten_singleton] at h ⊢
      simp [Writes.tenants, outboxRow] at h ⊢
      rcases h with hrun | hevent | hrun | haudit
      · exact .inl hrun
      · exact .inr (.inl hevent)
      · exact .inl hrun
      · exact .inr (.inr (.inr haudit))
  | audit now eventType writes =>
      simp only [Pc.tenants, Pc.writes?, Option.map_some, Option.toList_some,
        List.flatten_singleton] at h ⊢
      simp [Writes.tenants, auditRow] at h ⊢
      rcases h with hrun | hevent | houtbox | hprincipal
      · exact .inl (.inl hrun)
      · exact .inl (.inr (.inl hevent))
      · exact .inl (.inr (.inr (.inl houtbox)))
      · exact .inr hprincipal
  | readEvents => exact .inl h
  | _ => cases h

theorem Turn.tenants (hturn : Turn env s session moved effect) (h : tenantId ∈ moved.pc.tenants) :
    tenantId ∈ session.pc.tenants ∨ tenantId = session.principal.tenantId := by
  cases hturn with
  | error => cases h
  | move hmove =>
      cases hmove with
      | inner hmove => exact hmove.tenants h
      | start hpc hrequest hstart =>
          obtain ⟨hlocked, hwrites⟩ := startCreate_idle hstart
          rw [tenants_of_idle hlocked hwrites] at h
          cases h

end ControlPlane

end DurableRuntime
