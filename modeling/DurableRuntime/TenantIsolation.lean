import DurableRuntime.Publication
import DurableRuntime.Scenario
import DurableRuntime.Tenants

/-!
# Tenants stay apart

In every run of the system a request works on the rows of its principal's tenant
and a worker on those of the run that its message names: all rows they write are
that tenant's and refer to its runs and definitions, the rows of the other
tenants stay as they are, and no response shows another tenant's run or events.
-/

namespace DurableRuntime

open DurableRuntime.Foundation

namespace ControlPlane

/-- The run that a response shows, or is about to show. -/
def Pc.shown? : Pc → Option StoredRun
  | replayCommit run _ | discard run | commit _ run => some run
  | committed (.created run _) | committed (.run run) => some run
  | done (.created run _) | done (.run run) => some run
  | _ => none

/-- The run is the tenant's, and so are the events that come with it. -/
structure StoredRun.OfTenant (tenantId : Uuid) (run : StoredRun) : Prop where
  tenant : run.tenantId = tenantId
  events : ∀ event ∈ run.events, event.tenantId = tenantId ∧ event.runId = run.id

end ControlPlane

/-- The tenant that a request or a worker acts for. -/
inductive ActsFor (s : State) (tenantId : Uuid) : Action → Prop
  | createWorkflow {principal : ControlPlane.Principal} {id body}
      (hprincipal : principal.tenantId = tenantId) :
      ActsFor s tenantId (.createWorkflow principal id body)
  | call {index choice} {session : ControlPlane.Session} (hcall : s.calls[index]? = some session)
      (hprincipal : session.principal.tenantId = tenantId) :
      ActsFor s tenantId (.call index choice)
  | worker {index reply} {session : Worker.Session} {ref}
      (hworker : s.workers[index]? = some session) (href : session.pc.ref? = some ref)
      (hrun : s.db.RunOf tenantId ref.id) : ActsFor s tenantId (.worker index reply)

/-- What a commit writes is one tenant's, or the progress of the outbox. -/
inductive CommitsApart (s : State) (a : Action) (change : Commit) : Prop
  | tenant {tenantId} (hacts : ActsFor s tenantId a) (howned : change.OfTenant s.db tenantId)
      (hothers : ∀ other, other ≠ tenantId → s.db.Unchanged other (s.db.commit change))
  | attempts {ids} (hchange : change = .outboxAttempts ids)
  | published {ids now} (hchange : change = .outboxPublished ids now)

structure Tenanted (s : State) : Prop where
  closed : s.db.Closed
  workers : ∀ (index : Nat) (session : Worker.Session), s.workers[index]? = some session →
    ∀ tenantId ∈ session.pc.tenants, ∃ ref, session.pc.ref? = some ref ∧
      s.db.RunOf tenantId ref.id
  calls : ∀ (index : Nat) (session : ControlPlane.Session), s.calls[index]? = some session →
    ∀ tenantId ∈ session.pc.tenants, tenantId = session.principal.tenantId
  found : ∀ (index : Nat) (session : ControlPlane.Session) row locked,
    s.calls[index]? = some session → session.pc = .replayEvents row locked →
      row.tenantId = session.principal.tenantId
  shown : ∀ (index : Nat) (session : ControlPlane.Session) run,
    s.calls[index]? = some session → session.pc.shown? = some run →
      run.OfTenant session.principal.tenantId
  stream : ∀ message ∈ s.stream, ∃ row ∈ s.db.outbox, message.Carries row

/-! ## Where positions get their rows -/

theorem Worker.ref?_of_tenants {pc : Worker.Pc} {tenantId : Uuid} (h : tenantId ∈ pc.tenants) :
    ∃ ref, pc.ref? = some ref := by
  cases pc <;> first | exact ⟨_, rfl⟩ | cases h

theorem runByKey?_tenant {db : Db} {tenantId : Uuid} {idempotencyKey : String} {row : RunRow}
    (h : db.runByKey? tenantId idempotencyKey = some row) : row.tenantId = tenantId := by
  have hkey : row.key = (tenantId, idempotencyKey) := Table.lookup_key h
  exact congrArg Prod.fst hkey

namespace ControlPlane

theorem readRunInTransaction_ofTenant (events : List EventRow) {tenantId : Uuid} {row : RunRow}
    (h : row.tenantId = tenantId) :
    (readRunInTransaction events tenantId row).OfTenant tenantId where
  tenant := h
  events := by
    intro event hevent
    obtain ⟨hmem, hrun⟩ := List.mem_filter.mp ((List.mem_insertionSort _).mp hevent)
    exact ⟨of_decide_eq_true (List.mem_filter.mp hmem).2, of_decide_eq_true hrun⟩

variable {env : Env} {s : Shared} {choice : Uuid} {session moved : Session} {pc pc' : Pc}
  {effect : Effect}

theorem PcMove.found (hmove : PcMove env s choice session pc pc' effect) {row : RunRow}
    {locked : Bool} (h : pc' = .replayEvents row locked) :
    row.tenantId = session.principal.tenantId := by
  cases hmove with
  | lookupFound hfound =>
      cases h
      exact runByKey?_tenant hfound
  | racedFound hfound =>
      cases h
      exact runByKey?_tenant hfound
  | approve =>
      unfold startTransition at h
      repeat' split at h
      all_goals cases h
  | cancel =>
      unfold startTransition at h
      repeat' split at h
      all_goals cases h
  | readRun =>
      unfold readRunCheck at h
      repeat' split at h
      all_goals cases h
  | _ => cases h

/-- A run that is shown has been read inside the transaction, or was shown before. -/
theorem PcMove.shown (hmove : PcMove env s choice session pc pc' effect) {run : StoredRun}
    (h : pc'.shown? = some run) :
    pc.shown? = some run ∨
      (∃ row locked, pc = .replayEvents row locked ∧
        run = readRunInTransaction s.db.events session.principal.tenantId row) ∨
      ∃ writes events, pc = .readEvents writes ∧
        run = readRunInTransaction events session.principal.tenantId writes.run.row := by
  cases hmove with
  | replayEvents row locked =>
      cases h
      exact .inr (.inl ⟨row, locked, rfl, rfl⟩)
  | readEvents writes =>
      cases h
      exact .inr (.inr ⟨writes, _, rfl, rfl⟩)
  | replayCommit => exact .inl h
  | discardNone => exact .inl h
  | discardSome => exact .inl h
  | commit writes shown =>
      refine .inl ?_
      unfold response at h
      split at h <;> exact h
  | committed response => cases response <;> exact .inl h
  | approve =>
      unfold startTransition at h
      repeat' split at h
      all_goals cases h
  | cancel =>
      unfold startTransition at h
      repeat' split at h
      all_goals cases h
  | readRun =>
      unfold readRunCheck at h
      repeat' split at h
      all_goals cases h
  | _ => cases h

theorem startCreate_shows {create : CreateRun} {handle : Uuid}
    (h : startCreate s session create handle = some (moved, effect)) :
    moved.pc.shown? = none ∧ ∀ row locked, moved.pc ≠ .replayEvents row locked := by
  cases startCreate_start h with
  | _ => exact ⟨rfl, fun _ _ heq => by cases heq⟩

end ControlPlane

/-! ## Commits -/

section

variable {env : Env} {s s' : State} {a : Action} {h : History State Action} {change : Commit}

theorem Tenanted.executing (tenanted : Tenanted s) {index : Nat} {session : Worker.Session}
    {run : Worker.LeasedRun} (hworker : s.workers[index]? = some session)
    (hexecuting : session.pc.executing? = some run) : s.db.RunOf run.tenantId run.ref.id := by
  have hmem : run.tenantId ∈ session.pc.tenants := by
    rw [Worker.Pc.tenants, hexecuting]
    exact List.mem_append_left _ List.mem_cons_self
  obtain ⟨ref, href, hrun⟩ := tenanted.workers index session hworker _ hmem
  rw [Worker.ref?_of_executing hexecuting, Option.some.injEq] at href
  rwa [href]

theorem Tenanted.request (tenanted : Tenanted s) (sound : Sound s) (referenced : Referenced s)
    {index : Nat} {session : ControlPlane.Session} {writes : Writes}
    {run : ControlPlane.StoredRun} (hcall : s.calls[index]? = some session)
    (hpc : session.pc = .commit writes run) :
    (Commit.request writes).OfTenant s.db session.principal.tenantId := by
  have howned := tenanted.calls index session hcall
  rw [hpc] at howned
  have hmember : ∀ tenantId ∈ ControlPlane.Writes.tenants writes,
      tenantId = session.principal.tenantId := by
    intro tenantId hmem
    exact howned tenantId (by simpa [ControlPlane.Pc.tenants, ControlPlane.Pc.writes?] using hmem)
  obtain ⟨eventType, hcomplete⟩ := sound.complete hcall hpc
  refine ⟨?_, ?_, ?_, ?_⟩
  · have hopened := hcomplete.opened
    cases hwrite : writes.run with
    | insert row =>
        rw [hwrite] at hopened
        obtain ⟨-, create, id, now, budgetCents, -, rfl⟩ := hopened
        exact ⟨rfl, referenced.calls index session _ hcall
          (by simp [hpc, ControlPlane.Pc.references?, ControlPlane.Pc.writes?, hwrite,
            RunWrite.inserted?])⟩
    | update before state approved now =>
        rw [hwrite] at hopened
        obtain ⟨args, -, -, -, -, -, htenant⟩ := hopened
        refine ⟨before, ?_, htenant⟩
        refine sound.snapshots.updates index session before hcall ?_
        rw [hpc, ControlPlane.lockedRow?_writes rfl, hwrite]
  · intro event hevent
    refine ⟨hmember _ (by simp [ControlPlane.Writes.tenants, hevent]), ?_⟩
    obtain ⟨event', hevent', -, hrun⟩ := hcomplete.event
    rw [hevent, Option.some.injEq] at hevent'
    rw [hevent', hrun]
  · intro row hrow
    refine ⟨hmember _ (by simp [ControlPlane.Writes.tenants, hrow]), ?_⟩
    have houtbox := hcomplete.outbox
    unfold ControlPlane.OutboxWritten at houtbox
    split at houtbox
    · obtain ⟨row', hrow', hrun, -⟩ := houtbox
      rw [hrow, Option.some.injEq] at hrow'
      rw [hrow', hrun]
    · rw [hrow] at houtbox
      cases houtbox
  · intro audit haudit
    exact hmember _ (by simp [ControlPlane.Writes.tenants, haudit])

theorem Tenanted.claim (tenanted : Tenanted s) (sound : Sound s) {index : Nat}
    {session : Worker.Session} {now : Int} {row : RunRow} {events : List EventRow}
    {run : Worker.LeasedRun} (hworker : s.workers[index]? = some session)
    (hpc : session.pc = .claimCommit now row events run) :
    (Commit.claim row.id session.id now events).OfTenant s.db row.tenantId := by
  have hrow := sound.snapshots.workers index session row hworker (by rw [hpc]; rfl)
  have hshape := sound.shaped.workers index session hworker
  rw [hpc] at hshape
  obtain ⟨hleases, hevents, -⟩ := hshape
  have howned := tenanted.workers index session hworker
  rw [hpc] at howned
  refine ⟨⟨row, hrow, rfl⟩, fun event hevent => ⟨?_, hevents.runs event hevent⟩⟩
  obtain ⟨ref, href, hrun⟩ := howned event.tenantId
    (List.mem_cons_of_mem _ (List.mem_cons_of_mem _ (List.mem_map_of_mem hevent)))
  cases href
  rw [← hleases.id] at hrun
  exact hrun.unique ⟨row, hrow, rfl⟩

/-- Whoever commits writes its own tenant's rows only. -/
theorem Tenanted.commits (tenanted : Tenanted s) (sound : Sound s) (referenced : Referenced s)
    (keyed : RunsKeyed s.db) (hcommit : commitOf env s a = some change) :
    CommitsApart s a change := by
  have apart : ∀ {tenantId}, ActsFor s tenantId a → change.OfTenant s.db tenantId →
      CommitsApart s a change := fun hacts howned =>
    .tenant hacts howned fun other hother => howned.unchanged keyed hother
  cases commitOf_commits hcommit with
  | createWorkflow => exact apart (.createWorkflow rfl) ⟨rfl, rfl⟩
  | request hcall hpc =>
      exact apart (.call hcall rfl) (tenanted.request sound referenced hcall hpc)
  | outboxAttempts => exact .attempts rfl
  | outboxPublished => exact .published rfl
  | claim hworker hpc =>
      have howned := tenanted.claim sound hworker hpc
      have hshape := sound.shaped.workers _ _ hworker
      rw [hpc] at hshape
      exact apart (.worker hworker (by rw [hpc]; rfl) (hshape.1.id ▸ howned.1)) howned
  | @event index reply session run row after hworker hpc =>
      have hshape := sound.shaped.workers _ _ hworker
      have howned := tenanted.workers _ _ hworker row.tenantId
        (by rw [hpc]; simp [Worker.Pc.tenants, Worker.Pc.rowTenants])
      rw [hpc] at hshape howned
      obtain ⟨ref, href, hrow⟩ := howned
      cases href
      have hrunId : row.runId = run.ref.id := hshape.1
      exact apart (.worker hworker (by rw [hpc]; rfl) hrow) ⟨rfl, hrunId ▸ hrow⟩
  | effect hworker hpc =>
      have hrun := tenanted.executing hworker (by rw [hpc]; rfl)
      exact apart (.worker hworker (by rw [hpc]; rfl) hrun) ⟨rfl, hrun⟩
  | stepResult hworker hpc =>
      have hrun := tenanted.executing hworker (by rw [hpc]; rfl)
      exact apart (.worker hworker (by rw [hpc]; rfl) hrun) ⟨rfl, hrun⟩
  | _ hworker hpc =>
      have hrun := tenanted.executing hworker (by rw [hpc]; rfl)
      exact apart (.worker hworker (by rw [hpc]; rfl) hrun) hrun

theorem CommitsApart.closed (hcommits : CommitsApart s a change)
    (hfresh : ∀ row, change.inserted? = some row → s.db.run? row.id = none)
    (closed : s.db.Closed) : (s.db.commit change).Closed := by
  cases hcommits with
  | tenant hacts howned => exact howned.closed hfresh closed
  | attempts hchange =>
      subst hchange
      refine closed.commit _ ?_ ?_ ?_ ?_ ?_
      all_goals simp [Commit.inserted?, Commit.newEvents, Commit.queued?]
  | published hchange =>
      subst hchange
      refine closed.commit _ ?_ ?_ ?_ ?_ ?_
      all_goals simp [Commit.inserted?, Commit.newEvents, Commit.queued?]

/-! ## Runs -/

theorem Tenanted.closed_next (tenanted : Tenanted s) (sound : Sound s) (referenced : Referenced s)
    (keyed : RunsKeyed s.db) (hnext : next env s a = some s') : s'.db.Closed := by
  obtain ⟨events, outbox, audits, hdb⟩ := next_db hnext
  rw [hdb]
  cases hcommit : commitOf env s a with
  | none => exact ⟨tenanted.closed.runs, tenanted.closed.events, tenanted.closed.stepResults,
      tenanted.closed.effects, tenanted.closed.outbox⟩
  | some change =>
      have hclosed := (tenanted.commits sound referenced keyed hcommit).closed ?_ tenanted.closed
      · obtain ⟨hruns, hevents, hresults, heffects, hqueued⟩ := hclosed
        cases change with
        | request writes =>
            obtain ⟨write, event, queued, audit⟩ := writes
            cases write <;> exact ⟨hruns, hevents, hresults, heffects, hqueued⟩
        | _ => exact ⟨hruns, hevents, hresults, heffects, hqueued⟩
      · intro row hinserted
        obtain ⟨index, choice, session, writes, run, -, -, hcall, hpc, hwrite⟩ :=
          inserted_commits (by rw [hcommit]; exact hinserted)
        exact (sound.snapshots.inserts index session writes row hcall (by rw [hpc]; rfl) hwrite).1

theorem Tenanted.workers_next (tenanted : Tenanted s) (sound : Sound s)
    (hnext : next env s a = some s') {index : Nat} {session : Worker.Session}
    (hworker : s'.workers[index]? = some session) {tenantId : Uuid}
    (htenant : tenantId ∈ session.pc.tenants) :
    ∃ ref, session.pc.ref? = some ref ∧ s'.db.RunOf tenantId ref.id := by
  have hextends := next_extends hnext
  cases worker_case hnext hworker with
  | kept hold hactor =>
      obtain ⟨ref, href, hrun⟩ := tenanted.workers index _ hold tenantId htenant
      exact ⟨ref, href, hrun.extends hextends⟩
  | joined => cases htenant
  | @turned old pc effect hold hactor hcommit hturn hstate =>
      obtain ⟨ref, href⟩ := Worker.ref?_of_tenants htenant
      have hsame : old.pc.ref? = some ref := by
        rcases hturn.ref? (sound.shaped.workers index old hold) href with hsame | ⟨runId, hpc, rfl⟩
        · exact hsame
        · exfalso
          simp only [Worker.process] at htenant
          repeat' split at htenant
          all_goals cases htenant
      refine ⟨ref, href, ?_⟩
      rcases hturn.tenants htenant with hmine | ⟨ref', row, href', hrow, rfl⟩
      · obtain ⟨ref', href', hrun⟩ := tenanted.workers index old hold tenantId hmine
        rw [hsame, Option.some.injEq] at href'
        exact href' ▸ hrun.extends hextends
      · rw [hsame, Option.some.injEq] at href'
        exact href' ▸ Db.RunOf.extends ⟨row, hrow, rfl⟩ hextends

theorem Tenanted.shown_next (tenanted : Tenanted s) (hnext : next env s a = some s') {index : Nat}
    {session : ControlPlane.Session} {run : ControlPlane.StoredRun}
    (hcall : s'.calls[index]? = some session) (hshown : session.pc.shown? = some run) :
    run.OfTenant session.principal.tenantId := by
  cases call_case hnext hcall with
  | kept hold hactor => exact tenanted.shown index _ run hold hshown
  | joined => cases hshown
  | @turned old moved effect hold hactor hcommit hturn hstate =>
      rw [hturn.same.1]
      cases hturn with
      | error => cases hshown
      | move hmove =>
          cases hmove with
          | start hpc hrequest hstart =>
              rw [(ControlPlane.startCreate_shows hstart).1] at hshown
              cases hshown
          | inner hmove =>
              rcases hmove.shown hshown with hmine | ⟨row, locked, hpc, rfl⟩ |
                ⟨writes, events, hpc, rfl⟩
              · exact tenanted.shown index old run hold hmine
              · exact ControlPlane.readRunInTransaction_ofTenant _
                  (tenanted.found index old row locked hold hpc)
              · refine ControlPlane.readRunInTransaction_ofTenant _
                  (tenanted.calls index old hold _ ?_)
                rw [hpc]
                exact List.mem_append_left _ (List.mem_append_left _
                  (List.mem_append_left _ List.mem_cons_self))

theorem Tenanted.stream_next (tenanted : Tenanted s) (batched : Batched s)
    (hnext : next env s a = some s') {message : Message} (hmessage : message ∈ s'.stream) :
    ∃ row ∈ s'.db.outbox, message.Carries row := by
  have later : ∀ {message : Message}, (∃ row ∈ s.db.outbox, message.Carries row) →
      ∃ row ∈ s'.db.outbox, message.Carries row := by
    rintro message ⟨row, hrow, hcarries⟩
    obtain ⟨row', hrow', hsame⟩ := (next_extends hnext).outbox row hrow
    exact ⟨row', hrow', hcarries.id.trans hsame.id.symm,
      hcarries.subject.trans hsame.subject.symm, hcarries.payload.trans hsame.payload.symm,
      hcarries.tenantId.trans hsame.tenantId.symm⟩
  obtain ⟨position, hposition⟩ := List.mem_iff_getElem?.mp hmessage
  cases stream_case hnext hposition with
  | kept hold => exact later (tenanted.stream _ (List.mem_of_getElem? hold))
  | redelivered hold =>
      obtain ⟨row, hrow, hcarries⟩ := tenanted.stream _ (List.mem_of_getElem? hold)
      exact later ⟨row, hrow, hcarries.id, hcarries.subject, hcarries.payload, hcarries.tenantId⟩
  | acked hworker hpc houtcome hposition hold =>
      obtain ⟨row, hrow, hcarries⟩ := tenanted.stream _ (List.mem_of_getElem? hold)
      exact later ⟨row, hrow, hcarries.id, hcarries.subject, hcarries.payload, hcarries.tenantId⟩
  | published hpublisher hpc hposition =>
      obtain ⟨row, hrow, rfl⟩ := batched _ _ hpublisher _ (by rw [hpc]; exact List.mem_cons_self)
      exact later ⟨row, hrow, rfl, rfl, rfl, rfl⟩

theorem run_tenanted (run : Run env h s) : Tenanted s := by
  refine run.always ?_ ?_
  · intro s hs
    refine ⟨⟨by simp [hs.runs], by simp [hs.events], by simp [hs.stepResults],
      by simp [hs.effects], by simp [hs.outbox]⟩, ?_, ?_, ?_, ?_, by simp [hs.stream]⟩
    · simp [hs.workers]
    · simp [hs.calls]
    · simp [hs.calls]
    · simp [hs.calls]
  · intro h s a s' run tenanted hnext
    refine ⟨tenanted.closed_next (run_sound run) (run_referenced run) (run_runsKeyed run) hnext,
      fun index session hworker tenantId htenant =>
        tenanted.workers_next (run_sound run) hnext hworker htenant, ?_, ?_,
      fun index session run' hcall hshown => tenanted.shown_next hnext hcall hshown,
      fun message hmessage => tenanted.stream_next (run_batched run) hnext hmessage⟩
    · intro index session hcall tenantId htenant
      cases call_case hnext hcall with
      | kept hold hactor => exact tenanted.calls index _ hold tenantId htenant
      | joined => cases htenant
      | turned hold hactor hcommit hturn hstate =>
          rw [hturn.same.1]
          rcases hturn.tenants htenant with hmine | hown
          · exact tenanted.calls index _ hold tenantId hmine
          · exact hown
    · intro index session row locked hcall hpc
      cases call_case hnext hcall with
      | kept hold hactor => exact tenanted.found index _ row locked hold hpc
      | joined => cases hpc
      | turned hold hactor hcommit hturn hstate =>
          rw [hturn.same.1]
          cases hturn with
          | error => cases hpc
          | move hmove =>
              cases hmove with
              | start hroute hrequest hstart =>
                  exact absurd hpc ((ControlPlane.startCreate_shows hstart).2 row locked)
              | inner hmove => exact hmove.found hpc

structure TenantsApart (env : Env) (h : History State Action) (s : State) : Prop where
  closed : s.db.Closed
  commits : ∀ p ∈ h, ∀ change, commitOf env p.1 p.2 = some change → CommitsApart p.1 p.2 change
  shown : ∀ (index : Nat) (session : ControlPlane.Session) run,
    s.calls[index]? = some session → session.pc.shown? = some run →
      run.OfTenant session.principal.tenantId
  messages : ∀ message ∈ s.stream, ∃ runId, message.Names runId ∧
    s.db.RunOf message.tenantId runId

/--
Whatever the tenants do at once, every commit writes rows of the tenant that the
request or worker acts for and leaves those of all others unchanged, references
stay inside a tenant, a message carries the tenant of the run it names, and a
response shows a run and events of the caller's tenant only.
-/
theorem tenantsApart (run : Run env h s) : TenantsApart env h s := by
  have tenanted := run_tenanted run
  refine ⟨tenanted.closed, ?_, tenanted.shown, ?_⟩
  · rintro ⟨t, a⟩ hp change hcommit
    obtain ⟨h₁, h₂, t', -, past, -⟩ := run.of_mem hp
    exact (run_tenanted past).commits (run_sound past) (run_referenced past) (run_runsKeyed past)
      hcommit
  · intro message hmessage
    obtain ⟨row, hrow, hcarries⟩ := tenanted.stream message hmessage
    refine ⟨row.runId, ?_, ?_⟩
    · rw [Message.Names, hcarries.payload, (run_named run).outbox row hrow]
      exact ofText?_text row.runId
    · rw [hcarries.tenantId]
      exact tenanted.closed.outbox row hrow

end

/-- Two tenants with a workflow each; the run of the first is published and claimed. -/
def twoTenants : List Action :=
  .createWorkflow ⟨9, .owner, "other"⟩ 8 (Scenario.workflow [Scenario.fetch]) ::
    Scenario.createActions [Scenario.dataRead] ++ Scenario.publishActions 0 ++
      Scenario.claimActions 0 0

theorem twoTenants_apart : ∃ h s, Run Scenario.env h s ∧
    (s.db.definitions.map DefinitionRow.tenantId = [9, Scenario.tenantId] ∧
      s.db.events.length = 3) ∧ TenantsApart Scenario.env h s := by
  obtain ⟨h, s, run, htest⟩ := Scenario.exists_run 5 twoTenants
    (fun _ s => s.db.definitions.map DefinitionRow.tenantId = [9, Scenario.tenantId] ∧
      s.db.events.length = 3) (by decide +kernel)
  exact ⟨h, s, run, of_decide_eq_true htest, tenantsApart run⟩

end DurableRuntime
