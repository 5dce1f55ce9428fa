import DurableRuntime.EventIds
import DurableRuntime.Foundation.Counters

/-!
# The identity columns

`run_events.id` and `audit_records.id` are drawn by the insert statements, and
stored by the commits long after.  Whatever transactions overlap or fail, no two
rows and no two open transactions have one id.
-/

namespace DurableRuntime

open DurableRuntime.Foundation

structure IdentityColumn where
  table : Db → List Nat
  counter : Db → Nat
  stored : Commit → List Nat
  worker : Worker.Pc → List Nat
  call : ControlPlane.Pc → List Nat

namespace IdentityColumn

/-- The values that a session has drawn and not yet stored. -/
def pending (column : IdentityColumn) (s : State) : Holder → List Nat
  | .worker index => ((s.workers[index]?).map fun session => column.worker session.pc).getD []
  | .call index => ((s.calls[index]?).map fun session => column.call session.pc).getD []
  | _ => []

def storedBy (column : IdentityColumn) (effect : Effect) : List Nat :=
  (effect.commit?.map column.stored).getD []

/-- What the moves of the system do to the column. -/
structure Lawful (column : IdentityColumn) (env : Env) : Prop where
  received : ∀ runId, column.worker (.received runId) = []
  route : column.call .route = []
  table_commit : ∀ db change,
    column.table (db.commit change) = column.table db ++ column.stored change
  table_draw : ∀ db events outbox audits,
    column.table (db.draw events outbox audits) = column.table db
  counter_commit : ∀ db change, column.counter (db.commit change) = column.counter db
  counter_draw : ∀ db events outbox audits,
    column.counter db ≤ column.counter (db.draw events outbox audits)
  worker : ∀ {s : Shared} {session pc effect}, Worker.Turn env s session pc effect →
    Exchange (column.counter s.db) (column.counter (s.apply effect).db) (column.worker session.pc)
      (column.storedBy effect) (column.worker pc)
  call : ∀ {s : Shared} {session moved effect}, ControlPlane.Turn env s session moved effect →
    Exchange (column.counter s.db) (column.counter (s.apply effect).db) (column.call session.pc)
      (column.storedBy effect) (column.call moved.pc)
  publisher : ∀ {s : Shared} {session pc effect}, Outbox.Turn s session pc effect →
    column.storedBy effect = []
  createWorkflow : ∀ (s : State) row audit, audit.id = s.db.nextAuditId →
    column.stored (.createWorkflow row audit) = [] ∨
      (column.stored (.createWorkflow row audit) = [column.counter s.db] ∧
        column.counter (s.db.draw 0 0 1) = column.counter s.db + 1)

variable {column : IdentityColumn} {env : Env} {s s' : State} {a : Action}

theorem Lawful.table_apply (lawful : column.Lawful env) (s : Shared) (effect : Effect) :
    column.table (s.apply effect).db = column.table s.db ++ column.storedBy effect := by
  cases effect with
  | commit change => exact lawful.table_commit s.db change
  | draw events outbox audits =>
      exact (lawful.table_draw s.db events outbox audits).trans (List.append_nil _).symm
  | _ => exact (List.append_nil _).symm

theorem Lawful.counter_apply (lawful : column.Lawful env) (s : Shared) (effect : Effect) :
    column.counter s.db ≤ column.counter (s.apply effect).db := by
  cases effect with
  | commit change => exact Nat.le_of_eq (lawful.counter_commit s.db change).symm
  | draw events outbox audits => exact lawful.counter_draw s.db events outbox audits
  | _ => exact Nat.le_refl _

theorem pending_joined {β : Type} {l : List β} {b : β} {f : β → List Nat} (hf : f b = [])
    (index : Nat) : (((l ++ [b])[index]?).map f).getD [] = ((l[index]?).map f).getD [] := by
  rcases Nat.lt_trichotomy index l.length with hlt | rfl | hgt
  · rw [List.getElem?_append_left hlt]
  · simp [hf]
  · rw [List.getElem?_eq_none (by rw [List.length_append]; exact hgt),
      List.getElem?_eq_none (Nat.le_of_lt hgt)]

/-- A value is in the table, or with one open transaction. -/
def Distinct (column : IdentityColumn) (s : State) : Prop :=
  Drawn (column.counter s.db) (column.table s.db) (column.pending s)

theorem Lawful.distinct_next (lawful : column.Lawful env) (distinct : column.Distinct s)
    (hnext : next env s a = some s') : column.Distinct s' := by
  cases next_step hnext with
  | tick => exact distinct
  | publishPending => exact distinct
  | request principal request =>
      have hpending : column.pending
          { s with calls := s.calls ++ [⟨principal, request, none, .route⟩] } =
            column.pending s := by
        funext me
        cases me with
        | call index =>
            exact pending_joined (b := (⟨principal, request, none, .route⟩ : ControlPlane.Session))
              (f := fun session => column.call session.pc) lawful.route index
        | _ => rfl
      simpa only [Distinct, hpending] using distinct
  | @deliver index workerId message hmessage hready =>
      have hpending : column.pending
          { s with
            stream := s.stream.modify index (redeliverAt (s.clock + ackWait))
            workers := s.workers ++ [⟨workerId, index, .received message.payload.runId⟩] } =
          column.pending s := by
        funext me
        cases me with
        | worker other =>
            exact pending_joined
              (b := (⟨workerId, index, .received message.payload.runId⟩ : Worker.Session))
              (f := fun session => column.worker session.pc) (lawful.received _) other
        | _ => rfl
      simpa only [Distinct, hpending] using distinct
  | @createWorkflow principal id body change hcreate =>
      have hcommit : commitOf env s (.createWorkflow principal id body) = some change := hcreate
      cases commitOf_commits hcommit with
      | @createWorkflow _ _ _ workflow hschema hinsertable =>
          have hstored := lawful.createWorkflow s (definitionRow principal id workflow)
            (ControlPlane.auditRow s.toShared principal s.clock "workflow.created" id) rfl
          simp only [Distinct, lawful.table_commit, lawful.table_draw, lawful.counter_commit]
          rcases hstored with hnone | ⟨hone, hnext⟩
          · rw [hnone, List.append_nil]
            exact distinct.advance (lawful.counter_draw s.db 0 0 1)
          · rw [hone, hnext]
            exact distinct.insert
  | @call _ index session moved effect hactor hcommit hcall hturn =>
      have hlt := (List.getElem?_eq_some_iff.mp hcall).1
      have hself : column.pending s (.call index) = column.call session.pc := by
        simp [pending, hcall]
      rw [Distinct, State.moveCall]
      simp only [State.withShared]
      rw [lawful.table_apply]
      refine distinct.exchange (.call index) (lawful.counter_apply s.toShared effect) ?_ ?_
        (hself ▸ lawful.call hturn)
      · rintro you hyou
        cases you with
        | call other =>
            have hother : other ≠ index := fun heq => hyou (by rw [heq])
            simp [pending, List.getElem?_set_ne hother.symm]
        | _ => rfl
      · simp [pending, List.getElem?_set_self hlt]
  | @worker _ index session pc effect hactor hcommit hworker hturn =>
      have hlt := (List.getElem?_eq_some_iff.mp hworker).1
      have hself : column.pending s (.worker index) = column.worker session.pc := by
        simp [pending, hworker]
      rw [Distinct, State.moveWorker]
      simp only [State.withShared]
      rw [lawful.table_apply]
      refine distinct.exchange (.worker index) (lawful.counter_apply s.toShared effect) ?_ ?_
        (hself ▸ lawful.worker hturn)
      · rintro you hyou
        cases you with
        | worker other =>
            have hother : other ≠ index := fun heq => hyou (by rw [heq])
            simp [pending, List.getElem?_set_ne hother.symm]
        | _ => rfl
      · simp [pending, List.getElem?_set_self hlt]
  | @publisher _ index session pc effect hactor hcommit hpublisher hturn =>
      rw [Distinct, State.movePublisher]
      simp only [State.withShared]
      rw [lawful.table_apply, lawful.publisher hturn, List.append_nil]
      exact distinct.advance (lawful.counter_apply s.toShared effect)

theorem Lawful.run_distinct (lawful : column.Lawful env) {h : History State Action}
    (htable : ∀ s, Initial s → column.table s.db = []) (run : Run env h s) : column.Distinct s := by
  refine run.always ?_ fun _ distinct hnext => lawful.distinct_next distinct hnext
  intro s hs
  have hpending : ∀ me, column.pending s me = [] := by
    intro me
    cases me <;> simp [pending, hs.workers, hs.calls]
  refine ⟨?_, ?_, ?_, ?_, ?_, ?_⟩
  · simp [htable s hs]
  · simp [htable s hs]
  · simp [hpending]
  · simp [hpending]
  · simp [hpending]
  · simp [hpending]

end IdentityColumn

/-! ## Events and audit records -/

namespace Worker

/-- The events that a position is about to store. -/
def Pc.drawn : Pc → List EventRow
  | claimCommit _ _ events _ => events
  | eventCommit _ row _ => [row]
  | _ => []

theorem drawn_of_branch {pc : Pc} (h : pc.isBranch = true) : pc.drawn = [] := by
  cases pc <;> first | rfl | cases h

end Worker

def eventColumn : IdentityColumn where
  table := fun db => db.events.map EventRow.id
  counter := Db.nextEventId
  stored := fun change => change.newEvents.map EventRow.id
  worker := fun pc => pc.drawn.map EventRow.id
  call := fun pc => ((pc.writes?.bind Writes.event).map EventRow.id).toList

def auditColumn : IdentityColumn where
  table := fun db => db.audits.map AuditRow.id
  counter := Db.nextAuditId
  stored := fun change => change.newAudits.map AuditRow.id
  worker := fun _ => []
  call := fun pc => ((pc.writes?.bind Writes.audit).map AuditRow.id).toList

section

variable {env : Env} {s : Shared}

theorem Worker.Turn.exchange {session : Worker.Session} {pc : Worker.Pc} {effect : Effect}
    (hturn : Worker.Turn env s session pc effect) :
    Exchange s.db.nextEventId (s.apply effect).db.nextEventId
      (session.pc.drawn.map EventRow.id) (eventColumn.storedBy effect)
      (pc.drawn.map EventRow.id) := by
  have branch : ∀ {pc : Worker.Pc} {effect : Effect} {old : List Nat}, pc.isBranch = true →
      eventColumn.storedBy effect = [] →
      Exchange s.db.nextEventId (s.apply effect).db.nextEventId old
        (eventColumn.storedBy effect) (pc.drawn.map EventRow.id) := by
    intro pc effect old hbranch hstored
    rw [hstored, Worker.drawn_of_branch hbranch]
    exact .dropped
  cases hturn with
  | error => exact .dropped
  | crash => exact .dropped
  | move hmove =>
      generalize session.pc = old at hmove
      cases hmove with
      | received runId => exact branch (Worker.process_branch runId) rfl
      | execute run => exact branch (Worker.execute_branch run) rfl
      | loop run index => exact branch (Worker.loop_branch env run index) rfl
      | consume run index handle prompt delivery =>
          refine branch (Worker.withCredential_branch env run index prompt _) ?_
          rw [IdentityColumn.storedBy, consumeCredential_commit]
          rfl
      | claimEvents => exact .drawn (n := 2) rfl
      | event => exact .drawn (n := 1) rfl
      | claimCommit => exact .stored
      | @eventCommit _ run row after => cases after <;> exact .stored
      | @record _ run index kind status safeLabel => cases status <;> exact .dropped
      | _ => exact .dropped

/-- A publisher stores nothing that it has not found in the outbox. -/
theorem Outbox.Turn.stores {session : Outbox.Session} {pc : Outbox.Pc} {effect : Effect}
    (hturn : Outbox.Turn s session pc effect) (column : IdentityColumn)
    (hattempts : ∀ ids, column.stored (.outboxAttempts ids) = [])
    (hpublished : ∀ ids now, column.stored (.outboxPublished ids now) = []) :
    column.storedBy effect = [] := by
  cases hturn with
  | error => rfl
  | move hmove =>
      generalize session.pc = old at hmove
      cases hmove with
      | claimCommit => exact hattempts _
      | marked => exact hpublished _ _
      | _ => rfl

/-- A request draws at one insert, and stores at its commit. -/
theorem ControlPlane.Turn.exchange {column : IdentityColumn}
    {session moved : ControlPlane.Session} {effect : Effect}
    (hturn : ControlPlane.Turn env s session moved effect)
    (hidle : ∀ pc : ControlPlane.Pc, pc.writes? = none → column.call pc = [])
    (hmove : ∀ {choice pc pc' effect}, ControlPlane.PcMove env s choice session pc pc' effect →
      pc'.writes?.isSome = true →
        Exchange (column.counter s.db) (column.counter (s.apply effect).db) (column.call pc)
          (column.storedBy effect) (column.call pc'))
    (hstored : ∀ writes run, session.pc = .commit writes run →
      column.stored (.request writes) = column.call session.pc) :
    Exchange (column.counter s.db) (column.counter (s.apply effect).db) (column.call session.pc)
      (column.storedBy effect) (column.call moved.pc) := by
  cases hturn with
  | error =>
      rw [hidle (.done databaseError) rfl]
      exact .dropped
  | move hturn =>
      cases hturn with
      | start hpc hrequest hstart =>
          rw [hidle _ (ControlPlane.startCreate_idle hstart).2, IdentityColumn.storedBy,
            startCreate_commit hstart]
          exact .dropped
      | @inner pc effect hpc =>
          cases hwrites : pc.writes? with
          | some writes => exact hmove hpc (by rw [hwrites]; rfl)
          | none =>
              rw [hidle pc hwrites]
              cases heffect : effect.commit? with
              | none =>
                  rw [IdentityColumn.storedBy, heffect]
                  exact .dropped
              | some change =>
                  generalize hold : session.pc = old at hpc hstored
                  cases hpc with
                  | commit writes run =>
                      cases heffect
                      rw [← hstored writes run rfl]
                      exact .stored
                  | _ => cases heffect

theorem eventColumn_lawful (env : Env) : eventColumn.Lawful env where
  received := fun _ => rfl
  route := rfl
  table_commit := by
    intro db change
    simp only [eventColumn, events_commit, List.map_append]
  table_draw := fun _ _ _ _ => rfl
  counter_commit := fun db change => nextEventId_commit db change
  counter_draw := fun _ _ _ _ => Nat.le_add_right _ _
  worker := fun hturn => hturn.exchange
  call := by
    intro s session moved effect hturn
    refine hturn.exchange ?_ ?_ ?_
    · intro pc hwrites
      simp [eventColumn, hwrites]
    · intro choice pc pc' effect hmove hsome
      cases hmove with
      | eventQueued => exact .drawn (n := 1) rfl
      | eventUnqueued => exact .drawn (n := 1) rfl
      | queueOutbox => exact .kept
      | audit => exact .kept
      | readEvents => exact .kept
      | inserted => exact .dropped
      | transitionUpdate => exact .dropped
      | approve => simp [ControlPlane.startTransition_idle] at hsome
      | cancel => simp [ControlPlane.startTransition_idle] at hsome
      | readRun => simp [ControlPlane.readRunCheck_idle] at hsome
      | _ => cases hsome
    · intro writes run hpc
      rw [hpc]
      simp only [eventColumn, Commit.newEvents, ControlPlane.Pc.writes?, Option.bind_some]
      cases writes.event <;> rfl
  publisher := fun hturn => hturn.stores _ (fun _ => rfl) fun _ _ => rfl
  createWorkflow := fun _ _ _ _ => .inl rfl

theorem auditColumn_lawful (env : Env) : auditColumn.Lawful env where
  received := fun _ => rfl
  route := rfl
  table_commit := by
    intro db change
    simp only [auditColumn, audits_commit, List.map_append]
  table_draw := fun _ _ _ _ => rfl
  counter_commit := by
    intro db change
    cases change with
    | request writes =>
        obtain ⟨write, event, outbox, audit⟩ := writes
        cases write <;> rfl
    | _ => rfl
  counter_draw := fun _ _ _ _ => Nat.le_add_right _ _
  worker := by
    intro s session pc effect hturn
    have hstored : auditColumn.storedBy effect = [] := by
      cases hturn with
      | error => rfl
      | crash => rfl
      | move hmove =>
          generalize session.pc = old at hmove
          cases hmove with
          | consume run index handle prompt delivery =>
              rw [IdentityColumn.storedBy, consumeCredential_commit]
              rfl
          | _ => rfl
    rw [hstored]
    exact .kept
  call := by
    intro s session moved effect hturn
    refine hturn.exchange ?_ ?_ ?_
    · intro pc hwrites
      simp [auditColumn, hwrites]
    · intro choice pc pc' effect hmove hsome
      cases hmove with
      | audit => exact .drawn (n := 1) rfl
      | eventQueued => exact .kept
      | eventUnqueued => exact .kept
      | queueOutbox => exact .kept
      | readEvents => exact .kept
      | inserted => exact .dropped
      | transitionUpdate => exact .dropped
      | approve => simp [ControlPlane.startTransition_idle] at hsome
      | cancel => simp [ControlPlane.startTransition_idle] at hsome
      | readRun => simp [ControlPlane.readRunCheck_idle] at hsome
      | _ => cases hsome
    · intro writes run hpc
      rw [hpc]
      simp only [auditColumn, Commit.newAudits, ControlPlane.Pc.writes?, Option.bind_some]
      cases writes.audit <;> rfl
  publisher := fun hturn => hturn.stores _ (fun _ => rfl) fun _ _ => rfl
  createWorkflow := fun s _ audit haudit => .inr
    ⟨by simp [auditColumn, Commit.newAudits, haudit], rfl⟩

end

theorem run_eventIds {env : Env} {h : History State Action} {s : State} (run : Run env h s) :
    eventColumn.Distinct s :=
  (eventColumn_lawful env).run_distinct (fun s hs => by simp [eventColumn, hs.events]) run

theorem run_auditIds {env : Env} {h : History State Action} {s : State} (run : Run env h s) :
    auditColumn.Distinct s :=
  (auditColumn_lawful env).run_distinct (fun s hs => by simp [auditColumn, hs.audits]) run

end DurableRuntime
