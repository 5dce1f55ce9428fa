import DurableRuntime.Accounting
import DurableRuntime.TableConstraints

/-!
# Drafts

What an open transaction of a request has written so far, row by row.  When it
is about to commit, the rows are those that the store writes in one piece; only
the values that it drew from the identity columns are its own.
-/

namespace DurableRuntime

open DurableRuntime.Foundation

namespace ControlPlane

/-! ## The rows of a transaction -/

def eventOf (row : RunRow) (now : Int) (eventType : EventType) (detail : String) (id : Nat) :
    EventRow :=
  ⟨id, row.tenantId, row.id, eventType, detail, now⟩

/-- `queue_run_outbox` runs for a creation and an approval. -/
def outboxOf (row : RunRow) (eventType : EventType) (id : Nat) : Option OutboxRow :=
  if queues eventType then
    some ⟨id, row.tenantId, row.id, "dar.run.queued", ⟨row.id.text⟩, none, 0⟩
  else none

def auditOf (db : Db) (principal : Principal) (now : Int) (eventType : EventType) (runId : Uuid)
    (id : Nat) : AuditRow :=
  ⟨id, principal.tenantId, db.principalId? principal.tenantId principal.subject,
    "run." ++ eventType.text, runId, now⟩

/-- The write that opens a transaction begun at `now`, with the event that goes with it. -/
def Opens (session : Session) (now : Int) (eventType : EventType) (detail : String) :
    RunWrite → Prop
  | .insert row =>
      eventType = .created ∧ detail = "Run queued" ∧ ∃ create id budgetCents,
        session.request = .createRun create ∧
        row = newRun session.principal.tenantId create session.handle id now budgetCents
  | .update before state approved instant =>
      instant = now ∧ before.tenantId = session.principal.tenantId ∧
        ∃ args, Asks session.request args before.id ∧ eventType = args.eventType ∧
          detail = args.detail ∧ state = args.state ∧ approved = args.approves ∧
            args.state ∈ allowedTransitions before.state

/-- All that a transaction has written when it is about to commit. -/
def Drafted (db : Db) (session : Session) (writes : Writes) : Prop :=
  ∃ now eventType detail event outbox audit, Opens session now eventType detail writes.run ∧
    writes =
      ⟨writes.run, some (eventOf writes.run.row now eventType detail event),
        outboxOf writes.run.row eventType outbox,
        some (auditOf db session.principal now eventType writes.run.row.id audit)⟩

/-- What a transaction has written at each of its positions. -/
def Drafts (db : Db) (session : Session) : Prop :=
  match session.pc with
  | .transitionUpdate args _ row =>
      Asks session.request args row.id ∧ args.state ∈ allowedTransitions row.state ∧
        row.tenantId = session.principal.tenantId
  | .insertEvent now eventType detail writes =>
      Opens session now eventType detail writes.run ∧ writes = ⟨writes.run, none, none, none⟩
  | .queueOutbox now eventType writes =>
      queues eventType = true ∧ ∃ detail event, Opens session now eventType detail writes.run ∧
        writes = ⟨writes.run, some (eventOf writes.run.row now eventType detail event), none, none⟩
  | .audit now eventType writes =>
      ∃ detail event outbox, Opens session now eventType detail writes.run ∧
        writes = ⟨writes.run, some (eventOf writes.run.row now eventType detail event),
          outboxOf writes.run.row eventType outbox, none⟩
  | .readEvents writes | .commit writes _ => Drafted db session writes
  | _ => True

section

variable {env : Env} {s : Shared} {db : Db} {choice : Uuid} {session moved : Session} {pc : Pc}
  {effect : Effect}

theorem Drafts.of_idle (h : session.pc.writes? = none) (hrow : session.pc.lockedRow? = none) :
    Drafts db session := by
  unfold Drafts
  split
  · rename_i hpc
    rw [hpc] at hrow
    cases hrow
  all_goals first
    | trivial
    | rename_i hpc
      rw [hpc] at h
      cases h

theorem PcMove.drafts (hmove : PcMove env s choice session session.pc pc effect)
    (hasked : Asked session) (hshape : Shaped session) (h : Drafts s.db session) :
    Drafts s.db { session with pc } := by
  unfold Drafts at h
  unfold Asked at hasked
  unfold Shaped at hshape
  generalize session.pc = old at hmove h hasked hshape
  cases hmove with
  | approve => exact .of_idle (startTransition_idle _ _ _).2 (startTransition_idle _ _ _).1
  | cancel => exact .of_idle (startTransition_idle _ _ _).2 (startTransition_idle _ _ _).1
  | readRun => exact .of_idle (readRunCheck_idle _ _ _).2 (readRunCheck_idle _ _ _).1
  | inserted => exact ⟨⟨rfl, rfl, _, _, _, hshape, rfl⟩, rfl⟩
  | transitionLocked hrow hfree hassert =>
      obtain ⟨-, htenant, hid⟩ := runOfTenant?_run? hrow
      exact ⟨hid ▸ hasked, assertTransition_ok.mp hassert, htenant⟩
  | transitionUpdate args now row =>
      obtain ⟨hasks, hallowed, htenant⟩ := h
      exact ⟨⟨rfl, htenant, args, hasks, rfl, rfl, rfl, rfl, hallowed⟩, rfl⟩
  | @eventQueued now eventType detail writes hqueues =>
      obtain ⟨hopens, hwrites⟩ := h
      refine ⟨hqueues, detail, s.db.nextEventId, hopens, ?_⟩
      rw [hwrites]
      rfl
  | @eventUnqueued now eventType detail writes hqueues =>
      obtain ⟨hopens, hwrites⟩ := h
      refine ⟨detail, s.db.nextEventId, 0, hopens, ?_⟩
      rw [hwrites, outboxOf, hqueues]
      rfl
  | @queueOutbox now eventType writes =>
      obtain ⟨hqueues, detail, event, hopens, hwrites⟩ := h
      refine ⟨detail, event, s.db.nextOutboxId, hopens, ?_⟩
      rw [hwrites, outboxOf, hqueues]
      rfl
  | audit now eventType writes =>
      obtain ⟨detail, event, outbox, hopens, hwrites⟩ := h
      refine ⟨now, eventType, detail, event, outbox, s.db.nextAuditId, hopens, ?_⟩
      rw [hwrites]
      rfl
  | readEvents => exact h
  | _ => trivial

theorem Turn.drafts (hturn : Turn env s session moved effect) (hasked : Asked session)
    (hshape : Shaped session) (h : Drafts s.db session) : Drafts s.db moved := by
  cases hturn with
  | error => trivial
  | move hmove =>
      cases hmove with
      | inner hmove => exact hmove.drafts hasked hshape h
      | start hpc hrequest hstart =>
          cases startCreate_start hstart with
          | _ => trivial

theorem Drafts.of_principals {db' : Db} (h : Drafts db session)
    (hprincipals : db'.principals = db.principals) : Drafts db' session := by
  have carry : ∀ {writes}, Drafted db session writes → Drafted db' session writes := by
    rintro writes ⟨now, eventType, detail, event, outbox, audit, hopens, hwrites⟩
    refine ⟨now, eventType, detail, event, outbox, audit, hopens, hwrites.trans ?_⟩
    simp only [auditOf, Db.principalId?, hprincipals]
  unfold Drafts at h ⊢
  cases hpc : session.pc with
  | readEvents =>
      rw [hpc] at h
      exact carry h
  | commit =>
      rw [hpc] at h
      exact carry h
  | _ =>
      rw [hpc] at h
      exact h

end

end ControlPlane

section

variable {env : Env} {s s' : State} {a : Action} {h : History State Action}

def AllDrafted (s : State) : Prop :=
  ∀ (index : Nat) (session : ControlPlane.Session), s.calls[index]? = some session →
    ControlPlane.Drafts s.db session

theorem run_drafted (run : Run env h s) : AllDrafted s := by
  refine run.always ?_ ?_
  · intro s hs index session hcall
    simp [hs.calls] at hcall
  · intro h s a s' run drafts hnext index session hcall
    refine ControlPlane.Drafts.of_principals ?_ (principals_next hnext)
    cases call_case hnext hcall with
    | kept hold hactor => exact drafts index _ hold
    | joined => trivial
    | turned hold hactor hcommit hturn hstate =>
        exact hturn.drafts (run_asked run index _ hold) (run_shaped run |>.calls index _ hold)
          (drafts index _ hold)

end

end DurableRuntime
