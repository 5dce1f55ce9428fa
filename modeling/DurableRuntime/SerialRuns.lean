import DurableRuntime.Attempts
import DurableRuntime.Scenario
import DurableRuntime.Serializability

/-!
# Serial runs

A serial run reaches its tables by whole calls of the store and by transactions
of workers and publishers that run alone, one after the other.  Every run of the
system reaches the tables of a serial run with the same answers, in the order in
which the requests commit.
-/

namespace DurableRuntime

open DurableRuntime.Foundation

section

variable {env : Env} {s s' : State} {a : Action} {h : History State Action}

/-! ## The batches of the publishers -/

/-- A batch is what `claimPendingOutbox` selected at some moment. -/
theorem run_claimed (run : Run env h s) (index : Nat) (session : Outbox.Session)
    (messages : List Outbox.PendingOutboxMessage) (hpublisher : s.publishers[index]? = some session)
    (hselected : session.pc.selected? = some messages) :
    ∃ earlier : Shared, messages = Outbox.claimPending earlier session.limit := by
  refine run.always (P := fun s => ∀ (index : Nat) (session : Outbox.Session) messages,
    s.publishers[index]? = some session → session.pc.selected? = some messages →
      ∃ earlier : Shared, messages = Outbox.claimPending earlier session.limit) ?_ ?_ index session
        messages hpublisher hselected
  · intro s hs index session messages hpublisher
    simp [hs.publishers] at hpublisher
  · intro h s a s' _ claimed hnext index session messages hpublisher hselected
    cases publisher_case hnext hpublisher with
    | kept hold hactor => exact claimed index session messages hold hselected
    | joined => cases hselected
    | @turned old pc effect hold hactor hturn hstate =>
        rcases (hturn.selects hselected).2 with hmine | rfl
        · exact claimed index old messages hold hmine
        · exact ⟨s.toShared, rfl⟩

theorem claimPending_ids (s : Shared) (limit : Nat) :
    ((Outbox.claimPending s limit).map (·.id)).Pairwise (· ≤ ·) ∧
      (Outbox.claimPending s limit).length ≤ limit := by
  constructor
  · rw [Outbox.claimPending, List.map_map, List.pairwise_map]
    exact (List.pairwise_insertionSort (r := fun a b : OutboxRow => a.id ≤ b.id) _).sublist
      (List.take_sublist _ _)
  · rw [Outbox.claimPending, List.length_map]
    exact List.length_take_le _ _

/-- The locks of everyone else, to whom a claim leaves the rows outside its batch. -/
def othersLocks (ids : List Nat) : Resource → Option Holder
  | .outbox id => if id ∈ ids then none else some (.publisher 0)
  | _ => none

/-- Unpublished rows in id order are what `claimPendingOutbox` selects when others hold the rest. -/
theorem claimPending_alone {s : Shared} (hkeyed : (s.db.outbox.map OutboxRow.id).Nodup)
    {ids : List Nat} {limit : Nat} (hnodup : ids.Nodup) (hsorted : ids.Pairwise (· ≤ ·))
    (hlimit : ids.length ≤ limit)
    (hpending : ∀ id ∈ ids, ∃ row ∈ s.db.outbox, row.id = id ∧ row.publishedAt = none) :
    (Outbox.claimPending { s with locks := othersLocks ids } limit).map (·.id) = ids := by
  let selected := (s.db.outbox.filter fun row => row.publishedAt.isNone &&
    ({ s with locks := othersLocks ids } : Shared).free (.outbox row.id)).insertionSort
      fun a b => a.id ≤ b.id
  have hids : selected.map OutboxRow.id = ids := by
    refine @List.Perm.eq_of_pairwise _ (· ≤ ·) _ _ (fun _ _ _ _ => Nat.le_antisymm) ?_ hsorted ?_
    · rw [List.pairwise_map]
      exact List.pairwise_insertionSort (r := fun a b : OutboxRow => a.id ≤ b.id) _
    · refine ((List.perm_insertionSort _ _).map _).trans ?_
      rw [List.perm_ext_iff_of_nodup (hkeyed.sublist (List.filter_sublist.map _)) hnodup]
      intro id
      constructor
      · intro hmem
        obtain ⟨row, hrow, rfl⟩ := List.mem_map.mp hmem
        have hfree := (List.mem_filter.mp hrow).2
        by_contra hother
        simp [Shared.free, othersLocks, hother] at hfree
      · intro hmem
        obtain ⟨row, hrow, rfl, hnone⟩ := hpending id hmem
        refine List.mem_map_of_mem (List.mem_filter.mpr ⟨hrow, ?_⟩)
        simp [Shared.free, othersLocks, hmem, hnone]
  have htake : selected.take limit = selected := by
    refine List.take_of_length_le ?_
    rw [← List.length_map OutboxRow.id, hids]
    exact hlimit
  rw [Outbox.claimPending, List.map_map, htake]
  exact hids

/-- A batch is what `claimPendingOutbox` selects when it commits, if others hold the other rows. -/
theorem run_claimsAlone (run : Run env h s) {index : Nat} {session : Outbox.Session}
    {messages : List Outbox.PendingOutboxMessage} (hpublisher : s.publishers[index]? = some session)
    (hpc : session.pc = .claimCommit messages) :
    (Outbox.claimPending { s.toShared with locks := othersLocks (messages.map (·.id)) }
      session.limit).map (·.id) = messages.map (·.id) := by
  have hselected : session.pc.selected? = some messages := by rw [hpc]; rfl
  obtain ⟨hnodup, hunpublished⟩ := run_reserved run index session messages hpublisher hselected
  obtain ⟨earlier, hclaimed⟩ := run_claimed run index session messages hpublisher hselected
  obtain ⟨hsorted, hlimit⟩ := claimPending_ids earlier session.limit
  rw [← hclaimed] at hsorted hlimit
  refine claimPending_alone (run_outboxKeyed run).nodup hnodup hsorted ?_ ?_
  · rwa [List.length_map]
  · intro id hid
    obtain ⟨pending, hmem, rfl⟩ := List.mem_map.mp hid
    obtain ⟨row, hrow, rfl⟩ := run_batched run index session hpublisher pending
      (by rw [hpc]; exact hmem)
    exact ⟨row, hrow, rfl, hunpublished _ hmem row hrow rfl⟩

end

/-! ## Serial runs -/

/-- A committed request with its response. -/
structure Exchange where
  principal : ControlPlane.Principal
  request : ControlPlane.Request
  response : ControlPlane.Response

def exchange? (s : State) : Action → Option Exchange
  | .call index _ =>
      match s.calls[index]? with
      | some ⟨principal, request, _, .commit writes stored⟩ =>
          some ⟨principal, request, ControlPlane.response writes stored⟩
      | _ => none
  | _ => none

/-- A commit of one statement. -/
def Commit.isStatement : Commit → Bool
  | .createWorkflow _ _ | .request _ | .claim _ _ _ _ | .outboxAttempts _ => false
  | _ => true

/-- The tables, reached by calls of the store and transactions that run one after the other. -/
inductive SerialRun (env : Env) (start : Db) : List Exchange → Db → Prop
  | start : SerialRun env start [] start
  | skip {log db db'} (prior : SerialRun env start log db) (hsame : db.SameTables db') :
      SerialRun env start log db'
  | createWorkflow {log s s' workflow id now stored} {principal : ControlPlane.Principal}
      (prior : SerialRun env start log (Shared.db s))
      (hanswer : PostgresDurableStore.answer env principal.tenantId s
        ⟨principal.role, principal.subject, .createWorkflow workflow, id, now⟩ =
          (.ok (.workflow stored), s')) : SerialRun env start log s'.db
  | request {log s s' session id now response} (prior : SerialRun env start log (Shared.db s))
      (hanswer : PostgresDurableStore.answer env session.principal.tenantId s
        (ControlPlane.Session.storeRequest session id now) =
          (ControlPlane.Response.answer response, s')) :
      SerialRun env start (log ++ [⟨session.principal, session.request, response⟩]) s'.db
  | claim {log db row owner now events} (prior : SerialRun env start log db)
      (hrow : db.run? row.id = some row) (hclaimable : Worker.isClaimable now row = true)
      (hevents : Worker.ClaimEvents events row.id) :
      SerialRun env start log (db.commit (.claim row.id owner now events))
  | claimPendingOutbox {log s} (limit : Nat) (prior : SerialRun env start log (Shared.db s)) :
      SerialRun env start log
        (s.db.commit (.outboxAttempts ((Outbox.claimPending s limit).map (·.id))))
  | statement {log db change} (prior : SerialRun env start log db)
      (hstatement : change.isStatement = true) : SerialRun env start log (db.commit change)

/-- The header of an arriving request can be stored. -/
def Storable : Action → Prop
  | .request _ request => request.Storable
  | _ => True

section

variable {env : Env} {s s' : State} {a : Action} {h : History State Action} {start : Db}
  {log : List Exchange}

theorem exchange?_eq_none (env : Env)
    (hcommit : ∀ writes, commitOf env s a ≠ some (.request writes)) :
    exchange? s a = none := by
  unfold exchange?
  split
  · split
    · rename_i index choice principal request handle writes stored hcall
      refine absurd ?_ (hcommit writes)
      simp [commitOf, hcall, ControlPlane.step, ControlPlane.stepPc, Effect.commit?]
    · rfl
  · rfl

theorem sameTables_draw (db : Db) (events outbox audits : Nat) :
    db.SameTables (db.draw events outbox audits) := rfl

theorem sameTables_commit_draw (db : Db) (change : Commit) (events outbox audits : Nat) :
    (db.commit change).SameTables ((db.draw events outbox audits).commit change) := by
  cases change with
  | request writes =>
      obtain ⟨write, event, queued, audit⟩ := writes
      cases write <;> rfl
  | _ => rfl

/-- What one step adds to a serial run. -/
theorem SerialRun.next (run : Run env h s) (hended : Within (fun _ => EndedKept env) h)
    (hstorable : ∀ (index : Nat) (session : ControlPlane.Session),
      s.calls[index]? = some session → session.request.Storable) (hnew : Storable a)
    (serial : SerialRun env start log s.db) (hnext : next env s a = some s') :
    SerialRun env start (log ++ (exchange? s a).toList) s'.db := by
  have sound := run_sound run
  obtain ⟨events, outbox, audits, hdb⟩ := next_db hnext
  cases hcommit : commitOf env s a with
  | none =>
      rw [hcommit] at hdb
      rw [exchange?_eq_none env (by simp [hcommit]), hdb, Option.toList_none, List.append_nil]
      exact serial.skip (sameTables_draw _ _ _ _)
  | some change =>
      rw [hcommit] at hdb
      have settle : SerialRun env start (log ++ (exchange? s a).toList) (s.db.commit change) →
          SerialRun env start (log ++ (exchange? s a).toList) s'.db := by
        intro hserial
        rw [hdb]
        exact hserial.skip (sameTables_commit_draw _ _ _ _ _)
      cases commitOf_commits hcommit with
      | @request index choice session writes stored hcall hpc =>
          have hexchange : exchange? s (.call index choice) = some
              ⟨session.principal, session.request, ControlPlane.response writes stored⟩ := by
            obtain ⟨principal, request, handle, pc⟩ := session
            cases hpc
            simp only [exchange?, hcall]
          obtain ⟨id, now, event, outbox, audit, alone, hanswer, hsame⟩ :=
            request_alone run hended hcall hpc (hstorable index session hcall)
          rw [hexchange] at settle ⊢
          have hview : SerialRun env start log (s.db.numbered event outbox audit) :=
            serial.skip rfl
          exact settle ((hview.request hanswer).skip hsame)
      | createWorkflow hschema hinsertable hheld =>
          rw [exchange?_eq_none env (by simp [hcommit])] at settle ⊢
          have halone := serial.createWorkflow
            (createWorkflow_alone hschema hheld hinsertable)
          rw [Option.toList_none, List.append_nil] at settle ⊢
          exact settle (halone.skip (sameTables_commit_draw _ _ _ _ _).symm)
      | @outboxAttempts index reply session messages hpublisher hpc =>
          rw [exchange?_eq_none env (by simp [hcommit]), Option.toList_none, List.append_nil]
            at settle ⊢
          rw [← run_claimsAlone run hpublisher hpc] at settle
          have halone : SerialRun env start log (Shared.db
              { s.toShared with locks := othersLocks (messages.map (·.id)) }) := serial
          exact settle (halone.claimPendingOutbox session.limit)
      | @claim index reply session now row events leased hworker hpc =>
          rw [exchange?_eq_none env (by simp [hcommit]), Option.toList_none, List.append_nil]
            at settle ⊢
          have hshape := sound.shaped.workers index session hworker
          rw [hpc] at hshape
          have hrow := sound.snapshots.workers index session row hworker (by rw [hpc]; rfl)
          exact settle (serial.claim hrow hshape.2.2 hshape.2.1)
      | _ =>
          rw [exchange?_eq_none env (by simp [hcommit]), Option.toList_none, List.append_nil]
            at settle ⊢
          exact settle (serial.statement rfl)

end

/-! ## Two requests and a worker -/

def storable : Action → Bool
  | .request _ (.createRun create) => PostgresDurableStore.isText create.idempotencyKey
  | _ => true

end DurableRuntime
