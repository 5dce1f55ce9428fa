import DurableRuntime.LeaseColumns
import DurableRuntime.Scenario
import DurableRuntime.Faultless
import DurableRuntime.Waiting

/-!
# No dead ends

A run that is queued or running comes to its end, to an approval, or to a step
that fails as soon as the deployment runs undisturbed, from whatever crashes,
errors and overlaps came before.  All it needs is that something is left that
leads a worker to it: the outbox row of its last creation or approval, a message
that is not acknowledged, or a worker that has not lost it.
-/

namespace DurableRuntime

open DurableRuntime.Foundation

/-- The run that a session is about to claim. -/
def Worker.Pc.arrives? : Worker.Pc → Option Uuid
  | received runId => Uuid.ofText? runId
  | claimBegin ref => some ref.id
  | _ => none

/-- The rows that a publisher has locked to mark them; several such updates can deadlock. -/
def Outbox.Pc.marked : Outbox.Pc → List Nat
  | marking _ delivered left => delivered.filter fun id => id ∉ left
  | _ => []

/-- What leads a worker to the run. -/
inductive Driven (id : Uuid) (s : State) : Prop
  | unpublished {row} (hrow : row ∈ s.db.outbox) (hrun : row.runId = id)
      (hpublished : row.publishedAt = none)
      (hunmarked : ∀ session ∈ s.publishers, row.id ∉ session.pc.marked)
  | unacknowledged {message} (hmessage : message ∈ s.stream) (hnames : message.Names id)
      (hacked : message.acked = false)
  | arriving {index : Nat} {session : Worker.Session} (hworker : s.workers[index]? = some session)
      (harrives : session.pc.arrives? = some id)
  | claiming {index : Nat} {session : Worker.Session} {row}
      (hworker : s.workers[index]? = some session) (hlocked : session.pc.lockedRow? = some row)
      (hid : row.id = id)
  | working {index : Nat} {session : Worker.Session} (hworker : s.workers[index]? = some session)
      (hworks : session.Works id)

namespace ControlPlane

/-- The moves that a transaction with a locked or inserted run has left. -/
def Pc.movesToCommit : Pc → Nat
  | transitionUpdate _ _ _ => 6
  | insertEvent _ _ _ _ => 5
  | queueOutbox _ _ _ => 4
  | audit _ _ _ => 3
  | readEvents _ => 2
  | commit _ _ => 1
  | _ => 0

theorem Session.outbox_of_held {session : Session} {id : Nat}
    (h : Resource.outbox id ∈ session.held) :
    ∃ writes row, session.pc.writes? = some writes ∧ writes.outbox = some row ∧ row.id = id := by
  have hheld : Resource.outbox id ∈ session.pc.held session.principal.tenantId := by
    rcases List.mem_append.mp h with hheld | hissued
    · exact hheld
    · split at hissued <;> simp at hissued
  cases hwrites : session.pc.writes? with
  | some writes =>
      rw [held_writes hwrites] at hheld
      cases hrun : writes.run <;>
        cases houtbox : writes.outbox <;>
          simp_all [Writes.occupied]
  | none =>
      exfalso
      unfold Pc.held at hheld
      rcases List.mem_append.mp hheld with hlimits | hrest
      · split at hlimits <;> simp at hlimits
      · split at hrest
        · simp at hrest
        · rw [hwrites] at hrest
          cases hrest

theorem movesToCommit_pos {session : Session} {id : Uuid} (h : Resource.run id ∈ session.held) :
    0 < session.pc.movesToCommit := by
  have hheld : Resource.run id ∈ session.pc.held session.principal.tenantId := by
    rcases List.mem_append.mp h with hheld | hissued
    · exact hheld
    · split at hissued <;> simp at hissued
  cases hpc : session.pc with
  | transitionUpdate | insertEvent | queueOutbox | audit | readEvents | commit =>
      simp [Pc.movesToCommit]
  | replayEvents row locked =>
      cases locked <;> simp [hpc, Pc.held, Pc.limitsLocked, Pc.writes?] at hheld
  | replayCommit run locked =>
      cases locked <;> simp [hpc, Pc.held, Pc.limitsLocked, Pc.writes?] at hheld
  | _ => simp [hpc, Pc.held, Pc.limitsLocked, Pc.writes?] at hheld

/-- Such a transaction waits for nothing, and ends. -/
theorem committing_moves (env : Env) (s : Shared) (choice : Uuid) {session : Session}
    (h : 0 < session.pc.movesToCommit) :
    ∃ pc effect, step env s choice session = some ({ session with pc }, effect) ∧
      pc.movesToCommit < session.pc.movesToCommit ∧
      (∀ stream clock message, streamAfter stream clock message effect = stream) ∧
      ∀ row ∈ s.db.outbox, row ∈ (s.apply effect).db.outbox := by
  have hstep : step env s choice session =
      (stepPc env s choice session session.pc).map fun p => ({ session with pc := p.1 }, p.2) := by
    unfold step
    split
    · rename_i hpc _
      rw [hpc] at h
      cases h
    · cases stepPc env s choice session session.pc <;> rfl
  rw [hstep]
  cases hpc : session.pc with
  | transitionUpdate args now row =>
      exact ⟨_, _, rfl, by simp [Pc.movesToCommit], fun _ _ _ => rfl, fun _ hrow => hrow⟩
  | insertEvent now eventType detail writes =>
      simp only [stepPc]
      split <;>
        exact ⟨_, _, rfl, by simp [Pc.movesToCommit], fun _ _ _ => rfl, fun _ hrow => hrow⟩
  | queueOutbox now eventType writes =>
      simp only [stepPc]
      split <;>
        exact ⟨_, _, rfl, by simp [Pc.movesToCommit], fun _ _ _ => rfl, fun _ hrow => hrow⟩
  | audit now eventType writes =>
      exact ⟨_, _, rfl, by simp [Pc.movesToCommit], fun _ _ _ => rfl, fun _ hrow => hrow⟩
  | readEvents writes =>
      exact ⟨_, _, rfl, by simp [Pc.movesToCommit], fun _ _ _ => rfl, fun _ hrow => hrow⟩
  | commit writes run =>
      refine ⟨_, _, rfl, by simp [Pc.movesToCommit], fun _ _ _ => rfl, fun row hrow => ?_⟩
      rw [Shared.apply, outbox_request]
      exact List.mem_append_left _ hrow
  | _ =>
      rw [hpc] at h
      cases h

end ControlPlane

section

variable {env : Env} {op : Operation} {id : Uuid} {s s' : State} {Q : State → Prop}

/-! ## The lock of the run -/

theorem Driven.kept (driven : Driven id s) (hstream : s'.stream = s.stream)
    (hworkers : s'.workers = s.workers) (hpublishers : s'.publishers = s.publishers)
    (houtbox : ∀ row ∈ s.db.outbox, row ∈ s'.db.outbox) : Driven id s' := by
  cases driven with
  | unpublished hrow hrun hpublished hunmarked =>
      exact .unpublished (houtbox _ hrow) hrun hpublished (hpublishers ▸ hunmarked)
  | unacknowledged hmessage hnames hacked =>
      exact .unacknowledged (hstream ▸ hmessage) hnames hacked
  | arriving hworker harrives => exact .arriving (hworkers ▸ hworker) harrives
  | claiming hworker hlocked hid => exact .claiming (hworkers ▸ hworker) hlocked hid
  | working hworker hworks => exact .working (hworkers ▸ hworker) hworks

/-- A request that has the run locked commits or gives up, and loses nothing on the way. -/
theorem call_unlocks (stored : Stored env id s) (driven : Driven id s) {index : Nat}
    (hlock : s.locks (.run id) = some (.call index)) :
    Leads (next env) (Faultless op)
      (fun t => Stored env id t ∧ Driven id t ∧ RunFree id t) s := by
  let left (t : State) : Nat := ((t.calls[index]?).map fun call => call.pc.movesToCommit).getD 0
  refine Leads.of_decreasing (P := fun t => Stored env id t ∧ Driven id t ∧
    (RunFree id t ∨ t.locks (.run id) = some (.call index))) left ?_
    ⟨stored, driven, .inr hlock⟩
  rintro t ⟨stored, driven, free | hlock⟩
  · exact .here (.inl ⟨stored, driven, free⟩)
  · obtain ⟨h, past⟩ := stored.reachable
    have hheld := run_locksOwned past _ _ hlock
    cases hcall : t.calls[index]? with
    | none => simp [State.held, hcall] at hheld
    | some session =>
        simp only [State.held, hcall, Option.map_some, Option.getD_some] at hheld
        obtain ⟨pc, effect, hstep, hless, hstream, houtbox⟩ :=
          ControlPlane.committing_moves env t.toShared 0 (ControlPlane.movesToCommit_pos hheld)
        have hnext : next env t (.call index 0) =
            some (t.moveCall index { session with pc } effect) := by
          simp only [next, hcall, hstep]
        refine .step (.call index 0) hnext (.here (.inr ⟨⟨stored.next hnext, ?_, ?_⟩, ?_⟩))
        · exact driven.kept (hstream _ _ _) rfl rfl houtbox
        · by_cases hmem : Resource.run id ∈ ({ session with pc } : ControlPlane.Session).held
          · exact .inr (regrant_mem hmem)
          · exact .inl (regrant_free hmem (.inr hlock))
        · have hself : (t.moveCall index { session with pc } effect).calls[index]? =
              some { session with pc } :=
            List.getElem?_set_self (List.getElem?_eq_some_iff.mp hcall).1
          simpa only [left, hself, hcall, Option.map_some, Option.getD_some] using hless

theorem Worker.locked_of_held {pc : Worker.Pc} (h : Resource.run id ∈ pc.held) :
    ∃ row, pc.lockedRow? = some row ∧ row.id = id := by
  unfold Worker.Pc.held at h
  split at h
  · rename_i row hrow
    simp only [List.mem_singleton, Resource.run.injEq] at h
    exact ⟨row, hrow, h.symm⟩
  · cases h

/-- Whoever has the run locked lets go of it, or goes on to work on it. -/
theorem Driven.unlocks (stored : Stored env id s) (driven : Driven id s) :
    Leads (next env) (Faultless op)
      (fun t => Settled id t ∨ (Stored env id t ∧ Driven id t ∧ RunFree id t)) s := by
  obtain ⟨h, past⟩ := stored.reachable
  cases hlock : s.locks (.run id) with
  | none => exact .here (.inr ⟨stored, driven, hlock⟩)
  | some me =>
      have hheld := run_locksOwned past _ _ hlock
      cases me with
      | call index => exact (call_unlocks stored driven hlock).mono fun t ht => .inr ht
      | worker index =>
          cases hworker : s.workers[index]? with
          | none => simp [State.held, hworker] at hheld
          | some session =>
              simp only [State.held, hworker, Option.map_some, Option.getD_some] at hheld
              obtain ⟨row, hlocked, hid⟩ := Worker.locked_of_held hheld
              exact (locked_leads stored hworker hlocked hid).trans fun t working =>
                working.settles.mono fun u hu => .inl hu
      | publisher index =>
          cases hpublisher : s.publishers[index]? with
          | none => simp [State.held, hpublisher] at hheld
          | some session =>
              simp only [State.held, hpublisher, Option.map_some, Option.getD_some] at hheld
              unfold Outbox.Pc.held at hheld
              split at hheld <;> simp at hheld
      | lease index => cases hheld

/-! ## A worker that claims the run -/

theorem Stored.tick (stored : Stored env id s) (elapsed : Nat) :
    Stored env id { s with clock := s.clock + elapsed } :=
  stored.next (a := .tick elapsed) rfl

/-- At some time the row of a pending run is there to be claimed. -/
theorem claimable_later (stored : Stored env id s) (free : RunFree id s) {row : RunRow}
    (hrow : s.db.run? id = some row) (hpending : row.state.isPending = true) :
    ∃ instant definition, ∀ now, instant < now →
      Worker.claimable s.toShared id now = some (row, definition) := by
  obtain ⟨h, past⟩ := stored.reachable
  obtain ⟨definition, hdefinition, -⟩ := (run_referenced past).rows id row hrow
  have hfree : s.free (.run id) = true := by
    rw [Shared.free, free]
    rfl
  have hclaimable : ∃ instant, ∀ now, instant < now → Worker.isClaimable now row = true := by
    cases hstate : row.state with
    | queued => exact ⟨0, fun now _ => by simp [Worker.isClaimable, hstate]⟩
    | leased | running =>
        obtain ⟨expiry, hexpiry⟩ := Option.isSome_iff_exists.mp
          (run_leaseSet past hrow (by rw [hstate]; rfl)).2
        exact ⟨expiry, fun now hnow => by simpa [Worker.isClaimable, hstate, hexpiry] using hnow⟩
    | _ =>
        rw [hstate] at hpending
        cases hpending
  obtain ⟨instant, hclaimable⟩ := hclaimable
  exact ⟨instant, definition, fun now hnow => by
    simp [Worker.claimable, hrow, hdefinition, hclaimable now hnow, hfree]⟩

theorem claimBegin_leads (stored : Stored env id s) (free : RunFree id s) {index : Nat}
    {session : Worker.Session} {ref : Worker.RunRef} (hworker : s.workers[index]? = some session)
    (hpc : session.pc = .claimBegin ref) (hid : ref.id = id) :
    Leads (next env) (Faultless op) (Settled id) s := by
  rcases stored.settled_or with hsettled | ⟨row, hrow, hpending, -⟩
  · exact .here hsettled
  · obtain ⟨instant, definition, hclaimable⟩ := claimable_later stored free hrow hpending
    -- The clock runs until the lease of the worker before has expired.
    let elapsed := (instant + 1 - s.clock).toNat
    have hlate : instant < s.clock + elapsed := by
      have := Int.self_le_toNat (instant + 1 - s.clock)
      omega
    refine .step (.tick elapsed) rfl ?_
    refine worker_leads (stored.tick elapsed) hworker (by rw [hpc]; rfl) fun stored' => ?_
    have hworker' := moveWorker_worker (s := { s with clock := s.clock + elapsed }) hworker
      (.claimSelect ref (s.clock + elapsed)) .none
    have hselect : Worker.claimable
        (State.moveWorker { s with clock := s.clock + elapsed } index session
          (.claimSelect ref (s.clock + elapsed)) .none).toShared ref.id (s.clock + elapsed) =
        some (row, definition) := by
      rw [← hclaimable _ hlate, hid]
      have hfree : s.locks (.run id) = none := free
      have hlock : regrant (Holder.worker index) [] s.locks (.run id) = none :=
        regrant_free List.not_mem_nil (.inl free)
      simp only [Worker.claimable, Shared.free, State.moveWorker, State.withShared, Shared.apply,
        Worker.Pc.held, Worker.Pc.lockedRow?, hlock, hfree]
    refine @worker_leads env op id _ _ stored' index _
      (.claimUpdate ref (s.clock + elapsed) row definition) .none hworker' ?_ fun stored'' => ?_
    · simp only [Worker.step, hselect]
    · refine (locked_leads stored'' (moveWorker_worker hworker' _ _) rfl ?_).trans
        fun t working => working.settles
      exact Table.lookup_key hrow

/-- A worker that has just received the run's message claims the run. -/
theorem arriving_leads (stored : Stored env id s) (free : RunFree id s) {index : Nat}
    {session : Worker.Session} (hworker : s.workers[index]? = some session)
    (harrives : session.pc.arrives? = some id) :
    Leads (next env) (Faultless op) (Settled id) s := by
  cases hpc : session.pc with
  | claimBegin ref =>
      rw [hpc] at harrives
      exact claimBegin_leads stored free hworker hpc (Option.some.inj harrives)
  | received runId =>
      rw [hpc] at harrives
      have harrives : Uuid.ofText? runId = some id := harrives
      obtain ⟨h, past⟩ := stored.reachable
      have named := run_named past
      obtain ⟨message, hmessage, handles⟩ := named.workers index session hworker
      obtain ⟨row, hrow, -, hpayload⟩ := named.stream message (List.mem_of_getElem? hmessage)
      have htext : runId = row.runId.text := by
        rw [handles.received runId hpc, ← hpayload, named.outbox row hrow]
      have hid : isUUID runId = true := by
        rw [htext]
        exact isUUID_text row.runId
      refine @worker_leads env op id s _ stored index session (.claimBegin ⟨runId, id⟩) .none
        hworker ?_ fun stored' => ?_
      · rw [hpc]
        simp [Worker.step, Worker.process, hid, harrives]
      · exact claimBegin_leads stored' (regrant_free List.not_mem_nil (.inl free))
          (moveWorker_worker hworker _ _) rfl rfl
  | _ =>
      rw [hpc] at harrives
      cases harrives

/-- A message that is not acknowledged is delivered again. -/
theorem unacknowledged_leads (stored : Stored env id s) (free : RunFree id s) {message : Message}
    (hmessage : message ∈ s.stream) (hnames : message.Names id) (hacked : message.acked = false) :
    Leads (next env) (Faultless op) (Settled id) s := by
  obtain ⟨index, hindex⟩ := List.mem_iff_getElem?.mp hmessage
  let elapsed := (message.availableAt - s.clock).toNat
  have hready : message.availableAt ≤ s.clock + elapsed := by
    have := Int.self_le_toNat (message.availableAt - s.clock)
    omega
  refine .step (.tick elapsed) rfl ?_
  have hnext : next env { s with clock := s.clock + elapsed } (.deliver index op.workerId) = some
      { s with
        clock := s.clock + elapsed
        stream := s.stream.modify index (redeliverAt (s.clock + elapsed + ackWait))
        workers := s.workers ++ [⟨op.workerId, index, .received message.payload.runId⟩] } := by
    simp [next, hindex, hacked, hready]
  refine .step (.deliver index) hnext ?_
  have stored' := (stored.tick elapsed).next hnext
  refine @arriving_leads env op id _ stored' free s.workers.length _ List.getElem?_concat_length ?_
  exact hnames

/-! ## A publisher that reaches the outbox row of the run -/

def unpublished (db : Db) : Nat := db.outbox.countP fun row => row.publishedAt.isNone

/-- The outbox still has the row, and it names the run. -/
def Waits (id : Uuid) (outboxId : Nat) (db : Db) : Prop :=
  ∃ row ∈ db.outbox, row.id = outboxId ∧ row.runId = id ∧ row.publishedAt = none

theorem unpublished_attempts (db : Db) (ids : List Nat) :
    unpublished (db.commit (.outboxAttempts ids)) = unpublished db := by
  simp only [unpublished, Db.commit, Db.updateOutbox, List.countP_map]
  congr 1
  funext row
  simp only [Function.comp_apply]
  split <;> rfl

theorem unpublished_published {db : Db} {ids : List Nat} {now : Int} {row : OutboxRow}
    (hrow : row ∈ db.outbox) (hid : row.id ∈ ids) (hpublished : row.publishedAt = none) :
    unpublished (db.commit (.outboxPublished ids now)) < unpublished db := by
  have hle : ∀ l : List OutboxRow,
      l.countP ((fun row => row.publishedAt.isNone) ∘
        fun row => if row.id ∈ ids then row.publish now else row) ≤
      l.countP fun row => row.publishedAt.isNone := by
    intro l
    refine List.countP_mono_left fun other _ hother => ?_
    simp only [Function.comp_apply] at hother
    split at hother
    · cases hother
    · exact hother
  obtain ⟨before, rest, hsplit⟩ := List.append_of_mem hrow
  simp only [unpublished, Db.commit, Db.updateOutbox, hsplit, List.countP_map,
    List.countP_append, List.countP_cons, Function.comp_apply, hid, if_true, hpublished,
    Option.isNone_none, OutboxRow.publish, Option.isNone_some]
  have hbefore := hle before
  have hrest := hle rest
  simp only [OutboxRow.publish] at hbefore hrest
  simp
  omega

theorem Waits.attempts {outboxId : Nat} {db : Db} (h : Waits id outboxId db) (ids : List Nat) :
    Waits id outboxId (db.commit (.outboxAttempts ids)) := by
  obtain ⟨row, hrow, hid, hrun, hpublished⟩ := h
  refine ⟨_, List.mem_map_of_mem hrow, ?_⟩
  split <;> exact ⟨hid, hrun, hpublished⟩

theorem Waits.published {outboxId : Nat} {db : Db} (h : Waits id outboxId db) {ids : List Nat}
    (hnot : outboxId ∉ ids) (now : Int) :
    Waits id outboxId (db.commit (.outboxPublished ids now)) := by
  obtain ⟨row, hrow, hid, hrun, hpublished⟩ := h
  refine ⟨_, List.mem_map_of_mem hrow, ?_⟩
  rw [if_neg (by rwa [hid])]
  exact ⟨hid, hrun, hpublished⟩

theorem publisher_leads (stored : Stored env id s) {index : Nat} {session : Outbox.Session}
    {pc : Outbox.Pc} {effect : Effect} (reply : Outbox.Reply)
    (hreply : reply.isFaultless = true) (hpublisher : s.publishers[index]? = some session)
    (hstep : Outbox.step s.toShared session.limit reply session.pc = some (pc, effect))
    (hrest : Stored env id (s.movePublisher index session pc effect) →
      Leads (next env) (Faultless op) Q (s.movePublisher index session pc effect)) :
    Leads (next env) (Faultless op) Q s := by
  have hnext : next env s (.publisher index reply) =
      some (s.movePublisher index session pc effect) := by
    simp [next, hpublisher, hstep]
  exact .step (.publisher index hreply) hnext (hrest (stored.next hnext))

theorem movePublisher_publisher {index : Nat} {session : Outbox.Session}
    (hpublisher : s.publishers[index]? = some session) (pc : Outbox.Pc) (effect : Effect) :
    (s.movePublisher index session pc effect).publishers[index]? = some { session with pc } :=
  List.getElem?_set_self (List.getElem?_eq_some_iff.mp hpublisher).1

/-- The row waits for a publisher, and nobody has the run or the row locked. -/
structure Queued (env : Env) (id : Uuid) (outboxId : Nat) (s : State) : Prop where
  stored : Stored env id s
  free : RunFree id s
  waits : Waits id outboxId s.db
  unlocked : s.locks (.outbox outboxId) = none

/-- Whatever a publisher locks or lets go, the run stays free. -/
theorem movePublisher_free (free : RunFree id s) {index : Nat} {session : Outbox.Session}
    (pc : Outbox.Pc) (effect : Effect) :
    RunFree id (s.movePublisher index session pc effect) := by
  refine regrant_free ?_ (.inl free)
  unfold Outbox.Pc.held
  split <;> simp

/-- A publisher that nobody else keeps from its rows marks them, one after the other. -/
theorem marking_leads {outboxId : Nat} {index : Nat} {delivered : List Nat} {now : Int}
    (hnot : outboxId ∉ delivered) (hsome : ∃ x ∈ delivered, True) (left : List Nat) :
    ∀ (t : State) (session : Outbox.Session), Queued env id outboxId t →
      t.publishers[index]? = some session → session.pc = .marking now delivered left →
      (∀ x ∈ left, t.locks (.outbox x) = none) →
      (∀ x ∈ delivered, ∃ row ∈ t.db.outbox, row.id = x ∧ row.publishedAt = none) →
      Leads (next env) (Faultless op) (fun u => Settled id u ∨
        (Queued env id outboxId u ∧ unpublished u.db < unpublished t.db)) t := by
  induction hlength : left.length using Nat.strong_induction_on generalizing left with
  | _ length ih =>
      intro t session queued hpublisher hpc hlocks hrows
      have unheld : ∀ {left' : List Nat},
          Resource.outbox outboxId ∉ (Outbox.Pc.marking now delivered left').held := by
        intro left' hmem
        simp only [Outbox.Pc.held, List.mem_map, List.mem_filter, Resource.outbox.injEq] at hmem
        obtain ⟨x, ⟨hx, -⟩, rfl⟩ := hmem
        exact hnot hx
      cases left with
      | nil =>
          obtain ⟨x, hx, -⟩ := hsome
          obtain ⟨row, hrow, hid, hpublished⟩ := hrows x hx
          refine publisher_leads queued.stored .none rfl hpublisher
            (by rw [hpc]; rfl) fun stored' => .here (.inr ⟨⟨stored', ?_, ?_, ?_⟩, ?_⟩)
          · exact movePublisher_free queued.free _ _
          · exact queued.waits.published hnot now
          · exact regrant_free List.not_mem_nil (.inl queued.unlocked)
          · exact unpublished_published hrow (hid ▸ hx) hpublished
      | cons first rest =>
          have hfree : t.toShared.free (.outbox first) = true :=
            Option.isNone_iff_eq_none.mpr (hlocks first List.mem_cons_self)
          have hstep : Outbox.step t.toShared session.limit (.row 0) session.pc = some
              (.marking now delivered ((first :: rest).filter fun other => other ≠ first),
                .none) := by
            rw [hpc]
            simp [Outbox.step, hfree]
          have hless : ((first :: rest).filter fun other => other ≠ first).length < length := by
            rw [← hlength, List.filter_cons_of_neg (by simp), List.length_cons]
            exact Nat.lt_succ_of_le (List.length_filter_le _ _)
          refine publisher_leads queued.stored (.row 0) rfl hpublisher hstep fun stored' => ?_
          refine ih _ hless _ rfl _ _ ⟨stored', ?_, queued.waits, ?_⟩
            (movePublisher_publisher hpublisher _ _) rfl ?_ hrows
          · exact movePublisher_free queued.free _ _
          · exact regrant_free unheld (.inl queued.unlocked)
          · intro x hx
            refine regrant_free ?_ (.inl (hlocks x (List.mem_filter.mp hx).1))
            simp only [Outbox.Pc.held, List.mem_map, List.mem_filter, Resource.outbox.injEq]
            rintro ⟨y, ⟨-, hy⟩, rfl⟩
            simp_all

/-- The rest of a batch: each message is stored, and then the rows are marked. -/
theorem publishing_leads {outboxId : Nat} {index : Nat} {ids : List Nat} (hids : ids ≠ [])
    (messages : List Outbox.PendingOutboxMessage) :
    ∀ (delivered : List Nat) (t : State) (session : Outbox.Session), Queued env id outboxId t →
      t.publishers[index]? = some session → session.pc = .publish messages delivered →
      ids = delivered ++ messages.map (·.id) → outboxId ∉ delivered →
      (∀ x ∈ ids, t.locks (.outbox x) = none) →
      (∀ x ∈ ids, ∃ row ∈ t.db.outbox, row.id = x ∧ row.publishedAt = none) →
      Leads (next env) (Faultless op) (fun u => Settled id u ∨
        (Queued env id outboxId u ∧ unpublished u.db < unpublished t.db)) t := by
  induction messages with
  | nil =>
      intro delivered t session queued hpublisher hpc heq hnot hlocks hrows
      rw [List.map_nil, List.append_nil] at heq
      subst heq
      obtain ⟨first, rest, rfl⟩ := List.exists_cons_of_ne_nil hids
      refine publisher_leads queued.stored .none rfl hpublisher (by rw [hpc]; rfl)
        fun stored' => ?_
      have hpublisher' := movePublisher_publisher hpublisher (.mark (first :: rest)) .none
      refine publisher_leads stored' .none rfl hpublisher' rfl
        fun stored'' => ?_
      have hunlocked : ∀ x, t.locks (.outbox x) = none → Shared.locks (State.toShared
          ((t.movePublisher index session (.mark (first :: rest)) .none).movePublisher index
            { session with pc := .mark (first :: rest) }
            (.marking t.clock (first :: rest) (first :: rest)) .none)) (.outbox x) = none := by
        intro x hx
        refine regrant_free ?_ (.inl (regrant_free List.not_mem_nil (.inl hx)))
        simp only [Outbox.Pc.held, List.mem_map, List.mem_filter, decide_not,
          Bool.not_eq_true', decide_eq_false_iff_not]
        rintro ⟨y, ⟨hy, hnone⟩, -⟩
        exact hnone hy
      exact marking_leads hnot ⟨first, List.mem_cons_self, trivial⟩ _ _ _
        ⟨stored'', movePublisher_free (movePublisher_free queued.free _ _) _ _, queued.waits,
          hunlocked _ queued.unlocked⟩ (movePublisher_publisher hpublisher' _ _) rfl
        (fun x hx => hunlocked x (hlocks x hx)) hrows
  | cons pending messages ih =>
      intro delivered t session queued hpublisher hpc heq hnot hlocks hrows
      refine publisher_leads queued.stored .acked rfl hpublisher (by rw [hpc]; rfl)
        fun stored' => ?_
      have free' : RunFree id (t.movePublisher index session
          (.publish messages (delivered ++ [pending.id]))
          (.publish (Outbox.message t.toShared pending))) := movePublisher_free queued.free _ _
      by_cases hid : pending.id = outboxId
      · obtain ⟨h, past⟩ := queued.stored.reachable
        have named := run_named past
        obtain ⟨row, hrow, hrowId, hpayload⟩ := named.publishers index session hpublisher pending
          (by rw [hpc]; exact List.mem_cons_self)
        obtain ⟨row', hrow', hrowId', hrun, -⟩ := queued.waits
        have hsame : row = row' := List.inj_on_of_nodup_map (run_outboxKeyed past).nodup hrow hrow'
          (by rw [hrowId, hrowId', hid])
        subst hsame
        have hnames : (Outbox.message t.toShared pending).Names id := by
          simp only [Message.Names, Outbox.message]
          rw [← hpayload, named.outbox row hrow, ← hrun]
          exact ofText?_text row.runId
        refine (unacknowledged_leads stored' free' ?_ hnames rfl).mono fun u hu => .inl hu
        exact List.mem_append_right _ (List.mem_singleton_self _)
      · refine ih (delivered ++ [pending.id]) _ _ ⟨stored', free', queued.waits, ?_⟩
          (movePublisher_publisher hpublisher _ _) rfl ?_ ?_ ?_ hrows
        · exact regrant_free List.not_mem_nil (.inl queued.unlocked)
        · rw [heq, List.map_cons, List.append_assoc]
          rfl
        · rw [List.mem_append, List.mem_singleton, not_or]
          exact ⟨hnot, fun heq => hid heq.symm⟩
        · intro x hx
          exact regrant_free List.not_mem_nil (.inl (hlocks x hx))

theorem claimPending_mem {t : Shared} {limit : Nat} {pending : Outbox.PendingOutboxMessage}
    (h : pending ∈ Outbox.claimPending t limit) :
    t.locks (.outbox pending.id) = none ∧
      ∃ row ∈ t.db.outbox, row.id = pending.id ∧ row.publishedAt = none := by
  obtain ⟨row, hrow, rfl⟩ := List.mem_map.mp h
  obtain ⟨hmem, htest⟩ := List.mem_filter.mp
    ((List.mem_insertionSort _).mp (List.mem_of_mem_take hrow))
  rw [Bool.and_eq_true, Option.isNone_iff_eq_none, Shared.free,
    Option.isNone_iff_eq_none] at htest
  exact ⟨htest.2, row, hmem, rfl, htest.1⟩

theorem claimPending_ne_nil {t : Shared} {limit : Nat} (hlimit : 0 < limit) {row : OutboxRow}
    (hrow : row ∈ t.db.outbox) (hpublished : row.publishedAt = none)
    (hlock : t.locks (.outbox row.id) = none) : Outbox.claimPending t limit ≠ [] := by
  intro hnil
  have hmem : row ∈ (t.db.outbox.filter fun other => other.publishedAt.isNone &&
      t.free (.outbox other.id)).insertionSort fun a b => a.id ≤ b.id := by
    rw [List.mem_insertionSort, List.mem_filter]
    exact ⟨hrow, by simp [Shared.free, hpublished, hlock]⟩
  rw [Outbox.claimPending, List.map_eq_nil_iff, List.take_eq_nil_iff] at hnil
  rcases hnil with hzero | hnil
  · omega
  · rw [hnil] at hmem
    cases hmem

theorem regrant_mine {me : Holder} {held : List Resource} {locks : Resource → Option Holder}
    {x : Resource} (h : locks x = none ∨ locks x = some me) :
    regrant me held locks x = none ∨ regrant me held locks x = some me := by
  by_cases hheld : x ∈ held
  · exact .inr (regrant_mem hheld)
  · exact .inl (regrant_free hheld h)

/-- A publisher is about to claim these messages; nobody else has their rows locked. -/
structure Batch (env : Env) (id : Uuid) (outboxId index : Nat)
    (messages : List Outbox.PendingOutboxMessage) (s : State) : Prop where
  stored : Stored env id s
  free : RunFree id s
  waits : Waits id outboxId s.db
  mine : ∀ x, x = outboxId ∨ x ∈ messages.map (·.id) →
    s.locks (.outbox x) = none ∨ s.locks (.outbox x) = some (.publisher index)
  rows : ∀ x ∈ messages.map (·.id), ∃ row ∈ s.db.outbox, row.id = x ∧ row.publishedAt = none

theorem Batch.moved {outboxId index : Nat} {messages : List Outbox.PendingOutboxMessage}
    (batch : Batch env id outboxId index messages s) {session : Outbox.Session} {pc : Outbox.Pc}
    (stored' : Stored env id (s.movePublisher index session pc .none)) :
    Batch env id outboxId index messages (s.movePublisher index session pc .none) where
  stored := stored'
  free := movePublisher_free batch.free pc .none
  waits := batch.waits
  mine := fun x hx => regrant_mine (batch.mine x hx)
  rows := batch.rows

theorem Batch.commits {outboxId index : Nat} {messages : List Outbox.PendingOutboxMessage}
    (batch : Batch env id outboxId index messages s) (hmessages : messages ≠ [])
    {session : Outbox.Session} (hpublisher : s.publishers[index]? = some session)
    (hpc : session.pc = .claimCommit messages) :
    Leads (next env) (Faultless op) (fun u => Settled id u ∨
      (Queued env id outboxId u ∧ unpublished u.db < unpublished s.db)) s := by
  refine publisher_leads batch.stored .none rfl hpublisher (by rw [hpc]; rfl) fun stored' => ?_
  have hids : messages.map (·.id) ≠ [] := fun hnil => hmessages (List.map_eq_nil_iff.mp hnil)
  have queued : Queued env id outboxId (s.movePublisher index session (.publish messages [])
      (.commit (.outboxAttempts (messages.map (·.id))))) :=
    ⟨stored', movePublisher_free batch.free _ _, batch.waits.attempts _,
      regrant_free List.not_mem_nil (batch.mine _ (.inl rfl))⟩
  refine (publishing_leads hids messages [] _ _ queued (movePublisher_publisher hpublisher _ _)
    rfl rfl List.not_mem_nil ?_ ?_).mono ?_
  · intro x hx
    exact regrant_free List.not_mem_nil (batch.mine x (.inr hx))
  · intro x hx
    obtain ⟨row, hrow, hid, hpublished⟩ := batch.rows x hx
    refine ⟨_, List.mem_map_of_mem hrow, ?_⟩
    split <;> exact ⟨hid, hpublished⟩
  · rintro u (hsettled | ⟨hqueued, hless⟩)
    · exact .inl hsettled
    · exact .inr ⟨hqueued, Nat.lt_of_lt_of_eq hless (unpublished_attempts s.db _)⟩

theorem Queued.select {outboxId index : Nat} (queued : Queued env id outboxId s)
    {session : Outbox.Session} (hpublisher : s.publishers[index]? = some session)
    (hpc : session.pc = .claimSelect) (hlimit : 0 < session.limit) :
    Leads (next env) (Faultless op) (fun u => Settled id u ∨
      (Queued env id outboxId u ∧ unpublished u.db < unpublished s.db)) s := by
  obtain ⟨row, hrow, hid, -, hpublished⟩ := queued.waits
  have hmessages : Outbox.claimPending s.toShared session.limit ≠ [] :=
    claimPending_ne_nil hlimit hrow hpublished (hid ▸ queued.unlocked)
  have batch : Batch env id outboxId index (Outbox.claimPending s.toShared session.limit) s := by
    refine ⟨queued.stored, queued.free, queued.waits, ?_, ?_⟩
    · rintro x (rfl | hx)
      · exact .inl queued.unlocked
      · obtain ⟨pending, hpending, rfl⟩ := List.mem_map.mp hx
        exact .inl (claimPending_mem hpending).1
    · intro x hx
      obtain ⟨pending, hpending, rfl⟩ := List.mem_map.mp hx
      exact (claimPending_mem hpending).2
  refine publisher_leads queued.stored .none rfl hpublisher (by rw [hpc]; rfl) fun stored' => ?_
  have hpublisher' := movePublisher_publisher hpublisher
    (.claimUpdate (Outbox.claimPending s.toShared session.limit)) .none
  refine publisher_leads stored' .none rfl hpublisher' rfl fun stored'' => ?_
  exact ((batch.moved stored').moved stored'').commits hmessages
    (movePublisher_publisher hpublisher' _ _) rfl

theorem Queued.moved {outboxId index : Nat} (queued : Queued env id outboxId s)
    {session : Outbox.Session} {pc : Outbox.Pc} (hheld : pc.held = [])
    (stored' : Stored env id (s.movePublisher index session pc .none)) :
    Queued env id outboxId (s.movePublisher index session pc .none) where
  stored := stored'
  free := movePublisher_free queued.free pc .none
  waits := queued.waits
  unlocked := by
    refine regrant_free ?_ (.inl queued.unlocked)
    rw [hheld]
    exact List.not_mem_nil

/-- The next call of the publisher takes the row along, or leaves fewer rows in front of it. -/
theorem Queued.batch {outboxId : Nat} (queued : Queued env id outboxId s) :
    Leads (next env) (Faultless op) (fun u => Settled id u ∨
      (Queued env id outboxId u ∧ unpublished u.db < unpublished s.db)) s := by
  let joined : State := { s with publishers := s.publishers ++ [⟨op.limit, .claimBegin⟩] }
  have hnext : next env s (.publishPending op.limit) = some joined := rfl
  have hpublisher : joined.publishers[s.publishers.length]? = some ⟨op.limit, .claimBegin⟩ :=
    List.getElem?_concat_length
  have queued' : Queued env id outboxId joined :=
    ⟨queued.stored.next hnext, queued.free, queued.waits, queued.unlocked⟩
  refine .step .publishPending hnext ?_
  refine publisher_leads queued'.stored .none rfl hpublisher rfl fun stored' => ?_
  exact (queued'.moved rfl stored').select (movePublisher_publisher hpublisher _ _) rfl op.limit_pos

/-- A publisher that has the row in its claim commits the claim. -/
theorem outbox_unlocks (stored : Stored env id s) (free : RunFree id s) {outboxId : Nat}
    (hwaits : Waits id outboxId s.db)
    (hunmarked : ∀ session ∈ s.publishers, outboxId ∉ session.pc.marked) :
    Leads (next env) (Faultless op) (Queued env id outboxId) s := by
  obtain ⟨h, past⟩ := stored.reachable
  cases hlock : s.locks (.outbox outboxId) with
  | none => exact .here ⟨stored, free, hwaits, hlock⟩
  | some me =>
      have hheld := run_locksOwned past _ _ hlock
      have committed : ∀ {t : State} {index : Nat} {session : Outbox.Session} {messages},
          Stored env id t → RunFree id t → Waits id outboxId t.db →
          t.locks (.outbox outboxId) = some (.publisher index) →
          t.publishers[index]? = some session → session.pc = .claimCommit messages →
            Leads (next env) (Faultless op) (Queued env id outboxId) t := by
        intro t index session messages stored free hwaits hlock hpublisher hpc
        refine publisher_leads stored .none rfl hpublisher (by rw [hpc]; rfl) fun stored' => ?_
        exact .here ⟨stored', movePublisher_free free _ _, hwaits.attempts _,
          regrant_free List.not_mem_nil (.inr hlock)⟩
      cases me with
      | publisher index =>
          cases hpublisher : s.publishers[index]? with
          | none => simp [State.held, hpublisher] at hheld
          | some session =>
              simp only [State.held, hpublisher, Option.map_some, Option.getD_some] at hheld
              cases hpc : session.pc with
              | claimCommit messages => exact committed stored free hwaits hlock hpublisher hpc
              | claimUpdate messages =>
                  rw [hpc] at hheld
                  refine publisher_leads stored .none rfl hpublisher (by rw [hpc]; rfl)
                    fun stored' => ?_
                  exact committed stored' (movePublisher_free free _ _) hwaits
                    (regrant_mem hheld) (movePublisher_publisher hpublisher _ _) rfl
              | marking now delivered left =>
                  have hmarked := hunmarked session (List.mem_of_getElem? hpublisher)
                  rw [hpc] at hheld hmarked
                  obtain ⟨x, hx, hx'⟩ := List.mem_map.mp hheld
                  cases hx'
                  exact absurd hx hmarked
              | _ =>
                  rw [hpc] at hheld
                  cases hheld
      | call index =>
          cases hcall : s.calls[index]? with
          | none => simp [State.held, hcall] at hheld
          | some session =>
              simp only [State.held, hcall, Option.map_some, Option.getD_some] at hheld
              obtain ⟨row, hrow, hid, -⟩ := hwaits
              obtain ⟨writes, row', hwrites, hnew, hid'⟩ := session.outbox_of_held hheld
              have hfresh := (run_outboxKeyed past).calls index session writes row' hcall hwrites
                hnew
              rw [hid', ← hid] at hfresh
              exact absurd (List.mem_map_of_mem hrow) hfresh
      | worker index =>
          cases hworker : s.workers[index]? with
          | none => simp [State.held, hworker] at hheld
          | some session =>
              simp only [State.held, hworker, Option.map_some, Option.getD_some] at hheld
              unfold Worker.Pc.held at hheld
              split at hheld <;> simp at hheld
      | lease index => cases hheld

theorem Queued.settles {outboxId : Nat} (queued : Queued env id outboxId s) :
    Leads (next env) (Faultless op) (Settled id) s :=
  Leads.of_decreasing (fun t => unpublished t.db) (fun _ queued => queued.batch) queued

/-! ## Resumption -/

theorem Driven.settles (stored : Stored env id s) (driven : Driven id s) :
    Leads (next env) (Faultless op) (Settled id) s := by
  refine (driven.unlocks stored).trans ?_
  rintro t (hsettled | ⟨stored, driven, free⟩)
  · exact .here hsettled
  · cases driven with
    | unpublished hrow hrun hpublished hunmarked =>
        exact (outbox_unlocks stored free ⟨_, hrow, rfl, hrun, hpublished⟩ hunmarked).trans
          fun u queued => queued.settles
    | unacknowledged hmessage hnames hacked =>
        exact unacknowledged_leads stored free hmessage hnames hacked
    | arriving hworker harrives => exact arriving_leads stored free hworker harrives
    | claiming hworker hlocked hid =>
        exact (locked_leads stored hworker hlocked hid).trans fun u working => working.settles
    | working hworker hworks =>
        exact Working.settles ⟨stored, free, _, _, hworker, hworks⟩

/--
Whatever has happened to a run so far, while something is left that leads a
worker to it the deployment can go on, without failing again and without a new
request, until the run has ended, waits for an approval, or stands at a step
whose failure the database refuses to record.
-/
theorem resumable {h : History State Action} (run : Run env h s) (op : Operation) {row : RunRow}
    (hrow : s.db.run? id = some row) (hinput : (Worker.unmarshalInput row.input).isSome = true)
    (driven : Driven id s) :
    ∃ k t, Run env (h ++ k) t ∧ (∀ p ∈ k, Faultless op p.1 p.2) ∧ Settled id t := by
  have stored : Stored env id s := ⟨⟨h, run⟩, row, hrow, hinput⟩
  exact (driven.settles stored).exec run

end

/-- The worker crashes in the first step of the run. -/
def crashed : List Action :=
  Scenario.createActions [Scenario.dataRead] ++ Scenario.publishActions 0 ++
    Scenario.claimActions 0 0 ++ Scenario.workerActions 0 2 ++ [.crash 0]

/-- Fifty rows a call, and no external service answers. -/
def unanswered : Operation where
  answers := fun _ _ => ⟨0, .unreachable, .failed, .failed⟩
  limit := 50
  workerId := "worker"
  limit_pos := by decide

theorem crashed_resumable : ∃ h s, Run Scenario.env h s ∧
    ((s.db.run? Scenario.runId).any fun row => row.state = .running) = true ∧
      ∃ k t, Run Scenario.env (h ++ k) t ∧ (∀ p ∈ k, Faultless unanswered p.1 p.2) ∧
        Settled Scenario.runId t := by
  obtain ⟨h, s, run, htest⟩ := Scenario.exists_run 5 crashed
    (fun _ s => (s.db.run? Scenario.runId).any (fun row => row.state = .running &&
        (Worker.unmarshalInput row.input).isSome) &&
      s.stream.any fun message => !message.acked &&
        Uuid.ofText? message.payload.runId = some Scenario.runId)
    (by decide +kernel)
  rw [Bool.and_eq_true, Option.any_eq_true, List.any_eq_true] at htest
  obtain ⟨⟨row, hrow, hstate⟩, message, hmessage, hnames⟩ := htest
  rw [Bool.and_eq_true, decide_eq_true_eq] at hstate
  rw [Bool.and_eq_true, Bool.not_eq_true', decide_eq_true_eq] at hnames
  refine ⟨h, s, run, by simp [hrow, hstate.1], ?_⟩
  exact resumable run unanswered hrow hstate.2 (.unacknowledged hmessage hnames.2 hnames.1)

end DurableRuntime
