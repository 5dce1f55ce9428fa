import DurableRuntime.ControlPlane.Leases
import DurableRuntime.Scenario
import DurableRuntime.Identity

/-!
# Exclusive leases

The worker's `claim` and the store's `claimRunLease` ask the same of a row:
queued, or leased with an expiry that has passed by their `now()`.  A claim
leaves an expiry no earlier than its own `now()` and every extension moves it
past the current time.  So from a claim on, the next one needs the run queued
again or that lease expired, and every later one has an even later `now()`.
-/

namespace DurableRuntime.Lease

open DurableRuntime.Foundation

/-- Both implementations select by one predicate. -/
theorem leasable_eq (now : Int) (row : RunRow) : leasable now row = Worker.isClaimable now row := by
  unfold leasable Worker.isClaimable
  cases row.state with
  | leased => cases row.leaseExpiresAt <;> simp
  | running => cases row.leaseExpiresAt <;> simp
  | _ => simp

/-! ## The claims of a history -/

/-- A claim that commits: the run, and the `now()` of its transaction. -/
def claim? (s : System) : Action → Option (Uuid × Int)
  | .system (.worker index _) =>
      match s.workers[index]? with
      | some ⟨_, _, .claimCommit now row _ _⟩ => some (row.id, now)
      | _ => none
  | .lease index =>
      match s.leases[index]? with
      | some ⟨_, _, _, .commit now row _ _⟩ => some (row.id, now)
      | _ => none
  | _ => none

theorem claim?_lease {s : System} {index : Nat} {session : Session} {now : Int} {row : RunRow}
    {definition : Json} {event : EventRow} (hlease : s.leases[index]? = some session)
    (hpc : session.pc = .commit now row definition event) :
    claim? s (.lease index) = some (row.id, now) := by
  obtain ⟨runId, workerId, ttl, pc⟩ := session
  subst hpc
  simp [claim?, hlease]

theorem claim?_worker {s : System} {index : Nat} {reply : Worker.Reply} {session : Worker.Session}
    {now : Int} {row : RunRow} {events : List EventRow} {run : Worker.LeasedRun}
    (hworker : s.workers[index]? = some session)
    (hpc : session.pc = .claimCommit now row events run) :
    claim? s (.system (.worker index reply)) = some (row.id, now) := by
  obtain ⟨workerId, message, pc⟩ := session
  subst hpc
  simp [claim?, hworker]

def Claims (p : System × Action) (id : Uuid) : Prop := ∃ now, claim? p.1 p.2 = some (id, now)

def Action.actor? : Action → Option Holder
  | .system (.worker index _) => some (.worker index)
  | .lease index => some (.lease index)
  | _ => none

/-- Whose claim of the run it is. -/
def claimant? (p : System × Action) (id : Uuid) : Option Holder :=
  if (claim? p.1 p.2).any (fun claim => claim.1 = id) then p.2.actor? else none

/-- Who holds the lease of the run after the history: whoever claimed it last. -/
def holder (h : History System Action) (id : Uuid) : Option Holder :=
  h.foldl (fun held p => (claimant? p id).or held) none

/-- The worker `index` extends the lease of the run, by the `now()` of its statement. -/
def Extends (p : System × Action) (id : Uuid) (index : Nat) (now : Int) : Prop :=
  ∃ reply session run step, p.2 = .system (.worker index reply) ∧
    p.1.workers[index]? = some session ∧ session.pc = .heartbeatUpdate run step now ∧
      run.ref.id = id

/-- The step puts the run back to `queued`. -/
def PutBack (env : Env) (p : System × Action) (id : Uuid) : Prop :=
  ∃ s' row row', next env p.1 p.2 = some s' ∧ p.1.db.run? id = some row ∧ row.state ≠ .queued ∧
    s'.db.run? id = some row' ∧ row'.state = .queued

/--
The expiry that the first claim of the history finds: the lease of the claim
before the history, with all its extensions.
-/
def LeaseEnds (id : Uuid) (h : History System Action) (expiry : Int) : Prop :=
  ∃ h₁ p h₂ row, h = h₁ ++ p :: h₂ ∧ (∀ q ∈ h₁, ¬Claims q id) ∧ Claims p id ∧
    p.1.db.run? id = some row ∧ row.leaseExpiresAt = some expiry

/--
Every extension of the lease in `h₂`, which follows `h₁`, is its holder's.  A
worker that has lost its lease can still extend the next one, and its `now()`
may be of before that claim.
-/
def ExtendedByHolder (id : Uuid) (h₁ h₂ : History System Action) : Prop :=
  ∀ k r k', h₂ = k ++ r :: k' → ∀ index now, Extends r id index now →
    holder (h₁ ++ k) id = some (.worker index)

/-- A run that somebody has claimed says who and until when. -/
structure Held (row : RunRow) : Prop where
  owner : ∃ owner, row.leaseOwner = some owner
  expiry : ∃ expiry, row.leaseExpiresAt = some expiry

def isHeld (state : RunState) : Bool := state = .leased || state = .running

/-- Once its lease has expired, both claims find the run unless it is locked. -/
def Recoverable (s : System) (id : Uuid) (row : RunRow) : Prop :=
  ∃ expiry, row.leaseExpiresAt = some expiry ∧ ∀ now, expiry < now →
    s.free (.run id) = true → ∃ definition,
      Worker.claimable s.toShared id now = some (row, definition) ∧
        select s.toShared id now = some row ∧ workflow s.toShared row = some definition

structure Exclusive (env : Env) (h : History System Action) (t : System) : Prop where
  /-- Two claims with no other between them, whoever extends the lease. -/
  consecutive : ∀ h₁ p h₂ q h₃, h = h₁ ++ p :: h₂ ++ q :: h₃ → ∀ id now, Claims p id →
    claim? q.1 q.2 = some (id, now) → (∀ r ∈ h₂, ¬Claims r id) →
      (∃ r ∈ h₂, PutBack env r id) ∨ ∃ expiry, LeaseEnds id (h₂ ++ [q]) expiry ∧ expiry < now
  exclusive : ∀ h₁ p h₂ q h₃, h = h₁ ++ p :: h₂ ++ q :: h₃ → ∀ id now, Claims p id →
    claim? q.1 q.2 = some (id, now) → ExtendedByHolder id (h₁ ++ [p]) h₂ →
      (∃ r ∈ h₂, PutBack env r id) ∨ ∃ expiry, LeaseEnds id (h₂ ++ [q]) expiry ∧ expiry < now
  written : ∀ p ∈ h, ∀ id, Claims p id → ∃ s' row, next env p.1 p.2 = some s' ∧
    s'.db.run? id = some row ∧ isHeld row.state = true ∧ Held row
  recoverable : ∀ id row, t.db.run? id = some row → isHeld row.state = true →
    Held row ∧ Recoverable t id row

/-! ## Steps -/

inductive Turn (s : Shared) (session : Session) : Pc → Effect → Prop
  | move {pc effect} (hmove : step s session = some (pc, effect)) : Turn s session pc effect
  | error (hrunning : session.pc.isRunning = true) : Turn s session .failed .none

inductive Step (env : Env) (s : System) : Action → System → Prop
  | system {action state} (hnext : DurableRuntime.next env s.toState action = some state) :
      Step env s (.system action) { s with toState := state }
  | claimRunLease (runId workerId ttl) :
      Step env s (.claimRunLease runId workerId ttl)
        { s with leases := s.leases ++ [⟨runId, workerId, ttl, .start⟩] }
  | lease {a index session pc effect}
      (haction : a = .lease index ∨ a = .leaseError index ∧ effect = .none)
      (hlease : s.leases[index]? = some session) (hturn : Turn s.toShared session pc effect) :
      Step env s a (s.move index session pc effect)

section

variable {env : Env} {s s' : System} {a : Action}

theorem next_step (h : next env s a = some s') : Step env s a s' := by
  cases a with
  | system action =>
      simp only [next] at h
      split at h
      · cases h
      · rename_i hnext
        cases h
        exact .system hnext
  | claimRunLease runId workerId ttl =>
      cases h
      exact .claimRunLease runId workerId ttl
  | lease index =>
      simp only [next] at h
      split at h
      · cases h
      · rename_i hlease
        split at h
        · cases h
        · rename_i hstep
          cases h
          exact .lease (.inl rfl) hlease (.move hstep)
  | leaseError index =>
      simp only [next] at h
      split at h
      · cases h
      · rename_i hlease
        split at h
        · rename_i hrunning
          cases h
          exact .lease (.inr ⟨rfl, rfl⟩) hlease (.error hrunning)
        · cases h

theorem apply_run? (db : Db) (id : Uuid) (effect : Effect) :
    (effect.apply db).run? id =
      match effect with
      | .commit runId owner now ttl _ =>
          if id = runId then (db.run? id).map (RunRow.grantLease owner now ttl) else db.run? id
      | _ => db.run? id := by
  cases effect with
  | commit => exact run?_updateRun db id _ fun _ => rfl
  | _ => rfl

theorem sameRequest_lease (owner : String) (now : Int) (ttl : Nat) (row : RunRow) :
    row.SameRequest (row.grantLease owner now ttl) :=
  ⟨rfl, rfl, rfl, rfl, rfl, rfl, rfl, rfl⟩

theorem apply_runByKey? (db : Db) (effect : Effect) {tenantId : Uuid} {idempotencyKey : String}
    (h : db.runByKey? tenantId idempotencyKey = none) :
    (effect.apply db).runByKey? tenantId idempotencyKey = none := by
  cases effect with
  | commit runId owner now ttl event =>
      rw [runByKey?_eq_none] at h ⊢
      have hkeys := runs_updateRun_map RunRow.key RunRow.SameRequest.key db runId
        (sameRequest_lease owner now ttl)
      rwa [Effect.apply, hkeys]
  | _ => exact h

/-- The row that a call has claimed, and when. -/
theorem Turn.claiming? {s : Shared} {session : Session} {pc : Pc} {effect : Effect}
    (hturn : Turn s session pc effect) {now : Int} {row : RunRow}
    (h : pc.claiming? = some (now, row)) :
    (∀ db id, (effect.apply db).run? id = db.run? id) ∧
      (session.pc.claiming? = some (now, row) ∨
        (session.pc = .select now ∧ select s session.runId now = some row)) := by
  cases hturn with
  | error => cases h
  | move hmove =>
      obtain ⟨runId, workerId, ttl, old⟩ := session
      cases old with
      | select =>
          simp only [step] at hmove
          split at hmove
          · cases hmove
            cases h
          · rename_i hselect
            cases hmove
            cases h
            exact ⟨fun _ _ => rfl, .inr ⟨rfl, hselect⟩⟩
      | workflow =>
          simp only [step] at hmove
          split at hmove
          · cases hmove
            cases h
          · cases hmove
            exact ⟨fun _ _ => rfl, .inl h⟩
      | readEvents =>
          cases hmove
          unfold result at h
          split at h <;> cases h
      | done => cases hmove
      | failed => cases hmove
      | _ =>
          cases hmove
          first | exact ⟨fun _ _ => rfl, .inl h⟩ | cases h

theorem Turn.selecting {s : Shared} {session : Session} {effect : Effect} {now : Int}
    (hturn : Turn s session (.select now) effect) : now = s.clock := by
  cases hturn with
  | move hmove =>
      obtain ⟨runId, workerId, ttl, old⟩ := session
      cases old with
      | start =>
          cases hmove
          rfl
      | select =>
          simp only [step] at hmove
          split at hmove <;> cases hmove
      | workflow =>
          simp only [step] at hmove
          split at hmove <;> cases hmove
      | readEvents now row definition =>
          simp only [step, Option.some.injEq, Prod.mk.injEq] at hmove
          have hresult := hmove.1
          unfold result at hresult
          split at hresult <;> cases hresult
      | done => cases hmove
      | failed => cases hmove
      | _ => cases hmove

theorem Turn.commits {s : Shared} {session : Session} {pc : Pc} {runId : Uuid} {owner : String}
    {now : Int} {ttl : Nat} {event : EventRow}
    (hturn : Turn s session pc (.commit runId owner now ttl event)) :
    ∃ row definition, session.pc = .commit now row definition event ∧ row.id = runId ∧
      session.workerId = owner ∧ session.ttl = ttl := by
  cases hturn with
  | move hmove =>
      obtain ⟨sessionRun, workerId, sessionTtl, old⟩ := session
      cases old with
      | select =>
          simp only [step] at hmove
          split at hmove <;> cases hmove
      | workflow =>
          simp only [step] at hmove
          split at hmove <;> cases hmove
      | commit now row definition event =>
          cases hmove
          exact ⟨row, definition, rfl, rfl, rfl, rfl⟩
      | done => cases hmove
      | failed => cases hmove
      | _ => cases hmove

theorem select_some {s : Shared} {runId : Uuid} {now : Int} {row : RunRow}
    (h : select s runId now = some row) :
    s.db.run? runId = some row ∧ row.id = runId ∧ leasable now row = true ∧
      s.free (.run runId) = true := by
  obtain ⟨hrow, hguard⟩ := Option.filter_eq_some_iff.mp h
  rw [Bool.and_eq_true] at hguard
  exact ⟨hrow, Table.lookup_key hrow, hguard.1, hguard.2⟩

end

/-! ## What the claims in progress know -/

/-- The `now()` of the claim that a worker is in. -/
def claimNow? : Worker.Pc → Option Int
  | .claimSelect _ now | .claimUpdate _ now _ _ | .claimEvents _ now _ _
  | .claimCommit now _ _ _ => some now
  | _ => none

theorem claimNow?_of_executing {pc : Worker.Pc} {run : Worker.LeasedRun}
    (h : pc.executing? = some run) : claimNow? pc = none := by
  cases pc <;> first | rfl | cases h

theorem turn_claimNow? {env : Env} {s : Shared} {session : Worker.Session} {pc : Worker.Pc}
    {effect : DurableRuntime.Effect} (hturn : Worker.Turn env s session pc effect) {now : Int}
    (h : claimNow? pc = some now) : claimNow? session.pc = some now ∨ now = s.clock := by
  cases hturn with
  | error => cases h
  | crash => cases h
  | move hmove =>
      generalize session.pc = old at hmove
      cases hmove with
      | received runId =>
          unfold Worker.process at h
          repeat' split at h
          all_goals cases h
      | claimBegin =>
          cases h
          exact .inr rfl
      | claimFound => exact .inl h
      | claimUpdate => exact .inl h
      | claimEvents => exact .inl h
      | execute run =>
          rw [claimNow?_of_executing (Worker.execute_executing run)] at h
          cases h
      | loop run index =>
          rw [claimNow?_of_executing (Worker.loop_executing env run index)] at h
          cases h
      | consume run index handle prompt delivery =>
          rw [claimNow?_of_executing (Worker.withCredential_executing env run index prompt _)]
            at h
          cases h
      | @record _ run index kind status safeLabel hfree => cases status <;> cases h
      | @eventCommit _ run row after hfree => cases after <;> cases h
      | _ => cases h

structure Sound (s : System) : Prop where
  base : DurableRuntime.Sound s.toState
  referenced : Referenced s.toState
  held : HeldBy Holder.lease (fun session : Session => session.pc.held) s.leases s.locks
  claiming : ∀ (index : Nat) (session : Session) now row, s.leases[index]? = some session →
    session.pc.claiming? = some (now, row) →
      s.db.run? row.id = some row ∧ leasable now row = true ∧ now ≤ s.clock
  selecting : ∀ (index : Nat) (session : Session) now, s.leases[index]? = some session →
    session.pc = .select now → now ≤ s.clock
  workers : ∀ (index : Nat) (session : Worker.Session) now, s.workers[index]? = some session →
    claimNow? session.pc = some now → now ≤ s.clock
  rows : ∀ id row, s.db.run? id = some row → isHeld row.state = true → Held row

section

variable {env : Env} {s s' : System} {a : Action}

theorem Sound.locks (sound : Sound s) {index : Nat} {session : Session} {now : Int}
    {row : RunRow} (hlease : s.leases[index]? = some session)
    (hclaiming : session.pc.claiming? = some (now, row)) :
    s.locks (.run row.id) = some (.lease index) := by
  refine sound.held index session hlease _ ?_
  simp [Pc.held, hclaiming]

/-- A call only ever takes the lock of a run that is free. -/
theorem Turn.takes {s : Shared} {session : Session} {pc : Pc} {effect : Effect}
    (hturn : Turn s session pc effect) {x : Resource} (hx : x ∈ pc.held) :
    x ∈ session.pc.held ∨ (s.locks x = none ∧ ∃ id, x = .run id) := by
  cases hclaiming : pc.claiming? with
  | none => simp [Pc.held, hclaiming] at hx
  | some claim =>
      obtain ⟨now, row⟩ := claim
      simp only [Pc.held, hclaiming, List.mem_singleton] at hx
      subst hx
      rcases (hturn.claiming? hclaiming).2 with hmine | ⟨-, hselect⟩
      · exact .inl (by simp [Pc.held, hmine])
      · obtain ⟨-, hid, -, hfree⟩ := select_some hselect
        exact .inr ⟨by rw [hid]; exact Option.isNone_iff_eq_none.mp hfree, _, rfl⟩

theorem Sound.taken (sound : Sound s) {index : Nat} {session : Session} {pc : Pc}
    {effect : Effect} (hlease : s.leases[index]? = some session)
    (hturn : Turn s.toShared session pc effect) :
    ∀ x ∈ pc.held, s.locks x = some (.lease index) ∨ s.locks x = none := by
  intro x hx
  rcases hturn.takes hx with hmine | ⟨hfree, -⟩
  · exact .inl (sound.held index session hlease x hmine)
  · exact .inr hfree

/-- The commit of a call is about the row it has locked. -/
theorem Sound.lease_row (sound : Sound s) {index : Nat} {session : Session} {pc : Pc}
    {runId : Uuid} {owner : String} {now : Int} {ttl : Nat} {event : EventRow}
    (hlease : s.leases[index]? = some session)
    (hturn : Turn s.toShared session pc (.commit runId owner now ttl event)) :
    ∃ row, s.db.run? runId = some row ∧ leasable now row = true ∧ now ≤ s.clock ∧
      s.locks (.run runId) = some (.lease index) := by
  obtain ⟨row, definition, hpc, rfl, -, -⟩ := hturn.commits
  have hclaiming : session.pc.claiming? = some (now, row) := by
    rw [hpc]
    rfl
  obtain ⟨hrow, hleasable, hnow⟩ := sound.claiming index session now row hlease hclaiming
  exact ⟨row, hrow, hleasable, hnow, sound.locks hlease hclaiming⟩

theorem Sound.run?_of_lock (sound : Sound s) {index : Nat} {session : Session} {pc : Pc}
    {effect : Effect} (hlease : s.leases[index]? = some session)
    (hturn : Turn s.toShared session pc effect) {id : Uuid} {me : Holder}
    (hlock : s.locks (.run id) = some me) (hother : me ≠ .lease index) :
    (effect.apply s.db).run? id = s.db.run? id := by
  rw [apply_run?]
  cases effect with
  | commit runId owner now ttl event =>
      obtain ⟨row, -, -, -, hmine⟩ := sound.lease_row hlease hturn
      refine if_neg ?_
      rintro rfl
      rw [hlock, Option.some.injEq] at hmine
      exact hother hmine
  | _ => rfl

theorem run?_defines {db : Db} {effect : Effect} {id : Uuid} {row : RunRow}
    (hrow : (effect.apply db).run? id = some row)
    (h : ∀ old, db.run? id = some old → db.Defines old.tenantId old.workflowId) :
    (effect.apply db).Defines row.tenantId row.workflowId := by
  rw [apply_run?] at hrow
  cases effect with
  | commit runId owner now ttl event =>
      simp only at hrow
      split at hrow
      · obtain ⟨old, hold, rfl⟩ := Option.map_eq_some_iff.mp hrow
        exact h old hold
      · exact h row hrow
  | _ => exact h row hrow

/-- The calls of `claimRunLease` keep what the rest of the system relies on. -/
theorem Sound.base_lease (sound : Sound s) {index : Nat} {session : Session} {pc : Pc}
    {effect : Effect} (hlease : s.leases[index]? = some session)
    (hturn : Turn s.toShared session pc effect) :
    DurableRuntime.Sound (s.move index session pc effect).toState := by
  have taken := sound.taken hlease hturn
  have locked := sound.base.locked
  have snapshots := sound.base.snapshots
  have unlocked : ∀ n, Resource.outbox n ∉ pc.held := by
    intro n hmem
    unfold Pc.held at hmem
    split at hmem <;> simp at hmem
  refine ⟨⟨?_, ?_, ?_, ?_, ?_, ?_⟩,
    ⟨sound.base.shaped.workers, sound.base.shaped.calls⟩, ⟨?_, ?_, ?_⟩⟩
  · exact locked.workers.frame (by simp) taken
  · exact locked.calls.frame (by simp) taken
  · exact locked.publishers.frame (by simp) taken
  · cases effect <;> exact locked.drawn
  · cases effect <;> exact locked.named
  · intro n hn
    have hnone : s.locks (.outbox n) = none := by
      cases effect <;> exact locked.fresh n hn
    simp [System.move, regrant, unlocked n, hnone]
  · intro i worker row hworker hrow
    rw [System.move, sound.run?_of_lock hlease hturn (locked.worker_row hworker hrow) (by simp)]
    exact snapshots.workers i worker row hworker hrow
  · intro i call row hcall hrow
    rw [System.move, sound.run?_of_lock hlease hturn (locked.call_row hcall hrow) (by simp)]
    exact snapshots.updates i call row hcall hrow
  · intro i call writes row hcall hwrites hrow
    obtain ⟨hrun, hkey⟩ := snapshots.inserts i call writes row hcall hwrites hrow
    have hlock := (locked.call_insert hcall hwrites hrow).1
    rw [System.move, sound.run?_of_lock hlease hturn hlock (by simp)]
    exact ⟨hrun, apply_runByKey? _ _ hkey⟩

/-! ## Steps of a row -/

/-- What a step does to the row of a run. -/
inductive RowStep (env : Env) (s : System) (id : Uuid) :
    Action → Option RunRow → Option RunRow → Prop
  | same {a old} : RowStep env s id a old old
  | system {action old new} (hstep : DurableRuntime.RowStep env s.toState id action old new) :
      RowStep env s id (.system action) old new
  | leased {index session now row definition event}
      (hlease : s.leases[index]? = some session)
      (hpc : session.pc = .commit now row definition event) (hid : row.id = id) :
      RowStep env s id (.lease index) (some row)
        (some (row.grantLease session.workerId now session.ttl))

theorem row_step (sound : Sound s) (hnext : next env s a = some s') (id : Uuid) :
    RowStep env s id a (s.db.run? id) (s'.db.run? id) := by
  cases next_step hnext with
  | system hstate => exact .system (DurableRuntime.row_step sound.base hstate id)
  | claimRunLease => exact .same
  | @lease _ index session pc effect haction hlease hturn =>
      rw [System.move, apply_run?]
      cases effect with
      | commit runId owner now ttl event =>
          simp only
          split
          · rename_i hid
            subst hid
            obtain ⟨row, definition, hpc, hid, rfl, rfl⟩ := hturn.commits
            obtain ⟨hrow, -, -⟩ := sound.claiming index session now row hlease (by rw [hpc]; rfl)
            rcases haction with rfl | ⟨-, hnone⟩
            · rw [← hid, hrow]
              exact .leased hlease hpc rfl
            · cases hnone
          · exact .same
      | _ => exact .same

/-- What a claim finds and what it leaves. -/
theorem claim_spec (sound : Sound s) (hnext : next env s a = some s') {id : Uuid} {now : Int}
    (hclaim : claim? s a = some (id, now)) :
    ∃ row row' owner ttl, s.db.run? id = some row ∧ leasable now row = true ∧ now ≤ s.clock ∧
      s'.db.run? id = some row' ∧ isHeld row'.state = true ∧ row'.leaseOwner = some owner ∧
        row'.leaseExpiresAt = some (now + (ttl : Nat)) := by
  unfold claim? at hclaim
  split at hclaim
  · rename_i index reply
    split at hclaim
    · rename_i workerId message now' row events run hworker
      cases hclaim
      have hshape := sound.base.shaped.workers index _ hworker
      have hnow := sound.workers index _ now hworker rfl
      have hrow := sound.base.snapshots.workers index _ row hworker rfl
      have hcommit : commitOf env s.toState (.worker index reply) =
          some (.claim row.id workerId now events) := by
        simp [commitOf, hworker, Worker.step, DurableRuntime.Effect.commit?]
      refine ⟨row, row.claim workerId now, workerId, 30000000, hrow, ?_, hnow, ?_, rfl, rfl, rfl⟩
      · rw [leasable_eq]
        exact hshape.2.2
      · cases next_step hnext with
        | system hstate =>
            rw [next_run? hstate, hcommit, hrow]
            exact if_pos rfl
        | lease haction => rcases haction with haction | ⟨haction, -⟩ <;> cases haction
    · cases hclaim
  · rename_i index
    split at hclaim
    · rename_i runId workerId ttl now' row definition event hlease
      cases hclaim
      obtain ⟨hrow, hleasable, hnow⟩ := sound.claiming index _ now row hlease rfl
      refine ⟨row, row.grantLease workerId now ttl, workerId, ttl, hrow, hleasable, hnow, ?_,
        rfl, rfl,
        rfl⟩
      simp only [next, hlease, step, Option.some.injEq] at hnext
      rw [← hnext, System.move, apply_run?, hrow]
      exact if_pos rfl
    · cases hclaim
  · cases hclaim

theorem row_persists (hnext : next env s a = some s') {id : Uuid} {row : RunRow}
    (hrow : s.db.run? id = some row) : ∃ row', s'.db.run? id = some row' := by
  cases next_step hnext with
  | system hstate =>
      obtain ⟨row', hrow', -⟩ := (next_extends hstate).runs id row hrow
      exact ⟨row', hrow'⟩
  | claimRunLease => exact ⟨row, hrow⟩
  | @lease _ index session pc effect haction hlease hturn =>
      rw [System.move, apply_run?, hrow]
      cases effect with
      | commit runId owner now ttl event =>
          simp only [Option.map_some]
          split
          · exact ⟨_, rfl⟩
          · exact ⟨row, rfl⟩
      | _ => exact ⟨row, rfl⟩

/-- Apart from claims, the expiry of a run is extended, kept or taken away. -/
theorem expiry_next (sound : Sound s) (hnext : next env s a = some s') {id : Uuid}
    {row row' : RunRow} (hrow : s.db.run? id = some row) (hrow' : s'.db.run? id = some row')
    (hclaims : ¬Claims (s, a) id) {expiry : Int} (h : row'.leaseExpiresAt = some expiry) :
    row.leaseExpiresAt = some expiry ∨
      ∃ index now, Extends (s, a) id index now ∧ expiry = now + leaseInterval := by
  have hstep := row_step sound hnext id
  rw [hrow, hrow'] at hstep
  cases hstep with
  | same => exact .inl h
  | leased hlease hpc hid =>
      subst hid
      exact absurd ⟨_, claim?_lease hlease hpc⟩ hclaims
  | system hstep =>
      cases hstep with
      | same => exact .inl h
      | claimed hcommit hworker hpc hid =>
          subst hid
          exact absurd ⟨_, claim?_worker hworker hpc⟩ hclaims
      | transitioned => exact .inl h
      | heartbeat hcommit hworker hpc hid =>
          exact .inr ⟨_, _, ⟨_, _, _, _, rfl, hworker, hpc, hid⟩, (Option.some.inj h).symm⟩
      | paused => cases h
      | completed => cases h

theorem Sound.next (sound : Sound s) (hnext : next env s a = some s') : Sound s' := by
  have hstep := row_step sound hnext
  have rows : ∀ id row, s'.db.run? id = some row → isHeld row.state = true → Held row := by
    intro id row' hrow' hheld
    have hstep := hstep id
    rw [hrow'] at hstep
    cases hold : s.db.run? id with
    | none =>
        rw [hold] at hstep
        cases hstep with
        | system hstep =>
            cases hstep with
            | created hcommit hcall hpc hwrite hid =>
                obtain ⟨create, key, now, budgetCents, -, rfl⟩ :=
                  sound.base.insert_eq hcall hpc hwrite
                cases hheld
    | some row =>
        have hkept := sound.rows id row hold
        rw [hold] at hstep
        cases hstep with
        | same => exact hkept hheld
        | leased => exact ⟨⟨_, rfl⟩, ⟨_, rfl⟩⟩
        | system hstep =>
            cases hstep with
            | same => exact hkept hheld
            | transitioned hcommit hcall hpc hwrite hid =>
                obtain ⟨args, rfl | rfl, rfl, -, -⟩ := sound.base.update_args hcall hpc hwrite
                · cases hheld
                · cases hheld
            | claimed => exact ⟨⟨_, rfl⟩, ⟨_, rfl⟩⟩
            | heartbeat => exact ⟨(hkept hheld).owner, ⟨_, rfl⟩⟩
            | paused => cases hheld
            | completed => cases hheld
  cases next_step hnext with
  | claimRunLease runId workerId ttl =>
      refine { sound with
        base := sound.base
        held := sound.held.join rfl
        claiming := ?_
        selecting := ?_
        rows := rows }
      · intro index session now row hlease hclaiming
        rcases getElem?_snoc_some hlease with ⟨-, rfl⟩ | hlease
        · cases hclaiming
        · exact sound.claiming index session now row hlease hclaiming
      · intro index session now hlease hpc
        rcases getElem?_snoc_some hlease with ⟨-, rfl⟩ | hlease
        · cases hpc
        · exact sound.selecting index session now hlease hpc
  | @system action state hstate =>
      have hclock := next_clock hstate
      refine ⟨sound.base.next hstate, sound.referenced.next sound.base hstate, ?_, ?_, ?_, ?_, rows⟩
      · exact sound.base.locked.held_next (by simp) sound.held hstate
      · intro index session now row hlease hclaiming
        obtain ⟨hrow, hleasable, hnow⟩ := sound.claiming index session now row hlease hclaiming
        have hlock := sound.locks hlease hclaiming
        refine ⟨?_, hleasable, Int.le_trans hnow hclock⟩
        rw [DurableRuntime.run?_of_lock sound.base.locked sound.base.shaped hstate hlock
          (by cases action <;> simp [actor])]
        exact hrow
      · intro index session now hlease hpc
        exact Int.le_trans (sound.selecting index session now hlease hpc) hclock
      · intro index session now hworker hclaiming
        cases worker_case hstate hworker with
        | kept hold => exact Int.le_trans (sound.workers index _ now hold hclaiming) hclock
        | joined => cases hclaiming
        | turned hold hactor hcommit hturn hmoved =>
            rcases turn_claimNow? hturn hclaiming with hmine | rfl
            · exact Int.le_trans (sound.workers index _ now hold hmine) hclock
            · exact hclock
  | @lease _ index session pc effect haction hlease hturn =>
      have taken := sound.taken hlease hturn
      refine ⟨sound.base_lease hlease hturn, ⟨?_, ?_⟩, ?_, ?_, ?_, sound.workers, rows⟩
      · intro id row hrow
        exact run?_defines hrow (sound.referenced.rows id)
      · intro i call workflowId hcall href
        have hdefines := sound.referenced.calls i call workflowId hcall href
        cases effect <;> exact hdefines
      · refine sound.held.move (fun i j hij => by simpa using hij) { session with pc } hlease ?_
        intro x hx
        exact (hturn.takes hx).imp_right And.left
      · intro i other now row hother hclaiming
        rcases getElem?_set_some hother with ⟨rfl, rfl⟩ | ⟨hne, hother⟩
        · obtain ⟨hquiet, hmine | ⟨hpc, hselect⟩⟩ := hturn.claiming? hclaiming
          · obtain ⟨hrow, hleasable, hnow⟩ := sound.claiming i session now row hlease hmine
            exact ⟨(hquiet _ _).trans hrow, hleasable, hnow⟩
          · obtain ⟨hrow, hid, hleasable, -⟩ := select_some hselect
            rw [← hid] at hrow
            exact ⟨(hquiet _ _).trans hrow, hleasable, sound.selecting i session now hlease hpc⟩
        · obtain ⟨hrow, hleasable, hnow⟩ := sound.claiming i other now row hother hclaiming
          refine ⟨?_, hleasable, hnow⟩
          rw [System.move, sound.run?_of_lock hlease hturn (sound.locks hother hclaiming)
            (by simpa using hne)]
          exact hrow
      · intro i other now hother hpc
        rcases getElem?_set_some hother with ⟨rfl, rfl⟩ | ⟨hne, hother⟩
        · obtain rfl : pc = .select now := hpc
          exact Int.le_of_eq hturn.selecting
        · exact sound.selecting i other now hother hpc

theorem run_leaseSound {h : History System Action} (run : Run env h s) : Sound s := by
  refine run.always ?_ fun _ sound hnext => sound.next hnext
  rintro s ⟨hs, hleases⟩
  refine ⟨⟨Locked.initial hs, ⟨by simp [hs.workers], by simp [hs.calls]⟩, ?_⟩, ?_, ?_, ?_, ?_, ?_,
    ?_⟩
  · exact ⟨by simp [hs.workers], by simp [hs.calls], by simp [hs.calls]⟩
  · exact ⟨by simp [Db.run?, hs.runs], by simp [hs.calls]⟩
  · simp [HeldBy, hleases]
  · simp [hleases]
  · simp [hleases]
  · simp [hs.workers]
  · simp [Db.run?, hs.runs]

end

/-! ## Exclusion and recovery -/

section

variable {env : Env} {s s' t : System} {a : Action} {h h₁ h₂ : History System Action} {id : Uuid}

theorem expiry_of_leasable {now : Int} {row : RunRow} (h : leasable now row = true)
    (hqueued : row.state ≠ .queued) :
    ∃ expiry, row.leaseExpiresAt = some expiry ∧ expiry < now := by
  simp only [leasable, Bool.or_eq_true, decide_eq_true_eq, hqueued, false_or, Bool.and_eq_true,
    Option.any_eq_true] at h
  exact h.2

theorem LeaseEnds.append {expiry : Int} (h : LeaseEnds id h₁ expiry) :
    LeaseEnds id (h₁ ++ h₂) expiry := by
  obtain ⟨k, p, k', row, rfl, hk, hclaims, hrow, hexpiry⟩ := h
  exact ⟨k, p, k' ++ h₂, row, by simp, hk, hclaims, hrow, hexpiry⟩

theorem ExtendedByHolder.before {h₁ h₂ : History System Action} {p : System × Action}
    (h : ExtendedByHolder id h₁ (h₂ ++ [p])) : ExtendedByHolder id h₁ h₂ := by
  rintro k r k' rfl
  exact h k r (k' ++ [p]) (by simp)

theorem ExtendedByHolder.last {h₁ h₂ : History System Action} {p : System × Action}
    (h : ExtendedByHolder id h₁ (h₂ ++ [p])) {index : Nat} {now : Int}
    (hextends : Extends p id index now) : holder (h₁ ++ h₂) id = some (.worker index) :=
  h h₂ p [] rfl index now hextends

theorem holder_snoc (h : History System Action) (p : System × Action) :
    holder (h ++ [p]) id = (claimant? p id).or (holder h id) := by
  simp [holder]

theorem claimant?_eq_none {p : System × Action} (h : ¬Claims p id) : claimant? p id = none := by
  refine if_neg ?_
  simp only [Option.any_eq_true, decide_eq_true_eq, not_exists, not_and]
  rintro ⟨runId, now⟩ hclaim rfl
  exact h ⟨now, hclaim⟩

theorem claimant?_of_claims {p : System × Action} (h : Claims p id) :
    claimant? p id = p.2.actor? := by
  obtain ⟨now, hclaim⟩ := h
  refine if_pos ?_
  simp [hclaim]

/-- A claim has a claimant, and a worker that claims has no extension under way. -/
theorem Claims.by_actor {p : System × Action} (h : Claims p id) :
    ∃ claimant, claimant? p id = some claimant ∧ ∀ index, claimant = .worker index →
      ∃ reply session now row events run, p.2 = .system (.worker index reply) ∧
        p.1.workers[index]? = some session ∧ session.pc = .claimCommit now row events run := by
  rw [claimant?_of_claims h]
  obtain ⟨now, hclaim⟩ := h
  unfold claim? at hclaim
  split at hclaim
  · rename_i index reply haction
    rw [haction]
    refine ⟨.worker index, rfl, ?_⟩
    rintro other ⟨⟩
    split at hclaim
    · rename_i hworker
      exact ⟨reply, _, _, _, _, _, rfl, hworker, rfl⟩
    · cases hclaim
  · rename_i index haction
    rw [haction]
    refine ⟨.lease index, rfl, ?_⟩
    rintro other ⟨⟩
  · cases hclaim

/--
The lease that the first claim since has ended is over, and neither the present
lease nor an extension of its holder that is under way ends as early.
-/
structure Past (id : Uuid) (held : Option Holder) (h : History System Action) (t : System)
    (ended : Int) : Prop where
  ends : LeaseEnds id h ended
  past : ended < t.clock
  row : ∀ row expiry, t.db.run? id = some row → row.leaseExpiresAt = some expiry → ended < expiry
  extending : ∀ (index : Nat) session run step now, t.workers[index]? = some session →
    session.pc = .heartbeatUpdate run step now → run.ref.id = id → held = some (.worker index) →
      ended < now

theorem clock_next (hnext : next env s a = some s') : s.clock ≤ s'.clock := by
  cases next_step hnext with
  | system hstate => exact next_clock hstate
  | _ => exact Int.le_refl _

theorem turn_extending {s : Shared} {session : Worker.Session} {run : Worker.LeasedRun}
    {step : Nat} {now : Int} {effect : DurableRuntime.Effect}
    (hturn : Worker.Turn env s session (.heartbeatUpdate run step now) effect) :
    session.pc = .heartbeat run step ∧ now = s.clock := by
  cases hturn with
  | move hmove =>
      generalize session.pc = old, hpc : Worker.Pc.heartbeatUpdate run step now = pc at hmove
      have hbranch : pc.isBranch = false := by
        rw [← hpc]
        rfl
      cases hmove with
      | heartbeat =>
          cases hpc
          exact ⟨rfl, rfl⟩
      | received runId =>
          rw [Worker.process_branch] at hbranch
          cases hbranch
      | execute run =>
          rw [Worker.execute_branch] at hbranch
          cases hbranch
      | loop run index =>
          rw [Worker.loop_branch] at hbranch
          cases hbranch
      | consume run index handle prompt delivery =>
          rw [Worker.withCredential_branch] at hbranch
          cases hbranch
      | @record _ run index kind status safeLabel hfree => cases status <;> cases hpc
      | @eventCommit _ run row after hfree => cases after <;> cases hpc
      | _ => cases hpc

/-- An extension that is under way was so before, or it takes its `now()` in this step. -/
theorem extending_next (hnext : next env s a = some s') {index : Nat} {session : Worker.Session}
    {run : Worker.LeasedRun} {step : Nat} {now : Int} (hworker : s'.workers[index]? = some session)
    (hpc : session.pc = .heartbeatUpdate run step now) :
    ∃ old, s.workers[index]? = some old ∧
      (old.pc = .heartbeatUpdate run step now ∨ old.pc = .heartbeat run step ∧ now = s.clock) := by
  cases next_step hnext with
  | claimRunLease => exact ⟨session, hworker, .inl hpc⟩
  | lease => exact ⟨session, hworker, .inl hpc⟩
  | system hstate =>
      cases worker_case hstate hworker with
      | kept hold => exact ⟨session, hold, .inl hpc⟩
      | joined => cases hpc
      | turned hold hactor hcommit hturn hmoved =>
          simp only at hpc
          subst hpc
          exact ⟨_, hold, .inr (turn_extending hturn)⟩

theorem Past.next {held : Option Holder} {ended : Int} (past : Past id held h s ended)
    (sound : Sound s) (hnext : next env s a = some s') (hclaims : ¬Claims (s, a) id)
    {row : RunRow} (hrow : s.db.run? id = some row)
    (hextended : ∀ index now, Extends (s, a) id index now → held = some (.worker index)) :
    Past id held (h ++ [(s, a)]) s' ended := by
  have hclock := clock_next hnext
  refine ⟨past.ends.append, Int.lt_of_lt_of_le past.past hclock, ?_, ?_⟩
  · intro row' expiry hrow' hexpiry
    rcases expiry_next sound hnext hrow hrow' hclaims hexpiry with hold |
      ⟨index, now, hextends, rfl⟩
    · exact past.row row expiry hrow hold
    · have hheld := hextended index now hextends
      obtain ⟨reply, session, run, step, -, hworker, hpc, hid⟩ := hextends
      have hlater := past.extending index session run step now hworker hpc hid hheld
      simp only [leaseInterval]
      omega
  · intro index session run step now hworker hpc hid hheld
    obtain ⟨old, hold, hpc | ⟨-, rfl⟩⟩ := extending_next hnext hworker hpc
    · exact past.extending index old run step now hold hpc hid hheld
    · exact past.past

/--
Since a claim of the run: it has been put back, or it is not queued.  In that
case the lease of the claim has ended no later than the present lease will.
-/
def Standing (env : Env) (id : Uuid) (h₁ h : History System Action) (t : System) : Prop :=
  (∃ p ∈ h, PutBack env p id) ∨ ∃ row, t.db.run? id = some row ∧ row.state ≠ .queued ∧
    ((∀ p ∈ h, ¬Claims p id) ∨
      (ExtendedByHolder id h₁ h → ∃ ended, Past id (holder (h₁ ++ h) id) h t ended))

/-- A claim ends the lease that it finds, or leaves an earlier one to be the first ended. -/
theorem claimed_past {h₁ : History System Action} (sound : Sound s)
    (hnext : next env s a = some s') {row : RunRow} (hrow : s.db.run? id = some row)
    (hqueued : row.state ≠ .queued) (hclaims : Claims (s, a) id)
    (hended : (∀ p ∈ h, ¬Claims p id) ∨ ∃ ended, Past id (holder (h₁ ++ h) id) h s ended) :
    ∃ ended, Past id (holder (h₁ ++ (h ++ [(s, a)])) id) (h ++ [(s, a)]) s' ended := by
  have hclock := clock_next hnext
  obtain ⟨claimant, hclaimant, hworker⟩ := hclaims.by_actor
  have hholder : holder (h₁ ++ (h ++ [(s, a)])) id = some claimant := by
    rw [← List.append_assoc, holder_snoc, hclaimant]
    rfl
  have hextending : ∀ (index : Nat) session run step now, s'.workers[index]? = some session →
      session.pc = .heartbeatUpdate run step now → run.ref.id = id →
        holder (h₁ ++ (h ++ [(s, a)])) id ≠ some (.worker index) := by
    intro index session run step now hsession hpc hid hheld
    rw [hholder, Option.some.injEq] at hheld
    obtain ⟨reply, old, now', row', events, run', rfl, hold, hpc'⟩ := hworker index hheld
    obtain ⟨old', hold', hpc''⟩ := extending_next hnext hsession hpc
    rw [hold, Option.some.injEq] at hold'
    subst hold'
    rw [hpc'] at hpc''
    rcases hpc'' with hpc'' | ⟨hpc'', -⟩ <;> cases hpc''
  have hends : (∀ p ∈ h, ¬Claims p id) → ∀ expiry, row.leaseExpiresAt = some expiry →
      LeaseEnds id (h ++ [(s, a)]) expiry := fun hnone expiry hexpiry =>
    ⟨h, (s, a), [], row, rfl, hnone, hclaims, hrow, hexpiry⟩
  obtain ⟨now, hclaim⟩ := hclaims
  obtain ⟨_, _, owner, ttl, hfound, hleasable, hnow, hleft, -, -, hexpiry'⟩ :=
    claim_spec sound hnext hclaim
  rw [hrow, Option.some.injEq] at hfound
  subst hfound
  obtain ⟨expiry, hexpiry, hexpired⟩ := expiry_of_leasable hleasable hqueued
  have hleft' : ∀ row' expiry', s'.db.run? id = some row' →
      row'.leaseExpiresAt = some expiry' → now ≤ expiry' := by
    intro row' expiry' hrow' hexpiry''
    rw [hrow', Option.some.injEq] at hleft
    subst hleft
    rw [hexpiry', Option.some.injEq] at hexpiry''
    omega
  rcases hended with hnone | ⟨ended, past⟩
  · refine ⟨expiry, hends hnone expiry hexpiry, by omega, ?_, ?_⟩
    · intro row' expiry' hrow' hexpiry''
      exact Int.lt_of_lt_of_le hexpired (hleft' row' expiry' hrow' hexpiry'')
    · intro index session run step now' hsession hpc hid hheld
      exact absurd hheld (hextending index session run step now' hsession hpc hid)
  · have hbefore := past.row row expiry hrow hexpiry
    refine ⟨ended, past.ends.append, Int.lt_of_lt_of_le past.past hclock, ?_, ?_⟩
    · intro row' expiry' hrow' hexpiry''
      exact Int.lt_of_lt_of_le (Int.lt_trans hbefore hexpired) (hleft' row' expiry' hrow' hexpiry'')
    · intro index session run step now' hsession hpc hid hheld
      exact absurd hheld (hextending index session run step now' hsession hpc hid)

theorem Standing.next {h₁ : History System Action} (sound : Sound s)
    (standing : Standing env id h₁ h s) (hnext : next env s a = some s') :
    Standing env id h₁ (h ++ [(s, a)]) s' := by
  rcases standing with ⟨p, hp, hback⟩ | ⟨row, hrow, hqueued, hended⟩
  · exact .inl ⟨p, List.mem_append_left _ hp, hback⟩
  · have hclock := clock_next hnext
    obtain ⟨row', hrow'⟩ := row_persists hnext hrow
    by_cases hqueued' : row'.state = .queued
    · exact .inl ⟨(s, a), by simp, s', row, row', hnext, hrow, hqueued, hrow', hqueued'⟩
    refine .inr ⟨row', hrow', hqueued', ?_⟩
    by_cases hclaims : Claims (s, a) id
    · right
      intro hextended
      exact claimed_past sound hnext hrow hqueued hclaims
        (hended.imp_right fun h => h hextended.before)
    · rcases hended with hnone | hended
      · left
        intro p hp
        rcases List.mem_append.mp hp with hp | hp
        · exact hnone p hp
        · rw [List.mem_singleton.mp hp]
          exact hclaims
      · right
        intro hextended
        obtain ⟨ended, past⟩ := hended hextended.before
        rw [← List.append_assoc, holder_snoc, claimant?_eq_none hclaims]
        exact ⟨ended, past.next sound hnext hclaims hrow fun index now => hextended.last⟩

theorem standing_since {p : System × Action} (run : Run env (h₁ ++ p :: h₂) t)
    (hclaims : Claims p id) : Standing env id (h₁ ++ [p]) h₂ t := by
  refine @Exec.since _ _ _ _ (Standing env id (h₁ ++ [p])) h₁ p.1 p.2 ?_ ?_ h₂ t run
  · intro s' run₁ hnext
    obtain ⟨now, hclaim⟩ := hclaims
    obtain ⟨_, row', owner, ttl, -, -, -, hrow', hheld, -⟩ :=
      claim_spec (run_leaseSound run₁) hnext hclaim
    refine .inr ⟨row', hrow', ?_, .inl (by simp)⟩
    intro hqueued
    rw [hqueued] at hheld
    cases hheld
  · intro k s a s' run₂ standing hnext
    exact standing.next (run_leaseSound run₂) hnext

/-- What the later of two claims finds. -/
theorem claims_apart {p q : System × Action} {h₃ : History System Action}
    (run : Run env (h₁ ++ p :: h₂ ++ q :: h₃) t) {now : Int} (hfirst : Claims p id)
    (hsecond : claim? q.1 q.2 = some (id, now))
    (hbetween : (∀ r ∈ h₂, ¬Claims r id) ∨ ExtendedByHolder id (h₁ ++ [p]) h₂) :
    (∃ r ∈ h₂, PutBack env r id) ∨ ∃ expiry, LeaseEnds id (h₂ ++ [q]) expiry ∧ expiry < now := by
  obtain ⟨s', run₂, hnext, -⟩ := run.split
  obtain ⟨row, row', owner, ttl, hrow, hleasable, -⟩ :=
    claim_spec (run_leaseSound run₂) hnext hsecond
  rcases standing_since run₂ hfirst with hback | ⟨old, hold, hqueued, hended⟩
  · exact .inl hback
  · rw [hrow, Option.some.injEq] at hold
    subst hold
    obtain ⟨expiry, hexpiry, hexpired⟩ := expiry_of_leasable hleasable hqueued
    right
    by_cases hnone : ∀ r ∈ h₂, ¬Claims r id
    · exact ⟨expiry, ⟨h₂, q, [], row, rfl, hnone, ⟨now, hsecond⟩, hrow, hexpiry⟩, hexpired⟩
    · obtain ⟨ended, past⟩ := hended.resolve_left hnone (hbetween.resolve_left hnone)
      exact ⟨ended, past.ends.append, Int.lt_trans (past.row row expiry hrow hexpiry) hexpired⟩

theorem Sound.recoverable (sound : Sound s) {row : RunRow} (hrow : s.db.run? id = some row)
    (hheld : isHeld row.state = true) : Recoverable s id row := by
  obtain ⟨expiry, hexpiry⟩ := (sound.rows id row hrow hheld).expiry
  refine ⟨expiry, hexpiry, ?_⟩
  intro now hexpired hfree
  obtain ⟨definition, hdefinition, htenant⟩ := sound.referenced.rows id row hrow
  have hleasable : leasable now row = true := by
    simp only [isHeld, Bool.or_eq_true, decide_eq_true_eq] at hheld
    simp [leasable, hheld, hexpiry, hexpired]
  refine ⟨definition, ?_, ?_, ?_⟩
  · simp only [Worker.claimable, hrow, hdefinition]
    rw [← leasable_eq, hleasable, hfree]
    rfl
  · rw [select, hrow, Option.filter_some, hleasable, hfree]
    rfl
  · rw [workflow, hdefinition, Option.filter_some, decide_eq_true htenant]
    rfl

theorem leaseExclusive (run : Run env h t) : Exclusive env h t := by
  refine ⟨?_, ?_, ?_, ?_⟩
  · rintro h₁ p h₂ q h₃ rfl id now hfirst hsecond hnone
    exact claims_apart run hfirst hsecond (.inl hnone)
  · rintro h₁ p h₂ q h₃ rfl id now hfirst hsecond hextended
    exact claims_apart run hfirst hsecond (.inr hextended)
  · rintro ⟨s, a⟩ hp id ⟨now, hclaim⟩
    obtain ⟨h₁, h₂, s', rfl, run₁, hnext⟩ := run.of_mem hp
    obtain ⟨_, row', owner, ttl, -, -, -, hrow', hheld, howner, hexpiry⟩ :=
      claim_spec (run_leaseSound run₁) hnext hclaim
    exact ⟨s', row', hnext, hrow', hheld, ⟨owner, howner⟩, ⟨_, hexpiry⟩⟩
  · intro id row hrow hheld
    have sound := run_leaseSound run
    exact ⟨sound.rows id row hrow hheld, sound.recoverable hrow hheld⟩

end

/-- Every run of the system is one with no call of `claimRunLease`. -/
theorem run_system {env : Env} {h : History State DurableRuntime.Action} {s : State}
    (run : DurableRuntime.Run env h s) :
    Run env (h.map fun p => (⟨p.1, []⟩, .system p.2)) ⟨s, []⟩ := by
  induction run with
  | start hs => exact .start ⟨hs, rfl⟩
  | step run hnext ih =>
      rw [List.map_append]
      exact ih.step (by simp only [next, hnext])

/-- A worker claims, a call comes too early, a later one recovers the run, then a worker again. -/
def mixedClaims : List Action :=
  (Scenario.createActions [Scenario.dataRead] ++ Scenario.publishActions 0 ++
      Scenario.claimActions 0 0).map .system ++
    .claimRunLease Scenario.runId "early" 1000000 :: List.replicate 3 (.lease 0) ++
      .system (.tick 30000001) ::
        .claimRunLease Scenario.runId "recovery" 1000000 :: List.replicate 7 (.lease 1) ++
          (.tick 120000000 :: Scenario.claimActions 0 1).map .system

theorem mixedClaims_leaseExclusive : ∃ h t, Run Scenario.env h t ∧
    (h.countP fun p => (claim? p.1 p.2).isSome) = 3 ∧ Exclusive Scenario.env h t := by
  obtain ⟨h, t, run, htest⟩ := @exec_of_replay System Action
    (fun s => Initial s.toState ∧ s.leases = []) (next Scenario.env) ⟨Scenario.start 5, []⟩
    ⟨Scenario.initial 5, rfl⟩ mixedClaims
    (fun h _ => (h.countP fun p => (claim? p.1 p.2).isSome) = 3) (by decide +kernel)
  exact ⟨h, t, run, of_decide_eq_true htest, leaseExclusive run⟩

end DurableRuntime.Lease
