import DurableRuntime.Locking
import DurableRuntime.Scenario
import Mathlib.Logic.Relation

/-!
# Waiting for locks

Every lock in the table belongs to a session that holds it.  A creation takes
the limits of its tenant before its idempotency key, and whoever holds a key or
a run waits for nothing more.  So a chain of sessions that wait for each other
has at most two links, and no circle can close, unless publishers mark the same
rows at once: their updates lock row by row, in whatever order they meet them.
-/

namespace DurableRuntime

open DurableRuntime.Foundation

namespace Worker

/-- What the next statement of a worker waits for outside its own claim. -/
def Pc.wants : Pc → List Resource
  | effect run _ | record run _ _ _ _ | awaitApproval run _ | heartbeatUpdate run _ _
  | complete run | eventCommit run _ _ => [.run run.ref.id]
  | _ => []

end Worker

namespace ControlPlane

def Session.wants (s : Shared) (session : Session) : List Resource :=
  match session.pc with
  | .createLimits _ _ => [.limits session.principal.tenantId]
  | .createInsert create _ _ => [.runKey session.principal.tenantId create.idempotencyKey]
  | .transitionLock _ runId _ =>
      if (runOfTenant? s session.principal.tenantId runId).isSome then [.run runId] else []
  | _ => []

/-- Some session can still be in front of this one: one for a key or a run, two for limits. -/
def Pc.waitRank : Pc → Nat
  | createLimits _ _ => 2
  | createInsert _ _ _ | transitionLock _ _ _ => 1
  | _ => 0

end ControlPlane

namespace Outbox

/-- The row that the scan of an update meets next can be any of those left. -/
def Pc.wants : Pc → List Resource
  | marking _ _ left => left.map .outbox
  | _ => []

/-- The rows that a publisher is marking: those it has locked, and those left. -/
def Pc.marks : Pc → List Nat
  | marking _ delivered left => delivered ++ left
  | _ => []

end Outbox

namespace State

def held (s : State) : Holder → List Resource
  | .worker index => ((s.workers[index]?).map fun session => session.pc.held).getD []
  | .call index => ((s.calls[index]?).map ControlPlane.Session.held).getD []
  | .publisher index => ((s.publishers[index]?).map fun session => session.pc.held).getD []
  | .lease _ => []

def wants (s : State) : Holder → List Resource
  | .worker index => ((s.workers[index]?).map fun session => session.pc.wants).getD []
  | .call index => ((s.calls[index]?).map (ControlPlane.Session.wants s.toShared)).getD []
  | .publisher index => ((s.publishers[index]?).map fun session => session.pc.wants).getD []
  | .lease _ => []

def waitRank (s : State) : Holder → Nat
  | .call index => ((s.calls[index]?).map fun session => session.pc.waitRank).getD 0
  | me => if s.wants me = [] then 0 else 1

/-- The outbox rows that a session is marking as published. -/
def marks (s : State) : Holder → List Nat
  | .publisher index => ((s.publishers[index]?).map fun session => session.pc.marks).getD []
  | _ => []

end State

/-- The next statement of one session waits for a lock that the other holds. -/
def WaitsFor (s : State) (me you : Holder) : Prop :=
  ∃ x ∈ s.wants me, s.locks x = some you

/-- Two publishers mark a common row at once. -/
def Overlaps (s : State) (me you : Holder) : Prop :=
  me ≠ you ∧ ∃ id, id ∈ s.marks me ∧ id ∈ s.marks you

/-- No lock is left behind. -/
def LocksOwned (s : State) : Prop :=
  ∀ x me, s.locks x = some me → x ∈ s.held me

section

variable {env : Env} {s s' : State} {a : Action} {h : History State Action}

theorem regrant_owned {me you : Holder} {newly : List Resource} {x : Resource}
    (h : regrant me newly s.locks x = some you) :
    (you = me ∧ x ∈ newly) ∨ (you ≠ me ∧ s.locks x = some you) := by
  unfold regrant at h
  split at h
  · rename_i hmem
    rw [Option.some.injEq] at h
    exact .inl ⟨h.symm, hmem⟩
  · split at h
    · cases h
    · rename_i hne
      refine .inr ⟨?_, h⟩
      rintro rfl
      exact hne h

theorem LocksOwned.next (owned : LocksOwned s) (hnext : next env s a = some s') :
    LocksOwned s' := by
  intro x me hlock
  have kept : ∀ {β : Type} {l l' : List β} {index : Nat} {f : β → List Resource},
      x ∈ ((l[index]?).map f).getD [] → (∀ b, l[index]? = some b → l'[index]? = some b) →
        x ∈ ((l'[index]?).map f).getD [] := by
    intro β l l' index f hmem hsame
    cases hl : l[index]? with
    | none => simp [hl] at hmem
    | some b =>
        rw [hsame b hl]
        rwa [hl] at hmem
  have joined : ∀ {β : Type} {l : List β} {index : Nat} {c : β}, ∀ b, l[index]? = some b →
      (l ++ [c])[index]? = some b := by
    intro β l index c b hb
    rw [List.getElem?_append_left (List.getElem?_eq_some_iff.mp hb).1, hb]
  cases next_step hnext with
  | tick => exact owned x me hlock
  | createWorkflow => exact owned x me hlock
  | request =>
      have hmem := owned x me hlock
      cases me with
      | call => exact kept hmem joined
      | _ => exact hmem
  | publishPending =>
      have hmem := owned x me hlock
      cases me with
      | publisher => exact kept hmem joined
      | _ => exact hmem
  | deliver =>
      have hmem := owned x me hlock
      cases me with
      | worker => exact kept hmem joined
      | _ => exact hmem
  | @call _ index session moved effect hactor hcommit hcall hturn =>
      have hlt := (List.getElem?_eq_some_iff.mp hcall).1
      rcases regrant_owned hlock with ⟨rfl, hmem⟩ | ⟨hne, hlock⟩
      · simpa [State.held, State.moveCall, List.getElem?_set_self hlt] using hmem
      · have hmem := owned x me hlock
        cases me with
        | call other =>
            have hother : other ≠ index := fun heq => hne (by rw [heq])
            simpa [State.held, State.moveCall, List.getElem?_set_ne hother.symm] using hmem
        | _ => exact hmem
  | @publisher _ index session pc effect hactor hcommit hpublisher hturn =>
      have hlt := (List.getElem?_eq_some_iff.mp hpublisher).1
      rcases regrant_owned hlock with ⟨rfl, hmem⟩ | ⟨hne, hlock⟩
      · simpa [State.held, State.movePublisher, List.getElem?_set_self hlt] using hmem
      · have hmem := owned x me hlock
        cases me with
        | publisher other =>
            have hother : other ≠ index := fun heq => hne (by rw [heq])
            simpa [State.held, State.movePublisher, List.getElem?_set_ne hother.symm] using hmem
        | _ => exact hmem
  | @worker _ index session pc effect hactor hcommit hworker hturn =>
      have hlt := (List.getElem?_eq_some_iff.mp hworker).1
      rcases regrant_owned hlock with ⟨rfl, hmem⟩ | ⟨hne, hlock⟩
      · simpa [State.held, State.moveWorker, List.getElem?_set_self hlt] using hmem
      · have hmem := owned x me hlock
        cases me with
        | worker other =>
            have hother : other ≠ index := fun heq => hne (by rw [heq])
            simpa [State.held, State.moveWorker, List.getElem?_set_ne hother.symm] using hmem
        | _ => exact hmem

theorem run_locksOwned (run : Run env h s) : LocksOwned s := by
  refine run.always ?_ fun _ owned hnext => owned.next hnext
  intro s hs x me hlock
  rw [hs.locks] at hlock
  cases hlock

/-! ## Chains of waiting sessions -/

/-- A request that holds more than limits or a handle waits for nothing. -/
theorem ControlPlane.Session.waitRank_of_held {session : ControlPlane.Session} {x : Resource}
    (h : x ∈ session.held) (hlimits : ∀ tenantId, x ≠ .limits tenantId)
    (hhandle : ∀ handle, x ≠ .handle handle) : session.pc.waitRank = 0 := by
  have hheld : x ∈ session.pc.held session.principal.tenantId := by
    rcases List.mem_append.mp h with hheld | hissued
    · exact hheld
    · exfalso
      split at hissued
      · cases hissued
      · simp only [Option.mem_toList, Option.map_eq_some_iff] at hissued
        obtain ⟨handle, -, rfl⟩ := hissued
        exact hhandle handle rfl
  cases hpc : session.pc with
  | createLimits => simp [hpc, ControlPlane.Pc.held, ControlPlane.Pc.limitsLocked,
      ControlPlane.Pc.writes?] at hheld
  | createInsert =>
      simp [hpc, ControlPlane.Pc.held, ControlPlane.Pc.limitsLocked,
        ControlPlane.Pc.writes?] at hheld
      exact absurd hheld (hlimits _)
  | transitionLock => simp [hpc, ControlPlane.Pc.held, ControlPlane.Pc.limitsLocked,
      ControlPlane.Pc.writes?] at hheld
  | _ => rfl

theorem ControlPlane.Session.waitRank_of_limits {session : ControlPlane.Session}
    {tenantId : Uuid} (h : Resource.limits tenantId ∈ session.held) :
    session.pc.waitRank ≤ 1 := by
  have hheld : Resource.limits tenantId ∈ session.pc.held session.principal.tenantId := by
    rcases List.mem_append.mp h with hheld | hissued
    · exact hheld
    · split at hissued <;> simp at hissued
  cases hpc : session.pc with
  | createLimits => simp [hpc, ControlPlane.Pc.held, ControlPlane.Pc.limitsLocked,
      ControlPlane.Pc.writes?] at hheld
  | createInsert => exact Nat.le_refl 1
  | transitionLock => exact Nat.le_refl 1
  | _ => exact Nat.zero_le 1

theorem Worker.Pc.wants_of_held {pc : Worker.Pc} {x : Resource} (h : x ∈ pc.held) :
    pc.wants = [] := by
  cases pc <;> simp_all [Worker.Pc.held, Worker.Pc.lockedRow?, Worker.Pc.wants]

/-- A publisher that holds rows and waits for others is marking them. -/
theorem Outbox.Pc.marks_of_held {pc : Outbox.Pc} {id : Nat} (h : Resource.outbox id ∈ pc.held) :
    pc.wants = [] ∨ id ∈ pc.marks := by
  cases pc with
  | marking now delivered left =>
      simp only [Outbox.Pc.held, List.mem_map, List.mem_filter, decide_eq_true_eq,
        Resource.outbox.injEq, exists_eq_right] at h
      exact .inr (List.mem_append_left _ h.1)
  | _ => exact .inl rfl

theorem Outbox.Pc.held_kind {pc : Outbox.Pc} {x : Resource} (h : x ∈ pc.held) :
    ∃ id, x = .outbox id := by
  cases pc with
  | claimUpdate messages =>
      obtain ⟨message, -, rfl⟩ := List.mem_map.mp h
      exact ⟨_, rfl⟩
  | claimCommit messages =>
      obtain ⟨message, -, rfl⟩ := List.mem_map.mp h
      exact ⟨_, rfl⟩
  | marking now delivered left =>
      obtain ⟨id, -, rfl⟩ := List.mem_map.mp h
      exact ⟨_, rfl⟩
  | _ => cases h

/-- A statement waits for limits, a key, a run, or the rows that it marks. -/
theorem wants_kind {me : Holder} {x : Resource} (h : x ∈ s.wants me) :
    (∃ tenantId, x = .limits tenantId ∧ s.waitRank me = 2) ∨
      (s.waitRank me = 1 ∧ (∀ tenantId, x ≠ .limits tenantId) ∧ (∀ handle, x ≠ .handle handle) ∧
        ∀ id, x ≠ .outbox id) ∨
      ∃ id, x = .outbox id ∧ id ∈ s.marks me ∧ s.waitRank me = 1 := by
  cases me with
  | worker index =>
      cases hworker : s.workers[index]? with
      | none => simp [State.wants, hworker] at h
      | some session =>
          have hrank : s.waitRank (.worker index) = 1 := if_neg (List.ne_nil_of_mem h)
          simp only [State.wants, hworker, Option.map_some, Option.getD_some] at h
          refine .inr (.inl ⟨hrank, ?_⟩)
          unfold Worker.Pc.wants at h
          split at h <;> simp_all
  | publisher index =>
      cases hpublisher : s.publishers[index]? with
      | none => simp [State.wants, hpublisher] at h
      | some session =>
          have hrank : s.waitRank (.publisher index) = 1 := if_neg (List.ne_nil_of_mem h)
          simp only [State.wants, hpublisher, Option.map_some, Option.getD_some] at h
          unfold Outbox.Pc.wants at h
          split at h
          · rename_i now delivered left hpc
            obtain ⟨id, hid, rfl⟩ := List.mem_map.mp h
            refine .inr (.inr ⟨id, rfl, ?_, hrank⟩)
            simp [State.marks, hpublisher, Outbox.Pc.marks, hpc, hid]
          · cases h
  | call index =>
      cases hcall : s.calls[index]? with
      | none => simp [State.wants, hcall] at h
      | some session =>
          simp only [State.wants, hcall, Option.map_some, Option.getD_some] at h
          simp only [State.waitRank, hcall, Option.map_some, Option.getD_some]
          unfold ControlPlane.Session.wants at h
          split at h
          · rename_i hpc
            rw [List.mem_singleton] at h
            exact .inl ⟨_, h, by rw [hpc]; rfl⟩
          · rename_i hpc
            rw [List.mem_singleton] at h
            subst h
            exact .inr (.inl ⟨by rw [hpc]; rfl, by simp, by simp, by simp⟩)
          · rename_i hpc
            split at h
            · rw [List.mem_singleton] at h
              subst h
              exact .inr (.inl ⟨by rw [hpc]; rfl, by simp, by simp, by simp⟩)
            · cases h
          · cases h
  | lease => cases h

theorem waitRank_of_held {you : Holder} {x : Resource} (h : x ∈ s.held you)
    (hhandle : ∀ handle, x ≠ .handle handle) :
    s.waitRank you ≤ 1 ∧ ((∀ tenantId, x ≠ .limits tenantId) →
      s.waitRank you = 0 ∨ ∃ id, x = .outbox id ∧ id ∈ s.marks you) := by
  cases you with
  | worker index =>
      cases hworker : s.workers[index]? with
      | none => simp [State.held, hworker] at h
      | some session =>
          simp only [State.held, hworker, Option.map_some, Option.getD_some] at h
          have hrank : s.waitRank (.worker index) = 0 := by
            simp [State.waitRank, State.wants, hworker, Worker.Pc.wants_of_held h]
          exact ⟨by omega, fun _ => .inl hrank⟩
  | publisher index =>
      cases hpublisher : s.publishers[index]? with
      | none => simp [State.held, hpublisher] at h
      | some session =>
          simp only [State.held, hpublisher, Option.map_some, Option.getD_some] at h
          obtain ⟨id, rfl⟩ := Outbox.Pc.held_kind h
          refine ⟨by simp only [State.waitRank]; split <;> omega, fun _ => ?_⟩
          rcases Outbox.Pc.marks_of_held h with hnone | hmarks
          · exact .inl (by simp [State.waitRank, State.wants, hpublisher, hnone])
          · exact .inr ⟨id, rfl, by simpa [State.marks, hpublisher] using hmarks⟩
  | call index =>
      cases hcall : s.calls[index]? with
      | none => simp [State.held, hcall] at h
      | some session =>
          simp only [State.held, hcall, Option.map_some, Option.getD_some] at h
          simp only [State.waitRank, hcall, Option.map_some, Option.getD_some]
          refine ⟨?_, fun hlimits =>
            .inl (ControlPlane.Session.waitRank_of_held h hlimits hhandle)⟩
          by_cases hlimits : ∃ tenantId, x = .limits tenantId
          · obtain ⟨tenantId, rfl⟩ := hlimits
            exact ControlPlane.Session.waitRank_of_limits h
          · rw [ControlPlane.Session.waitRank_of_held h (fun t ht => hlimits ⟨t, ht⟩) hhandle]
            exact Nat.zero_le 1
  | lease => cases h

/-- A session does not wait for itself. -/
theorem not_wants_of_held {me : Holder} {id : Nat} (hwants : Resource.outbox id ∈ s.wants me)
    (hheld : Resource.outbox id ∈ s.held me) : False := by
  cases me with
  | publisher index =>
      cases hpublisher : s.publishers[index]? with
      | none => simp [State.held, hpublisher] at hheld
      | some session =>
          simp only [State.wants, hpublisher, Option.map_some, Option.getD_some] at hwants
          simp only [State.held, hpublisher, Option.map_some, Option.getD_some] at hheld
          unfold Outbox.Pc.wants at hwants
          split at hwants
          · rename_i now delivered left hpc
            simp only [List.mem_map, Resource.outbox.injEq, exists_eq_right] at hwants
            simp only [hpc, Outbox.Pc.held, List.mem_map, List.mem_filter, decide_eq_true_eq,
              Resource.outbox.injEq, exists_eq_right] at hheld
            exact hheld.2 hwants
          · cases hwants
  | _ =>
      rcases wants_kind hwants with ⟨tenantId, hx, -⟩ | ⟨-, -, -, hx⟩ | ⟨other, -, hmarks, -⟩
      · cases hx
      · exact hx id rfl
      · cases hmarks

/-- Whoever is waited for has fewer sessions in front of it, unless both mark a common row. -/
theorem waitRank_lt (owned : LocksOwned s) {me you : Holder} (hwaits : WaitsFor s me you) :
    s.waitRank you < s.waitRank me ∨ Overlaps s me you ∧ s.waitRank you ≤ s.waitRank me := by
  obtain ⟨x, hwants, hlock⟩ := hwaits
  have hheld := owned x you hlock
  rcases wants_kind hwants with ⟨tenantId, rfl, hrank⟩ | ⟨hrank, hlimits, hhandle, hrow⟩ |
    ⟨id, rfl, hmine, hrank⟩
  · have hle := (waitRank_of_held hheld (by simp)).1
    omega
  · rcases (waitRank_of_held hheld hhandle).2 hlimits with hzero | ⟨id, rfl, -⟩
    · omega
    · exact absurd rfl (hrow id)
  · obtain ⟨hle, hzero⟩ := waitRank_of_held hheld (by simp)
    rcases hzero (by simp) with hzero | ⟨other, hx, hyours⟩
    · omega
    · cases hx
      refine .inr ⟨⟨?_, id, hmine, hyours⟩, by omega⟩
      rintro rfl
      exact not_wants_of_held hwants hheld

/-- No session of a chain has more in front of it than the first. -/
theorem waitRank_chain (owned : LocksOwned s) {me you : Holder}
    (hchain : Relation.ReflTransGen (WaitsFor s) me you) : s.waitRank you ≤ s.waitRank me := by
  induction hchain with
  | refl => exact Nat.le_refl _
  | tail _ hwaits ih =>
      rcases waitRank_lt owned hwaits with hlt | ⟨-, hle⟩ <;> omega

theorem waitRank_le (me : Holder) : s.waitRank me ≤ 2 := by
  cases me with
  | call index =>
      cases hcall : s.calls[index]? with
      | none => simp [State.waitRank, hcall]
      | some session =>
          simp only [State.waitRank, hcall, Option.map_some, Option.getD_some]
          cases session.pc <;> simp [ControlPlane.Pc.waitRank]
  | _ =>
      simp only [State.waitRank]
      split <;> omega

/-! ## Sessions that cannot move -/

theorem free_or_locked (s : Shared) (x : Resource) :
    s.free x = true ∨ ∃ you, s.locks x = some you := by
  unfold Shared.free
  cases s.locks x with
  | none => exact .inl rfl
  | some you => exact .inr ⟨you, rfl⟩

theorem worker_moves (env : Env) (s : Shared) (session : Worker.Session)
    (hlive : session.pc ≠ .gone) :
    (∃ reply, (Worker.step env s session.id reply session.pc).isSome = true) ∨
      ∃ x ∈ session.pc.wants, ∃ you, s.locks x = some you := by
  cases hpc : session.pc with
  | gone => exact absurd hpc hlive
  | claimSelect ref now =>
      refine .inl ⟨.none, ?_⟩
      simp only [Worker.step]
      split <;> rfl
  | claimEvents ref now row definition =>
      refine .inl ⟨.none, ?_⟩
      simp only [Worker.step]
      split <;> rfl
  | consume run index handle prompt => exact .inl ⟨.consume .unreachable, rfl⟩
  | provider run index credential prompt => exact .inl ⟨.provider .failed, rfl⟩
  | fetch run index target => exact .inl ⟨.fetch .failed, rfl⟩
  | effect run index =>
      refine (free_or_locked s (.run run.ref.id)).imp (fun hfree => ⟨.none, ?_⟩)
        fun hlocked => ⟨_, List.mem_singleton_self _, hlocked⟩
      simp only [Worker.step, hfree, if_true]
      split <;> rfl
  | returned outcome =>
      refine .inl ⟨.none, ?_⟩
      cases outcome <;> rfl
  | terminate run state code after => exact .inl ⟨.none, by rw [Worker.step_terminate]; rfl⟩
  | record run _ _ _ _ | awaitApproval run _ | heartbeatUpdate run _ _ | complete run
  | eventCommit run _ _ =>
      refine (free_or_locked s (.run run.ref.id)).imp (fun hfree => ⟨.none, ?_⟩)
        fun hlocked => ⟨_, List.mem_singleton_self _, hlocked⟩
      simp [Worker.step, hfree]
  | _ => exact .inl ⟨.none, rfl⟩

/-- Whichever row the scan of an update meets next, it locks the row or waits for it. -/
theorem marking_moves (s : Shared) (limit : Nat) (now : Int) (delivered : List Nat)
    {left : List Nat} {place id : Nat} (hrow : left[place]? = some id) :
    (Outbox.step s limit (.row place) (.marking now delivered left)).isSome = true ∨
      ∃ you, s.locks (.outbox id) = some you := by
  refine (free_or_locked s (.outbox id)).imp_left fun hfree => ?_
  cases left with
  | nil => cases hrow
  | cons first left => simp [Outbox.step, hrow, hfree]

theorem publisher_moves (s : Shared) (session : Outbox.Session)
    (hlive : session.pc.isRunning = true) :
    (∃ reply, (Outbox.step s session.limit reply session.pc).isSome = true) ∨
      ∃ x ∈ session.pc.wants, ∃ you, s.locks x = some you := by
  cases hpc : session.pc with
  | publish messages delivered =>
      refine .inl ⟨.acked, ?_⟩
      cases messages <;> rfl
  | mark delivered =>
      refine .inl ⟨.none, ?_⟩
      cases delivered <;> rfl
  | marking now delivered left =>
      cases left with
      | nil => exact .inl ⟨.none, rfl⟩
      | cons id left =>
          have hrow : (id :: left)[0]? = some id := rfl
          exact (marking_moves s session.limit now delivered hrow).imp (fun hmove => ⟨_, hmove⟩)
            fun hlocked => ⟨_, List.mem_map_of_mem List.mem_cons_self, hlocked⟩
  | done count => simp [hpc, Outbox.Pc.isRunning] at hlive
  | failed => simp [hpc, Outbox.Pc.isRunning] at hlive
  | _ => exact .inl ⟨.none, rfl⟩

/-- The uuid is one that the request can draw: unused, and for a run that fits its table. -/
structure Draws (s : Shared) (session : ControlPlane.Session) (choice : Uuid) : Prop where
  handle : ControlPlane.freshHandle s choice = true
  run : ∀ create now budgetCents, session.pc = .createInsert create now budgetCents →
    ControlPlane.insertable s (ControlPlane.newRun session.principal.tenantId create
      session.handle choice now budgetCents) = true

theorem startCreate_moves {s : Shared} {session : ControlPlane.Session} {choice : Uuid}
    (hdraws : Draws s session choice) (create : ControlPlane.CreateRun) :
    (ControlPlane.startCreate s session create choice).isSome = true := by
  unfold ControlPlane.startCreate
  repeat' split
  all_goals first | rfl | exact absurd hdraws.handle (by assumption)

theorem call_moves {env : Env} {s : Shared} {session : ControlPlane.Session} {choice : Uuid}
    (hlive : ∀ response, session.pc ≠ .done response) (hdraws : Draws s session choice) :
    (ControlPlane.step env s choice session).isSome = true ∨
      ∃ x ∈ session.wants s, ∃ you, s.locks x = some you := by
  have inner : (∀ create, ¬(session.pc = .route ∧ session.request = .createRun create)) →
      (ControlPlane.stepPc env s choice session session.pc).isSome = true →
      (ControlPlane.step env s choice session).isSome = true := by
    intro hroute hsome
    unfold ControlPlane.step
    split
    · rename_i create hpc hrequest
      exact absurd ⟨hpc, hrequest⟩ (hroute create)
    · obtain ⟨move, hmove⟩ := Option.isSome_iff_exists.mp hsome
      rw [hmove]
      rfl
  have wants : ∀ x, session.wants s = [x] → (s.free x = true →
      (ControlPlane.step env s choice session).isSome = true) →
      (ControlPlane.step env s choice session).isSome = true ∨
        ∃ x ∈ session.wants s, ∃ you, s.locks x = some you := by
    intro x hx hstep
    refine (free_or_locked s x).imp hstep fun hlocked => ⟨x, ?_, hlocked⟩
    rw [hx]
    exact List.mem_singleton_self x
  cases hpc : session.pc with
  | done response => exact absurd hpc (hlive response)
  | route =>
      left
      cases hrequest : session.request with
      | createRun create =>
          simp only [ControlPlane.step, hpc, hrequest]
          exact startCreate_moves hdraws create
      | _ =>
          refine inner (by simp [hrequest]) ?_
          rw [hpc, ControlPlane.stepPc, hrequest]
          rfl
  | createLimits create now =>
      refine wants (.limits session.principal.tenantId) (by simp [ControlPlane.Session.wants, hpc])
        fun hfree => inner (by simp [hpc]) ?_
      rw [hpc, ControlPlane.stepPc, if_pos hfree]
      split <;> rfl
  | createInsert create now budgetCents =>
      refine wants (.runKey session.principal.tenantId create.idempotencyKey)
        (by simp [ControlPlane.Session.wants, hpc]) fun hfree => inner (by simp [hpc]) ?_
      rw [hpc, ControlPlane.stepPc, ControlPlane.insertRun, if_pos hfree]
      cases PostgresDurableStore.jsonError env create.input with
      | some message => rfl
      | none =>
          by_cases hfound :
              (s.db.runByKey? session.principal.tenantId create.idempotencyKey).isSome = true
          · rw [if_pos hfound]
            rfl
          · rw [if_neg hfound]
            simp only [hdraws.run create now budgetCents hpc, if_true]
            rfl
  | transitionLock args runId now =>
      cases hrow : ControlPlane.runOfTenant? s session.principal.tenantId runId with
      | none =>
          refine .inl (inner (by simp [hpc]) ?_)
          simp [hpc, ControlPlane.stepPc, ControlPlane.lockRun, hrow]
      | some row =>
          refine wants (.run runId) (by simp [ControlPlane.Session.wants, hpc, hrow])
            fun hfree => inner (by simp [hpc]) ?_
          cases hassert : assertTransition row.state args.state <;>
            simp [hpc, ControlPlane.stepPc, ControlPlane.lockRun, hrow, hfree, hassert]
  | createLookup create now | createUsage create now limits | createWorkflow create now
  | createRaced create | discard run | insertEvent now eventType detail writes
  | queueOutbox now eventType writes =>
      refine .inl (inner (by simp [hpc]) ?_)
      rw [hpc]
      simp only [ControlPlane.stepPc]
      split <;> rfl
  | _ =>
      refine .inl (inner (by simp [hpc]) ?_)
      rw [hpc]
      rfl

/-! ## No deadlock -/

structure DeadlockFree (env : Env) (s : State) : Prop where
  /-- All that closes a circle of waiting sessions are marks of common rows. -/
  circles : ∀ me you, WaitsFor s me you → Relation.ReflTransGen (WaitsFor s) you me →
    Overlaps s me you
  short : ∀ a b c d, WaitsFor s a b → WaitsFor s b c → WaitsFor s c d →
    Overlaps s a b ∨ Overlaps s b c ∨ Overlaps s c d
  workers : ∀ (index : Nat) (session : Worker.Session), s.workers[index]? = some session →
    session.pc ≠ .gone →
      (∃ reply, (next env s (.worker index reply)).isSome = true) ∨
        ∃ you, WaitsFor s (.worker index) you
  publishers : ∀ (index : Nat) (session : Outbox.Session), s.publishers[index]? = some session →
    session.pc.isRunning = true →
      (∃ reply, (next env s (.publisher index reply)).isSome = true) ∨
        ∃ you, WaitsFor s (.publisher index) you
  scans : ∀ (index : Nat) (session : Outbox.Session) now delivered left place id,
    s.publishers[index]? = some session → session.pc = .marking now delivered left →
      left[place]? = some id →
        (next env s (.publisher index (.row place))).isSome = true ∨
          ∃ you, s.locks (.outbox id) = some you ∧ WaitsFor s (.publisher index) you
  calls : ∀ (index : Nat) (session : ControlPlane.Session) choice,
    s.calls[index]? = some session → (∀ response, session.pc ≠ .done response) →
      Draws s.toShared session choice →
      (next env s (.call index choice)).isSome = true ∨ ∃ you, WaitsFor s (.call index) you

/--
In every reachable state each unfinished session can make its next move, unless
that move waits for a lock of another session; no circle of sessions waits for
each other, and behind two that wait the third one does not, except where
publishers that mark a common row wait for each other.
-/
theorem deadlockFree (run : Run env h s) : DeadlockFree env s := by
  have owned := run_locksOwned run
  refine ⟨?_, ?_, ?_, ?_, ?_, ?_⟩
  · intro me you hwaits hback
    have hle := waitRank_chain owned hback
    rcases waitRank_lt owned hwaits with hlt | ⟨hoverlaps, -⟩
    · omega
    · exact hoverlaps
  · intro a b c d hab hbc hcd
    have hle := @waitRank_le s a
    rcases waitRank_lt owned hab with hlt | ⟨hoverlaps, -⟩
    · rcases waitRank_lt owned hbc with hlt' | ⟨hoverlaps, -⟩
      · rcases waitRank_lt owned hcd with hlt'' | ⟨hoverlaps, -⟩
        · omega
        · exact .inr (.inr hoverlaps)
      · exact .inr (.inl hoverlaps)
    · exact .inl hoverlaps
  · intro index session hworker hlive
    rcases worker_moves env s.toShared session hlive with ⟨reply, hmove⟩ | ⟨x, hx, you, hlock⟩
    · refine .inl ⟨reply, ?_⟩
      obtain ⟨move, hmove⟩ := Option.isSome_iff_exists.mp hmove
      simp [next, hworker, hmove]
    · exact .inr ⟨you, x, by simpa [State.wants, hworker] using hx, hlock⟩
  · intro index session hpublisher hlive
    rcases publisher_moves s.toShared session hlive with ⟨reply, hmove⟩ | ⟨x, hx, you, hlock⟩
    · refine .inl ⟨reply, ?_⟩
      obtain ⟨move, hmove⟩ := Option.isSome_iff_exists.mp hmove
      simp [next, hpublisher, hmove]
    · exact .inr ⟨you, x, by simpa [State.wants, hpublisher] using hx, hlock⟩
  · intro index session now delivered left place id hpublisher hpc hrow
    rcases marking_moves s.toShared session.limit now delivered hrow with hmove | ⟨you, hlock⟩
    · refine .inl ?_
      obtain ⟨move, hmove⟩ := Option.isSome_iff_exists.mp hmove
      simp [next, hpublisher, hpc, hmove]
    · refine .inr ⟨you, hlock, .outbox id, ?_, hlock⟩
      simp [State.wants, hpublisher, Outbox.Pc.wants, hpc, List.mem_of_getElem? hrow]
  · intro index session choice hcall hlive hdraws
    rcases @call_moves env _ _ _ hlive hdraws with hmove | ⟨x, hx, you, hlock⟩
    · refine .inl ?_
      obtain ⟨move, hmove⟩ := Option.isSome_iff_exists.mp hmove
      simp [next, hcall, hmove]
    · exact .inr ⟨you, x, by simpa [State.wants, hcall] using hx, hlock⟩

end

/-- Two requests create the same run: the second waits for the limits of the tenant. -/
def contended : List Action :=
  .createWorkflow Scenario.owner Scenario.workflowId (Scenario.workflow [Scenario.dataRead]) ::
    Scenario.createRun :: List.replicate 4 (.call 0 Scenario.runId) ++
    Scenario.createRun :: List.replicate 3 (.call 1 Scenario.runId)

theorem contended_deadlockFree : ∃ h s, Run Scenario.env h s ∧
    WaitsFor s (.call 1) (.call 0) ∧ DeadlockFree Scenario.env s := by
  obtain ⟨h, s, run, htest⟩ := Scenario.exists_run 5 contended
    (fun _ s => (s.wants (.call 1)).any fun x => s.locks x = some (.call 0)) (by decide +kernel)
  obtain ⟨x, hwants, hlock⟩ := List.any_eq_true.mp htest
  exact ⟨h, s, run, ⟨x, hwants, of_decide_eq_true hlock⟩, deadlockFree run⟩

/-- Two publishers claim the same two rows and mark them in opposite orders. -/
def crossedMarks : List Action :=
  Scenario.createActions [Scenario.dataRead] ++
    .request Scenario.owner (.createRun ⟨Scenario.workflowId, .obj [], none,
      "idempotency-key-2"⟩) :: List.replicate 12 (.call 1 8) ++
    ([0, 1].flatMap fun publisher => .publishPending 2 ::
      List.replicate 4 (.publisher publisher .none) ++
        [.publisher publisher .acked, .publisher publisher .acked, .publisher publisher .none,
          .publisher publisher .none]) ++
    [.publisher 0 (.row 0), .publisher 1 (.row 1)]

/-- The circle that the marks can close is there in a run of the system. -/
theorem crossedMarks_circle : ∃ h s, Run Scenario.env h s ∧
    WaitsFor s (.publisher 0) (.publisher 1) ∧ WaitsFor s (.publisher 1) (.publisher 0) := by
  obtain ⟨h, s, run, htest⟩ := Scenario.exists_run 5 crossedMarks
    (fun _ s => ((s.wants (.publisher 0)).any fun x => s.locks x = some (.publisher 1)) &&
      (s.wants (.publisher 1)).any fun x => s.locks x = some (.publisher 0)) (by decide +kernel)
  simp only [Bool.and_eq_true, List.any_eq_true, decide_eq_true_eq] at htest
  exact ⟨h, s, run, htest⟩

end DurableRuntime
