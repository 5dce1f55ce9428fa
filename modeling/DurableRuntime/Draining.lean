import DurableRuntime.Foundation.Continuations
import DurableRuntime.Scenario
import DurableRuntime.Steps
import DurableRuntime.Worker.Main
import Mathlib.Algebra.Order.BigOperators.Group.List

/-!
# The drain of a worker process

A process works on as many deliveries as it has handlers, and each delivery is
in one place: with the iterator, with the receive loop, in the channel or with
one handler.  After a signal the process returns without the help of anybody
else, and leaves no delivery half done.
-/

namespace DurableRuntime.Worker

open DurableRuntime.Foundation

def Receiver.session? : Receiver → Option Nat
  | select session => some session
  | _ => none

namespace Process

/-- The deliveries that no handler has taken. -/
def waiting (process : Process) : List Nat :=
  process.buffered ++ process.receiver.session?.toList ++ process.jobs

def handled (process : Process) : List Nat := process.handlers.filterMap Handler.session?

end Process

def Pc.isReceived : Pc → Bool
  | received _ => true
  | _ => false

/-! ## Moves -/

/-- `mainNext`, inverted. -/
inductive MainMove (env : Env) (d : Deployment) : MainAction → Deployment → Prop
  | other {action system} (hforeign : d.foreign action = true)
      (hnext : DurableRuntime.next env d.system action = some system) :
      MainMove env d (.other action) { d with system }
  | pull {message system} (hreceiving : d.process.receiving = true)
      (hroom : d.process.buffered.length < d.process.concurrency * 4)
      (hnext : DurableRuntime.next env d.system (.deliver message d.process.workerId) =
        some system) :
      MainMove env d (.pull message)
        { system
          process :=
            { d.process with buffered := d.process.buffered ++ [d.system.workers.length] } }
  | signal : MainMove env d .signal { d with process := { d.process with receiveDone := true } }
  | close (hreceiver : d.process.receiver = .condition) (hdone : d.process.receiveDone = true) :
      MainMove env d .condition
        { d with process := { d.process with receiver := .wait, buffered := [], closed := true } }
  | continue (hreceiver : d.process.receiver = .condition)
      (hdone : d.process.receiveDone = false) :
      MainMove env d .condition { d with process := { d.process with receiver := .next } }
  | next {session buffered} (hreceiver : d.process.receiver = .next)
      (hbuffered : d.process.buffered = session :: buffered) :
      MainMove env d .next
        { d with process := { d.process with receiver := .select session, buffered } }
  | nextFailed (hreceiver : d.process.receiver = .next) :
      MainMove env d .nextFailed { d with process := { d.process with receiver := .condition } }
  | send {session} (hreceiver : d.process.receiver = .select session)
      (hroom : d.process.jobs.length < d.process.concurrency * 4) :
      MainMove env d .send
        { d with
          process :=
            { d.process with receiver := .condition, jobs := d.process.jobs ++ [session] } }
  | abandon {session} (hreceiver : d.process.receiver = .select session)
      (hdone : d.process.receiveDone = true) :
      MainMove env d .abandon { d with process := { d.process with receiver := .condition } }
  | timeout (hreceiver : d.process.receiver = .wait) :
      MainMove env d .timeout
        { d with process := { d.process with receiver := .waitDrained, workDone := true } }
  | drained (hreceiver : d.process.receiver = .wait ∨ d.process.receiver = .waitDrained)
      (hdone : ∀ handler ∈ d.process.handlers, handler = .done) :
      MainMove env d .drained { d with process := { d.process with receiver := .returned } }
  | take {handler session : Nat} {jobs} (hhandler : d.process.handlers[handler]? = some .range)
      (hjobs : d.process.jobs = session :: jobs) :
      MainMove env d (.take handler)
        { d with process := { d.setHandler handler (.body session) with jobs } }
  | handle {a action system} {handler session : Nat}
      (hhandler : d.process.handlers[handler]? = some (.body session))
      (hactor : actor action = some (.worker session))
      (hnext : DurableRuntime.next env d.system action = some system) :
      MainMove env d a { d with system }
  | finish {handler session : Nat} {worker}
      (hhandler : d.process.handlers[handler]? = some (.body session))
      (hworker : d.system.workers[session]? = some worker) (hgone : worker.pc = .gone) :
      MainMove env d (.finish handler) { d with process := d.setHandler handler .range }
  | endRange {handler : Nat} (hhandler : d.process.handlers[handler]? = some .range)
      (hjobs : d.process.jobs = []) (hclosed : d.process.closed = true) :
      MainMove env d (.endRange handler) { d with process := d.setHandler handler .done }

section

variable {env : Env} {d d' : Deployment} {a : MainAction}

theorem handle_move {handler : Nat} {action : Nat → Action}
    (hactor : ∀ session, actor (action session) = some (.worker session))
    (h : d.handle env handler action = some d') : MainMove env d a d' := by
  unfold Deployment.handle at h
  split at h
  · rename_i session hhandler
    obtain ⟨system, hnext, rfl⟩ := Option.map_eq_some_iff.mp h
    exact .handle hhandler (hactor session) hnext
  · cases h

theorem mainNext_move (h : mainNext env d a = some d') : MainMove env d a d' := by
  cases a with
  | other action =>
      simp only [mainNext] at h
      split at h
      · rename_i hforeign
        obtain ⟨system, hnext, rfl⟩ := Option.map_eq_some_iff.mp h
        exact .other hforeign hnext
      · cases h
  | pull message =>
      simp only [mainNext] at h
      split at h
      · rename_i hguard
        simp only [Bool.and_eq_true, decide_eq_true_eq] at hguard
        obtain ⟨system, hnext, rfl⟩ := Option.map_eq_some_iff.mp h
        exact .pull hguard.1 hguard.2 hnext
      · cases h
  | signal =>
      cases h
      exact .signal
  | condition =>
      simp only [mainNext] at h
      split at h
      · rename_i hreceiver
        split at h
        · rename_i hdone
          cases h
          exact .close hreceiver hdone
        · rename_i hdone
          cases h
          exact .continue hreceiver (Bool.not_eq_true _ ▸ hdone)
      · cases h
  | next =>
      simp only [mainNext] at h
      split at h
      · rename_i hreceiver hbuffered
        cases h
        exact .next hreceiver hbuffered
      · cases h
  | nextFailed =>
      simp only [mainNext] at h
      split at h
      · rename_i hreceiver
        cases h
        exact .nextFailed hreceiver
      · cases h
  | send =>
      simp only [mainNext] at h
      split at h
      · rename_i hreceiver
        split at h
        · rename_i hroom
          cases h
          exact .send hreceiver hroom
        · cases h
      · cases h
  | abandon =>
      simp only [mainNext] at h
      split at h
      · rename_i hreceiver
        split at h
        · rename_i hdone
          cases h
          exact .abandon hreceiver hdone
        · cases h
      · cases h
  | timeout =>
      simp only [mainNext] at h
      split at h
      · rename_i hreceiver
        cases h
        exact .timeout hreceiver
      · cases h
  | drained =>
      simp only [mainNext] at h
      split at h
      · rename_i hguard
        cases h
        exact .drained hguard.1 hguard.2
      · cases h
  | take handler =>
      simp only [mainNext] at h
      split at h
      · rename_i hhandler hjobs
        cases h
        exact .take hhandler hjobs
      · cases h
  | work handler reply => exact handle_move (fun _ => rfl) h
  | fail handler => exact handle_move (fun _ => rfl) h
  | answerLost handler =>
      simp only [mainNext] at h
      split at h
      · split at h
        · exact handle_move (fun _ => rfl) h
        · cases h
      · cases h
  | finish handler =>
      simp only [mainNext] at h
      split at h
      · rename_i hhandler
        split at h
        · rename_i hworker
          cases h
          exact .finish hhandler hworker rfl
        · cases h
      · cases h
  | endRange handler =>
      simp only [mainNext] at h
      split at h
      · rename_i hhandler hjobs
        split at h
        · rename_i hclosed
          cases h
          exact .endRange hhandler hjobs hclosed
        · cases h
      · cases h

/-! ## The process by itself -/

/-- The channel is closed behind the loop, and handlers end only when it is empty. -/
structure Process.Orderly (process : Process) : Prop where
  handlers : process.handlers.length = process.concurrency
  positive : 0 < process.concurrency
  buffered : process.buffered.length ≤ process.concurrency * 4
  jobs : process.jobs.length ≤ process.concurrency * 4
  closed : process.closed = !process.receiving
  stopped : process.receiving = false → process.receiveDone = true ∧ process.buffered = []
  done : Handler.done ∈ process.handlers → process.closed = true ∧ process.jobs = []
  cancelled : process.receiver = .waitDrained → process.workDone = true
  returned : process.receiver = .returned → ∀ handler ∈ process.handlers, handler = .done

theorem workerConcurrency_pos (setting : String) : 0 < workerConcurrency setting := by
  unfold workerConcurrency
  split
  · split
    · rename_i hparsed
      simp only [Bool.and_eq_true, decide_eq_true_eq] at hparsed
      omega
    · omega
  · omega

theorem workerConcurrency_le (setting : String) : workerConcurrency setting ≤ 128 := by
  unfold workerConcurrency
  split
  · split
    · rename_i hparsed
      simp only [Bool.and_eq_true, decide_eq_true_eq] at hparsed
      omega
    · omega
  · omega

theorem Process.Orderly.start (workerId setting : String) :
    (Process.start workerId setting).Orderly where
  handlers := List.length_replicate
  positive := workerConcurrency_pos setting
  buffered := Nat.zero_le _
  jobs := Nat.zero_le _
  closed := rfl
  stopped := by simp [Process.start, Process.receiving]
  done := by simp [Process.start]
  cancelled := by simp [Process.start]
  returned := by simp [Process.start]

theorem MainMove.orderly (hmove : MainMove env d a d') (h : d.process.Orderly) :
    d'.process.Orderly := by
  cases hmove with
  | other => exact h
  | handle => exact h
  | pull hreceiving hroom hnext =>
      refine { h with
        buffered := by
          rw [List.length_append]
          exact hroom
        stopped := fun hstopped => ?_ }
      rw [Process.receiving] at hreceiving hstopped
      rw [hreceiving] at hstopped
      cases hstopped
  | signal => exact { h with stopped := fun hstopped => ⟨rfl, (h.stopped hstopped).2⟩ }
  | close hreceiver hdone =>
      refine { h with
        buffered := Nat.zero_le _
        closed := rfl
        stopped := fun _ => ⟨hdone, rfl⟩
        done := fun hmem => ⟨rfl, (h.done hmem).2⟩
        cancelled := fun hwait => by cases hwait
        returned := fun hreturned => by cases hreturned }
  | «continue» hreceiver hdone =>
      refine { h with
        closed := by rw [h.closed]; simp [Process.receiving, hreceiver]
        stopped := fun hstopped => by cases hstopped
        cancelled := fun hwait => by cases hwait
        returned := fun hreturned => by cases hreturned }
  | next hreceiver hbuffered =>
      refine { h with
        buffered := by have := h.buffered; rw [hbuffered] at this; exact Nat.le_of_succ_le this
        closed := by rw [h.closed]; simp [Process.receiving, hreceiver]
        stopped := fun hstopped => by cases hstopped
        cancelled := fun hwait => by cases hwait
        returned := fun hreturned => by cases hreturned }
  | nextFailed hreceiver =>
      refine { h with
        closed := by rw [h.closed]; simp [Process.receiving, hreceiver]
        stopped := fun hstopped => by cases hstopped
        cancelled := fun hwait => by cases hwait
        returned := fun hreturned => by cases hreturned }
  | send hreceiver hroom =>
      refine { h with
        jobs := by
          rw [List.length_append]
          exact hroom
        closed := by rw [h.closed]; simp [Process.receiving, hreceiver]
        stopped := fun hstopped => by cases hstopped
        done := fun hmem => ?_
        cancelled := fun hwait => by cases hwait
        returned := fun hreturned => by cases hreturned }
      have hclosed := (h.done hmem).1
      rw [h.closed] at hclosed
      simp [Process.receiving, hreceiver] at hclosed
  | abandon hreceiver hdone =>
      refine { h with
        closed := by rw [h.closed]; simp [Process.receiving, hreceiver]
        stopped := fun hstopped => by cases hstopped
        cancelled := fun hwait => by cases hwait
        returned := fun hreturned => by cases hreturned }
  | timeout hreceiver =>
      refine { h with
        closed := by rw [h.closed]; simp [Process.receiving, hreceiver]
        stopped := fun _ => h.stopped (by simp [Process.receiving, hreceiver])
        cancelled := fun _ => rfl
        returned := fun hreturned => by cases hreturned }
  | drained hreceiver hdone =>
      refine { h with
        closed := by rw [h.closed]; rcases hreceiver with hr | hr <;> simp [Process.receiving, hr]
        stopped := fun _ => h.stopped (by
          rcases hreceiver with hr | hr <;> simp [Process.receiving, hr])
        cancelled := fun hwait => by cases hwait
        returned := fun _ => hdone }
  | take hhandler hjobs =>
      have hopen : ∀ process : Process, process.handlers = d.process.handlers →
          ¬∀ handler ∈ process.handlers, handler = .done := by
        intro process heq hall
        cases hall _ (heq ▸ List.mem_of_getElem? hhandler)
      refine { h with
        handlers := by simpa [Deployment.setHandler] using h.handlers
        jobs := by have := h.jobs; rw [hjobs] at this; exact Nat.le_of_succ_le this
        done := fun hmem => ?_
        returned := fun hreturned => (hopen d.process rfl (h.returned hreturned)).elim }
      rcases List.mem_or_eq_of_mem_set hmem with hmem | hmem
      · have hempty := (h.done hmem).2
        rw [hjobs] at hempty
        cases hempty
      · cases hmem
  | finish hhandler hworker hgone =>
      refine { h with
        handlers := by simpa [Deployment.setHandler] using h.handlers
        done := fun hmem => ?_
        returned := fun hreturned => by
          cases h.returned hreturned _ (List.mem_of_getElem? hhandler) }
      rcases List.mem_or_eq_of_mem_set hmem with hmem | hmem
      · exact h.done hmem
      · cases hmem
  | endRange hhandler hjobs hclosed =>
      refine { h with
        handlers := by simpa [Deployment.setHandler] using h.handlers
        done := fun _ => ⟨hclosed, hjobs⟩
        returned := fun hreturned => by
          cases h.returned hreturned _ (List.mem_of_getElem? hhandler) }

/-! ## The places of the deliveries -/

/-- The session has been delivered to this process. -/
def Deployment.Mine (d : Deployment) (index : Nat) (session : Session) : Prop :=
  d.system.workers[index]? = some session ∧ session.id = d.process.workerId

structure Placed (d : Deployment) : Prop where
  apart : d.process.waiting.Nodup
  waiting : ∀ index ∈ d.process.waiting,
    ∃ session, d.Mine index session ∧ session.pc.isReceived = true
  taken : ∀ (handler index : Nat), d.process.handlers[handler]? = some (.body index) →
    index ∉ d.process.waiting ∧ ∃ session, d.Mine index session
  once : ∀ (handler other index : Nat), d.process.handlers[handler]? = some (.body index) →
    d.process.handlers[other]? = some (.body index) → handler = other
  placed : ∀ index session, d.Mine index session → index ∈ d.process.waiting ∨
    (∃ handler : Nat, d.process.handlers[handler]? = some (.body index)) ∨
      session.pc = .gone ∨ (d.process.receiveDone = true ∧ session.pc.isReceived = true)

/-- A step that does not move a session leaves it as it is. -/
theorem workers_next {s s' : State} {action : Action} {index : Nat} {session : Session}
    (hnext : DurableRuntime.next env s action = some s')
    (hactor : actor action ≠ some (.worker index)) (hworker : s.workers[index]? = some session) :
    s'.workers[index]? = some session := by
  obtain ⟨later, hlater⟩ := worker_persists hnext hworker
  cases worker_case hnext hlater with
  | kept hold =>
      rw [hworker] at hold
      cases hold
      exact hlater
  | joined _ _ _ hnew =>
      rw [hworker] at hnew
      cases hnew
  | turned _ hturn => exact absurd hturn hactor

theorem foreign_actor {action : Action} (hforeign : d.foreign action = true) {index : Nat}
    {session : Session} (hmine : d.Mine index session) :
    actor action ≠ some (.worker index) := by
  have howns : d.owns index = true := by simp [Deployment.owns, hmine.1, hmine.2]
  intro hactor
  cases action <;> cases hactor <;> simp [Deployment.foreign, howns] at hforeign

/-- The rest of the system neither takes a delivery from the process nor gives it one. -/
theorem foreign_mine {action : Action} {system : State} (hforeign : d.foreign action = true)
    (hnext : DurableRuntime.next env d.system action = some system) {index : Nat}
    {session : Session} :
    Deployment.Mine { d with system } index session ↔ d.Mine index session := by
  constructor
  · rintro ⟨hworker, hid⟩
    cases worker_case hnext hworker with
    | kept hold => exact ⟨hold, hid⟩
    | joined haction =>
        subst haction
        simp [Deployment.foreign] at hforeign
        exact absurd hid hforeign
    | turned hold hactor => exact absurd hactor (foreign_actor hforeign ⟨hold, hid⟩)
  · intro hmine
    exact ⟨workers_next hnext (foreign_actor hforeign hmine) hmine.1, hmine.2⟩

theorem Placed.other {action : Action} {system : State} (placed : Placed d)
    (hforeign : d.foreign action = true)
    (hnext : DurableRuntime.next env d.system action = some system) :
    Placed { d with system } where
  apart := placed.apart
  waiting := by
    intro index hindex
    obtain ⟨session, hmine, hreceived⟩ := placed.waiting index hindex
    exact ⟨session, (foreign_mine hforeign hnext).mpr hmine, hreceived⟩
  taken := by
    intro handler index hhandler
    obtain ⟨hnot, session, hmine⟩ := placed.taken handler index hhandler
    exact ⟨hnot, session, (foreign_mine hforeign hnext).mpr hmine⟩
  once := placed.once
  placed := fun index session hmine =>
    placed.placed index session ((foreign_mine hforeign hnext).mp hmine)

/-- A handler moves its own delivery only. -/
theorem Placed.handle {action : Action} {system : State} {handler index : Nat} (placed : Placed d)
    (hhandler : d.process.handlers[handler]? = some (.body index))
    (hactor : actor action = some (.worker index))
    (hnext : DurableRuntime.next env d.system action = some system) :
    Placed { d with system } where
  apart := placed.apart
  waiting := by
    intro other hother
    have hne : index ≠ other := fun heq => (placed.taken handler index hhandler).1 (heq ▸ hother)
    obtain ⟨session, hmine, hreceived⟩ := placed.waiting other hother
    exact ⟨session, ⟨workers_next hnext (by simpa [hactor] using hne) hmine.1, hmine.2⟩,
      hreceived⟩
  taken := by
    intro other moved hother
    obtain ⟨hnot, session, hmine⟩ := placed.taken other moved hother
    obtain ⟨later, hlater⟩ := worker_persists hnext hmine.1
    refine ⟨hnot, later, hlater, ?_⟩
    cases worker_case hnext hlater with
    | kept hold =>
        rw [hmine.1] at hold
        cases hold
        exact hmine.2
    | joined _ _ _ hnew =>
        rw [hmine.1] at hnew
        cases hnew
    | turned hold =>
        rw [hmine.1] at hold
        cases hold
        exact hmine.2
  once := placed.once
  placed := by
    rintro other session ⟨hworker, hid⟩
    cases worker_case hnext hworker with
    | kept hold => exact placed.placed other session ⟨hold, hid⟩
    | joined haction =>
        subst haction
        cases hactor
    | turned hold hmoved =>
        rw [hactor, Option.some.injEq, Holder.worker.injEq] at hmoved
        exact .inr (.inl ⟨handler, hmoved ▸ hhandler⟩)

theorem Placed.pull {message : Nat} {system : State} (placed : Placed d)
    (hnext : DurableRuntime.next env d.system (.deliver message d.process.workerId) = some system) :
    Placed
      { system
        process :=
          { d.process with buffered := d.process.buffered ++ [d.system.workers.length] } } := by
  have hkept : ∀ index session, d.Mine index session → system.workers[index]? = some session :=
    fun index session hmine => workers_next hnext (by simp [actor]) hmine.1
  have hfresh : ∀ session, ¬d.Mine d.system.workers.length session := by
    rintro session ⟨hworker, -⟩
    simp at hworker
  have hnew : ∃ session, system.workers[d.system.workers.length]? = some session ∧
      session.id = d.process.workerId ∧ session.pc.isReceived = true := by
    cases next_step hnext with
    | deliver hmessage => exact ⟨_, List.getElem?_concat_length, rfl, rfl⟩
    | call hactor => cases hactor
    | publisher hactor => cases hactor
    | worker hactor => cases hactor
  have hperm : ({ d.process with
      buffered := d.process.buffered ++ [d.system.workers.length] } : Process).waiting.Perm
      (d.system.workers.length :: d.process.waiting) := by
    simp only [Process.waiting, List.append_assoc, List.singleton_append]
    exact List.perm_middle
  have hwaiting : ∀ index ∈ d.process.waiting, index ≠ d.system.workers.length := by
    rintro index hindex rfl
    obtain ⟨session, hmine, -⟩ := placed.waiting _ hindex
    exact hfresh session hmine
  refine ⟨?_, ?_, ?_, placed.once, ?_⟩
  · rw [hperm.nodup_iff, List.nodup_cons]
    exact ⟨fun hmem => hwaiting _ hmem rfl, placed.apart⟩
  · intro index hindex
    rcases List.mem_cons.mp (hperm.mem_iff.mp hindex) with rfl | hindex
    · obtain ⟨session, hworker, hid, hreceived⟩ := hnew
      exact ⟨session, ⟨hworker, hid⟩, hreceived⟩
    · obtain ⟨session, hmine, hreceived⟩ := placed.waiting index hindex
      exact ⟨session, ⟨hkept index session hmine, hmine.2⟩, hreceived⟩
  · intro handler index hhandler
    obtain ⟨hnot, session, hmine⟩ := placed.taken handler index hhandler
    refine ⟨fun hindex => ?_, session, hkept index session hmine, hmine.2⟩
    rcases List.mem_cons.mp (hperm.mem_iff.mp hindex) with rfl | hindex
    · exact hfresh session hmine
    · exact hnot hindex
  · rintro index session ⟨hworker, hid⟩
    rw [hperm.mem_iff, List.mem_cons]
    cases worker_case hnext hworker with
    | kept hold =>
        rcases placed.placed index session ⟨hold, hid⟩ with hindex | hrest
        · exact .inl (.inr hindex)
        · exact .inr hrest
    | joined haction hmessage hunacked hnone =>
        refine .inl (.inl ?_)
        have hlt := (List.getElem?_eq_some_iff.mp hworker).1
        have hle := List.getElem?_eq_none_iff.mp hnone
        cases next_step hnext with
        | deliver => simp at hlt; omega
        | call hactor => cases hactor
        | publisher hactor => cases hactor
        | worker hactor => cases hactor
    | turned _ hactor => cases hactor

/-- The receive loop hands deliveries on, or drops them once it is told to stop. -/
theorem Placed.rearranged {process : Process} (placed : Placed d)
    (hid : process.workerId = d.process.workerId)
    (hhandlers : process.handlers = d.process.handlers)
    (hsub : process.waiting.Subperm d.process.waiting)
    (hdone : d.process.receiveDone = true → process.receiveDone = true)
    (hdropped : process.receiveDone = true ∨ d.process.waiting ⊆ process.waiting) :
    Placed { d with process } where
  apart := by
    obtain ⟨l, hperm, hsublist⟩ := hsub
    exact hperm.nodup_iff.mp (placed.apart.sublist hsublist)
  waiting := by
    intro index hindex
    obtain ⟨session, ⟨hworker, hmine⟩, hreceived⟩ := placed.waiting index (hsub.subset hindex)
    exact ⟨session, ⟨hworker, hmine.trans hid.symm⟩, hreceived⟩
  taken := by
    intro handler index hhandler
    rw [hhandlers] at hhandler
    obtain ⟨hnot, session, hworker, hmine⟩ := placed.taken handler index hhandler
    exact ⟨fun hindex => hnot (hsub.subset hindex), session, hworker, hmine.trans hid.symm⟩
  once := by
    intro handler other index
    rw [hhandlers]
    exact placed.once handler other index
  placed := by
    rintro index session ⟨hworker, hmine⟩
    rw [hhandlers]
    rcases placed.placed index session ⟨hworker, hmine.trans hid⟩ with hindex | htaken | hgone |
      ⟨hsignal, hreceived⟩
    · rcases hdropped with hsignal | hall
      · obtain ⟨_, ⟨hsame, -⟩, hreceived⟩ := placed.waiting index hindex
        rw [hworker, Option.some.injEq] at hsame
        exact .inr (.inr (.inr ⟨hsignal, hsame ▸ hreceived⟩))
      · exact .inl (hall hindex)
    · exact .inr (.inl htaken)
    · exact .inr (.inr (.inl hgone))
    · exact .inr (.inr (.inr ⟨hdone hsignal, hreceived⟩))

theorem Placed.take {handler index : Nat} {jobs : List Nat} (placed : Placed d)
    (hhandler : d.process.handlers[handler]? = some .range)
    (hjobs : d.process.jobs = index :: jobs) :
    Placed { d with process := { d.setHandler handler (.body index) with jobs } } := by
  have hperm : d.process.waiting.Perm
      (index :: ({ d.setHandler handler (.body index) with jobs } : Process).waiting) := by
    simp only [Process.waiting, Deployment.setHandler, hjobs]
    exact List.perm_middle
  have hnodup := List.nodup_cons.mp (hperm.nodup_iff.mp placed.apart)
  have hwaiting : index ∈ d.process.waiting := hperm.mem_iff.mpr List.mem_cons_self
  have hset : ∀ {other moved : Nat},
      (d.process.handlers.set handler (.body index))[other]? = some (.body moved) →
        (other = handler ∧ moved = index) ∨
          (other ≠ handler ∧ d.process.handlers[other]? = some (.body moved)) := by
    intro other moved hother
    rcases getElem?_set_some hother with ⟨rfl, heq⟩ | hkept
    · cases heq
      exact .inl ⟨rfl, rfl⟩
    · exact .inr hkept
  have hlt := (List.getElem?_eq_some_iff.mp hhandler).1
  refine ⟨hnodup.2, ?_, ?_, ?_, ?_⟩
  · intro other hother
    obtain ⟨session, hmine, hreceived⟩ :=
      placed.waiting other (hperm.mem_iff.mpr (List.mem_cons_of_mem _ hother))
    exact ⟨session, hmine, hreceived⟩
  · intro other moved hother
    rcases hset hother with ⟨-, rfl⟩ | ⟨-, hkept⟩
    · obtain ⟨session, hmine, -⟩ := placed.waiting moved hwaiting
      exact ⟨hnodup.1, session, hmine⟩
    · obtain ⟨hnot, session, hmine⟩ := placed.taken other moved hkept
      exact ⟨fun hmem => hnot (hperm.mem_iff.mpr (List.mem_cons_of_mem _ hmem)), session, hmine⟩
  · intro one other moved hone hother
    rcases hset hone with ⟨rfl, rfl⟩ | ⟨-, hold⟩
    · rcases hset hother with ⟨rfl, -⟩ | ⟨-, hold⟩
      · rfl
      · exact absurd hwaiting (placed.taken other moved hold).1
    · rcases hset hother with ⟨rfl, rfl⟩ | ⟨-, hold'⟩
      · exact absurd hwaiting (placed.taken one moved hold).1
      · exact placed.once one other moved hold hold'
  · intro other session hmine
    rcases placed.placed other session hmine with hother | ⟨taker, htaker⟩ | hrest
    · rcases List.mem_cons.mp (hperm.mem_iff.mp hother) with rfl | hother
      · exact .inr (.inl ⟨handler, List.getElem?_set_self hlt⟩)
      · exact .inl hother
    · refine .inr (.inl ⟨taker, ?_⟩)
      have hne : handler ≠ taker := by
        rintro rfl
        rw [hhandler] at htaker
        cases htaker
      exact (List.getElem?_set_ne hne).trans htaker
    · exact .inr (.inr hrest)

/-- A handler lets go of a delivery only when it has been answered. -/
theorem Placed.release {handler : Nat} {value : Handler} (placed : Placed d)
    (hvalue : value.session? = none)
    (hgone : ∀ index session, d.process.handlers[handler]? = some (.body index) →
      d.Mine index session → session.pc = .gone) :
    Placed { d with process := d.setHandler handler value } := by
  have hset : ∀ {other index : Nat},
      (d.process.handlers.set handler value)[other]? = some (.body index) →
        other ≠ handler ∧ d.process.handlers[other]? = some (.body index) := by
    intro other index hother
    rcases getElem?_set_some hother with ⟨rfl, rfl⟩ | hkept
    · cases hvalue
    · exact hkept
  refine ⟨placed.apart, placed.waiting, ?_, ?_, ?_⟩
  · intro other index hother
    exact placed.taken other index (hset hother).2
  · intro one other index hone hother
    exact placed.once one other index (hset hone).2 (hset hother).2
  · intro index session hmine
    rcases placed.placed index session hmine with hindex | ⟨taker, htaker⟩ | hrest
    · exact .inl hindex
    · by_cases heq : taker = handler
      · exact .inr (.inr (.inl (hgone index session (heq ▸ htaker) hmine)))
      · exact .inr (.inl ⟨taker, (List.getElem?_set_ne (Ne.symm heq)).trans htaker⟩)
    · exact .inr (.inr hrest)

theorem MainMove.placed (hmove : MainMove env d a d') (placed : Placed d) : Placed d' := by
  cases hmove with
  | other hforeign hnext => exact placed.other hforeign hnext
  | pull hreceiving hroom hnext => exact placed.pull hnext
  | handle hhandler hactor hnext => exact placed.handle hhandler hactor hnext
  | signal =>
      exact placed.rearranged rfl rfl (List.Subperm.refl _) (fun _ => rfl) (.inl rfl)
  | close hreceiver hdone =>
      refine placed.rearranged rfl rfl (List.Sublist.subperm ?_) id (.inl hdone)
      simp only [Process.waiting, hreceiver, Receiver.session?, Option.toList_none,
        List.append_nil, List.nil_append]
      exact List.sublist_append_right _ _
  | «continue» hreceiver hdone =>
      have heq : ({ d.process with receiver := .next } : Process).waiting = d.process.waiting := by
        simp [Process.waiting, hreceiver, Receiver.session?]
      exact placed.rearranged rfl rfl (by rw [heq]) id (.inr (by rw [heq]; exact fun _ => id))
  | @next session buffered hreceiver hbuffered =>
      have hperm : ({ d.process with receiver := .select session, buffered } : Process).waiting.Perm
          d.process.waiting := by
        simp only [Process.waiting, hreceiver, hbuffered, Receiver.session?, Option.toList_none,
          Option.toList_some, List.append_nil, List.append_assoc, List.singleton_append]
        exact List.perm_middle
      exact placed.rearranged rfl rfl hperm.subperm id (.inr hperm.symm.subset)
  | nextFailed hreceiver =>
      have heq : ({ d.process with receiver := .condition } : Process).waiting =
          d.process.waiting := by
        simp [Process.waiting, hreceiver, Receiver.session?]
      exact placed.rearranged rfl rfl (by rw [heq]) id (.inr (by rw [heq]; exact fun _ => id))
  | @send session hreceiver hroom =>
      have hperm : ({ d.process with
          receiver := .condition
          jobs := d.process.jobs ++ [session] } : Process).waiting.Perm d.process.waiting := by
        simp only [Process.waiting, hreceiver, Receiver.session?, Option.toList_none,
          Option.toList_some, List.append_nil, List.append_assoc]
        exact List.Perm.append_left _ List.perm_append_comm
      exact placed.rearranged rfl rfl hperm.subperm id (.inr hperm.symm.subset)
  | abandon hreceiver hdone =>
      refine placed.rearranged rfl rfl (List.Sublist.subperm ?_) id (.inl hdone)
      simp only [Process.waiting, hreceiver, Receiver.session?, Option.toList_none,
        Option.toList_some, List.append_nil, List.append_assoc]
      exact List.Sublist.append_left (List.sublist_append_right _ _) _
  | timeout hreceiver =>
      have heq : ({ d.process with receiver := .waitDrained, workDone := true } : Process).waiting =
          d.process.waiting := by
        simp [Process.waiting, hreceiver, Receiver.session?]
      exact placed.rearranged rfl rfl (by rw [heq]) id (.inr (by rw [heq]; exact fun _ => id))
  | drained hreceiver hdone =>
      have heq : ({ d.process with receiver := .returned } : Process).waiting =
          d.process.waiting := by
        rcases hreceiver with hr | hr <;> simp [Process.waiting, hr, Receiver.session?]
      exact placed.rearranged rfl rfl (by rw [heq]) id (.inr (by rw [heq]; exact fun _ => id))
  | take hhandler hjobs => exact placed.take hhandler hjobs
  | @finish handler session worker hhandler hworker hgone =>
      refine placed.release rfl ?_
      rintro index other hbody ⟨hother, -⟩
      rw [hhandler] at hbody
      cases hbody
      rw [hworker] at hother
      cases hother
      exact hgone
  | endRange hhandler hjobs hclosed =>
      refine placed.release rfl ?_
      intro index other hbody
      rw [hhandler] at hbody
      cases hbody

/-! ## Giving up -/

def Pc.movesToGone : Pc → Nat
  | gone => 0
  | returned _ => 1
  | received _ | provider _ _ _ _ | fetch _ _ _ => 3
  | consume _ _ _ _ => 4
  | _ => 2

theorem worker_moves {s : State} {index : Nat} {session : Session} {reply : Reply} {pc : Pc}
    {effect : Effect} (hworker : s.workers[index]? = some session)
    (hstep : step env s.toShared session.id reply session.pc = some (pc, effect)) :
    DurableRuntime.next env s (.worker index reply) =
      some (s.moveWorker index session pc effect) := by
  simp only [DurableRuntime.next, hworker, hstep]

/-- When every call fails, a delivery comes nearer to its answer without anybody's help. -/
theorem gives_up {s : State} {index : Nat} {session : Session}
    (hworker : s.workers[index]? = some session) (hpc : session.pc ≠ .gone) :
    ∃ action pc effect, (action = .workerError index ∨ ∃ reply, action = .worker index reply) ∧
      DurableRuntime.next env s action = some (s.moveWorker index session pc effect) ∧
        pc.movesToGone < session.pc.movesToGone := by
  have hfail : session.pc.mayFail = true → (Pc.returned .error).movesToGone <
      session.pc.movesToGone → ∃ action pc effect,
        (action = .workerError index ∨ ∃ reply, action = .worker index reply) ∧
          DurableRuntime.next env s action = some (s.moveWorker index session pc effect) ∧
            pc.movesToGone < session.pc.movesToGone := by
    intro hmay hless
    refine ⟨_, _, .none, .inl rfl, ?_, hless⟩
    simp only [DurableRuntime.next, hworker, hmay, if_true]
  have hmove : ∀ {reply pc effect},
      step env s.toShared session.id reply session.pc = some (pc, effect) →
        pc.movesToGone < session.pc.movesToGone → ∃ action pc effect,
          (action = .workerError index ∨ ∃ reply, action = .worker index reply) ∧
            DurableRuntime.next env s action = some (s.moveWorker index session pc effect) ∧
              pc.movesToGone < session.pc.movesToGone := by
    intro reply pc effect hstep hless
    exact ⟨_, pc, effect, .inr ⟨reply, rfl⟩, worker_moves hworker hstep, hless⟩
  cases hold : session.pc with
  | received runId =>
      rw [hold] at hmove
      refine @hmove .none _ _ rfl ?_
      unfold process
      repeat' split
      · exact Nat.lt_succ_self 2
      · exact (by decide : 1 < 3)
      · exact (by decide : 1 < 3)
  | consume run index handle prompt =>
      rw [hold] at hmove
      exact @hmove (.consume .unreachable) _ _ rfl (by decide : 2 < 4)
  | provider run index credential prompt =>
      rw [hold] at hmove
      exact @hmove (.provider .failed) _ _ rfl (Nat.lt_succ_self 2)
  | fetch run index target =>
      rw [hold] at hmove
      exact @hmove (.fetch .failed) _ _ rfl (Nat.lt_succ_self 2)
  | returned outcome =>
      rw [hold] at hmove
      cases outcome with
      | error => exact @hmove .none _ _ rfl Nat.zero_lt_one
      | ok => exact @hmove .none _ _ rfl Nat.zero_lt_one
      | invalidQueueMessage => exact @hmove .none _ _ rfl Nat.zero_lt_one
  | gone => exact absurd hold hpc
  | _ =>
      rw [hold] at hfail
      exact hfail rfl (Nat.lt_succ_self 1)

/-! ## The way to the end -/

def Receiver.movesLeft : Receiver → Nat
  | next | select _ => 4
  | condition => 3
  | wait => 2
  | waitDrained => 1
  | returned => 0

def State.movesToGone (s : State) (index : Nat) : Nat :=
  ((s.workers[index]?).map fun session => session.pc.movesToGone).getD 0

def Handler.movesLeft (s : State) : Handler → Nat
  | range => 1
  | body session => 2 + State.movesToGone s session
  | done => 0

def Deployment.movesLeft (d : Deployment) : Nat :=
  d.process.receiver.movesLeft + 6 * d.process.jobs.length +
    (d.process.handlers.map (Handler.movesLeft d.system)).sum

/-- A move of a delivery that is being handled brings the whole process nearer to its end. -/
theorem movesLeft_handled {handler index : Nat} {session : Session} {pc : Pc} {effect : Effect}
    (hhandler : d.process.handlers[handler]? = some (.body index))
    (hworker : d.system.workers[index]? = some session)
    (hless : pc.movesToGone < session.pc.movesToGone) :
    Deployment.movesLeft { d with system := d.system.moveWorker index session pc effect } <
      d.movesLeft := by
  have hlt := (List.getElem?_eq_some_iff.mp hworker).1
  have hown : State.movesToGone (d.system.moveWorker index session pc effect) index <
      State.movesToGone d.system index := by
    simp only [State.movesToGone, State.moveWorker, List.getElem?_set_self hlt, hworker,
      Option.map_some, Option.getD_some]
    exact hless
  have hweight : ∀ other, State.movesToGone (d.system.moveWorker index session pc effect) other ≤
      State.movesToGone d.system other := by
    intro other
    by_cases heq : other = index
    · rw [heq]
      exact Nat.le_of_lt hown
    · simp only [State.movesToGone, State.moveWorker, List.getElem?_set_ne (Ne.symm heq)]
      exact Nat.le_refl _
  refine Nat.add_lt_add_left (List.sum_lt_sum _ _ ?_ ⟨.body index, ?_, ?_⟩) _
  · intro value _
    cases value with
    | body other => exact Nat.add_le_add_left (hweight other) 2
    | _ => exact Nat.le_refl _
  · exact List.mem_of_getElem? hhandler
  · exact Nat.add_lt_add_left hown 2

/-- A handler with a delivery answers it, or lets go of it. -/
theorem Placed.handled_advances (placed : Placed d) (hcancelled : d.process.workDone = true)
    {handler index : Nat} (hhandler : d.process.handlers[handler]? = some (.body index)) :
    ∃ a d', Own d a ∧ mainNext env d a = some d' ∧ d'.movesLeft < d.movesLeft := by
  obtain ⟨-, session, hworker, -⟩ := placed.taken handler index hhandler
  by_cases hgone : session.pc = .gone
  · obtain ⟨id, message, pc⟩ := session
    cases hgone
    refine ⟨.finish handler, _, trivial, by simp only [mainNext, hhandler, hworker]; rfl, ?_⟩
    have hsum := sum_map_set (f := Handler.movesLeft d.system) (b := .range) hhandler
    simp only [Handler.movesLeft] at hsum
    simp only [Deployment.movesLeft, Deployment.setHandler]
    omega
  · obtain ⟨action, pc, effect, haction, hnext, hless⟩ := @gives_up env _ _ _ hworker hgone
    have hmoves := @movesLeft_handled d _ _ _ pc effect hhandler hworker hless
    rcases haction with rfl | ⟨reply, rfl⟩
    · refine ⟨.fail handler, _, hcancelled, ?_, hmoves⟩
      simp only [mainNext, Deployment.handle, hhandler, hnext, Option.map_some]
    · refine ⟨.work handler reply, _, trivial, ?_, hmoves⟩
      simp only [mainNext, Deployment.handle, hhandler, hnext, Option.map_some]

/-- Handlers that are free take the next delivery, or end behind the closed channel. -/
theorem Placed.idle_advances (placed : Placed d) (orderly : d.process.Orderly)
    (hpos : d.process.receiver = .waitDrained)
    (hidle : ∀ (handler : Nat) value, d.process.handlers[handler]? = some value →
      value = .range ∨ value = .done) :
    ∃ a d', Own d a ∧ mainNext env d a = some d' ∧ d'.movesLeft < d.movesLeft := by
  have hclosed : d.process.closed = true := by
    rw [orderly.closed]
    simp [Process.receiving, hpos]
  cases hjobs : d.process.jobs with
  | cons index jobs =>
      have hpositive : 0 < d.process.handlers.length := by
        rw [orderly.handlers]
        exact orderly.positive
      have hhandler : d.process.handlers[0]? = some .range := by
        have hget := List.getElem?_eq_getElem hpositive
        rcases hidle 0 _ hget with heq | heq
        · rw [hget, heq]
        · have hempty := (orderly.done (heq ▸ List.getElem_mem hpositive)).2
          rw [hjobs] at hempty
          cases hempty
      refine ⟨.take 0, _, trivial, by simp only [mainNext, hhandler, hjobs]; rfl, ?_⟩
      obtain ⟨session, ⟨hworker, -⟩, hreceived⟩ := placed.waiting index (by
        simp [Process.waiting, hjobs])
      have hthree : session.pc.movesToGone = 3 := by
        cases hpc : session.pc <;> rw [hpc] at hreceived <;> first | rfl | cases hreceived
      have hsum := sum_map_set (f := Handler.movesLeft d.system) (b := .body index) hhandler
      simp only [Handler.movesLeft, State.movesToGone, hworker, Option.map_some,
        Option.getD_some, hthree] at hsum
      simp only [Deployment.movesLeft, Deployment.setHandler, hjobs, List.length_cons]
      omega
  | nil =>
      by_cases hrange : ∃ handler : Nat, d.process.handlers[handler]? = some .range
      · obtain ⟨handler, hhandler⟩ := hrange
        refine ⟨.endRange handler, _, trivial, by
          simp only [mainNext, hhandler, hjobs, hclosed, if_true]; rfl, ?_⟩
        have hsum := sum_map_set (f := Handler.movesLeft d.system) (b := .done) hhandler
        simp only [Handler.movesLeft] at hsum
        simp only [Deployment.movesLeft, Deployment.setHandler]
        omega
      · have hdone : ∀ handler ∈ d.process.handlers, handler = .done := by
          intro value hvalue
          obtain ⟨handler, hhandler⟩ := List.getElem?_of_mem hvalue
          rcases hidle handler value hhandler with rfl | rfl
          · exact absurd ⟨handler, hhandler⟩ hrange
          · rfl
        refine ⟨.drained, _, trivial, by
          simp only [mainNext]; exact if_pos ⟨.inr hpos, hdone⟩, ?_⟩
        simp only [Deployment.movesLeft, hpos, Receiver.movesLeft]
        omega

/-- A signalled process that has not returned has a move of its own towards its end. -/
theorem Placed.advances (placed : Placed d) (orderly : d.process.Orderly)
    (hsignal : d.process.receiveDone = true) (hreceiver : d.process.receiver ≠ .returned) :
    ∃ a d', Own d a ∧ mainNext env d a = some d' ∧ d'.movesLeft < d.movesLeft := by
  cases hpos : d.process.receiver with
  | condition =>
      refine ⟨.condition, _, trivial, by simp only [mainNext, hpos, hsignal, if_true]; rfl, ?_⟩
      simp only [Deployment.movesLeft, hpos, Receiver.movesLeft]
      omega
  | next =>
      refine ⟨.nextFailed, _, trivial, by simp only [mainNext, hpos]; rfl, ?_⟩
      simp only [Deployment.movesLeft, hpos, Receiver.movesLeft]
      omega
  | select session =>
      refine ⟨.abandon, _, trivial, by simp only [mainNext, hpos, hsignal, if_true]; rfl, ?_⟩
      simp only [Deployment.movesLeft, hpos, Receiver.movesLeft]
      omega
  | wait =>
      refine ⟨.timeout, _, trivial, by simp only [mainNext, hpos]; rfl, ?_⟩
      simp only [Deployment.movesLeft, hpos, Receiver.movesLeft]
      omega
  | waitDrained =>
      by_cases hbusy : ∃ handler index : Nat, d.process.handlers[handler]? = some (.body index)
      · obtain ⟨handler, index, hhandler⟩ := hbusy
        exact placed.handled_advances (orderly.cancelled hpos) hhandler
      · refine placed.idle_advances orderly hpos ?_
        intro handler value hhandler
        cases value with
        | body index => exact absurd ⟨handler, index, hhandler⟩ hbusy
        | range => exact .inl rfl
        | done => exact .inr rfl
  | returned => exact absurd hpos hreceiver

/-! ## Runs of the process -/

/-- The state is one of the system's, whatever the process does in it. -/
theorem MainMove.system_run (hmove : MainMove env d a d') (h : ∃ h, Run env h d.system) :
    ∃ h, Run env h d'.system := by
  obtain ⟨h, run⟩ := h
  cases hmove with
  | other hforeign hnext => exact ⟨_, run.step hnext⟩
  | pull hreceiving hroom hnext => exact ⟨_, run.step hnext⟩
  | handle hhandler hactor hnext => exact ⟨_, run.step hnext⟩
  | _ => exact ⟨h, run⟩

theorem MainMove.signalled (hmove : MainMove env d a d') (h : d.process.receiveDone = true) :
    d'.process.receiveDone = true := by
  cases hmove with
  | signal => rfl
  | _ => exact h

variable {h : History Deployment MainAction}

theorem Deployed.placed (hstart : Deployed env d) : Placed d := by
  have hfresh : ∀ index session, ¬d.Mine index session := by
    rintro index session ⟨hworker, hid⟩
    exact hstart.fresh session (List.mem_of_getElem? hworker) hid
  obtain ⟨system, workerId, setting, rfl⟩ : ∃ system workerId setting,
      d = ⟨system, Process.start workerId setting⟩ := by
    obtain ⟨workerId, setting, hprocess⟩ := hstart.process
    exact ⟨d.system, workerId, setting, by rw [← hprocess]⟩
  refine ⟨List.nodup_nil, by simp [Process.waiting, Process.start, Receiver.session?], ?_, ?_, ?_⟩
  · intro handler index hhandler
    simp [Process.start, List.getElem?_replicate] at hhandler
  · intro handler other index hhandler
    simp [Process.start, List.getElem?_replicate] at hhandler
  · intro index session hmine
    exact absurd hmine (hfresh index session)

theorem run_placed (run : MainRun env h d) : Placed d :=
  run.always (fun _ hstart => hstart.placed) fun _ placed hnext =>
    (mainNext_move hnext).placed placed

theorem run_orderly (run : MainRun env h d) : d.process.Orderly := by
  refine run.always (P := fun d => d.process.Orderly) ?_ fun _ orderly hnext =>
    (mainNext_move hnext).orderly orderly
  intro d hstart
  obtain ⟨workerId, setting, hprocess⟩ := hstart.process
  rw [hprocess]
  exact .start workerId setting

/-- The deliveries that the process works on: claimed or about to be, and not answered. -/
def Deployment.started (d : Deployment) : List Nat :=
  (List.range d.system.workers.length).filter fun index =>
    (d.system.workers[index]?).any fun session =>
      session.id = d.process.workerId && !session.pc.isReceived && session.pc.movesToGone ≠ 0

theorem movesToGone_eq_zero {pc : Pc} : pc.movesToGone = 0 ↔ pc = .gone := by
  cases pc <;> simp [Pc.movesToGone]

theorem Placed.started_handled (placed : Placed d) {index : Nat} (h : index ∈ d.started) :
    index ∈ d.process.handled := by
  obtain ⟨hrange, hstarted⟩ := List.mem_filter.mp h
  rw [Option.any_eq_true] at hstarted
  obtain ⟨session, hworker, hstarted⟩ := hstarted
  simp only [Bool.and_eq_true, Bool.not_eq_true', decide_eq_true_eq, ne_eq,
    movesToGone_eq_zero] at hstarted
  obtain ⟨⟨hid, hreceived⟩, hgone⟩ := hstarted
  rcases placed.placed index session ⟨hworker, hid⟩ with hwaiting | ⟨handler, hhandler⟩ | hend |
    ⟨-, hend⟩
  · obtain ⟨_, ⟨hsame, -⟩, hstill⟩ := placed.waiting index hwaiting
    rw [hworker, Option.some.injEq] at hsame
    rw [← hsame, hreceived] at hstill
    cases hstill
  · exact List.mem_filterMap.mpr ⟨_, List.mem_of_getElem? hhandler, rfl⟩
  · exact absurd hend hgone
  · rw [hreceived] at hend
    cases hend

/-- What the drain promises. -/
structure Drains (env : Env) (d : Deployment) : Prop where
  reachable : ∃ h, Run env h d.system
  bounded : d.started.length ≤ d.process.concurrency
  waiting : d.process.waiting.length ≤ 8 * d.process.concurrency + 1
  once : ∀ (handler other index : Nat), d.process.handlers[handler]? = some (.body index) →
    d.process.handlers[other]? = some (.body index) → handler = other
  whole : d.process.receiver = .returned → ∀ index session, d.Mine index session →
    session.pc = .gone ∨ session.pc.isReceived = true
  ends : d.process.receiveDone = true →
    Leads (mainNext env) Own (fun t => t.process.receiver = .returned) d

theorem drains (run : MainRun env h d) : Drains env d where
  reachable := by
    refine run.always (P := fun d => ∃ h, Run env h d.system) (fun d hstart => hstart.system) ?_
    intro h d a d' _ hsystem hnext
    exact (mainNext_move hnext).system_run hsystem
  bounded := by
    have placed := run_placed run
    have hsub : d.started.Subperm d.process.handled :=
      List.subperm_of_subset (List.nodup_range.filter _) fun index => placed.started_handled
    calc d.started.length ≤ d.process.handled.length := hsub.length_le
      _ ≤ d.process.handlers.length := List.length_filterMap_le _ _
      _ = d.process.concurrency := (run_orderly run).handlers
  waiting := by
    have orderly := run_orderly run
    have hselected : d.process.receiver.session?.toList.length ≤ 1 := by
      cases d.process.receiver.session? <;> simp
    have hbuffered := orderly.buffered
    have hjobs := orderly.jobs
    simp only [Process.waiting, List.length_append]
    omega
  once := (run_placed run).once
  whole := by
    intro hreturned index session hmine
    have orderly := run_orderly run
    have placed := run_placed run
    have hall := orderly.returned hreturned
    rcases placed.placed index session hmine with hwaiting | ⟨handler, hhandler⟩ | hgone | ⟨-, hend⟩
    · obtain ⟨_, ⟨hsame, -⟩, hreceived⟩ := placed.waiting index hwaiting
      rw [hmine.1, Option.some.injEq] at hsame
      exact .inr (hsame ▸ hreceived)
    · cases hall _ (List.mem_of_getElem? hhandler)
    · exact .inl hgone
    · exact .inr hend
  ends := by
    intro hsignal
    refine Leads.of_decreasing
      (P := fun t => (∃ h, MainRun env h t) ∧ t.process.receiveDone = true)
      Deployment.movesLeft ?_ ⟨⟨h, run⟩, hsignal⟩
    rintro t ⟨⟨h, run⟩, hsignal⟩
    by_cases hreturned : t.process.receiver = .returned
    · exact .here (.inl hreturned)
    · obtain ⟨a, t', hown, hnext, hless⟩ :=
        (run_placed run).advances (run_orderly run) hsignal hreturned
      exact .step hown hnext (.here (.inr ⟨⟨⟨_, run.step hnext⟩,
        (mainNext_move hnext).signalled hsignal⟩, hless⟩))

end

/-- One handler has claimed the run when the signal comes, and the iterator holds nothing. -/
def stoppedAtWork : List MainAction :=
  (Scenario.createActions [Scenario.dataRead] ++ Scenario.publishActions 0).map .other ++
    [.condition, .pull 0, .next, .send, .take 1] ++ List.replicate 6 (.work 1 .none) ++
      [.signal, .condition]

theorem stoppedAtWork_drains : ∃ h d, MainRun Scenario.env h d ∧
    (d.process.receiver = .wait ∧ d.started = [0] ∧
      d.process.handlers = [.range, .body 0, .range]) ∧ Drains Scenario.env d := by
  obtain ⟨h, d, run, htest⟩ := @exec_of_replay _ _ (Deployed Scenario.env) (mainNext Scenario.env)
    ⟨Scenario.start 5, Process.start "worker" "3"⟩
    ⟨⟨[], .start (Scenario.initial 5)⟩, by simp [Scenario.start], ⟨"worker", "3", rfl⟩⟩
    stoppedAtWork
    (fun _ d => d.process.receiver = .wait ∧ d.started = [0] ∧
      d.process.handlers = [.range, .body 0, .range]) (by decide +kernel)
  exact ⟨h, d, run, of_decide_eq_true htest, drains run⟩

end DurableRuntime.Worker
