import DurableRuntime.BrokerLaw
import DurableRuntime.Executions
import DurableRuntime.ProviderCalls

/-!
# The credential of a request

A creation issues its credential before it calls the store, and only the replay
branch of its handler discards the handle again.  `lastDeposit` tells from the
history which request a handle belongs to, so that an entry of the broker can be
traced to the request that it was issued for.
-/

namespace DurableRuntime

open DurableRuntime.Foundation

/-! ## The broker calls of an action -/

/-- The effect of a move of a request or a worker. -/
def effectOf (env : Env) (s : State) : Action → Effect
  | .call index choice =>
      match (s.calls[index]?).bind (ControlPlane.step env s.toShared choice) with
      | none => .none
      | some move => move.2
  | .worker index reply =>
      match (s.workers[index]?).bind fun session =>
          Worker.step env s.toShared session.id reply session.pc with
      | none => .none
      | some move => move.2
  | _ => .none

/-- An `issue` call: which request made it, of what and when, and whether a consume followed. -/
structure Deposit where
  call : Nat
  credential : JsString
  issuedAt : Int
  consumed : Bool

def depositAfter (env : Env) (handle : Uuid) (last : Option Deposit) (p : State × Action) :
    Option Deposit :=
  match p.2, effectOf env p.1 p.2 with
  | .call index _, .issue other credential =>
      if other = handle then some ⟨index, credential, p.1.dateNow, false⟩ else last
  | .worker _ _, .consume other =>
      if other = handle then last.map fun deposit => { deposit with consumed := true } else last
  | _, _ => last

/-- The last `issue` call that returned the handle. -/
def lastDeposit (env : Env) (handle : Uuid) (h : History State Action) : Option Deposit :=
  h.foldl (depositAfter env handle) none

/-- The credential is in the broker, or was consumed, or has expired. -/
def Deposit.Held (deposit : Deposit) (handle : Uuid) (s : State) : Prop :=
  ⟨handle, deposit.credential, deposit.issuedAt + s.broker.ttlMs⟩ ∈ s.broker.entries ∨
    deposit.consumed = true ∨ deposit.issuedAt + s.broker.ttlMs ≤ s.dateNow

/-! ## The law -/

/-- The run of the request keeps the handle, and the broker keeps the credential under it. -/
structure KeepsCredential (env : Env) (h : History State Action) (s : State) (index : Nat)
    (session : ControlPlane.Session) (id : Uuid) (credential : JsString) : Prop where
  issued : ∃ handle row deposit, session.handle = some handle ∧ s.db.run? id = some row ∧
    row.providerCredentialHandle = some handle ∧ lastDeposit env handle h = some deposit ∧
      deposit.call = index ∧ deposit.credential = credential ∧ deposit.Held handle s

/-- What requests have left in the broker: those that have created a run, and the others. -/
structure Answered (env : Env) (h : History State Action) (s : State) : Prop where
  created : ∀ (index : Nat) session create id credential, s.calls[index]? = some session →
    session.request = .createRun create → createdRun? index h = some id →
      create.providerCredential = some credential →
        KeepsCredential env h s index session id credential
  answer : ∀ (index : Nat) session run, s.calls[index]? = some session →
    session.pc = .done (.created run false) → createdRun? index h = some run.id
  otherwise : ∀ (index : Nat) (session : ControlPlane.Session) response,
    s.calls[index]? = some session → session.pc = .done response → createdRun? index h = none →
      ∀ entry ∈ s.broker.entries, ∀ deposit, lastDeposit env entry.handle h = some deposit →
        deposit.call ≠ index

/-- A move of a request leaves the unexpired entries of all other requests. -/
def SparesOthers (env : Env) (past : History State Action) (s : State) (a : Action) : Prop :=
  ∀ s' index, actor a = some (.call index) → next env s a = some s' →
    ∀ entry ∈ s.broker.entries, s.dateNow < entry.expiresAt →
      (∀ deposit, lastDeposit env entry.handle past = some deposit → deposit.call ≠ index) →
        entry ∈ s'.broker.entries

structure CredentialsOutliveRequests (env : Env) (h : History State Action) (s : State) : Prop where
  always : Within (fun past t _ => Answered env past t) h
  last : Answered env h s
  others : Within (SparesOthers env) h

def ControlPlane.Pc.failed : ControlPlane.Pc → Bool
  | .done (.error _ _) => true
  | _ => false

/-- The next statement of a creation finds what its handler answers with an error. -/
def ControlPlane.refused (env : Env) (s : Shared) (tenantId : Uuid) : Pc → Bool
  | .createLimits _ _ => (s.db.limits? tenantId).isNone
  | .createUsage _ now limits => (quotaError env s now limits tenantId).isSome
  | .createWorkflow create _ =>
      ((s.db.definition? create.workflowId).filter fun row => row.tenantId = tenantId).isNone
  | .createInsert create _ _ => (PostgresDurableStore.jsonError env create.input).isSome
  | .createRaced create => (s.db.runByKey? tenantId create.idempotencyKey).isNone
  | .queueOutbox _ _ writes =>
      !(writes.run.row.state = .queued && writes.run.row.tenantId = tenantId)
  | _ => false

/-- The handler waits for no more than the reply to its commit, or for nothing. -/
def ControlPlane.Pc.isSettled : ControlPlane.Pc → Bool
  | .committed _ | .done _ => true
  | _ => false

/--
A creation that is refused, or meets a database error, has no entry in the
broker by then.  The loss of the reply to the commit is no such error: the run
is there.
-/
def FailsEmptyHanded (env : Env) (s : State) (a : Action) : Prop :=
  match a with
  | .callError index =>
      ∀ session ∈ s.calls[index]?, session.pc.isSettled = false →
        ∀ handle ∈ session.handle, s.broker.get handle = none
  | .call index _ =>
      ∀ session ∈ s.calls[index]?,
        ControlPlane.refused env s.toShared session.principal.tenantId session.pc = true →
          ∀ handle ∈ session.handle, s.broker.get handle = none
  | _ => True

instance (env : Env) (s : State) (a : Action) : Decidable (FailsEmptyHanded env s a) := by
  unfold FailsEmptyHanded
  split <;> infer_instance

/-! ## Moves of a request -/

namespace ControlPlane

variable {env : Env} {s : Shared} {choice : Uuid} {session moved : Session} {pc pc' : Pc}
  {effect : Effect}

/-- Positions of a creation after its start. -/
def Pc.creates : Pc → Bool
  | .createBegin _ | .createLookup _ _ | .createLimits _ _ | .createUsage _ _ _
  | .createWorkflow _ _ | .createInsert _ _ _ | .createRaced _ | .replayEvents _ _
  | .replayCommit _ _ | .discard _ | .committed (.created _ false) => true
  | pc =>
      match pc.writes?.map Writes.run with
      | some (.insert _) => true
      | _ => false

/-- A creation ends with a run or with an error. -/
theorem PcMove.creates (hmove : PcMove env s choice session pc pc' effect)
    (h : pc.creates = true) :
    pc'.creates = true ∨ pc'.failed = true ∨
      ∃ run replayed, pc' = .done (.created run replayed) := by
  cases hmove with
  | approve => cases h
  | cancel => cases h
  | readRun => cases h
  | transitionBegin => cases h
  | runMissing => cases h
  | transitionInvalid => cases h
  | transitionLocked => cases h
  | transitionUpdate => cases h
  | limitsMissing => exact .inr (.inl rfl)
  | quotaExceeded => exact .inr (.inl rfl)
  | workflowMissing => exact .inr (.inl rfl)
  | racedMissing => exact .inr (.inl rfl)
  | queueRefused => exact .inr (.inl rfl)
  | discardNone => exact .inr (.inr ⟨_, _, rfl⟩)
  | discardSome => exact .inr (.inr ⟨_, _, rfl⟩)
  | inputRefused => exact .inr (.inl rfl)
  | commit writes run =>
      obtain ⟨write, event, outbox, audit⟩ := writes
      cases write with
      | insert row => exact .inl rfl
      | update => cases h
  | committed response =>
      cases response with
      | created run replayed => exact .inr (.inr ⟨run, replayed, rfl⟩)
      | _ => cases h
  | _ =>
      first
        | exact .inl rfl
        | exact .inl h

/-- A creation fails where its next statement finds what refuses it. -/
theorem PcMove.failed_eq (hmove : PcMove env s choice session pc pc' effect)
    (h : pc.creates = true) :
    pc'.failed = refused env s session.principal.tenantId pc := by
  cases hmove with
  | approve => cases h
  | cancel => cases h
  | readRun => cases h
  | transitionBegin => cases h
  | runMissing => cases h
  | transitionInvalid => cases h
  | transitionLocked => cases h
  | transitionUpdate => cases h
  | limitsFound hfree hlimits => simp [refused, hlimits, Pc.failed]
  | limitsMissing hfree hlimits => simp [refused, hlimits, createError, Pc.failed]
  | quotaExceeded hquota => simp [refused, hquota, createError, Pc.failed]
  | quotaFree hquota => simp [refused, hquota, Pc.failed]
  | workflowMissing hworkflow => simp [refused, hworkflow, createError, Pc.failed]
  | workflowFound hworkflow => simp [refused, hworkflow, Pc.failed]
  | racedFound hfound => simp [refused, hfound, Pc.failed]
  | racedMissing habsent => simp [refused, habsent, createError, Pc.failed]
  | queueOutbox hqueued => simp [refused, hqueued.1, hqueued.2, Pc.failed]
  | queueRefused hrefused => simpa [refused, Pc.failed, imp_iff_not_or] using hrefused
  | inputRefused hinput => simp [refused, hinput, createError, Pc.failed]
  | raced hfree hfound hinput => simp [refused, hinput, Pc.failed]
  | inserted hfree habsent hinsertable hinput => simp [refused, hinput, Pc.failed]
  | committed response =>
      cases response with
      | error => cases h
      | _ => rfl
  | _ => rfl

/-- A replay is answered once the handle, if there is one, has been discarded. -/
theorem PcMove.replayed (hmove : PcMove env s choice session pc pc' effect)
    (h : pc.creates = true) {run : StoredRun} (hdone : pc' = .done (.created run true)) :
    session.handle = none ∨ ∃ handle, effect = .discard handle := by
  cases hmove with
  | discardNone hhandle => exact .inl hhandle
  | discardSome => exact .inr ⟨_, rfl⟩
  | approve =>
      unfold startTransition at hdone
      repeat' split at hdone
      all_goals cases hdone
  | cancel =>
      unfold startTransition at hdone
      repeat' split at hdone
      all_goals cases hdone
  | readRun =>
      unfold readRunCheck at hdone
      repeat' split at hdone
      all_goals cases hdone
  | committed response =>
      cases hdone
      cases h
  | _ => cases hdone

theorem done_of_failed (h : pc.failed = true) : ∃ response, pc = .done response := by
  cases pc <;> first | exact ⟨_, rfl⟩ | cases h

/-- What a move does to the handle of its request, and through it to the broker. -/
inductive HandleMove (s : Shared) (session : Session) : Session → Effect → Prop
  | issue {create credential handle} (hpc : session.pc = .route)
      (hrequest : session.request = .createRun create)
      (hcredential : create.providerCredential = some credential)
      (hfresh : freshHandle s handle = true) :
      HandleMove s session { session with handle := some handle, pc := .createBegin create }
        (.issue handle credential)
  | discard {run handle} (hpc : session.pc = .discard run)
      (hhandle : session.handle = some handle) :
      HandleMove s session { session with pc := .done (.created run true) } (.discard handle)
  | answer {response} (hpc : session.pc = .committed response) :
      HandleMove s session { session with pc := .done response } .none
  | quiet {next other} (hactive : session.pc.isSettled = false) (hnext : next ≠ .route)
      (hroute : session.pc = .route → next.failed = true ∨
        ∀ create, session.request = .createRun create → create.providerCredential = none)
      (hissue : ∀ handle credential, other ≠ .issue handle credential)
      (hconsume : ∀ handle, other ≠ .consume handle)
      (hdiscard : ∀ handle, other ≠ .discard handle) :
      HandleMove s session { session with pc := next } other

theorem startTransition_ne_route (role : Role) (runId : String) (args : TransitionArgs) :
    startTransition role runId args ≠ .route := by
  unfold startTransition
  repeat' split
  all_goals simp

theorem PcMove.handleMove (hmove : PcMove env s choice session session.pc pc effect) :
    HandleMove s session { session with pc } effect := by
  generalize hold : session.pc = old at hmove
  by_cases hsettled : old.isSettled = true
  · cases hmove with
    | committed response => exact .answer hold
    | _ => cases hsettled
  have hactive : session.pc.isSettled = false := by
    rw [hold]
    exact Bool.not_eq_true _ ▸ hsettled
  cases hmove with
  | discardSome hhandle => exact .discard hold hhandle
  | committed => exact absurd rfl hsettled
  | approve hrequest =>
      refine .quiet hactive (startTransition_ne_route _ _ _) (fun _ => .inr ?_) (by simp)
        (by simp) (by simp)
      simp [hrequest]
  | cancel hrequest =>
      refine .quiet hactive (startTransition_ne_route _ _ _) (fun _ => .inr ?_) (by simp)
        (by simp) (by simp)
      simp [hrequest]
  | readRun args runId =>
      refine .quiet hactive ?_ (by simp [hold]) (by simp) (by simp) (by simp)
      unfold readRunCheck
      repeat' split
      all_goals simp
  | _ => exact .quiet hactive (by simp [createError]) (by simp [hold]) (by simp) (by simp) (by simp)

theorem Move.handleMove (hmove : Move env s choice session moved effect) :
    HandleMove s session moved effect := by
  cases hmove with
  | inner hmove => exact hmove.handleMove
  | @start create _ _ hpc hrequest hstart =>
      have hactive : session.pc.isSettled = false := by
        rw [hpc]
        rfl
      cases startCreate_start hstart with
      | refused =>
          exact .quiet hactive (by simp) (fun _ => .inl rfl) (by simp) (by simp) (by simp)
      | plain hrole hlength hnone =>
          refine .quiet hactive (by simp) (fun _ => .inr ?_) (by simp) (by simp) (by simp)
          intro other hother
          rw [hrequest, Request.createRun.injEq] at hother
          rwa [← hother]
      | issue hrole hlength hcredential hfresh => exact .issue hpc hrequest hcredential hfresh

/-- The run that a position has committed and is about to answer with, or has answered with. -/
def Pc.created? : Pc → Option StoredRun
  | .committed (.created run false) | .done (.created run false) => some run
  | _ => none

/-- A request comes to a new run by the move that commits it. -/
theorem PcMove.created (hmove : PcMove env s choice session pc pc' effect) {run : StoredRun}
    (hcreated : pc'.created? = some run) :
    pc.created? = some run ∨ ∃ writes row, pc = .commit writes run ∧ writes.run = .insert row := by
  cases hmove with
  | approve =>
      unfold startTransition at hcreated
      repeat' split at hcreated
      all_goals cases hcreated
  | cancel =>
      unfold startTransition at hcreated
      repeat' split at hcreated
      all_goals cases hcreated
  | readRun =>
      unfold readRunCheck at hcreated
      repeat' split at hcreated
      all_goals cases hcreated
  | commit writes stored =>
      cases hwrite : writes.run with
      | insert row =>
          simp only [response, hwrite, Pc.created?, Option.some.injEq] at hcreated
          exact .inr ⟨writes, row, by rw [hcreated], hwrite⟩
      | update =>
          simp only [response, hwrite] at hcreated
          cases hcreated
  | committed response =>
      left
      cases response with
      | created run replayed => cases replayed <;> exact hcreated
      | _ => cases hcreated
  | _ => cases hcreated

theorem creating?_of_refused {tenantId : Uuid} (h : refused env s tenantId pc = true) :
    pc.creating? = none := by
  cases pc <;> first | rfl | cases h

end ControlPlane

theorem Shared.apply_broker {s : Shared} {effect : Effect}
    (hissue : ∀ handle credential, effect ≠ .issue handle credential)
    (hconsume : ∀ handle, effect ≠ .consume handle)
    (hdiscard : ∀ handle, effect ≠ .discard handle) : (s.apply effect).broker = s.broker := by
  cases effect with
  | issue handle credential => exact absurd rfl (hissue handle credential)
  | consume handle => exact absurd rfl (hconsume handle)
  | discard handle => exact absurd rfl (hdiscard handle)
  | _ => rfl

theorem Outbox.Turn.broker {s : Shared} {session : Outbox.Session} {pc : Outbox.Pc}
    {effect : Effect} (hturn : Outbox.Turn s session pc effect) :
    (s.apply effect).broker = s.broker := by
  obtain ⟨hissue, hconsume, hdiscard⟩ := hturn.quiet
  exact Shared.apply_broker hissue hconsume hdiscard

/-- What a step does to the broker and to the requests. -/
inductive BrokerStep (env : Env) (s : State) (a : Action) (s' : State) : Prop
  | call {index choice session moved effect} (haction : a = .call index choice)
      (hcall : s.calls[index]? = some session)
      (hmove : ControlPlane.HandleMove s.toShared session moved effect)
      (hstep : ControlPlane.step env s.toShared choice session = some (moved, effect))
      (heffect : effectOf env s a = effect) (hstate : s' = s.moveCall index moved effect)
  | failed {index session} (haction : a = .callError index)
      (hcall : s.calls[index]? = some session) (hstatement : session.pc.isStatement = true)
      (hstate : s' = s.moveCall index { session with pc := .done databaseError } .none)
  | consumed {index reply handle} (haction : a = .worker index reply)
      (hused : ControlPlane.handleUnused s.toShared handle = false)
      (heffect : effectOf env s a = .consume handle)
      (hbroker : s'.broker = (s.broker.consume s.dateNow handle).2) (hcalls : s'.calls = s.calls)
  | quiet (hother : ∀ index, actor a ≠ some (.call index))
      (hsame : ∀ handle last, depositAfter env handle last (s, a) = last)
      (hbroker : s'.broker = s.broker)
      (hkept : ∀ (index : Nat) (session : ControlPlane.Session),
        s.calls[index]? = some session → s'.calls[index]? = some session)
      (hold : ∀ (index : Nat) (session : ControlPlane.Session),
        s'.calls[index]? = some session →
          s.calls[index]? = some session ∨ (session.pc = .route ∧ session.handle = none))

section

variable {env : Env} {s s' : State} {a : Action} {h : History State Action}

theorem BrokerStep.still (hother : ∀ index, actor a ≠ some (.call index))
    (hsame : ∀ handle last, depositAfter env handle last (s, a) = last)
    (hbroker : s'.broker = s.broker) (hcalls : s'.calls = s.calls) : BrokerStep env s a s' :=
  .quiet hother hsame hbroker (fun _ _ hcall => by rwa [hcalls]) fun _ _ hcall =>
    .inl (by rwa [hcalls] at hcall)

theorem next_broker_worker (handled : Handled s) {index : Nat} {reply : Worker.Reply}
    (hnext : next env s (.worker index reply) = some s') :
    BrokerStep env s (.worker index reply) s' := by
  simp only [next] at hnext
  split at hnext
  · cases hnext
  · rename_i session hworker
    split at hnext
    · cases hnext
    · rename_i pc effect hstep
      cases hnext
      have heffect : effectOf env s (.worker index reply) = effect := by
        simp [effectOf, hworker, hstep]
      rcases (Worker.step_move hstep).consumes with
        ⟨run, step, handle, prompt, hpc, rfl⟩ | ⟨hissue, hconsume, hdiscard⟩
      · obtain ⟨row, hrow, hhandle⟩ :=
          handled.leased index session run hworker (by rw [hpc]; rfl)
        have hmine := handled.consume index session run handle hworker (by rw [hpc]; rfl)
        refine .consumed rfl ?_ heffect rfl rfl
        rw [handleUnused_eq_false, ← hmine, ← hhandle]
        exact List.mem_map_of_mem (Table.lookup_mem hrow)
      · refine .still (by simp [actor]) ?_ (Shared.apply_broker hissue hconsume hdiscard) rfl
        intro handle last
        unfold depositAfter
        rw [heffect]
        cases effect with
        | consume other => exact absurd rfl (hconsume other)
        | _ => rfl

theorem next_broker (handled : Handled s) (hnext : next env s a = some s') :
    BrokerStep env s a s' := by
  cases a with
  | worker index reply => exact next_broker_worker handled hnext
  | request principal request =>
      cases hnext
      refine .quiet (by simp [actor]) (fun _ _ => rfl) rfl ?_ ?_
      · intro index session hcall
        rw [List.getElem?_append_left (List.getElem?_eq_some_iff.mp hcall).1]
        exact hcall
      · intro index session hcall
        rcases getElem?_snoc_some hcall with ⟨-, rfl⟩ | hcall
        · exact .inr ⟨rfl, rfl⟩
        · exact .inl hcall
  | call index choice =>
      simp only [next] at hnext
      split at hnext
      · cases hnext
      · rename_i session hcall
        split at hnext
        · cases hnext
        · rename_i moved effect hstep
          cases hnext
          refine .call rfl hcall (ControlPlane.step_move hstep).handleMove hstep ?_ rfl
          simp [effectOf, hcall, hstep]
  | callError index =>
      simp only [next] at hnext
      split at hnext
      · cases hnext
      · rename_i session hcall
        split at hnext
        · rename_i hstatement
          cases hnext
          exact .failed rfl hcall hstatement rfl
        · cases hnext
  | publisher index reply =>
      cases next_step hnext with
      | publisher hactor hcommit hpublisher hturn =>
          exact .still (by simp [actor]) (fun _ _ => rfl) hturn.broker rfl
      | call hactor => cases hactor
      | worker hactor => cases hactor
  | publisherError index =>
      cases next_step hnext with
      | publisher hactor hcommit hpublisher hturn =>
          exact .still (by simp [actor]) (fun _ _ => rfl) hturn.broker rfl
      | call hactor => cases hactor
      | worker hactor => cases hactor
  | workerError index =>
      simp only [next] at hnext
      repeat' split at hnext
      all_goals cases hnext
      exact .still (by simp [actor]) (fun _ _ => rfl) rfl rfl
  | crash index =>
      simp only [next] at hnext
      split at hnext
      · cases hnext
      · cases hnext
        exact .still (by simp [actor]) (fun _ _ => rfl) rfl rfl
  | _ =>
      simp only [next] at hnext
      repeat' split at hnext
      all_goals cases hnext
      all_goals exact .still (by simp [actor]) (fun _ _ => rfl) rfl rfl

/-! ## Handles of unfinished requests -/

theorem handles_next (hnext : next env s a = some s') :
    s'.db.runs.map RunRow.providerCredentialHandle =
      s.db.runs.map RunRow.providerCredentialHandle ++
        (((commitOf env s a).bind Commit.inserted?).map
          RunRow.providerCredentialHandle).toList := by
  obtain ⟨events, outbox, audits, hdb⟩ := next_db hnext
  rw [hdb]
  cases hcommit : commitOf env s a with
  | none => exact (List.append_nil _).symm
  | some change =>
      exact runs_commit_map RunRow.providerCredentialHandle (fun h => h.handle) _ change

theorem Locked.call_handle (locked : Locked s) {index : Nat} {session : ControlPlane.Session}
    {handle : Uuid} (hcall : s.calls[index]? = some session)
    (hhandle : session.handle = some handle) (hactive : session.pc.isSettled = false) :
    s.locks (.handle handle) = some (.call index) := by
  refine locked.calls index session hcall _ (List.mem_append_right _ ?_)
  cases hpc : session.pc with
  | done => simp [hpc, ControlPlane.Pc.isSettled] at hactive
  | _ => simp [hhandle]

/-- No run refers to the handle of a request that is not answered yet. -/
def Unreferenced (s : State) : Prop :=
  ∀ (index : Nat) (session : ControlPlane.Session) handle, s.calls[index]? = some session →
    session.handle = some handle → session.pc.isSettled = false →
      ControlPlane.handleUnused s.toShared handle = true

/-- A handle gets used by the commit of its own request only. -/
theorem handleUnused_next (sound : Sound s) (hnext : next env s a = some s') {handle : Uuid}
    (hunused : ControlPlane.handleUnused s.toShared handle = true)
    (hother : ∀ (index : Nat) session writes run, actor a = some (.call index) →
      s.calls[index]? = some session → session.pc = .commit writes run →
        session.handle ≠ some handle) :
    ControlPlane.handleUnused s'.toShared handle = true := by
  rw [← Bool.not_eq_false, handleUnused_eq_false] at hunused ⊢
  rw [handles_next hnext, List.mem_append]
  rintro (hold | hnew)
  · exact hunused hold
  · obtain ⟨row, hinserted, hhandle⟩ := Option.map_eq_some_iff.mp (Option.mem_toList.mp hnew)
    obtain ⟨index, choice, session, writes, run, rfl, -, hcall, hpc, hwrite⟩ :=
      inserted_commits hinserted
    obtain ⟨create, id, now, budgetCents, -, rfl⟩ := sound.insert_eq hcall hpc hwrite
    exact hother index session writes run rfl hcall hpc hhandle

theorem run_unreferenced (run : Run env h s) : Unreferenced s := by
  refine run.always ?_ ?_
  · intro s hs index session handle hcall
    simp [hs.calls] at hcall
  · intro h s a s' run unreferenced hnext index session handle hcall hhandle hactive
    have sound := run_sound run
    cases call_case hnext hcall with
    | joined => cases hhandle
    | kept hold hactor =>
        refine handleUnused_next sound hnext (unreferenced index session handle hold hhandle
          hactive) ?_
        intro other found writes stored hother hfound hpc hsame
        have hmine := sound.locked.call_handle hold hhandle hactive
        have hlock := sound.locked.call_handle hfound hsame (by rw [hpc]; rfl)
        rw [hmine, Option.some.injEq, Holder.call.injEq] at hlock
        exact hactor (hlock ▸ hother)
    | @turned old moved effect hold hactor hcommit hturn hstate =>
        have hcommits : ∀ (other : Nat) found writes stored, actor a = some (.call other) →
            s.calls[other]? = some found → found.pc = .commit writes stored →
              old.pc = .commit writes stored := by
          intro other found writes stored hother hfound hpc
          rw [hactor, Option.some.injEq, Holder.call.injEq] at hother
          subst hother
          rw [hold, Option.some.injEq] at hfound
          rwa [hfound]
        cases hturn with
        | error => cases hactive
        | move hmove =>
            have hdone : ∀ writes stored, old.pc = .commit writes stored → False := by
              intro writes stored hpc
              cases hmove with
              | start hroute =>
                  rw [hroute] at hpc
                  cases hpc
              | inner hmove =>
                  rw [hpc] at hmove
                  cases hmove
                  cases hactive
            cases hmove.handleMove with
            | answer => cases hactive
            | issue hpc hrequest hcredential hfresh =>
                cases hhandle
                simp only [ControlPlane.freshHandle, Bool.and_eq_true] at hfresh
                refine handleUnused_next sound hnext hfresh.1.2 ?_
                intro other found writes stored hother hfound hpc'
                exact (hdone _ _ (hcommits other found writes stored hother hfound hpc')).elim
            | discard => cases hactive
            | quiet hactive' =>
                refine handleUnused_next sound hnext
                  (unreferenced index old handle hold hhandle hactive') ?_
                intro other found writes stored hother hfound hpc'
                exact (hdone _ _ (hcommits other found writes stored hother hfound hpc')).elim

/-! ## Tracing the handles -/

theorem lastDeposit_snoc (handle : Uuid) (p : State × Action) :
    lastDeposit env handle (h ++ [p]) = depositAfter env handle (lastDeposit env handle h) p := by
  simp [lastDeposit]

theorem dateNow_le (hnext : next env s a = some s') : s.dateNow ≤ s'.dateNow := by
  have := next_clock hnext
  unfold Shared.dateNow
  omega

/-- What is held stays held when the broker is left alone. -/
theorem Deposit.Held.still {deposit : Deposit} {handle : Uuid} (hheld : deposit.Held handle s)
    (hbroker : s'.broker = s.broker) (hnow : s.dateNow ≤ s'.dateNow) :
    deposit.Held handle s' := by
  unfold Deposit.Held at hheld ⊢
  rw [hbroker]
  rcases hheld with hentry | hconsumed | hexpired
  · exact .inl hentry
  · exact .inr (.inl hconsumed)
  · exact .inr (.inr (Int.le_trans hexpired hnow))

/-- A broker call on another handle takes out no more than what has expired. -/
theorem Deposit.Held.perform {deposit : Deposit} {handle : Uuid} (hheld : deposit.Held handle s)
    (call : CredentialBroker.Call) (hother : call.handle ≠ handle)
    (hbroker : s'.broker = s.broker.perform ⟨s.dateNow, call⟩) (hnow : s.dateNow ≤ s'.dateNow) :
    deposit.Held handle s' := by
  unfold Deposit.Held at hheld ⊢
  rw [hbroker, CredentialBroker.perform_ttlMs]
  rcases hheld with hentry | hconsumed | hexpired
  · by_cases hlive : s.dateNow < deposit.issuedAt + s.broker.ttlMs
    · left
      rw [CredentialBroker.mem_perform]
      exact .inr ⟨hentry, Ne.symm hother, .inr hlive⟩
    · exact .inr (.inr (by omega))
  · exact .inr (.inl hconsumed)
  · exact .inr (.inr (Int.le_trans hexpired hnow))

/-- The handle is the one that the request drew for its credential, and still held. -/
def HasDeposit (env : Env) (h : History State Action) (s : State) (index : Nat)
    (session : ControlPlane.Session) (handle : Uuid) : Prop :=
  ∃ create deposit, session.request = .createRun create ∧
    create.providerCredential = some deposit.credential ∧
    lastDeposit env handle h = some deposit ∧ deposit.call = index ∧ deposit.Held handle s

/-- How the requests stand to the handles that were issued. -/
structure Traced (env : Env) (h : History State Action) (s : State) : Prop where
  owners : ∀ handle deposit, lastDeposit env handle h = some deposit →
    ∃ session, s.calls[deposit.call]? = some session ∧ session.handle = some handle
  idle : ∀ (index : Nat) (session : ControlPlane.Session), s.calls[index]? = some session →
    session.pc = .route → session.handle = none
  creating : ∀ (index : Nat) (session : ControlPlane.Session) handle,
    s.calls[index]? = some session → session.handle = some handle →
      session.pc.creates = true ∨ ∃ response, session.pc = .done response
  presented : ∀ (index : Nat) session create credential, s.calls[index]? = some session →
    session.request = .createRun create → create.providerCredential = some credential →
      session.pc = .route ∨ session.pc.failed = true ∨ ∃ handle, session.handle = some handle
  active : ∀ (index : Nat) session handle, s.calls[index]? = some session →
    session.handle = some handle → session.pc.isSettled = false →
      HasDeposit env h s index session handle
  created : ∀ (index : Nat) session create id credential, s.calls[index]? = some session →
    session.request = .createRun create → createdRun? index h = some id →
      create.providerCredential = some credential →
        KeepsCredential env h s index session id credential
  settled : ∀ (index : Nat) id, createdRun? index h = some id →
    ∃ session, s.calls[index]? = some session ∧ session.pc.isSettled = true
  answer : ∀ (index : Nat) session run, s.calls[index]? = some session →
    session.pc.created? = some run → createdRun? index h = some run.id

theorem traced_initial (hs : Initial s) : Traced env [] s where
  owners := by simp [lastDeposit]
  idle := by simp [hs.calls]
  creating := by simp [hs.calls]
  presented := by simp [hs.calls]
  active := by simp [hs.calls]
  created := by simp [hs.calls]
  settled := by simp [createdRun?]
  answer := by simp [hs.calls]

/-- A request issues or discards the handle. -/
def Touches (env : Env) (s : State) (a : Action) (handle : Uuid) : Prop :=
  ∃ index choice, a = .call index choice ∧
    ((∃ credential, effectOf env s a = .issue handle credential) ∨
      effectOf env s a = .discard handle)

/-- The handle's deposit is the same one after the step, and held if it was. -/
def Carries (env : Env) (h : History State Action) (s : State) (a : Action) (s' : State)
    (handle : Uuid) : Prop :=
  ∀ deposit, lastDeposit env handle h = some deposit → deposit.Held handle s →
    ∃ deposit', lastDeposit env handle (h ++ [(s, a)]) = some deposit' ∧
      deposit'.call = deposit.call ∧ deposit'.credential = deposit.credential ∧
        deposit'.Held handle s'

theorem Touches.request (hstep : BrokerStep env s a s') {handle : Uuid}
    (htouches : Touches env s a handle) :
    ∃ index choice session, a = .call index choice ∧ s.calls[index]? = some session ∧
      (ControlPlane.freshHandle s.toShared handle = true ∨
        (session.handle = some handle ∧ session.pc.isSettled = false)) := by
  obtain ⟨index, choice, rfl, htouched⟩ := htouches
  cases hstep with
  | call haction hcall hmove hstep heffect hstate =>
      cases haction
      refine ⟨index, choice, _, rfl, hcall, ?_⟩
      rw [heffect] at htouched
      cases hmove with
      | answer => rcases htouched with ⟨credential, htouched⟩ | htouched <;> cases htouched
      | issue hpc hrequest hcredential hfresh =>
          rcases htouched with ⟨credential, htouched⟩ | htouched
          · cases htouched
            exact .inl hfresh
          · cases htouched
      | discard hpc hhandle =>
          rcases htouched with ⟨credential, htouched⟩ | htouched
          · cases htouched
          · cases htouched
            exact .inr ⟨hhandle, by rw [hpc]; rfl⟩
      | quiet hactive hnot hroute hissue hconsume hdiscard =>
          rcases htouched with ⟨credential, htouched⟩ | htouched
          · exact absurd htouched (hissue handle credential)
          · exact absurd htouched (hdiscard handle)
  | failed haction => cases haction
  | consumed haction => cases haction
  | quiet hother => exact absurd rfl (hother index)

/-- The handle of an unfinished request is touched by its own moves only. -/
theorem not_touches_of_active (locked : Locked s) (hstep : BrokerStep env s a s') {index : Nat}
    {session : ControlPlane.Session} {handle : Uuid} (hcall : s.calls[index]? = some session)
    (hhandle : session.handle = some handle) (hactive : session.pc.isSettled = false)
    (hother : ∀ choice, a ≠ .call index choice) : ¬Touches env s a handle := by
  intro htouches
  have hlock := locked.call_handle hcall hhandle hactive
  obtain ⟨other, choice, found, rfl, hfound, hfresh | ⟨hsame, hactive'⟩⟩ := htouches.request hstep
  · simp only [ControlPlane.freshHandle, Bool.and_eq_true, Shared.free, hlock] at hfresh
    exact absurd hfresh.2 (by simp)
  · rw [locked.call_handle hfound hsame hactive', Option.some.injEq, Holder.call.injEq] at hlock
    exact hother choice (by rw [hlock])

/-- A handle that a run refers to is touched no more. -/
theorem not_touches_of_used (unreferenced : Unreferenced s) (hstep : BrokerStep env s a s')
    {handle : Uuid} (hused : ControlPlane.handleUnused s.toShared handle = false) :
    ¬Touches env s a handle := by
  intro htouches
  obtain ⟨index, choice, session, rfl, hcall, hfresh | ⟨hhandle, hactive⟩⟩ :=
    htouches.request hstep
  · simp [ControlPlane.freshHandle, hused] at hfresh
  · rw [unreferenced index session handle hcall hhandle hactive] at hused
    cases hused

theorem carries (hnext : next env s a = some s') (hstep : BrokerStep env s a s') {handle : Uuid}
    (huntouched : ¬Touches env s a handle) : Carries env h s a s' handle := by
  intro deposit hlast hheld
  have hnow := dateNow_le hnext
  rw [lastDeposit_snoc, hlast]
  cases hstep with
  | quiet hother hsame hbroker =>
      exact ⟨deposit, hsame handle _, rfl, rfl, hheld.still hbroker hnow⟩
  | failed haction hcall hstatement hstate =>
      subst haction
      exact ⟨deposit, rfl, rfl, rfl, hheld.still (by rw [hstate]; rfl) hnow⟩
  | @consumed index reply other haction hused heffect hbroker =>
      subst haction
      simp only [depositAfter, heffect]
      by_cases hsame : other = handle
      · rw [if_pos hsame]
        exact ⟨_, rfl, rfl, rfl, .inr (.inl rfl)⟩
      · rw [if_neg hsame]
        exact ⟨deposit, rfl, rfl, rfl,
          hheld.perform (.consume other) hsame hbroker hnow⟩
  | @call index choice session moved effect haction hcall hmove hrun heffect hstate =>
      subst haction
      simp only [depositAfter, heffect]
      cases hmove with
      | answer => exact ⟨deposit, rfl, rfl, rfl, hheld.still (by rw [hstate]; rfl) hnow⟩
      | @issue create credential other hpc hrequest hcredential hfresh =>
          have hne : other ≠ handle := by
            rintro rfl
            exact huntouched ⟨index, choice, rfl, .inl ⟨credential, heffect⟩⟩
          simp only [if_neg hne]
          exact ⟨deposit, rfl, rfl, rfl,
            hheld.perform (.issue other credential) hne (by rw [hstate]; rfl) hnow⟩
      | @discard run other hpc hhandle =>
          have hne : other ≠ handle := by
            rintro rfl
            exact huntouched ⟨index, choice, rfl, .inr heffect⟩
          exact ⟨deposit, rfl, rfl, rfl,
            hheld.perform (.discard other) hne (by rw [hstate]; rfl) hnow⟩
      | quiet hactive hnot hroute hissue hconsume hdiscard =>
          refine ⟨deposit, ?_, rfl, rfl, hheld.still ?_ hnow⟩
          · cases effect with
            | issue other credential => exact absurd rfl (hissue other credential)
            | _ => rfl
          · rw [hstate]
            exact Shared.apply_broker hissue hconsume hdiscard

/-- Where a request of the next state comes from. -/
inductive RequestCase (env : Env) (s : State) (a : Action) (s' : State) (index : Nat) :
    ControlPlane.Session → Prop
  | kept {session} (hcall : s.calls[index]? = some session)
      (hother : ∀ choice, a ≠ .call index choice) : RequestCase env s a s' index session
  | arrived {session} (hpc : session.pc = .route) (hhandle : session.handle = none) :
      RequestCase env s a s' index session
  | failed {session} (haction : a = .callError index) (hcall : s.calls[index]? = some session)
      (hstatement : session.pc.isStatement = true) :
      RequestCase env s a s' index { session with pc := .done databaseError }
  | moved {choice session moved effect} (haction : a = .call index choice)
      (hcall : s.calls[index]? = some session)
      (hmove : ControlPlane.HandleMove s.toShared session moved effect)
      (hstep : ControlPlane.step env s.toShared choice session = some (moved, effect))
      (heffect : effectOf env s a = effect) (hstate : s' = s.moveCall index moved effect) :
      RequestCase env s a s' index moved

theorem request_case (hstep : BrokerStep env s a s') {index : Nat} {session : ControlPlane.Session}
    (hcall : s'.calls[index]? = some session) : RequestCase env s a s' index session := by
  cases hstep with
  | quiet hother hsame hbroker hkept hold =>
      rcases hold index session hcall with hcall | ⟨hpc, hhandle⟩
      · refine .kept hcall ?_
        rintro choice rfl
        exact hother index rfl
      · exact .arrived hpc hhandle
  | consumed haction hused heffect hbroker hcalls =>
      rw [hcalls] at hcall
      exact .kept hcall (by simp [haction])
  | failed haction hfound hstatement hstate =>
      rw [hstate] at hcall
      rcases getElem?_set_some hcall with ⟨rfl, rfl⟩ | ⟨hne, hcall⟩
      · exact .failed haction hfound hstatement
      · exact .kept hcall (by simp [haction])
  | call haction hfound hmove hrun heffect hstate =>
      have hset := hcall
      rw [hstate] at hset
      rcases getElem?_set_some hset with ⟨rfl, rfl⟩ | ⟨hne, hcall⟩
      · exact .moved haction hfound hmove hrun heffect hstate
      · refine .kept hcall ?_
        rintro choice rfl
        cases haction
        exact hne rfl

/-- A request that moves and keeps its handle still has it. -/
theorem owner_set {calls : List ControlPlane.Session} {index owner : Nat}
    {session moved found : ControlPlane.Session} {handle : Uuid}
    (hcall : calls[index]? = some session) (hsame : moved.handle = session.handle)
    (hfound : calls[owner]? = some found) (hhandle : found.handle = some handle) :
    ∃ session, (calls.set index moved)[owner]? = some session ∧ session.handle = some handle := by
  by_cases heq : index = owner
  · subst heq
    rw [hcall, Option.some.injEq] at hfound
    refine ⟨moved, List.getElem?_set_self (List.getElem?_eq_some_iff.mp hcall).1, ?_⟩
    rw [hsame, hfound, hhandle]
  · exact ⟨found, by rw [List.getElem?_set_ne heq]; exact hfound, hhandle⟩

theorem Traced.owners_next (traced : Traced env h s) (hstep : BrokerStep env s a s')
    {handle : Uuid} {deposit : Deposit}
    (hlast : lastDeposit env handle (h ++ [(s, a)]) = some deposit) :
    ∃ session, s'.calls[deposit.call]? = some session ∧ session.handle = some handle := by
  rw [lastDeposit_snoc] at hlast
  cases hstep with
  | quiet hother hsame hbroker hkept hold =>
      rw [hsame] at hlast
      obtain ⟨session, hcall, hhandle⟩ := traced.owners handle deposit hlast
      exact ⟨session, hkept _ _ hcall, hhandle⟩
  | @consumed index reply other haction hused heffect hbroker hcalls =>
      subst haction
      simp only [depositAfter, heffect] at hlast
      rw [hcalls]
      split at hlast
      · obtain ⟨old, hold, rfl⟩ := Option.map_eq_some_iff.mp hlast
        exact traced.owners handle old hold
      · exact traced.owners handle deposit hlast
  | @failed index session haction hcall hstatement hstate =>
      subst haction
      obtain ⟨owner, howner, hhandle⟩ := traced.owners handle deposit hlast
      rw [hstate]
      exact owner_set hcall rfl howner hhandle
  | @call index choice session moved effect haction hcall hmove hrun heffect hstate =>
      subst haction
      simp only [depositAfter, heffect] at hlast
      rw [hstate]
      cases hmove with
      | answer =>
          obtain ⟨owner, howner, hhandle⟩ := traced.owners handle deposit hlast
          exact owner_set hcall rfl howner hhandle
      | @issue create credential other hpc hrequest hcredential hfresh =>
          simp only at hlast
          split at hlast
          · rename_i hsame
            cases hlast
            exact ⟨_, List.getElem?_set_self (List.getElem?_eq_some_iff.mp hcall).1, by rw [hsame]⟩
          · obtain ⟨owner, howner, hhandle⟩ := traced.owners handle deposit hlast
            have hne : index ≠ deposit.call := by
              rintro rfl
              rw [hcall, Option.some.injEq] at howner
              rw [← howner, traced.idle _ _ hcall hpc] at hhandle
              cases hhandle
            exact ⟨owner, by rw [State.moveCall, List.getElem?_set_ne hne]; exact howner, hhandle⟩
      | discard hpc hhandle =>
          obtain ⟨owner, howner, hhandle⟩ := traced.owners handle deposit hlast
          exact owner_set hcall rfl howner hhandle
      | quiet hactive hnot hroute hissue hconsume hdiscard =>
          have hlast : lastDeposit env handle h = some deposit := by
            cases effect with
            | issue other credential => exact absurd rfl (hissue other credential)
            | _ => exact hlast
          obtain ⟨owner, howner, hhandle⟩ := traced.owners handle deposit hlast
          exact owner_set hcall rfl howner hhandle

theorem Traced.presented_next (traced : Traced env h s) {index : Nat}
    {session : ControlPlane.Session} (hcase : RequestCase env s a s' index session)
    {create : ControlPlane.CreateRun} {credential : JsString}
    (hrequest : session.request = .createRun create)
    (hcredential : create.providerCredential = some credential) :
    session.pc = .route ∨ session.pc.failed = true ∨ ∃ handle, session.handle = some handle := by
  cases hcase with
  | kept hcall => exact traced.presented index session create credential hcall hrequest hcredential
  | arrived hpc => exact .inl hpc
  | failed => exact .inr (.inl rfl)
  | moved haction hcall hmove =>
      cases hmove with
      | issue => exact .inr (.inr ⟨_, rfl⟩)
      | discard hpc hhandle => exact .inr (.inr ⟨_, hhandle⟩)
      | answer hpc =>
          rcases traced.presented index _ create credential hcall hrequest hcredential with
            hroute | hfailed | hhandle
          · cases hpc.symm.trans hroute
          · rw [hpc] at hfailed
            cases hfailed
          · exact .inr (.inr hhandle)
      | @quiet next other hactive hnot hroute hissue hconsume hdiscard =>
          rcases traced.presented index _ create credential hcall hrequest hcredential with
            hpc | hfailed | hhandle
          · rcases hroute hpc with hfailed | hnone
            · exact .inr (.inl hfailed)
            · rw [hnone create hrequest] at hcredential
              cases hcredential
          · obtain ⟨response, hdone⟩ := ControlPlane.done_of_failed hfailed
            rw [hdone] at hactive
            cases hactive
          · exact .inr (.inr hhandle)

/-- A deposit stays through every step that does not touch the handle. -/
theorem HasDeposit.next {index : Nat} {session moved : ControlPlane.Session} {handle : Uuid}
    (hdeposit : HasDeposit env h s index session handle) (hnext : next env s a = some s')
    (hstep : BrokerStep env s a s') (hrequest : moved.request = session.request)
    (huntouched : ¬Touches env s a handle) :
    HasDeposit env (h ++ [(s, a)]) s' index moved handle := by
  obtain ⟨create, deposit, hcreate, hcredential, hlast, hmine, hheld⟩ := hdeposit
  obtain ⟨deposit', hlast', hsame, hcredential', hheld'⟩ :=
    carries hnext hstep huntouched deposit hlast hheld
  exact ⟨create, deposit', hrequest.trans hcreate, by rw [hcredential', hcredential], hlast',
    hsame.trans hmine, hheld'⟩

theorem not_touches_of_quiet {effect : Effect} {handle : Uuid} (heffect : effectOf env s a = effect)
    (hissue : ∀ handle credential, effect ≠ .issue handle credential)
    (hdiscard : ∀ handle, effect ≠ .discard handle) : ¬Touches env s a handle := by
  rintro ⟨index, choice, -, ⟨credential, htouched⟩ | htouched⟩
  · exact hissue handle credential (heffect.symm.trans htouched)
  · exact hdiscard handle (heffect.symm.trans htouched)

theorem Traced.creating_next (traced : Traced env h s) {index : Nat}
    {session : ControlPlane.Session} (hcase : RequestCase env s a s' index session)
    {handle : Uuid} (hhandle : session.handle = some handle) :
    session.pc.creates = true ∨ ∃ response, session.pc = .done response := by
  cases hcase with
  | kept hold => exact traced.creating index session handle hold hhandle
  | arrived hpc hnone =>
      rw [hnone] at hhandle
      cases hhandle
  | failed => exact .inr ⟨_, rfl⟩
  | @moved choice old moved effect haction hold hmove hrun =>
      cases hmove with
      | issue => exact .inl rfl
      | discard => exact .inr ⟨_, rfl⟩
      | answer => exact .inr ⟨_, rfl⟩
      | quiet hactive =>
          rcases traced.creating index old handle hold hhandle with hcreates | hdone
          · cases ControlPlane.step_move hrun with
            | start hpc =>
                rw [hpc] at hcreates
                cases hcreates
            | inner hinner =>
                rcases hinner.creates hcreates with hcreates' | hfailed | ⟨run, replayed, hpc⟩
                · exact .inl hcreates'
                · exact .inr (ControlPlane.done_of_failed hfailed)
                · exact .inr ⟨_, hpc⟩
          · obtain ⟨response, hpc⟩ := hdone
            rw [hpc] at hactive
            cases hactive

theorem Traced.active_next (locked : Locked s) (traced : Traced env h s)
    (hnext : next env s a = some s') (hstep : BrokerStep env s a s') {index : Nat}
    {session : ControlPlane.Session} {handle : Uuid} (hcase : RequestCase env s a s' index session)
    (hcall : s'.calls[index]? = some session) (hhandle : session.handle = some handle)
    (hactive : session.pc.isSettled = false) :
    HasDeposit env (h ++ [(s, a)]) s' index session handle := by
  cases hcase with
  | kept hold hother =>
      exact (traced.active index session handle hold hhandle hactive).next hnext hstep rfl
        (not_touches_of_active locked hstep hold hhandle hactive hother)
  | arrived hpc hnone =>
      rw [hnone] at hhandle
      cases hhandle
  | failed => cases hactive
  | moved haction hold hmove hrun heffect hstate =>
      cases hmove with
      | @issue create credential other hpc hrequest hcredential hfresh =>
          cases hhandle
          refine ⟨create, ⟨index, credential, s.dateNow, false⟩, hrequest, hcredential, ?_, rfl, ?_⟩
          · subst haction
            simp only [lastDeposit_snoc, depositAfter, heffect, if_true]
          · have hmem : ⟨handle, credential, s.dateNow + s.broker.ttlMs⟩ ∈
                (s.broker.perform ⟨s.dateNow, .issue handle credential⟩).entries :=
              CredentialBroker.mem_perform.mpr (.inl ⟨rfl, rfl⟩)
            rw [hstate]
            exact .inl hmem
      | discard => cases hactive
      | answer => cases hactive
      | quiet hactive' hnot hroute hissue hconsume hdiscard =>
          exact (traced.active index _ handle hold hhandle hactive').next hnext hstep rfl
            (not_touches_of_quiet heffect hissue hdiscard)

/-- The new run of a request is in the table once its commit has been carried out. -/
theorem created_run (sound : Sound s) {index : Nat} {choice : Uuid}
    {session : ControlPlane.Session} (hcall : s.calls[index]? = some session)
    (hnext : next env s (.call index choice) = some s') {id : Uuid}
    (hcreating : session.pc.creating? = some id) :
    ∃ row, s'.db.run? id = some row ∧ row.providerCredentialHandle = session.handle := by
  obtain ⟨writes, run, row, hpc, hwrite, rfl⟩ := ControlPlane.Pc.creating?_commit hcreating
  have hcommit : commitOf env s (.call index choice) = some (.request writes) := by
    simp [commitOf, hcall, ControlPlane.step, ControlPlane.stepPc, hpc, Effect.commit?]
  obtain ⟨create, id, now, budgetCents, -, hrow⟩ := sound.insert_eq hcall hpc hwrite
  have habsent := sound.snapshots.inserts index session writes row hcall (by rw [hpc]; rfl) hwrite
  refine ⟨row, ?_, by rw [hrow]; rfl⟩
  rw [next_run? hnext, hcommit, habsent.1]
  simp [Commit.rowAfter, RunWrite.rowAfter, hwrite]

/-- What a run keeps, it keeps in every step that leaves its request's handle as it is. -/
theorem KeepsCredential.next (unreferenced : Unreferenced s) (hnext : next env s a = some s')
    (hstep : BrokerStep env s a s') {index : Nat} {session moved : ControlPlane.Session} {id : Uuid}
    {credential : JsString} (hkeeps : KeepsCredential env h s index session id credential)
    (hhandle : moved.handle = session.handle) :
    KeepsCredential env (h ++ [(s, a)]) s' index moved id credential := by
  obtain ⟨handle, row, deposit, hmine, hrow, hkept, hlast, hcall, hsecret, hheld⟩ := hkeeps.issued
  have hused : ControlPlane.handleUnused s.toShared handle = false := by
    rw [handleUnused_eq_false, ← hkept]
    exact List.mem_map_of_mem (Table.lookup_mem hrow)
  obtain ⟨row', hrow', hsame⟩ := (next_extends hnext).runs id row hrow
  obtain ⟨deposit', hlast', hcall', hsecret', hheld'⟩ :=
    carries hnext hstep (not_touches_of_used unreferenced hstep hused) deposit hlast hheld
  exact ⟨handle, row', deposit', hhandle.trans hmine, hrow', hsame.handle.trans hkept, hlast',
    hcall'.trans hcall, hsecret'.trans hsecret, hheld'⟩

theorem Traced.unsettled (traced : Traced env h s) {index : Nat} {session : ControlPlane.Session}
    (hcall : s.calls[index]? = some session) (hactive : session.pc.isSettled = false) :
    createdRun? index h = none := by
  rw [Option.eq_none_iff_forall_ne_some]
  intro id hcreated
  obtain ⟨found, hfound, hsettled⟩ := traced.settled index id hcreated
  cases hfound.symm.trans hcall
  rw [hactive] at hsettled
  cases hsettled

theorem isSettled_of_creating? {pc : ControlPlane.Pc} {id : Uuid} (h : pc.creating? = some id) :
    pc.isSettled = false := by
  cases pc <;> first | rfl | cases h

theorem Traced.created_next (sound : Sound s) (unreferenced : Unreferenced s)
    (traced : Traced env h s) (hnext : next env s a = some s') (hstep : BrokerStep env s a s')
    {index : Nat} {session : ControlPlane.Session} (hcase : RequestCase env s a s' index session)
    {create : ControlPlane.CreateRun} {id : Uuid} {credential : JsString}
    (hrequest : session.request = .createRun create)
    (hcreated : createdRun? index (h ++ [(s, a)]) = some id)
    (hsettled : session.pc.isSettled = true)
    (hcredential : create.providerCredential = some credential) :
    KeepsCredential env (h ++ [(s, a)]) s' index session id credential := by
  rw [createdRun?_snoc] at hcreated
  cases hcase with
  | kept hold hother =>
      rw [createdBy_other hother, Option.or_none] at hcreated
      exact (traced.created index session create id credential hold hrequest hcreated
        hcredential).next unreferenced hnext hstep rfl
  | arrived hpc =>
      rw [hpc] at hsettled
      cases hsettled
  | failed haction hold =>
      subst haction
      rw [createdBy_other (by simp), Option.or_none] at hcreated
      exact (traced.created index _ create id credential hold hrequest hcreated
        hcredential).next unreferenced hnext hstep rfl
  | @moved choice old _ effect haction hold hmove hrun heffect hstate =>
      subst haction
      rw [createdBy_call hold] at hcreated
      cases hcreating : old.pc.creating? with
      | none =>
          rw [hcreating, Option.or_none] at hcreated
          obtain ⟨found, hfound, hsettled'⟩ := traced.settled index id hcreated
          cases hfound.symm.trans hold
          have hsame : session.request = old.request ∧ session.handle = old.handle := by
            cases hmove with
            | issue hpc =>
                rw [hpc] at hsettled'
                cases hsettled'
            | _ => exact ⟨rfl, rfl⟩
          exact (traced.created index old create id credential hold (hsame.1 ▸ hrequest) hcreated
            hcredential).next unreferenced hnext hstep hsame.2
      | some created =>
          have hactive := isSettled_of_creating? hcreating
          rw [traced.unsettled hold hactive, hcreating, Option.none_or, Option.some.injEq]
            at hcreated
          subst hcreated
          obtain ⟨row, hrow, hkept⟩ := created_run sound hold hnext hcreating
          obtain ⟨writes, run, inserted, hpc, -⟩ := ControlPlane.Pc.creating?_commit hcreating
          cases hmove with
          | issue hroute => cases hroute.symm.trans hpc
          | discard hdiscard => cases hdiscard.symm.trans hpc
          | answer hcommitted => cases hcommitted.symm.trans hpc
          | quiet _ _ _ hissue hconsume hdiscard =>
              rcases traced.presented index old create credential hold hrequest hcredential with
                hroute | hfailed | ⟨handle, hhandle⟩
              · cases hroute.symm.trans hpc
              · rw [hpc] at hfailed
                cases hfailed
              · obtain ⟨create', deposit, hcreate, hsecret, hlast, hmine, hheld⟩ :=
                  (traced.active index old handle hold hhandle hactive).next hnext hstep rfl
                    (not_touches_of_quiet heffect hissue hdiscard)
                cases hcreate.symm.trans hrequest
                rw [hcredential, Option.some.injEq] at hsecret
                exact ⟨handle, row, deposit, hhandle, hrow, hkept.trans hhandle, hlast, hmine,
                  hsecret.symm, hheld⟩

/-- A request that only waits for a reply goes on doing so, or is answered. -/
theorem BrokerStep.settled (hstep : BrokerStep env s a s') {index : Nat}
    {session : ControlPlane.Session} (hcall : s.calls[index]? = some session)
    (hsettled : session.pc.isSettled = true) :
    ∃ session', s'.calls[index]? = some session' ∧ session'.pc.isSettled = true := by
  cases hstep with
  | quiet hother hsame hbroker hkept => exact ⟨session, hkept index session hcall, hsettled⟩
  | consumed haction hused heffect hbroker hcalls => exact ⟨session, hcalls ▸ hcall, hsettled⟩
  | @failed other found haction hfound hstatement hstate =>
      rw [hstate]
      rcases eq_or_ne other index with rfl | hne
      · exact ⟨_, getElem?_set_self_of_some hfound, rfl⟩
      · exact ⟨session, by rw [State.moveCall, List.getElem?_set_ne hne]; exact hcall, hsettled⟩
  | @call other choice found moved effect haction hfound hmove hrun heffect hstate =>
      rw [hstate]
      rcases eq_or_ne other index with rfl | hne
      · cases hfound.symm.trans hcall
        refine ⟨moved, getElem?_set_self_of_some hfound, ?_⟩
        cases hmove with
        | issue hpc =>
            rw [hpc] at hsettled
            cases hsettled
        | quiet hactive =>
            rw [hactive] at hsettled
            cases hsettled
        | _ => rfl
      · exact ⟨session, by rw [State.moveCall, List.getElem?_set_ne hne]; exact hcall, hsettled⟩

theorem Traced.settled_next (traced : Traced env h s) (hnext : next env s a = some s')
    (hstep : BrokerStep env s a s') {index : Nat} {id : Uuid}
    (hcreated : createdRun? index (h ++ [(s, a)]) = some id) :
    ∃ session, s'.calls[index]? = some session ∧ session.pc.isSettled = true := by
  rw [createdRun?_snoc, Option.or_eq_some_iff] at hcreated
  rcases hcreated with hcreated | ⟨-, hcreated⟩
  · obtain ⟨session, hcall, hsettled⟩ := traced.settled index id hcreated
    exact hstep.settled hcall hsettled
  · obtain ⟨choice, session, writes, run, row, rfl, hcall, hpc, -⟩ := createdBy_commit hcreated
    simp only [DurableRuntime.next, hcall, ControlPlane.step, ControlPlane.stepPc, hpc] at hnext
    cases hnext
    exact ⟨_, getElem?_set_self_of_some hcall, rfl⟩

theorem Traced.answer_next (sound : Sound s) (traced : Traced env h s)
    {index : Nat} {session : ControlPlane.Session} (hcase : RequestCase env s a s' index session)
    {run : ControlPlane.StoredRun} (hcreated : session.pc.created? = some run) :
    createdRun? index (h ++ [(s, a)]) = some run.id := by
  rw [createdRun?_snoc]
  cases hcase with
  | kept hold => rw [traced.answer index session run hold hcreated, Option.some_or]
  | arrived hpc =>
      rw [hpc] at hcreated
      cases hcreated
  | failed => cases hcreated
  | @moved choice old moved effect haction hold hmove hrun heffect hstate =>
      subst haction
      cases ControlPlane.step_move hrun with
      | start hpc hrequest hstart =>
          cases ControlPlane.startCreate_start hstart with
          | _ => cases hcreated
      | inner hinner =>
          rcases hinner.created hcreated with hcreated' | ⟨writes, row, hpc, hwrite⟩
          · rw [traced.answer index old run hold hcreated', Option.some_or]
          · have hshape := sound.shaped.calls index old hold
            rw [ControlPlane.Shaped, hpc] at hshape
            obtain ⟨-, events, hstored⟩ := hshape
            rw [traced.unsettled hold (by rw [hpc]; rfl), createdBy_call hold, hpc, Option.none_or,
              hstored]
            simp only [ControlPlane.Pc.creating?, hwrite]
            rfl

theorem Traced.next (sound : Sound s) (unreferenced : Unreferenced s) (handled : Handled s)
    (traced : Traced env h s) (hnext : next env s a = some s') :
    Traced env (h ++ [(s, a)]) s' := by
  have hstep := next_broker handled hnext
  constructor
  · intro handle deposit hlast
    exact traced.owners_next hstep hlast
  · intro index session hcall hpc
    cases request_case hstep hcall with
    | kept hold => exact traced.idle index session hold hpc
    | arrived _ hhandle => exact hhandle
    | failed => cases hpc
    | moved haction hold hmove hrun =>
        cases hmove with
        | quiet hactive hnot => exact absurd hpc hnot
        | _ => cases hpc
  · intro index session handle hcall hhandle
    exact traced.creating_next (request_case hstep hcall) hhandle
  · intro index session create credential hcall hrequest hcredential
    exact traced.presented_next (request_case hstep hcall) hrequest hcredential
  · intro index session handle hcall hhandle hactive
    exact traced.active_next sound.locked hnext hstep (request_case hstep hcall) hcall hhandle
      hactive
  · intro index session create id credential hcall hrequest hcreated hcredential
    obtain ⟨found, hfound, hsettled⟩ := traced.settled_next hnext hstep hcreated
    cases hfound.symm.trans hcall
    exact traced.created_next sound unreferenced hnext hstep (request_case hstep hcall) hrequest
      hcreated hsettled hcredential
  · intro index id hcreated
    exact traced.settled_next hnext hstep hcreated
  · intro index session run hcall hcreated
    exact traced.answer_next sound (request_case hstep hcall) hcreated

theorem run_traced (run : Run env h s) : Traced env h s := by
  refine run.invariant ?_ ?_
  · intro s hs
    exact traced_initial hs
  · intro h s a s' run traced hnext
    exact traced.next (run_sound run) (run_unreferenced run) (run_handled run) hnext

/-! ## Answers -/

/-- An entry of the next broker is an old one, or the one that the step has issued. -/
theorem entry_next (hstep : BrokerStep env s a s') {entry : BrokerEntry}
    (hentry : entry ∈ s'.broker.entries) :
    entry ∈ s.broker.entries ∨
      ∃ index choice credential, a = .call index choice ∧
        effectOf env s a = .issue entry.handle credential := by
  cases hstep with
  | quiet hother hsame hbroker => exact .inl (hbroker ▸ hentry)
  | failed haction hcall hstatement hstate =>
      rw [hstate] at hentry
      exact .inl hentry
  | @consumed index reply handle haction hused heffect hbroker =>
      rw [hbroker] at hentry
      have hperform : entry ∈ (s.broker.perform ⟨s.dateNow, .consume handle⟩).entries := hentry
      rcases CredentialBroker.mem_perform.mp hperform with ⟨hissue, -⟩ | ⟨hold, -⟩
      · cases hissue
      · exact .inl hold
  | @call index choice session moved effect haction hcall hmove hrun heffect hstate =>
      rw [hstate] at hentry
      cases hmove with
      | @issue create credential handle hpc hrequest hcredential hfresh =>
          have hperform : entry ∈
            (s.broker.perform ⟨s.dateNow, .issue handle credential⟩).entries := hentry
          rcases CredentialBroker.mem_perform.mp hperform with ⟨hissue, -⟩ | ⟨hold, -⟩
          · cases hissue
            exact .inr ⟨index, choice, _, haction, heffect⟩
          · exact .inl hold
      | answer => exact .inl hentry
      | @discard run handle hpc hhandle =>
          have hperform : entry ∈ (s.broker.perform ⟨s.dateNow, .discard handle⟩).entries := hentry
          rcases CredentialBroker.mem_perform.mp hperform with ⟨hissue, -⟩ | ⟨hold, -⟩
          · cases hissue
          · exact .inl hold
      | quiet hactive hnot hroute hissue hconsume hdiscard =>
          have hsame : (s.toShared.apply effect).broker = s.broker :=
            Shared.apply_broker hissue hconsume hdiscard
          have hmem : entry ∈ (s.toShared.apply effect).broker.entries := hentry
          rw [hsame] at hmem
          exact .inl hmem

/-- Apart from a new `issue` of the handle, its deposit has been there before the step. -/
theorem lastDeposit_old {handle : Uuid} {deposit : Deposit}
    (hlast : lastDeposit env handle (h ++ [(s, a)]) = some deposit) :
    (∃ choice credential, a = .call deposit.call choice ∧
      effectOf env s a = .issue handle credential) ∨
      ∃ old, lastDeposit env handle h = some old ∧ old.call = deposit.call := by
  rw [lastDeposit_snoc] at hlast
  unfold depositAfter at hlast
  split at hlast
  · rename_i index choice other credential heq heffect
    split at hlast
    · rename_i hsame
      cases hlast
      exact .inl ⟨choice, credential, heq, hsame ▸ heffect⟩
    · exact .inr ⟨deposit, hlast, rfl⟩
  · split at hlast
    · obtain ⟨old, hold, rfl⟩ := Option.map_eq_some_iff.mp hlast
      exact .inr ⟨old, hold, rfl⟩
    · exact .inr ⟨deposit, hlast, rfl⟩
  · exact .inr ⟨deposit, hlast, rfl⟩

theorem get_ne_none {broker : CredentialBroker} {entry : BrokerEntry}
    (hentry : entry ∈ broker.entries) : broker.get entry.handle ≠ none := by
  intro hnone
  exact CredentialBroker.get_none.mp hnone entry hentry rfl

theorem Traced.failed_eq (traced : Traced env h s) {index : Nat} {choice : Uuid}
    {session moved : ControlPlane.Session} {effect : Effect} {handle : Uuid}
    (hcall : s.calls[index]? = some session) (hhandle : session.handle = some handle)
    (hactive : session.pc.isSettled = false)
    (hrun : ControlPlane.step env s.toShared choice session = some (moved, effect)) :
    moved.pc.failed =
      ControlPlane.refused env s.toShared session.principal.tenantId session.pc := by
  rcases traced.creating index session handle hcall hhandle with hcreates | hdone
  · cases ControlPlane.step_move hrun with
    | start hpc =>
        rw [hpc] at hcreates
        cases hcreates
    | inner hinner => exact hinner.failed_eq hcreates
  · obtain ⟨response, hpc⟩ := hdone
    rw [hpc] at hactive
    cases hactive

/-- A request with a handle that is answered, and not by a new run, keeps no entry. -/
theorem answered_move (traced : Traced env h s) {index : Nat} {choice : Uuid}
    {session moved : ControlPlane.Session} {effect : Effect} {handle : Uuid}
    (hcall : s.calls[index]? = some session) (hhandle : session.handle = some handle)
    (hactive : session.pc.isSettled = false)
    (hrun : ControlPlane.step env s.toShared choice session = some (moved, effect))
    (hdiscard : ∀ handle, effect ≠ .discard handle) {response : ControlPlane.Response}
    (hdone : moved.pc = .done response) (hother : ∀ run, response ≠ .created run false) :
    moved.pc.failed = true := by
  rcases traced.creating index session handle hcall hhandle with hcreates | hdone'
  · cases ControlPlane.step_move hrun with
    | start hpc =>
        rw [hpc] at hcreates
        cases hcreates
    | @inner pc _ hinner =>
        have hdone : pc = .done response := hdone
        rcases hinner.creates hcreates with hcreates' | hfailed | ⟨run, replayed, hpc⟩
        · rw [hdone] at hcreates'
          cases hcreates'
        · exact hfailed
        · cases replayed with
          | false =>
              cases hdone.symm.trans hpc
              exact absurd rfl (hother run)
          | true =>
              rcases hinner.replayed hcreates hpc with hnone | ⟨other, heffect⟩
              · rw [hhandle] at hnone
                cases hnone
              · exact absurd heffect (hdiscard other)
  · obtain ⟨answered, hpc⟩ := hdone'
    rw [hpc] at hactive
    cases hactive

/-- With a handle, a request waits for the reply to its commit only as a creation. -/
theorem Traced.committed (traced : Traced env h s) {index : Nat} {session : ControlPlane.Session}
    {handle : Uuid} {response : ControlPlane.Response} (hcall : s.calls[index]? = some session)
    (hhandle : session.handle = some handle) (hpc : session.pc = .committed response) :
    ∃ run, session.pc.created? = some run := by
  rcases traced.creating index session handle hcall hhandle with hcreates | ⟨answered, hdone⟩
  · rw [hpc] at hcreates ⊢
    cases response with
    | created run replayed =>
        cases replayed with
        | false => exact ⟨run, rfl⟩
        | true => cases hcreates
    | _ => cases hcreates
  · cases hpc.symm.trans hdone

/-- A database error meets a request that has created no run before its commit. -/
theorem Traced.failing (traced : Traced env h s) {index : Nat} {session : ControlPlane.Session}
    {handle : Uuid} (hcall : s.calls[index]? = some session)
    (hhandle : session.handle = some handle) (hstatement : session.pc.isStatement = true)
    (hnone : createdRun? index h = none) : session.pc.isSettled = false := by
  cases hpc : session.pc with
  | committed response =>
      obtain ⟨run, hcreated⟩ := traced.committed hcall hhandle hpc
      rw [traced.answer index session run hcall hcreated] at hnone
      cases hnone
  | done response =>
      rw [hpc] at hstatement
      cases hstatement
  | _ => rfl

theorem otherwise_next (traced : Traced env h s) (traced' : Traced env (h ++ [(s, a)]) s')
    (answered : Answered env h s) (hstep : BrokerStep env s a s')
    (hempty : FailsEmptyHanded env s a) {index : Nat} {session : ControlPlane.Session}
    {response : ControlPlane.Response} (hcall : s'.calls[index]? = some session)
    (hdone : session.pc = .done response) (hnone : createdRun? index (h ++ [(s, a)]) = none)
    {entry : BrokerEntry} (hentry : entry ∈ s'.broker.entries) {deposit : Deposit}
    (hlast : lastDeposit env entry.handle (h ++ [(s, a)]) = some deposit) :
    deposit.call ≠ index := by
  intro hmine
  obtain ⟨owner, howner, hhandle⟩ := traced'.owners _ _ hlast
  rw [hmine, hcall, Option.some.injEq] at howner
  subst howner
  have hother : ∀ run, response ≠ .created run false := by
    rintro run rfl
    rw [traced'.answer index session run hcall (by rw [hdone]; rfl)] at hnone
    cases hnone
  rw [createdRun?_snoc, Option.or_eq_none_iff] at hnone
  cases request_case hstep hcall with
  | arrived hpc =>
      rw [hpc] at hdone
      cases hdone
  | kept hold hnot =>
      rcases lastDeposit_old hlast with ⟨choice, credential, haction, -⟩ | ⟨old, hlast', hsame⟩
      · exact hnot choice (hmine ▸ haction)
      · rcases entry_next hstep hentry with hentry | ⟨other, choice, credential, haction, heffect⟩
        · exact answered.otherwise index session response hold hdone hnone.1 entry hentry old hlast'
            (hsame.trans hmine)
        · subst haction
          rw [lastDeposit_snoc] at hlast
          simp only [depositAfter, heffect, if_true, Option.some.injEq] at hlast
          rw [← hlast] at hmine
          exact hnot choice (by rw [← hmine])
  | failed haction hold hstatement =>
      subst haction
      rcases entry_next hstep hentry with hentry | ⟨other, choice, credential, haction, -⟩
      · exact get_ne_none hentry (hempty _ hold (traced.failing hold hhandle hstatement hnone.1)
          entry.handle hhandle)
      · cases haction
  | @moved choice old moved effect haction hold hmove hrun heffect hstate =>
      cases hmove with
      | issue => cases hdone
      | answer hpc =>
          obtain ⟨run, hcreated⟩ := traced.committed hold hhandle hpc
          rw [traced.answer index old run hold hcreated] at hnone
          cases hnone.1
      | @discard run handle hpc hhandle' =>
          cases hhandle'.symm.trans hhandle
          rw [hstate] at hentry
          have hperform : entry ∈
            (s.broker.perform ⟨s.dateNow, .discard entry.handle⟩).entries := hentry
          rcases CredentialBroker.mem_perform.mp hperform with ⟨hissue, -⟩ | ⟨-, hne, -⟩
          · cases hissue
          · exact hne rfl
      | quiet hactive hnot hroute hissue hconsume hdiscard =>
          have hrefused := answered_move traced hold hhandle hactive hrun hdiscard hdone hother
          rw [traced.failed_eq hold hhandle hactive hrun] at hrefused
          subst haction
          rcases entry_next hstep hentry with hentry | ⟨other, choice', credential, -, hissued⟩
          · exact get_ne_none hentry (hempty _ hold hrefused entry.handle hhandle)
          · exact hissue _ _ (heffect.symm.trans hissued)

/-- What a request takes out of the broker has expired, or is its own. -/
theorem sparesOthers (traced : Traced env h s) (handled : Handled s) : SparesOthers env h s a := by
  intro s' index hactor hnext entry hentry hlive hnotmine
  cases next_broker handled hnext with
  | quiet hother hsame hbroker =>
      rw [hbroker]
      exact hentry
  | failed haction hcall hstatement hstate =>
      rw [hstate]
      exact hentry
  | consumed haction =>
      subst haction
      cases hactor
  | call haction hcall hmove hrun heffect hstate =>
      subst haction
      cases hactor
      rw [hstate]
      cases hmove with
      | answer => exact hentry
      | @issue create credential handle hpc hrequest hcredential hfresh =>
          have hmem : entry ∈ (s.broker.perform ⟨s.dateNow, .issue handle credential⟩).entries := by
            refine CredentialBroker.mem_perform.mpr (.inr ⟨hentry, ?_, .inr hlive⟩)
            intro hsame
            simp only [ControlPlane.freshHandle, Bool.and_eq_true, Option.isNone_iff_eq_none]
              at hfresh
            exact get_ne_none hentry (hsame ▸ hfresh.1.1)
          exact hmem
      | @discard run handle hpc hhandle =>
          have hmem : entry ∈ (s.broker.perform ⟨s.dateNow, .discard handle⟩).entries := by
            refine CredentialBroker.mem_perform.mpr (.inr ⟨hentry, ?_, .inr hlive⟩)
            intro hsame
            obtain ⟨create, deposit, -, -, hlast, hmine, -⟩ :=
              traced.active index _ handle hcall hhandle (by rw [hpc]; rfl)
            exact hnotmine deposit (by rw [hsame]; exact hlast) hmine
          exact hmem
      | quiet hactive hnot hroute hissue hconsume hdiscard =>
          have hsame : (s.toShared.apply _).broker = s.broker :=
            Shared.apply_broker hissue hconsume hdiscard
          exact hsame ▸ hentry

/-- An unfinished request whose entry is in the broker leaves it there when it fails. -/
theorem entry_left (traced : Traced env h s) {index : Nat} {session moved : ControlPlane.Session}
    {effect : Effect} {handle : Uuid} (hcall : s.calls[index]? = some session)
    (hhandle : session.handle = some handle) (hactive : session.pc.isSettled = false)
    (hfailed : moved.pc.failed = true) (hstate : s' = s.moveCall index moved effect)
    (hissue : ∀ handle credential, effect ≠ .issue handle credential)
    (hconsume : ∀ handle, effect ≠ .consume handle)
    (hdiscard : ∀ handle, effect ≠ .discard handle)
    (hlast : lastDeposit env handle (h ++ [(s, a)]) = lastDeposit env handle h)
    (hnone : createdRun? index (h ++ [(s, a)]) = none)
    (answered : Answered env (h ++ [(s, a)]) s') : s.broker.get handle = none := by
  rw [CredentialBroker.get_none]
  rintro entry hentry rfl
  obtain ⟨create, deposit, -, -, hdeposit, hmine, -⟩ :=
    traced.active index session entry.handle hcall hhandle hactive
  have hmoved : s'.calls[index]? = some moved := by
    rw [hstate]
    exact List.getElem?_set_self (List.getElem?_eq_some_iff.mp hcall).1
  have hentry' : entry ∈ s'.broker.entries := by
    have hsame : (s.toShared.apply effect).broker = s.broker :=
      Shared.apply_broker hissue hconsume hdiscard
    rw [hstate]
    exact hsame ▸ hentry
  cases hpc : moved.pc with
  | done response =>
      cases response with
      | error status message =>
          exact answered.otherwise index moved _ hmoved hpc hnone entry hentry' deposit
            (hlast.trans hdeposit) hmine
      | _ =>
          rw [hpc] at hfailed
          cases hfailed
  | _ =>
      rw [hpc] at hfailed
      cases hfailed

theorem failsEmptyHanded_of_answered (handled : Handled s) (traced : Traced env h s)
    (hnext : next env s a = some s') (answered : Answered env (h ++ [(s, a)]) s') :
    FailsEmptyHanded env s a := by
  cases a with
  | callError index =>
      intro session hcall hactive handle hhandle
      cases next_broker handled hnext with
      | quiet hother => exact absurd rfl (hother index)
      | call haction => cases haction
      | consumed haction => cases haction
      | failed haction hfound hstatement hstate =>
          cases haction
          cases hfound.symm.trans hcall
          refine entry_left traced hcall hhandle hactive rfl hstate (by simp) (by simp) (by simp)
            (by rw [lastDeposit_snoc]; rfl) ?_ answered
          rw [createdRun?_snoc, traced.unsettled hcall hactive]
          rfl
  | call index choice =>
      intro session hcall hrefused handle hhandle
      cases next_broker handled hnext with
      | quiet hother => exact absurd rfl (hother index)
      | failed haction => cases haction
      | consumed haction => cases haction
      | @call _ _ _ moved effect haction hfound hturn hrun heffect hstate =>
          cases haction
          cases hfound.symm.trans hcall
          cases hturn with
          | issue hpc =>
              rw [hpc] at hrefused
              cases hrefused
          | discard hpc =>
              rw [hpc] at hrefused
              cases hrefused
          | answer hpc =>
              rw [hpc] at hrefused
              cases hrefused
          | quiet hactive hnot hroute hissue hconsume hdiscard =>
              have hfailed := traced.failed_eq hcall hhandle hactive hrun
              rw [hrefused] at hfailed
              refine entry_left traced hcall hhandle hactive hfailed hstate hissue hconsume hdiscard
                ?_ ?_ answered
              · rw [lastDeposit_snoc]
                unfold depositAfter
                rw [heffect]
                cases effect with
                | issue other credential => exact absurd rfl (hissue other credential)
                | _ => rfl
              · rw [createdRun?_snoc, traced.unsettled hcall hactive, createdBy_call hcall]
                exact ControlPlane.creating?_of_refused hrefused
  | _ => trivial

/--
Credentials outlive their requests only for new runs exactly in the runs in
which no creation is refused, or meets a database error, while the credential
that it issued is still in the broker.
-/
theorem credentialsOutliveRequests_iff (run : Run env h s) :
    CredentialsOutliveRequests env h s ↔ Within (fun _ => FailsEmptyHanded env) h := by
  constructor
  · rintro ⟨halways, hlast, -⟩ h₁ t b h₂ rfl
    obtain ⟨t', hnext, hanswered⟩ := run.holds_after halways hlast
    obtain ⟨-, run₁, -⟩ := run.split
    exact failsEmptyHanded_of_answered (run_handled run₁) (run_traced run₁) hnext hanswered
  · intro hempty
    have answered : ∀ {h s}, Run env h s → Within (fun _ => FailsEmptyHanded env) h →
        Answered env h s := by
      intro h s run hempty
      refine run.invariant_within ?_ ?_ hempty
      · intro s hs
        exact ⟨by simp [hs.calls], by simp [hs.calls], by simp [hs.calls]⟩
      · intro h s a s' run _ answered hstep hnext
        have traced' := run_traced (run.step hnext)
        refine ⟨traced'.created, ?_, ?_⟩
        · intro index session stored hcall hdone
          exact traced'.answer index session stored hcall (by rw [hdone]; rfl)
        · intro index session response hcall hdone hnone entry hentry deposit hlast
          exact otherwise_next (run_traced run) traced' answered
            (next_broker (run_handled run) hnext) hstep hcall hdone hnone hentry hlast
    refine ⟨?_, answered run hempty, ?_⟩
    · rintro h₁ t b h₂ rfl
      obtain ⟨-, run₁, -⟩ := run.split
      exact answered run₁ hempty.of_append
    · rintro h₁ t b h₂ rfl
      obtain ⟨-, run₁, -⟩ := run.split
      exact sparesOthers (run_traced run₁) (run_handled run₁)

end

/-! ## A refused creation -/

def createCredentialed : List Action :=
  .createWorkflow Scenario.owner Scenario.workflowId (Scenario.workflow [modelStep]) ::
    .request Scenario.owner createWithCredential :: .call 0 9 ::
      List.replicate 12 (.call 0 Scenario.runId)

/-- A run without a credential uses up a quota of one; the creation of another is refused. -/
def createTwo : List Action :=
  Scenario.createActions [modelStep] ++
    .request Scenario.owner (.createRun ⟨Scenario.workflowId, .obj [],
      some (.ofString "provider-credential-0001"), "idempotency-key-2"⟩) :: .call 1 9 ::
        List.replicate 4 (.call 1 8)

/-- The only call has created a run. -/
def createdOnly : List ControlPlane.Pc → Bool
  | [.done (.created _ false)] => true
  | _ => false

/-- A call has ended with status 429. -/
def tooMany : Option ControlPlane.Pc → Bool
  | some (.done (.error 429 _)) => true
  | _ => false

theorem createCredentialed_outlives : ∃ h t, Run Scenario.env h t ∧
    (∃ run, t.calls.map ControlPlane.Session.pc = [.done (.created run false)]) ∧
      t.broker.entries ≠ [] ∧ CredentialsOutliveRequests Scenario.env h t := by
  obtain ⟨h, t, run, htest⟩ := Scenario.exists_run 5 createCredentialed
    (fun h t => createdOnly (t.calls.map ControlPlane.Session.pc) &&
      !t.broker.entries.isEmpty && h.all fun p => decide (FailsEmptyHanded Scenario.env p.1 p.2))
    (by decide +kernel)
  simp only [Bool.and_eq_true, List.all_eq_true, decide_eq_true_eq, Bool.not_eq_true',
    List.isEmpty_eq_false_iff] at htest
  obtain ⟨⟨hcreated, hentries⟩, hempty⟩ := htest
  refine ⟨h, t, run, ?_, hentries,
    (credentialsOutliveRequests_iff run).mpr (within_iff.mpr hempty)⟩
  unfold createdOnly at hcreated
  split at hcreated
  · rename_i created hcalls
    exact ⟨created, hcalls⟩
  · cases hcreated

/-- The quota of the tenant is used up, and the entry of the refused creation stays. -/
theorem not_credentialsOutliveRequests :
    ¬∀ env h s, Run env h s → CredentialsOutliveRequests env h s := by
  intro hall
  obtain ⟨h, t, run, htest⟩ := Scenario.exists_run 1 createTwo
    (fun h t => tooMany ((t.calls[1]?).map ControlPlane.Session.pc) &&
      (createdRun? 1 h).isNone && t.broker.entries.any fun entry =>
        (lastDeposit Scenario.env entry.handle h).any fun deposit => deposit.call = 1)
    (by decide +kernel)
  simp only [Bool.and_eq_true, List.any_eq_true, Option.any_eq_true, decide_eq_true_eq,
    Option.isNone_iff_eq_none] at htest
  obtain ⟨⟨hrefused, hnone⟩, entry, hentry, deposit, hlast, hmine⟩ := htest
  unfold tooMany at hrefused
  split at hrefused
  · rename_i message hpc
    obtain ⟨session, hcall, hdone⟩ := Option.map_eq_some_iff.mp hpc
    exact (hall Scenario.env h t run).last.otherwise 1 session _ hcall hdone hnone entry hentry
      deposit hlast hmine
  · cases hrefused

end DurableRuntime
