import DurableRuntime.Identity
import DurableRuntime.Scenario

/-!
# Calls of the provider

A credential leaves the broker through one consume call, since the call deletes
it and a handle that a run refers to is never issued again.  A worker calls the
provider only with a credential that such a call has given it, so the calls of a
run, made or about to be made, are no more than what its handle has yielded.
-/

namespace DurableRuntime

open DurableRuntime.Foundation

/-- The handle whose credential leaves the broker with this consume call, if any. -/
def yields? (env : Env) (s : State) : Action → Option Uuid
  | .worker index (.consume delivery) =>
      match s.workers[index]? with
      | some ⟨_, _, .consume _ _ handle _⟩ =>
          match (Worker.consumeCredential env s.toShared handle delivery).2 with
          | .consume _ => if (s.broker.consume s.dateNow handle).1.isSome then some handle else none
          | _ => none
      | _ => none
  | _ => none

/-- The run of a position from which `callOpenAICompatible` sends its request. -/
def Worker.Pc.calling? : Worker.Pc → Option Uuid
  | .provider run _ _ _ => some run.ref.id
  | _ => none

/-- The run for which the action is a request to the provider, also one cut off by a crash. -/
def calls? (s : State) (a : Action) : Option Uuid :=
  match actor a with
  | some (.worker index) => (s.workers[index]?).bind fun session => session.pc.calling?
  | _ => none

def callCount (id : Uuid) (h : History State Action) : Nat :=
  h.countP fun p => calls? p.1 p.2 = some id

def yieldCount (env : Env) (handle : Uuid) (h : History State Action) : Nat :=
  h.countP fun p => yields? env p.1 p.2 = some handle

/-- How often the credential of a run has left the broker. -/
def obtained (env : Env) (h : History State Action) (db : Db) (id : Uuid) : Nat :=
  match (db.run? id).bind RunRow.providerCredentialHandle with
  | none => 0
  | some handle => yieldCount env handle h

structure ProviderOnce (env : Env) (h : History State Action) (t : State) : Prop where
  once : ∀ id, callCount id h ≤ 1
  obtained : ∀ id, callCount id h ≤ obtained env h t.db id
  yielded : ∀ handle, yieldCount env handle h ≤ 1

/-! ## The broker -/

namespace CredentialBroker

variable {broker : CredentialBroker} {now : Int} {handle other : Uuid} {credential : JsString}

theorem get_none : broker.get handle = none ↔ ∀ entry ∈ broker.entries, entry.handle ≠ handle := by
  simp [get]

theorem get_purge (h : broker.get handle = none) : (broker.purge now).get handle = none := by
  rw [get_none] at h ⊢
  intro entry hentry
  exact h entry (List.mem_filter.mp hentry).1

theorem get_delete (h : broker.get handle = none) : (broker.delete other).get handle = none := by
  rw [get_none] at h ⊢
  intro entry hentry
  exact h entry (List.mem_filter.mp hentry).1

theorem get_delete_self : (broker.delete handle).get handle = none := by
  rw [get_none]
  intro entry hentry
  simpa using (List.mem_filter.mp hentry).2

theorem get_issue (h : broker.get handle = none) (hne : handle ≠ other) :
    (broker.issue now other credential).get handle = none := by
  have hold : ((broker.purge now).delete other).get handle = none := get_delete (get_purge h)
  rw [get_none] at hold ⊢
  intro entry hentry
  rcases List.mem_append.mp hentry with hentry | hentry
  · exact hold entry hentry
  · rw [List.mem_singleton] at hentry
    subst hentry
    exact Ne.symm hne

theorem consume_none (h : broker.get handle = none) : (broker.consume now handle).1 = none := by
  rw [consume, get_purge h]
  rfl

end CredentialBroker

theorem apply_get_none {s : Shared} {effect : Effect} {handle : Uuid}
    (h : s.broker.get handle = none) (hissue : ∀ credential, effect ≠ .issue handle credential) :
    (s.apply effect).broker.get handle = none := by
  cases effect with
  | issue other credential =>
      refine CredentialBroker.get_issue h ?_
      rintro rfl
      exact hissue credential rfl
  | consume other => exact CredentialBroker.get_delete (CredentialBroker.get_purge h)
  | discard other => exact CredentialBroker.get_delete h
  | _ => exact h

theorem ControlPlane.Turn.issues {env : Env} {s : Shared} {session moved : ControlPlane.Session}
    {handle : Uuid} {credential : JsString}
    (hturn : ControlPlane.Turn env s session moved (.issue handle credential)) :
    ControlPlane.freshHandle s handle = true := by
  cases hturn with
  | move hmove =>
      cases hmove with
      | start hpc hrequest hstart =>
          cases ControlPlane.startCreate_start hstart with
          | issue hrole hlength hcredential hfresh => exact hfresh
      | inner hmove =>
          generalize session.pc = old at hmove
          cases hmove

/-- The broker calls of a worker are consume calls of the handle it works with. -/
theorem Worker.Move.consumes {env : Env} {s : Shared} {owner : String} {reply : Worker.Reply}
    {old pc : Worker.Pc} {effect : Effect} (hmove : Worker.Move env s owner reply old pc effect) :
    (∃ run index handle prompt, old = .consume run index handle prompt ∧
      effect = .consume handle) ∨
      ((∀ handle credential, effect ≠ .issue handle credential) ∧
        (∀ handle, effect ≠ .consume handle) ∧ ∀ handle, effect ≠ .discard handle) := by
  cases hmove with
  | consume run index handle prompt delivery =>
      unfold Worker.consumeCredential
      repeat' split
      · exact .inr ⟨by simp, by simp, by simp⟩
      · exact .inr ⟨by simp, by simp, by simp⟩
      · exact .inl ⟨run, index, handle, prompt, rfl, rfl⟩
      · exact .inl ⟨run, index, handle, prompt, rfl, rfl⟩
  | _ => exact .inr ⟨by simp, by simp, by simp⟩

theorem Worker.Turn.issues {env : Env} {s : Shared} {session : Worker.Session} {pc : Worker.Pc}
    {effect : Effect} (hturn : Worker.Turn env s session pc effect) (handle : Uuid)
    (credential : JsString) : effect ≠ .issue handle credential := by
  cases hturn with
  | error => simp
  | crash => simp
  | move hmove =>
      rcases hmove.consumes with ⟨run, index, other, prompt, -, rfl⟩ | ⟨hissue, -⟩
      · simp
      · exact hissue handle credential

/-- A publisher makes no broker call. -/
theorem Outbox.Turn.quiet {s : Shared} {session : Outbox.Session} {pc : Outbox.Pc}
    {effect : Effect} (hturn : Outbox.Turn s session pc effect) :
    (∀ handle credential, effect ≠ .issue handle credential) ∧
      (∀ handle, effect ≠ .consume handle) ∧ ∀ handle, effect ≠ .discard handle := by
  cases hturn with
  | error => simp
  | move hmove =>
      generalize session.pc = old at hmove
      cases hmove with
      | _ => simp

section

variable {env : Env} {s s' : State} {a : Action} {h : History State Action} {handle id : Uuid}

/-- A handle that a run refers to does not come back into the broker. -/
theorem get_none_next (hnext : next env s a = some s') (h : s.broker.get handle = none)
    (hused : ControlPlane.handleUnused s.toShared handle = false) :
    s'.broker.get handle = none := by
  cases next_step hnext with
  | @call _ index session moved effect hactor hcommit hcall hturn =>
      refine apply_get_none h ?_
      rintro credential rfl
      have hfresh := hturn.issues
      simp only [ControlPlane.freshHandle, hused, Bool.and_false, Bool.false_and] at hfresh
      cases hfresh
  | worker hactor hcommit hworker hturn => exact apply_get_none h (hturn.issues handle)
  | publisher hactor hcommit hpublisher hturn => exact apply_get_none h (hturn.quiet.1 handle)
  | _ => exact h

theorem handleUnused_eq_false {s : Shared} :
    ControlPlane.handleUnused s handle = false ↔
      some handle ∈ s.db.runs.map RunRow.providerCredentialHandle := by
  simp only [ControlPlane.handleUnused, List.all_eq_false, List.mem_map, decide_eq_true_eq,
    ne_eq, not_not]

theorem handleUsed_next (hnext : next env s a = some s')
    (hused : ControlPlane.handleUnused s.toShared handle = false) :
    ControlPlane.handleUnused s'.toShared handle = false := by
  rw [handleUnused_eq_false] at hused ⊢
  obtain ⟨events, outbox, audits, hdb⟩ := next_db hnext
  rw [hdb]
  cases hcommit : commitOf env s a with
  | none => exact hused
  | some change =>
      rw [Db.after, runs_commit_map RunRow.providerCredentialHandle fun h => h.handle]
      exact List.mem_append_left _ hused

/-! ## The handles of the workers -/

/-- The run and the handle of a position before a consume call. -/
def Worker.Pc.consuming? : Worker.Pc → Option (Worker.LeasedRun × Uuid)
  | .consume run _ handle _ => some (run, handle)
  | _ => none

/-- The handle that a worker works with is the one of its run. -/
structure Handled (s : State) : Prop where
  leased : ∀ (index : Nat) (session : Worker.Session) run, s.workers[index]? = some session →
    session.pc.leased? = some run →
      ∃ row, s.db.run? run.ref.id = some row ∧ row.providerCredentialHandle = run.credentialHandle
  consume : ∀ (index : Nat) (session : Worker.Session) run handle,
    s.workers[index]? = some session → session.pc.consuming? = some (run, handle) →
      run.credentialHandle = some handle

theorem Worker.loop_consuming {run leased : Worker.LeasedRun} {index : Nat}
    (h : (Worker.loop env run index).consuming? = some (leased, handle)) :
    leased.credentialHandle = some handle := by
  unfold Worker.loop Worker.executeStep Worker.executeTool Worker.executeProviderModel at h
  repeat' split at h
  all_goals cases h
  assumption

theorem Worker.Turn.consuming {s : Shared} {session : Worker.Session} {pc : Worker.Pc}
    {effect : Effect} (hturn : Worker.Turn env s session pc effect) {run : Worker.LeasedRun}
    (h : pc.consuming? = some (run, handle)) : run.credentialHandle = some handle := by
  cases hturn with
  | error => cases h
  | crash => cases h
  | move hmove =>
      generalize session.pc = old at hmove
      cases hmove with
      | received runId =>
          unfold Worker.process at h
          repeat' split at h
          all_goals cases h
      | execute run =>
          unfold Worker.execute at h
          split at h <;> cases h
      | loop run index => exact Worker.loop_consuming h
      | consume run index other prompt delivery =>
          unfold Worker.withCredential at h
          repeat' split at h
          all_goals cases h
      | @record _ run index kind status safeLabel hfree => cases status <;> cases h
      | @eventCommit _ run row after hfree => cases after <;> cases h
      | _ => cases h

theorem Handled.next (sound : Sound s) (handled : Handled s) (hnext : next env s a = some s') :
    Handled s' := by
  have later : ∀ {run : Worker.LeasedRun},
      (∃ row, s.db.run? run.ref.id = some row ∧
        row.providerCredentialHandle = run.credentialHandle) →
      ∃ row, s'.db.run? run.ref.id = some row ∧
        row.providerCredentialHandle = run.credentialHandle := by
    rintro run ⟨row, hrow, hhandle⟩
    obtain ⟨row', hrow', hsame⟩ := (next_extends hnext).runs _ row hrow
    exact ⟨row', hrow', hsame.handle.trans hhandle⟩
  constructor
  · intro index session run hworker hleased
    cases worker_case hnext hworker with
    | kept hold hactor => exact later (handled.leased index _ run hold hleased)
    | joined => cases hleased
    | turned hold hactor hcommit hturn hstate =>
        rcases hturn.leased? hleased with hmine | ⟨ref, now, row, definition, hpc, hdecode⟩
        · exact later (handled.leased index _ run hold hmine)
        · have hshape := sound.shaped.workers index _ hold
          have hrow := sound.snapshots.workers index _ row hold (by rw [hpc]; rfl)
          rw [hpc] at hshape
          rw [(Worker.leasedRun_leases hshape.1 hdecode).1.id] at hrow
          exact later ⟨row, hrow, (Worker.leasedRun_reads hdecode).1.symm⟩
  · intro index session run handle hworker hconsuming
    cases worker_case hnext hworker with
    | kept hold hactor => exact handled.consume index _ run handle hold hconsuming
    | joined => cases hconsuming
    | turned hold hactor hcommit hturn hstate => exact hturn.consuming hconsuming

theorem run_handled (run : Run env h s) : Handled s := by
  refine run.always ?_ ?_
  · intro s hs
    exact ⟨by simp [hs.workers], by simp [hs.workers]⟩
  · intro h s a s' run handled hnext
    exact handled.next (run_sound run) hnext

/-! ## What a handle yields -/

theorem consumeCredential_effect {s : Shared} {delivery : Worker.Delivery} {other : Uuid}
    (h : (Worker.consumeCredential env s handle delivery).2 = .consume other) : other = handle := by
  unfold Worker.consumeCredential at h
  repeat' split at h
  all_goals cases h
  all_goals rfl

theorem yields_some (hyields : yields? env s a = some handle) :
    ∃ index delivery session run step prompt, a = .worker index (.consume delivery) ∧
      s.workers[index]? = some session ∧ session.pc = .consume run step handle prompt ∧
        (Worker.consumeCredential env s.toShared handle delivery).2 = .consume handle ∧
          (s.broker.consume s.dateNow handle).1.isSome = true := by
  unfold yields? at hyields
  repeat' split at hyields
  all_goals cases hyields
  rename_i other hworker heffect hsome
  obtain rfl := consumeCredential_effect heffect
  exact ⟨_, _, _, _, _, _, rfl, hworker, rfl, heffect, hsome⟩

theorem yields_next (hnext : next env s a = some s') (hyields : yields? env s a = some handle) :
    s'.broker.get handle = none := by
  obtain ⟨index, delivery, session, run, step, prompt, rfl, hworker, hpc, heffect, -⟩ :=
    yields_some hyields
  simp only [next, hworker, hpc, Worker.step, Option.some.injEq] at hnext
  rw [← hnext, heffect]
  exact CredentialBroker.get_delete_self

/-- The credential of a handle is still to come, or has left for good. -/
def Spent (env : Env) (h : History State Action) (s : State) (handle : Uuid) : Prop :=
  yieldCount env handle h = 0 ∨
    (yieldCount env handle h = 1 ∧ s.broker.get handle = none ∧
      ControlPlane.handleUnused s.toShared handle = false)

theorem yieldCount_snoc :
    yieldCount env handle (h ++ [(s, a)]) =
      yieldCount env handle h + if yields? env s a = some handle then 1 else 0 := by
  simp [yieldCount, List.countP_append, List.countP_cons]

theorem Spent.next (handled : Handled s) (spent : Spent env h s handle)
    (hnext : next env s a = some s') : Spent env (h ++ [(s, a)]) s' handle := by
  rw [Spent, yieldCount_snoc]
  by_cases hyields : yields? env s a = some handle
  · rw [if_pos hyields]
    obtain ⟨index, delivery, session, run, step, prompt, -, hworker, hpc, -, hsome⟩ :=
      yields_some hyields
    rcases spent with hzero | ⟨-, hnone, -⟩
    · refine .inr ⟨by rw [hzero], yields_next hnext hyields, handleUsed_next hnext ?_⟩
      obtain ⟨row, hrow, hhandle⟩ :=
        handled.leased index session run hworker (by rw [hpc]; rfl)
      have hmine := handled.consume index session run handle hworker (by rw [hpc]; rfl)
      rw [handleUnused_eq_false, ← hmine, ← hhandle]
      exact List.mem_map_of_mem (Table.lookup_mem hrow)
    · rw [CredentialBroker.consume_none hnone] at hsome
      cases hsome
  · rw [if_neg hyields]
    rcases spent with hzero | ⟨hone, hnone, hused⟩
    · exact .inl hzero
    · exact .inr ⟨hone, get_none_next hnext hnone hused, handleUsed_next hnext hused⟩

theorem run_spent (run : Run env h s) (handle : Uuid) : Spent env h s handle := by
  refine @Exec.invariant _ _ _ _ (fun h s => Spent env h s handle) ?_ ?_ h s run
  · intro s hs
    exact .inl rfl
  · intro h s a s' run spent hnext
    exact spent.next (run_handled run) hnext

/-! ## Calls and yields -/

/-- The workers that are about to call the provider for a run. -/
def callers (id : Uuid) (workers : List Worker.Session) : Nat :=
  workers.countP fun session => session.pc.calling? = some id

/-- A worker gets to call the provider with a credential it has just consumed. -/
theorem Worker.Move.calling {s : Shared} {owner : String} {reply : Worker.Reply}
    {old pc : Worker.Pc} {effect : Effect} (hmove : Worker.Move env s owner reply old pc effect)
    (h : pc.calling? = some id) :
    ∃ run step handle prompt delivery, old = .consume run step handle prompt ∧ run.ref.id = id ∧
      reply = .consume delivery ∧
        (Worker.consumeCredential env s handle delivery).1.isSome = true := by
  cases hmove with
  | received runId =>
      unfold Worker.process at h
      repeat' split at h
      all_goals cases h
  | execute run =>
      unfold Worker.execute at h
      split at h <;> cases h
  | loop run index =>
      unfold Worker.loop Worker.executeStep Worker.executeTool Worker.executeProviderModel at h
      repeat' split at h
      all_goals cases h
  | consume run index handle prompt delivery =>
      refine ⟨run, index, handle, prompt, delivery, rfl, ?_, rfl, ?_⟩
      · unfold Worker.withCredential at h
        repeat' split at h
        all_goals cases h
        rfl
      · unfold Worker.withCredential at h
        split at h
        · cases h
        · rename_i credential hsome
          rw [hsome]
          rfl
  | @record _ run index kind status safeLabel hfree => cases status <;> cases h
  | @eventCommit _ run row after hfree => cases after <;> cases h
  | _ => cases h

/-- A consume call that hands out a credential takes it from the broker. -/
theorem consumeCredential_isSome {s : Shared} {delivery : Worker.Delivery}
    (h : (Worker.consumeCredential env s handle delivery).1.isSome = true) :
    (Worker.consumeCredential env s handle delivery).2 = .consume handle ∧
      (s.broker.consume s.dateNow handle).1.isSome = true := by
  cases delivery with
  | unreachable => cases h
  | replyLost =>
      simp only [Worker.consumeCredential] at h
      split at h <;> cases h
  | answered =>
      simp only [Worker.consumeCredential] at h ⊢
      split at h
      · cases h
      · rename_i htoken
        rw [if_neg htoken]
        refine ⟨rfl, ?_⟩
        rw [Option.isSome_map] at h
        obtain ⟨credential, hcredential⟩ := Option.isSome_iff_exists.mp h
        rw [(Option.filter_eq_some_iff.mp hcredential).1]
        rfl

theorem calling_yields {index : Nat} {reply : Worker.Reply} {old : Worker.Session}
    {pc : Worker.Pc} {effect : Effect} (handled : Handled s)
    (hworker : s.workers[index]? = some old)
    (hmove : Worker.Move env s.toShared old.id reply old.pc pc effect)
    (hcalling : pc.calling? = some id) :
    ∃ handle, (s.db.run? id).bind RunRow.providerCredentialHandle = some handle ∧
      yields? env s (.worker index reply) = some handle := by
  obtain ⟨run, step, handle, prompt, delivery, hpc, rfl, rfl, hsome⟩ := hmove.calling hcalling
  obtain ⟨row, hrow, hhandle⟩ := handled.leased index old run hworker (by rw [hpc]; rfl)
  have hmine := handled.consume index old run handle hworker (by rw [hpc]; rfl)
  refine ⟨handle, by rw [hrow, Option.bind_some, hhandle, hmine], ?_⟩
  obtain ⟨heffect, hyielded⟩ := consumeCredential_isSome hsome
  obtain ⟨workerId, message, position⟩ := old
  subst hpc
  simp [yields?, hworker, heffect, hyielded]

theorem obtained_le (hnext : next env s a = some s') :
    obtained env h s.db id ≤ obtained env (h ++ [(s, a)]) s'.db id := by
  unfold obtained
  cases hrow : s.db.run? id with
  | none => exact Nat.zero_le _
  | some row =>
      obtain ⟨row', hrow', hsame⟩ := (next_extends hnext).runs id row hrow
      rw [hrow', Option.bind_some, Option.bind_some, hsame.handle]
      cases row.providerCredentialHandle with
      | none => exact Nat.le_refl _
      | some handle =>
          simp only [yieldCount_snoc]
          exact Nat.le_add_right _ _

theorem obtained_lt (hnext : next env s a = some s')
    (hrow : (s.db.run? id).bind RunRow.providerCredentialHandle = some handle)
    (hyields : yields? env s a = some handle) :
    obtained env h s.db id + 1 ≤ obtained env (h ++ [(s, a)]) s'.db id := by
  obtain ⟨row, hrow, hhandle⟩ := Option.bind_eq_some_iff.mp hrow
  obtain ⟨row', hrow', hsame⟩ := (next_extends hnext).runs id row hrow
  unfold obtained
  rw [hrow, hrow', Option.bind_some, Option.bind_some, hsame.handle, hhandle]
  simp only [yieldCount_snoc, hyields, if_true]
  exact Nat.le_refl _

theorem callCount_snoc :
    callCount id (h ++ [(s, a)]) = callCount id h + if calls? s a = some id then 1 else 0 := by
  simp [callCount, List.countP_append, List.countP_cons]

theorem callers_set {workers : List Worker.Session} {index : Nat} {old new : Worker.Session}
    (hold : workers[index]? = some old) :
    callers id (workers.set index new) + (if old.pc.calling? = some id then 1 else 0) =
      callers id workers + if new.pc.calling? = some id then 1 else 0 := by
  obtain ⟨hlt, rfl⟩ := List.getElem?_eq_some_iff.mp hold
  unfold callers
  rw [List.countP_set hlt]
  simp only [decide_eq_true_eq]
  by_cases hcalling : workers[index].pc.calling? = some id
  · have hpos : 0 < workers.countP fun session => session.pc.calling? = some id :=
      List.countP_pos_iff.mpr ⟨workers[index], List.getElem_mem hlt, decide_eq_true hcalling⟩
    rw [if_pos hcalling]
    omega
  · rw [if_neg hcalling]
    omega

/-- Calls made or about to be made do not outnumber what the handle has yielded. -/
def Paid (env : Env) (h : History State Action) (s : State) (id : Uuid) : Prop :=
  callCount id h + callers id s.workers ≤ obtained env h s.db id

theorem Paid.next (handled : Handled s) (paid : Paid env h s id)
    (hnext : next env s a = some s') : Paid env (h ++ [(s, a)]) s' id := by
  have hgrows := @obtained_le env s s' a h id hnext
  rw [Paid] at paid ⊢
  rw [callCount_snoc]
  cases next_step hnext with
  | @worker _ index session pc effect hactor hcommit hworker hturn =>
      have hcalls : calls? s a = session.pc.calling? := by
        simp [calls?, hactor, hworker]
      have hset := @callers_set id _ index session { session with pc } hworker
      rw [hcalls]
      by_cases hcalling : pc.calling? = some id
      · have hmoved : (s.moveWorker index session pc effect).workers[index]? =
            some { session with pc } :=
          getElem?_set_self_of_some hworker
        obtain ⟨reply, rfl⟩ := worker_moved hnext hactor hmoved
          (by rintro rfl; cases hcalling) (by rintro rfl; cases hcalling)
        obtain ⟨pc', effect', hmove, -, hmoved'⟩ := worker_action hnext hworker
        rw [hmoved, Option.some.injEq, Worker.Session.mk.injEq] at hmoved'
        obtain ⟨-, -, rfl⟩ := hmoved'
        obtain ⟨handle, hrow, hyields⟩ := calling_yields handled hworker hmove hcalling
        have hpaid := @obtained_lt env s _ _ h handle id hnext hrow hyields
        simp only [if_pos hcalling] at hset
        simp only [State.moveWorker, State.withShared] at hpaid ⊢
        omega
      · simp only [if_neg hcalling] at hset
        simp only [State.moveWorker, State.withShared] at hgrows ⊢
        omega
  | deliver =>
      simp only [callers, List.countP_append, List.countP_singleton] at paid ⊢
      exact Nat.le_trans paid hgrows
  | tick => exact Nat.le_trans paid hgrows
  | createWorkflow => exact Nat.le_trans paid hgrows
  | request => exact Nat.le_trans paid hgrows
  | publishPending => exact Nat.le_trans paid hgrows
  | call hactor =>
      simp only [calls?, hactor]
      exact Nat.le_trans paid hgrows
  | publisher hactor =>
      simp only [calls?, hactor]
      exact Nat.le_trans paid hgrows

theorem run_paid (run : Run env h s) (id : Uuid) : Paid env h s id := by
  refine @Exec.invariant _ _ _ _ (fun h s => Paid env h s id) ?_ ?_ h s run
  · intro s hs
    simp [Paid, callCount, callers, hs.workers]
  · intro h s a s' run paid hnext
    exact paid.next (run_handled run) hnext

theorem yieldCount_le (run : Run env h s) (handle : Uuid) : yieldCount env handle h ≤ 1 := by
  rcases run_spent run handle with hzero | ⟨hone, -⟩ <;> omega

theorem obtained_le_one (run : Run env h s) (id : Uuid) : obtained env h s.db id ≤ 1 := by
  unfold obtained
  split
  · exact Nat.zero_le _
  · exact yieldCount_le run _

theorem providerOnce (run : Run env h s) : ProviderOnce env h s where
  once id :=
    Nat.le_trans (Nat.le_of_add_right_le (run_paid run id)) (obtained_le_one run id)
  obtained id := Nat.le_of_add_right_le (run_paid run id)
  yielded := yieldCount_le run

end

/-- A provider on the worker's own host. -/
def providerEnv : Env :=
  { Scenario.env with
    openaiBaseUrl := "http://127.0.0.1:9000", openaiModel := "model",
    providerContents := fun _ => some ["answer"] }

def modelStep : Json :=
  .obj [("kind", .str "model"), ("provider", .str "openai_compatible"),
    ("promptTemplate", .str "Summarize")]

def createWithCredential : ControlPlane.Request :=
  .createRun ⟨Scenario.workflowId, .obj [], some (.ofString "provider-credential-0001"),
    "idempotency-key-1"⟩

/-- Two model steps; the second finds that the credential is gone. -/
def modelTwice : List Action :=
  .createWorkflow Scenario.owner Scenario.workflowId (Scenario.workflow [modelStep, modelStep]) ::
    .request Scenario.owner createWithCredential :: .call 0 9 ::
      List.replicate 11 (.call 0 Scenario.runId) ++ Scenario.publishActions 0 ++
        Scenario.claimActions 0 0 ++ Scenario.workerActions 0 2 ++
          [.worker 0 (.consume .answered), .worker 0 (.provider (.response 200 (some [])))] ++
            Scenario.workerActions 0 4 ++ [.worker 0 (.consume .answered)]

/-- The step is uncertain because the credential is gone. -/
def credentialUnavailable : Worker.Pc → Bool
  | .terminate _ .uncertain code _ => code = "provider_credential_unavailable"
  | _ => false

theorem modelTwice_providerOnce : ∃ h t, Run providerEnv h t ∧
    callCount Scenario.runId h = 1 ∧ ProviderOnce providerEnv h t := by
  obtain ⟨h, t, run, htest⟩ := Scenario.exists_run_of providerEnv (Scenario.initial 5) modelTwice
    (fun h t => callCount Scenario.runId h = 1 &&
      t.workers.all fun session => credentialUnavailable session.pc) (by decide +kernel)
  rw [Bool.and_eq_true, decide_eq_true_eq] at htest
  exact ⟨h, t, run, htest.1, providerOnce run⟩

end DurableRuntime
