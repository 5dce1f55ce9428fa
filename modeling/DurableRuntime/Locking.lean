import DurableRuntime.Steps

/-!
# Locking

Every session holds in the lock table exactly what its position says, so that no
resource has two holders.  A statement on a run that is not part of the
transaction holding the run's lock waits for that lock; while a transaction
holds it, no other commit is about the run.
-/

namespace DurableRuntime

open DurableRuntime.Foundation

/-- A resource that a move may newly hold. -/
inductive Takes (s : Shared) (effect : Effect) : Resource → Prop
  | free {x} (hfree : s.free x = true) (hother : ∀ id, x ≠ .outbox id) : Takes s effect x
  | pending {row} (hrow : row ∈ s.db.outbox) (hfree : s.free (.outbox row.id) = true) :
      Takes s effect (.outbox row.id)
  | named {id} (hid : id < s.db.nextOutboxId) (hfree : s.free (.outbox id) = true) :
      Takes s effect (.outbox id)
  | drawn (heffect : effect = .draw 0 1 0) : Takes s effect (.outbox s.db.nextOutboxId)

/-! ## What a move of a request takes -/

namespace ControlPlane

variable {env : Env} {s : Shared} {choice : Uuid} {session moved : Session} {pc pc' : Pc}
  {effect : Effect}

theorem startTransition_held (tenantId : Uuid) (role : Role) (runId : String)
    (args : TransitionArgs) : (startTransition role runId args).held tenantId = [] := by
  unfold startTransition
  split
  · split <;> rfl
  · rfl

theorem readRunCheck_held (tenantId : Uuid) (args : TransitionArgs) (runId : Uuid)
    (row : Option RunRow) : (readRunCheck args runId row).held tenantId = [] := by
  unfold readRunCheck
  repeat' split
  all_goals rfl

theorem runOfTenant?_run? {tenantId runId : Uuid} {row : RunRow}
    (h : runOfTenant? s tenantId runId = some row) :
    s.db.run? runId = some row ∧ row.tenantId = tenantId ∧ row.id = runId := by
  obtain ⟨hrow, htenant⟩ := Option.filter_eq_some_iff.mp h
  exact ⟨hrow, by simpa using htenant, Table.lookup_key hrow⟩

/-- What a transaction with the given writes has locked. -/
theorem held_writes {tenantId : Uuid} {writes : Writes} (h : pc.writes? = some writes) :
    pc.held tenantId =
      (match writes.run with
        | .insert _ => [.limits tenantId]
        | .update _ _ _ _ => []) ++ Writes.occupied writes := by
  obtain ⟨write, event, outbox, audit⟩ := writes
  cases pc <;> cases h <;> cases write <;> rfl

theorem PcMove.takes (hmove : PcMove env s choice session pc pc' effect) :
    ∀ x ∈ pc'.held session.principal.tenantId,
      x ∈ pc.held session.principal.tenantId ∨ Takes s effect x := by
  intro x hx
  cases hmove with
  | approve => simp [startTransition_held] at hx
  | cancel => simp [startTransition_held] at hx
  | readRun => simp [readRunCheck_held] at hx
  | limitsFound hfree hlimits =>
      simp [Pc.held, Pc.limitsLocked, Pc.writes?] at hx
      subst hx
      exact .inr (.free hfree (by simp))
  | inserted hfree habsent hinsertable =>
      simp only [insertable, Bool.and_eq_true] at hinsertable
      rw [held_writes rfl] at hx
      simp [Writes.occupied] at hx
      rcases hx with rfl | rfl | rfl
      · exact .inl (by simp [Pc.held, Pc.limitsLocked])
      · exact .inr (.free hinsertable.1.1.2 (by simp))
      · exact .inr (.free hfree (by simp))
  | transitionLocked hrow hfree hassert =>
      simp [Pc.held, Pc.limitsLocked, Pc.writes?] at hx
      rw [hx, (runOfTenant?_run? hrow).2.2]
      exact .inr (.free hfree (by simp))
  | transitionUpdate args now row =>
      rw [held_writes rfl] at hx
      simp [Writes.occupied] at hx
      subst hx
      exact .inl (by simp [Pc.held])
  | queueOutbox hqueued =>
      rename_i now eventType writes
      rw [held_writes rfl] at hx ⊢
      simp only [Writes.occupied, List.mem_append, Option.map_some, Option.toList_some,
        List.mem_singleton] at hx ⊢
      rcases hx with hx | hx | rfl
      · exact .inl (.inl hx)
      · exact .inl (.inr (.inl hx))
      · exact .inr (.drawn rfl)
  | eventQueued => exact .inl (by rwa [held_writes rfl] at hx ⊢)
  | eventUnqueued => exact .inl (by rwa [held_writes rfl] at hx ⊢)
  | audit => exact .inl (by rwa [held_writes rfl] at hx ⊢)
  | readEvents => exact .inl (by rwa [held_writes rfl] at hx ⊢)
  | replayEvents row locked => cases locked <;> exact .inl hx
  | quotaFree => exact .inl hx
  | workflowFound => exact .inl hx
  | raced => exact .inl hx
  | racedFound => exact .inl hx
  | _ => cases hx

theorem startCreate_takes {create : CreateRun} (hpc : session.pc = .route)
    (h : startCreate s session create choice = some (moved, effect)) :
    ∀ x ∈ moved.held, x ∈ session.held ∨ Takes s effect x := by
  intro x hx
  cases startCreate_start h with
  | refused => cases hx
  | plain =>
      rw [Session.held, hpc]
      exact .inl hx
  | issue hrole hlength hcredential hfresh =>
      simp only [freshHandle, Bool.and_eq_true] at hfresh
      simp [Session.held, Pc.held, Pc.limitsLocked, Pc.writes?] at hx
      subst hx
      exact .inr (.free hfresh.2 (by simp))

theorem Turn.takes (hturn : Turn env s session moved effect) :
    ∀ x ∈ moved.held, x ∈ session.held ∨ Takes s effect x := by
  intro x hx
  cases hturn with
  | error hstatement => cases hx
  | move hmove =>
      cases hmove with
      | start hpc hrequest hstart => exact startCreate_takes hpc hstart x hx
      | @inner pc' effect hmove =>
          have hnotdone : ∀ response, session.pc ≠ .done response := by
            intro response heq
            rw [heq] at hmove
            cases hmove
          rcases List.mem_append.mp hx with hx | hx
          · rcases hmove.takes x hx with hold | hnew
            · exact .inl (List.mem_append_left _ hold)
            · exact .inr hnew
          · split at hx
            · cases hx
            · refine .inl (List.mem_append_right _ ?_)
              cases hpc : session.pc with
              | done response => exact absurd hpc (hnotdone response)
              | _ => exact hx

end ControlPlane

/-! ## What a move of a worker or a publisher takes -/

theorem Worker.claimable_free {s : Shared} {id : Uuid} {now : Int} {row : RunRow}
    {definition : DefinitionRow} (h : Worker.claimable s id now = some (row, definition)) :
    s.free (.run row.id) = true ∧ s.db.run? id = some row ∧ row.id = id ∧
      s.db.definition? row.workflowId = some definition ∧ Worker.isClaimable now row = true := by
  simp only [Worker.claimable] at h
  split at h
  · cases h
  · rename_i hrow
    split at h
    · cases h
    · rename_i hdefinition
      split at h
      · rename_i hguard
        cases h
        rw [Bool.and_eq_true] at hguard
        have hid : row.id = id := Table.lookup_key hrow
        exact ⟨hid ▸ hguard.2, hrow, hid, hdefinition, hguard.1⟩
      · cases h

theorem Worker.held_of_executing {pc : Worker.Pc} {run : Worker.LeasedRun}
    (h : pc.executing? = some run) : pc.held = [] := by
  cases pc <;> first | rfl | cases h

/-- The functions of the worker between two statements hold no lock. -/
theorem Worker.loop_executing (env : Env) (run : Worker.LeasedRun) (index : Nat) :
    (Worker.loop env run index).executing? = some run := by
  unfold Worker.loop Worker.executeStep Worker.executeTool Worker.executeProviderModel
  repeat' split
  all_goals rfl

theorem Worker.execute_executing (run : Worker.LeasedRun) :
    (Worker.execute run).executing? = some run := by
  unfold Worker.execute
  split <;> rfl

theorem Worker.withCredential_executing (env : Env) (run : Worker.LeasedRun) (index : Nat)
    (prompt : String) (credential : Option String) :
    (Worker.withCredential env run index prompt credential).executing? = some run := by
  unfold Worker.withCredential
  repeat' split
  all_goals rfl

theorem Worker.Turn.takes {env : Env} {s : Shared} {session : Worker.Session} {pc : Worker.Pc}
    {effect : Effect} (hturn : Worker.Turn env s session pc effect) :
    ∀ x ∈ pc.held, x ∈ session.pc.held ∨ Takes s effect x := by
  intro x hx
  cases hturn with
  | error => cases hx
  | crash => cases hx
  | move hmove =>
      generalize session.pc = old at hmove
      cases hmove with
      | received runId =>
          simp only [Worker.process] at hx
          repeat' split at hx
          all_goals cases hx
      | claimFound hselect =>
          rw [List.mem_singleton.mp hx]
          exact .inr (.free (Worker.claimable_free hselect).1 (by simp))
      | claimUpdate => exact .inl hx
      | claimEvents => exact .inl hx
      | execute run =>
          rw [Worker.held_of_executing (Worker.execute_executing run)] at hx
          cases hx
      | loop run index =>
          rw [Worker.held_of_executing (Worker.loop_executing env run index)] at hx
          cases hx
      | consume run index handle prompt delivery =>
          rw [Worker.held_of_executing (Worker.withCredential_executing env run index prompt _)]
            at hx
          cases hx
      | @record _ run index kind status safeLabel hfree =>
          cases status <;> cases hx
      | @eventCommit _ run row after hfree => cases after <;> cases hx
      | _ => cases hx

theorem Outbox.Turn.takes {s : Shared} {session : Outbox.Session} {pc : Outbox.Pc}
    {effect : Effect} (hturn : Outbox.Turn s session pc effect)
    (hnamed : ∀ id ∈ session.pc.ids, id < s.db.nextOutboxId) :
    ∀ x ∈ pc.held, x ∈ session.pc.held ∨ Takes s effect x := by
  intro x hx
  cases hturn with
  | error => cases hx
  | move hmove =>
      generalize session.pc = old at hmove hnamed
      cases hmove with
      | claimSelect =>
          obtain ⟨message, hmessage, rfl⟩ := List.mem_map.mp hx
          obtain ⟨row, hrow, rfl, -, hfree⟩ := Outbox.mem_claimPending hmessage
          exact .inr (.pending hrow hfree)
      | claimUpdate => exact .inl hx
      | markBegin => simp [Outbox.Pc.held] at hx
      | @markRow now delivered left place id hrow hfree =>
          obtain ⟨other, hother, rfl⟩ := List.mem_map.mp hx
          obtain ⟨hdelivered, hgone⟩ := List.mem_filter.mp hother
          by_cases heq : other = id
          · subst heq
            exact .inr (.named (hnamed other hdelivered) hfree)
          · refine .inl (List.mem_map_of_mem (List.mem_filter.mpr ⟨hdelivered, ?_⟩))
            simpa [heq] using hgone
      | _ => cases hx

/-! ## The lock table -/

/-- The lock table agrees with the sessions, and says nothing about outbox ids yet to come. -/
structure Locked (s : State) : Prop where
  workers : HeldBy Holder.worker (fun session => session.pc.held) s.workers s.locks
  calls : HeldBy Holder.call ControlPlane.Session.held s.calls s.locks
  publishers : HeldBy Holder.publisher (fun session => session.pc.held) s.publishers s.locks
  drawn : ∀ row ∈ s.db.outbox, row.id < s.db.nextOutboxId
  named : ∀ (index : Nat) (session : Outbox.Session), s.publishers[index]? = some session →
    ∀ id ∈ session.pc.ids, id < s.db.nextOutboxId
  fresh : ∀ id, s.db.nextOutboxId ≤ id → s.locks (.outbox id) = none

namespace Locked

variable {env : Env} {s s' : State} {a : Action} {effect : Effect} {x : Resource}

theorem takes_none (locked : Locked s) (h : Takes s.toShared effect x) : s.locks x = none := by
  cases h with
  | free hfree hother => exact Option.isNone_iff_eq_none.mp hfree
  | pending hrow hfree => exact Option.isNone_iff_eq_none.mp hfree
  | named hid hfree => exact Option.isNone_iff_eq_none.mp hfree
  | drawn heffect => exact locked.fresh _ (Nat.le_refl _)

theorem nextOutboxId_apply (s : Shared) (effect : Effect) :
    s.db.nextOutboxId ≤ (s.apply effect).db.nextOutboxId := by
  cases effect with
  | draw => exact Nat.le_add_right _ _
  | commit change => exact Nat.le_of_eq (nextOutboxId_commit _ change).symm
  | _ => exact Nat.le_refl _

theorem takes_lt (locked : Locked s) {id : Nat} (h : Takes s.toShared effect (.outbox id)) :
    id < (s.toShared.apply effect).db.nextOutboxId := by
  cases h with
  | free hfree hother => exact absurd rfl (hother id)
  | pending hrow hfree =>
      exact Nat.lt_of_lt_of_le (locked.drawn _ hrow) (nextOutboxId_apply _ _)
  | named hid hfree => exact Nat.lt_of_lt_of_le hid (nextOutboxId_apply _ _)
  | drawn heffect =>
      subst heffect
      exact Nat.lt_succ_self _

/-- A move of one session keeps the ids to come out of the table. -/
theorem fresh_move (locked : Locked s) {me : Holder} {old new : List Resource}
    (hold : ∀ x ∈ old, s.locks x = some me)
    (htakes : ∀ x ∈ new, x ∈ old ∨ Takes s.toShared effect x) :
    ∀ id, (s.toShared.apply effect).db.nextOutboxId ≤ id →
      regrant me new s.locks (.outbox id) = none := by
  intro id hid
  have hnone := locked.fresh id (Nat.le_trans (nextOutboxId_apply _ _) hid)
  have hnew : Resource.outbox id ∉ new := by
    intro hmem
    rcases htakes _ hmem with hmine | htake
    · rw [hold _ hmine] at hnone
      cases hnone
    · have hlt := locked.takes_lt htake
      omega
  simp [regrant, hnew, hnone]

theorem initial (h : Initial s) : Locked s where
  workers := by simp [HeldBy, h.workers]
  calls := by simp [HeldBy, h.calls]
  publishers := by simp [HeldBy, h.publishers]
  drawn := by simp [h.outbox]
  named := by simp [h.publishers]
  fresh := by simp [h.locks]

/-- What a pending transaction is about to insert into the outbox has its id drawn. -/
theorem outbox_lt (locked : Locked s) {index : Nat} {session : ControlPlane.Session}
    {writes : Writes} {row : OutboxRow} (hcall : s.calls[index]? = some session)
    (hwrites : session.pc.writes? = some writes) (hrow : writes.outbox = some row) :
    s.locks (.outbox row.id) = some (.call index) ∧ row.id < s.db.nextOutboxId := by
  have hheld : Resource.outbox row.id ∈ session.held := by
    refine List.mem_append_left _ ?_
    rw [ControlPlane.held_writes hwrites]
    refine List.mem_append_right _ ?_
    simp [ControlPlane.Writes.occupied, hrow]
  have hlock := locked.calls index session hcall _ hheld
  refine ⟨hlock, ?_⟩
  by_contra hle
  rw [locked.fresh _ (Nat.le_of_not_lt hle)] at hlock
  cases hlock

theorem drawn_next (locked : Locked s) (h : next env s a = some s') :
    ∀ row ∈ s'.db.outbox, row.id < s'.db.nextOutboxId := by
  intro row hrow
  obtain ⟨events, outbox, audits, hdb⟩ := next_db h
  rw [hdb] at hrow ⊢
  have hold : ∀ old ∈ s.db.outbox, old.id < s.db.nextOutboxId + outbox :=
    fun old hmem => Nat.lt_add_right _ (locked.drawn old hmem)
  cases hcommit : commitOf env s a with
  | none =>
      rw [hcommit] at hrow
      exact hold row hrow
  | some change =>
      rw [hcommit] at hrow
      simp only [Db.after] at hrow ⊢
      rw [nextOutboxId_commit]
      rcases mem_outbox_commit hrow with ⟨old, hmem, hsame⟩ | ⟨writes, rfl, hnew⟩
      · rw [hsame.id]
        exact hold old hmem
      · cases commitOf_commits hcommit with
        | request hcall hpc =>
            have hlt := (locked.outbox_lt hcall (by rw [hpc]; rfl) hnew).2
            exact Nat.lt_add_right _ hlt

theorem named_next (locked : Locked s) (h : next env s a = some s') (index : Nat)
    (session : Outbox.Session) (hpublisher : s'.publishers[index]? = some session) :
    ∀ id ∈ session.pc.ids, id < s'.db.nextOutboxId := by
  intro id hid
  have hle : s.db.nextOutboxId ≤ s'.db.nextOutboxId := by
    obtain ⟨events, outbox, audits, hdb⟩ := next_db h
    rw [hdb]
    cases commitOf env s a with
    | none => exact Nat.le_add_right _ _
    | some change =>
        simp only [Db.after]
        rw [nextOutboxId_commit]
        exact Nat.le_add_right _ _
  cases publisher_case h hpublisher with
  | kept hold => exact Nat.lt_of_lt_of_le (locked.named index _ hold id hid) hle
  | joined => cases hid
  | turned hold hactor hturn hstate =>
      cases hturn with
      | error => cases hid
      | move hmove =>
          refine Nat.lt_of_lt_of_le ?_ hle
          rcases hmove.ids id hid with hmine | ⟨row, hrow, rfl⟩
          · exact locked.named index _ hold id hmine
          · exact locked.drawn row hrow

/-- What a session holds after its move is its own, or was free. -/
theorem taken (locked : Locked s) {me : Holder} {old new : List Resource}
    (hold : ∀ x ∈ old, s.locks x = some me)
    (htakes : ∀ x ∈ new, x ∈ old ∨ Takes s.toShared effect x) :
    ∀ x ∈ new, s.locks x = some me ∨ s.locks x = none := by
  intro x hx
  rcases htakes x hx with hmine | htake
  · exact .inl (hold x hmine)
  · exact .inr (locked.takes_none htake)

theorem next (locked : Locked s) (h : next env s a = some s') : Locked s' := by
  have drawn := locked.drawn_next h
  have named := locked.named_next h
  cases next_step h with
  | tick => exact { locked with drawn, named }
  | @createWorkflow principal id body change hcreate =>
      refine { locked with drawn, named, fresh := ?_ }
      intro n hn
      simp only [nextOutboxId_commit] at hn
      exact locked.fresh n hn
  | request => exact { locked with drawn, named, calls := locked.calls.join rfl }
  | publishPending =>
      exact { locked with drawn, named, publishers := locked.publishers.join rfl }
  | deliver => exact { locked with drawn, named, workers := locked.workers.join rfl }
  | @call _ index session moved effect hactor hcommit hcall hturn =>
      have hold := locked.calls index session hcall
      have htakes := hturn.takes
      refine ⟨?_, ?_, ?_, drawn, named, locked.fresh_move hold htakes⟩
      · exact locked.workers.frame (by simp) (locked.taken hold htakes)
      · refine locked.calls.move (fun i j hij => by simpa using hij) moved hcall ?_
        intro x hx
        exact (htakes x hx).imp_right locked.takes_none
      · exact locked.publishers.frame (by simp) (locked.taken hold htakes)
  | @publisher _ index session pc effect hactor hcommit hpublisher hturn =>
      have hold := locked.publishers index session hpublisher
      have htakes := hturn.takes (locked.named index session hpublisher)
      refine ⟨?_, ?_, ?_, drawn, named, locked.fresh_move hold htakes⟩
      · exact locked.workers.frame (by simp) (locked.taken hold htakes)
      · exact locked.calls.frame (by simp) (locked.taken hold htakes)
      · refine locked.publishers.move (fun i j hij => by simpa using hij)
          { session with pc } hpublisher ?_
        intro x hx
        exact (htakes x hx).imp_right locked.takes_none
  | @worker _ index session pc effect hactor hcommit hworker hturn =>
      have hold := locked.workers index session hworker
      have htakes := hturn.takes
      refine ⟨?_, ?_, ?_, drawn, named, locked.fresh_move hold htakes⟩
      · refine locked.workers.move (fun i j hij => by simpa using hij)
          { session with pc } hworker ?_
        intro x hx
        exact (htakes x hx).imp_right locked.takes_none
      · exact locked.calls.frame (by simp) (locked.taken hold htakes)
      · exact locked.publishers.frame (by simp) (locked.taken hold htakes)

/-- The steps of the system leave the locks of other sessions alone. -/
theorem held_next (locked : Locked s) {β : Type} {holder : Nat → Holder}
    {held : β → List Resource} {sessions : List β}
    (hother : ∀ i j, holder i ≠ .worker j ∧ holder i ≠ .call j ∧ holder i ≠ .publisher j)
    (hheld : HeldBy holder held sessions s.locks) (h : DurableRuntime.next env s a = some s') :
    HeldBy holder held sessions s'.locks := by
  cases next_step h with
  | @call _ index session moved effect hactor hcommit hcall hturn =>
      exact hheld.frame (fun i => (hother i index).2.1)
        (locked.taken (locked.calls index session hcall) hturn.takes)
  | @publisher _ index session pc effect hactor hcommit hpublisher hturn =>
      exact hheld.frame (fun i => (hother i index).2.2)
        (locked.taken (locked.publishers index session hpublisher)
          (hturn.takes (locked.named index session hpublisher)))
  | @worker _ index session pc effect hactor hcommit hworker hturn =>
      exact hheld.frame (fun i => (hother i index).1)
        (locked.taken (locked.workers index session hworker) hturn.takes)
  | _ => exact hheld

end Locked

theorem run_locked {env : Env} {h : History State Action} {s : State} (run : Run env h s) :
    Locked s :=
  run.always (fun _ => Locked.initial) fun _ locked => locked.next

end DurableRuntime
