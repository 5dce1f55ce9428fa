import DurableRuntime.Delivery
import DurableRuntime.Foundation.Sequences

/-!
# Publication

A row of the outbox is marked by the call that has published it, after JetStream
has acknowledged the whole batch.  Until then the row stays unpublished, and the
next claims find it again.
-/

namespace DurableRuntime

open DurableRuntime.Foundation

/-- The publication that JetStream acknowledges to a publisher, if the action is one. -/
def acknowledged? (s : State) : Action → Option Message
  | .publisher index .acked =>
      match s.publishers[index]? with
      | some ⟨_, .publish (pending :: _) _⟩ => some (Outbox.message s.toShared pending)
      | _ => none
  | _ => none

/-- The message carries what the row says: subject, payload and tenant. -/
structure Message.Carries (message : Message) (row : OutboxRow) : Prop where
  id : message.row = row.id
  subject : message.subject = row.subject
  payload : message.payload = row.payload
  tenantId : message.tenantId = row.tenantId

/-- A publication of exactly the row's message has been acknowledged. -/
def OutboxRow.Acknowledged (h : History State Action) (row : OutboxRow) : Prop :=
  ∃ p ∈ h, ∃ message, acknowledged? p.1 p.2 = some message ∧ message.Carries row

/-- The select of `claimPendingOutbox`: the call and its limit. -/
def selects? (s : State) : Action → Option (Nat × Nat)
  | .publisher index _ =>
      match s.publishers[index]? with
      | some ⟨limit, .claimSelect⟩ => some (index, limit)
      | _ => none
  | _ => none

/-- The return of `claimPendingOutbox`: the call and the messages it gets. -/
def claims? (s : State) : Action → Option (Nat × List Outbox.PendingOutboxMessage)
  | .publisher index _ =>
      match s.publishers[index]? with
      | some ⟨_, .claimCommit messages⟩ => some (index, messages)
      | _ => none
  | _ => none

/-- A call whose batch is interrupted at some position. -/
def interrupts? (s : State) : Action → Option Nat
  | .publisher index .failed | .publisher index .ackLost | .publisherError index =>
      match s.publishers[index]? with
      | some ⟨_, .publish (_ :: _) _⟩ => some index
      | _ => none
  | _ => none

/-- A call that marks rows as published. -/
def marks? (env : Env) (s : State) (a : Action) : Option Nat :=
  match a, commitOf env s a with
  | .publisher index _, some (.outboxPublished _ _) => some index
  | _, _ => none

def smallerUnpublished (db : Db) (id : Nat) : Nat :=
  db.outbox.countP fun row => row.publishedAt.isNone && row.id < id

/-- What the outbox owes after a history. -/
structure Accounted (env : Env) (h : History State Action) (t : State) : Prop where
  marked : ∀ row ∈ t.db.outbox, row.publishedAt.isSome = true → row.Acknowledged h
  kept : ∀ p ∈ h, ∀ row ∈ p.1.db.outbox, ∃ later ∈ t.db.outbox, row.SameMessage later
  unacknowledged : ∀ row ∈ t.db.outbox, ¬row.Acknowledged h → row.publishedAt = none
  claimed : ∀ h₁ s a h₂, h = h₁ ++ (s, a) :: h₂ → ∀ index limit,
    selects? s a = some (index, limit) → ∀ p ∈ h₂, ∀ messages,
      claims? p.1 p.2 = some (index, messages) → ∀ row ∈ s.db.outbox, ¬row.Acknowledged h₁ →
        s.free (.outbox row.id) = true → smallerUnpublished s.db row.id < limit →
          Outbox.OutboxRow.pending row ∈ messages
  interrupted : ∀ p ∈ h, ∀ index, interrupts? p.1 p.2 = some index →
    ∀ q ∈ h, marks? env q.1 q.2 ≠ some index

/-! ## What a call has claimed and published -/

theorem OutboxRow.Acknowledged.mono {h k : History State Action} {row later : OutboxRow}
    (hacked : row.Acknowledged h) (hsub : h ⊆ k) (hsame : row.SameMessage later) :
    later.Acknowledged k := by
  obtain ⟨p, hp, message, hmessage, hcarries⟩ := hacked
  exact ⟨p, hsub hp, message, hmessage, hcarries.id.trans hsame.id.symm,
    hcarries.subject.trans hsame.subject.symm, hcarries.payload.trans hsame.payload.symm,
    hcarries.tenantId.trans hsame.tenantId.symm⟩

/-- The batches of the publishers are rows of the outbox, as it was and as it is. -/
def Batched (s : State) : Prop :=
  ∀ (index : Nat) (session : Outbox.Session), s.publishers[index]? = some session →
    ∀ pending ∈ session.pc.messages,
      ∃ row ∈ s.db.outbox, pending = Outbox.OutboxRow.pending row

/-- Whatever is marked, or about to be, has been acknowledged. -/
structure Acknowledging (h : History State Action) (s : State) : Prop where
  outbox : ∀ row ∈ s.db.outbox, row.publishedAt.isSome = true → row.Acknowledged h
  publishers : ∀ (index : Nat) (session : Outbox.Session),
    s.publishers[index]? = some session → ∀ id ∈ session.pc.delivered,
      ∃ row ∈ s.db.outbox, row.id = id ∧ row.Acknowledged h

section

variable {env : Env} {s s' : State} {a : Action} {h : History State Action}

theorem Batched.next (batched : Batched s) (hnext : next env s a = some s') : Batched s' := by
  have later : ∀ {pending : Outbox.PendingOutboxMessage},
      (∃ row ∈ s.db.outbox, pending = Outbox.OutboxRow.pending row) →
        ∃ row ∈ s'.db.outbox, pending = Outbox.OutboxRow.pending row := by
    rintro pending ⟨row, hrow, rfl⟩
    obtain ⟨row', hrow', hsame⟩ := (next_extends hnext).outbox row hrow
    refine ⟨row', hrow', ?_⟩
    simp only [Outbox.OutboxRow.pending, hsame.id, hsame.tenantId, hsame.subject, hsame.payload]
  intro index session hpublisher pending hpending
  cases publisher_case hnext hpublisher with
  | kept hold => exact later (batched index _ hold pending hpending)
  | joined => cases hpending
  | turned hold hactor hturn hstate =>
      rcases hturn.messages pending hpending with hmine | hrow
      · exact later (batched index _ hold pending hmine)
      · exact later hrow

theorem run_batched (run : Run env h s) : Batched s := by
  refine run.always ?_ ?_
  · intro s hs
    simp [Batched, hs.publishers]
  · intro h s a s' run batched hnext
    exact batched.next hnext

/-- An id joins the published ones with the acknowledgement of its message. -/
theorem delivered_next (hnext : next env s a = some s') {index : Nat} {old : Outbox.Session}
    {pc : Outbox.Pc} (hold : s.publishers[index]? = some old)
    (hactor : actor a = some (.publisher index))
    (hpublisher : s'.publishers[index]? = some { old with pc }) {id : Nat}
    (hid : id ∈ pc.delivered) :
    id ∈ old.pc.delivered ∨ ∃ pending ∈ old.pc.messages,
      pending.id = id ∧ acknowledged? s a = some (Outbox.message s.toShared pending) := by
  obtain ⟨reply, rfl⟩ := publisher_moved hnext hactor hpublisher (by rintro rfl; cases hid)
  obtain ⟨pc', effect, hstep, hmoved⟩ := publisher_action hnext hold
  rw [hpublisher, Option.some.injEq, Outbox.Session.mk.injEq] at hmoved
  obtain ⟨-, rfl⟩ := hmoved
  obtain ⟨limit, position⟩ := old
  cases Outbox.step_move hstep with
  | acked pending messages delivered =>
      rcases List.mem_append.mp hid with hmine | hnew
      · exact .inl hmine
      · rw [List.mem_singleton] at hnew
        exact .inr ⟨pending, List.mem_cons_self, hnew.symm, by simp [acknowledged?, hold]⟩
  | publishedAll => exact .inl hid
  | markBegin => exact .inl hid
  | markRow => exact .inl hid
  | _ => cases hid

theorem Acknowledging.next (run : Run env h s) (acked : Acknowledging h s)
    (hnext : next env s a = some s') : Acknowledging (h ++ [(s, a)]) s' := by
  have hsub : h ⊆ h ++ [(s, a)] := List.subset_append_left _ _
  have later : ∀ {id : Nat}, (∃ row ∈ s.db.outbox, row.id = id ∧ row.Acknowledged h) →
      ∃ row ∈ s'.db.outbox, row.id = id ∧ row.Acknowledged (h ++ [(s, a)]) := by
    rintro id ⟨row, hrow, rfl, hacked⟩
    obtain ⟨row', hrow', hsame⟩ := (next_extends hnext).outbox row hrow
    exact ⟨row', hrow', hsame.id, hacked.mono hsub hsame⟩
  constructor
  · intro row hrow hpublished
    obtain ⟨events, outbox, audits, hdb⟩ := next_db hnext
    have hmem := hrow
    rw [hdb] at hmem
    cases hcommit : commitOf env s a with
    | none =>
        rw [hcommit] at hmem
        exact (acked.outbox row hmem hpublished).mono hsub (.refl row)
    | some change =>
        rw [hcommit] at hmem
        rcases published_commit hmem hpublished with ⟨old, hold, hsame, hmarked⟩ |
          ⟨ids, now, rfl, hid⟩ | ⟨writes, rfl, hnew⟩
        · exact (acked.outbox old hold hmarked).mono hsub hsame
        · cases commitOf_commits hcommit with
          | outboxPublished hpublisher hpc =>
              obtain ⟨row', hrow', heq, hacked⟩ :=
                later (acked.publishers _ _ hpublisher row.id (by rw [hpc]; exact hid))
              have hnodup := (run_outboxKeyed (run.step hnext)).nodup
              rwa [List.inj_on_of_nodup_map hnodup hrow' hrow heq] at hacked
        · cases commitOf_commits hcommit with
          | request hcall hpc =>
              obtain ⟨eventType, hcomplete⟩ := (run_sound run).complete hcall hpc
              rw [hcomplete.unpublished hnew] at hpublished
              cases hpublished
  · intro index session hpublisher id hid
    cases publisher_case hnext hpublisher with
    | kept hold => exact later (acked.publishers index _ hold id hid)
    | joined => cases hid
    | @turned old pc effect hold hactor hturn hstate =>
        rcases delivered_next hnext hold hactor hpublisher hid with hmine |
          ⟨pending, hpending, rfl, hacknowledged⟩
        · exact later (acked.publishers index old hold id hmine)
        · obtain ⟨row, hrow, rfl⟩ := run_batched run index old hold pending hpending
          obtain ⟨row', hrow', hsame⟩ := (next_extends hnext).outbox row hrow
          refine ⟨row', hrow', hsame.id, (s, a), by simp, _, hacknowledged, hsame.id.symm,
            hsame.subject.symm, hsame.payload.symm, hsame.tenantId.symm⟩

theorem run_acknowledging (run : Run env h s) : Acknowledging h s := by
  refine run.invariant ?_ ?_
  · intro s hs
    exact ⟨by simp [hs.outbox], by simp [hs.publishers]⟩
  · intro h s a s' run acked hnext
    exact acked.next run hnext

end

/-! ## The course of one call -/

/-- A call that has selected this batch has not lost any of it when the claim returns. -/
def Outbox.Pc.Selected (batch : List Outbox.PendingOutboxMessage) : Outbox.Pc → Prop
  | .claimBegin | .claimSelect => False
  | .claimUpdate messages | .claimCommit messages => messages = batch
  | _ => True

theorem Outbox.Turn.selected {s : Shared} {session : Outbox.Session} {pc : Outbox.Pc}
    {effect : Effect} (hturn : Outbox.Turn s session pc effect)
    {batch : List Outbox.PendingOutboxMessage} (h : session.pc.Selected batch) :
    pc.Selected batch := by
  cases hturn with
  | error => trivial
  | move hmove =>
      generalize session.pc = old at hmove h
      cases hmove with
      | claimBegin => cases h
      | claimSelect => cases h
      | claimUpdate messages => exact h
      | _ => trivial

section

variable {env : Env} {s s' t : State} {a : Action} {h h₁ h₂ : History State Action}
  {index limit : Nat}

theorem publisher_stopped (hnext : next env s a = some s') {old : Outbox.Session}
    (hold : s.publishers[index]? = some old) (hstopped : old.pc.isRunning = false) :
    s'.publishers[index]? = some old := by
  obtain ⟨session, hsession⟩ := publisher_persists hnext hold
  rw [hsession]
  cases publisher_case hnext hsession with
  | kept hkept => exact hkept ▸ hold
  | joined hnew =>
      rw [hold] at hnew
      cases hnew
  | turned hsame hactor hturn hstate =>
      rw [hold, Option.some.injEq] at hsame
      subst hsame
      cases hturn with
      | error hrunning =>
          rw [hstopped] at hrunning
          cases hrunning
      | move hmove =>
          generalize old.pc = position at hmove hstopped
          cases position with
          | done => cases hmove
          | failed => cases hmove
          | _ => cases hstopped

theorem selects_some (h : selects? s a = some (index, limit)) :
    ∃ reply, a = .publisher index reply ∧
      s.publishers[index]? = some ⟨limit, .claimSelect⟩ := by
  unfold selects? at h
  repeat' split at h
  all_goals cases h
  exact ⟨_, rfl, by assumption⟩

theorem claims_some {messages : List Outbox.PendingOutboxMessage}
    (h : claims? s a = some (index, messages)) :
    ∃ reply limit, a = .publisher index reply ∧
      s.publishers[index]? = some ⟨limit, .claimCommit messages⟩ := by
  unfold claims? at h
  repeat' split at h
  all_goals cases h
  exact ⟨_, _, rfl, by assumption⟩

/-- What a claim returns is what its select has found. -/
theorem claimed_batch (run : Run env (h₁ ++ (s, a) :: h₂) t)
    (hselects : selects? s a = some (index, limit)) {p : State × Action} (hp : p ∈ h₂)
    {messages : List Outbox.PendingOutboxMessage}
    (hclaims : claims? p.1 p.2 = some (index, messages)) :
    messages = Outbox.claimPending s.toShared limit := by
  obtain ⟨k₁, k₂, rfl⟩ := List.append_of_mem hp
  rw [show h₁ ++ (s, a) :: (k₁ ++ p :: k₂) = (h₁ ++ (s, a) :: k₁) ++ p :: k₂ by simp] at run
  obtain ⟨-, run', -, -⟩ := run.split
  have hselected : ∃ session, p.1.publishers[index]? = some session ∧
      session.pc.Selected (Outbox.claimPending s.toShared limit) := by
    refine @Exec.always_since _ _ _ _ (fun t => ∃ session, t.publishers[index]? = some session ∧
      session.pc.Selected (Outbox.claimPending s.toShared limit)) h₁ s a ?_ ?_ k₁ p.1 run'
    · intro s' _ hnext
      obtain ⟨reply, rfl, hold⟩ := selects_some hselects
      obtain ⟨pc, effect, hstep, hmoved⟩ := publisher_action hnext hold
      cases hstep
      exact ⟨_, hmoved, rfl⟩
    · rintro h t b t' - ⟨session, hold, hselected⟩ hnext
      obtain ⟨session', hsession⟩ := publisher_persists hnext hold
      refine ⟨session', hsession, ?_⟩
      cases publisher_case hnext hsession with
      | kept hkept =>
          rw [hold, Option.some.injEq] at hkept
          exact hkept ▸ hselected
      | joined hnew =>
          rw [hold] at hnew
          cases hnew
      | turned hsame hactor hturn hstate =>
          rw [hold, Option.some.injEq] at hsame
          subst hsame
          exact hturn.selected hselected
  obtain ⟨reply, limit', -, hcommit⟩ := claims_some hclaims
  obtain ⟨session, hsession, hselected⟩ := hselected
  rw [hcommit, Option.some.injEq] at hsession
  subst hsession
  exact hselected

theorem pending_of_few {row : OutboxRow} (hnodup : (s.db.outbox.map OutboxRow.id).Nodup)
    (hrow : row ∈ s.db.outbox) (hunpublished : row.publishedAt = none)
    (hfree : s.free (.outbox row.id) = true)
    (hfew : smallerUnpublished s.db row.id < limit) :
    Outbox.OutboxRow.pending row ∈ Outbox.claimPending s.toShared limit := by
  refine List.mem_map_of_mem (mem_take_insertionSort ?_ ?_ ?_)
  · exact hnodup.sublist (List.filter_sublist.map _)
  · exact List.mem_filter.mpr ⟨hrow, by simp [hunpublished, hfree]⟩
  · refine Nat.lt_of_le_of_lt ?_ hfew
    rw [List.countP_filter]
    refine List.countP_mono_left ?_
    intro other _ hother
    simp only [Bool.and_eq_true, decide_eq_true_eq] at hother ⊢
    exact ⟨hother.2.1, hother.1⟩

/-! ## Interrupted calls -/

/-- A call that has marked rows is done, one whose batch was interrupted has failed. -/
structure Concluded (env : Env) (h : History State Action) (s : State) : Prop where
  marking : ∀ q ∈ h, ∀ index, marks? env q.1 q.2 = some index →
    ∃ session : Outbox.Session, s.publishers[index]? = some session ∧
      ∃ count, session.pc = .done count
  interrupted : ∀ p ∈ h, ∀ index, interrupts? p.1 p.2 = some index →
    ∃ session : Outbox.Session, s.publishers[index]? = some session ∧ session.pc = .failed

theorem marks_done (hnext : next env s a = some s') (hmarks : marks? env s a = some index) :
    ∃ session : Outbox.Session, s'.publishers[index]? = some session ∧
      ∃ count, session.pc = .done count := by
  unfold marks? at hmarks
  split at hmarks
  · rename_i index' reply ids now hcommit
    cases hmarks
    cases commitOf_commits hcommit with
    | outboxPublished hold hpc =>
        obtain ⟨pc, effect, hstep, hmoved⟩ := publisher_action hnext hold
        refine ⟨_, hmoved, ?_⟩
        rw [hpc] at hstep
        cases hstep
        exact ⟨_, rfl⟩
  · cases hmarks

theorem interrupts_failed (hnext : next env s a = some s')
    (hinterrupts : interrupts? s a = some index) :
    ∃ session : Outbox.Session, s'.publishers[index]? = some session ∧ session.pc = .failed := by
  unfold interrupts? at hinterrupts
  split at hinterrupts
  · split at hinterrupts <;> cases hinterrupts
    rename_i hold
    obtain ⟨pc, effect, hstep, hmoved⟩ := publisher_action hnext hold
    cases hstep
    exact ⟨_, hmoved, rfl⟩
  · split at hinterrupts <;> cases hinterrupts
    rename_i hold
    obtain ⟨pc, effect, hstep, hmoved⟩ := publisher_action hnext hold
    cases hstep
    exact ⟨_, hmoved, rfl⟩
  · split at hinterrupts <;> cases hinterrupts
    rename_i hold
    exact ⟨_, publisherError_action hnext hold, rfl⟩
  · cases hinterrupts

theorem Concluded.next (concluded : Concluded env h s) (hnext : next env s a = some s') :
    Concluded env (h ++ [(s, a)]) s' := by
  constructor
  · intro q hq index hmarks
    rcases List.mem_append.mp hq with hq | hq
    · obtain ⟨session, hold, count, hpc⟩ := concluded.marking q hq index hmarks
      exact ⟨session, publisher_stopped hnext hold (by rw [hpc]; rfl), count, hpc⟩
    · rw [List.mem_singleton] at hq
      subst hq
      exact marks_done hnext hmarks
  · intro p hp index hinterrupts
    rcases List.mem_append.mp hp with hp | hp
    · obtain ⟨session, hold, hpc⟩ := concluded.interrupted p hp index hinterrupts
      exact ⟨session, publisher_stopped hnext hold (by rw [hpc]; rfl), hpc⟩
    · rw [List.mem_singleton] at hp
      subst hp
      exact interrupts_failed hnext hinterrupts

theorem run_concluded (run : Run env h s) : Concluded env h s := by
  refine run.invariant ?_ ?_
  · intro s hs
    exact ⟨by simp, by simp⟩
  · intro h s a s' run concluded hnext
    exact concluded.next hnext

/-! ## Nothing is lost, nothing is marked early -/

theorem Acknowledging.unpublished (acked : Acknowledging h s) {row : OutboxRow}
    (hrow : row ∈ s.db.outbox) (hunacked : ¬row.Acknowledged h) : row.publishedAt = none := by
  rw [← Option.not_isSome_iff_eq_none]
  exact fun hpublished => hunacked (acked.outbox row hrow hpublished)

theorem outboxAccounted (run : Run env h t) : Accounted env h t := by
  have acked := run_acknowledging run
  refine ⟨acked.outbox, ?_, fun _ => acked.unpublished, ?_, ?_⟩
  · intro p hp row hrow
    obtain ⟨h₁, h₂, rfl⟩ := List.append_of_mem hp
    obtain ⟨s', hnext, hextends, hextends'⟩ := run_extends run
    exact (hextends.trans hextends').outbox row hrow
  · rintro h₁ s a h₂ rfl index limit hselects p hp messages hclaims row hrow hunacked hfree hfew
    obtain ⟨-, run', -, -⟩ := run.split
    rw [claimed_batch run hselects hp hclaims]
    have hunpublished := (run_acknowledging run').unpublished hrow hunacked
    exact pending_of_few (run_outboxKeyed run').nodup hrow hunpublished hfree hfew
  · intro p hp index hinterrupts q hq hmarks
    obtain ⟨session, hsession, hfailed⟩ := (run_concluded run).interrupted p hp index hinterrupts
    obtain ⟨session', hsession', count, hdone⟩ := (run_concluded run).marking q hq index hmarks
    rw [hsession, Option.some.injEq] at hsession'
    subst hsession'
    rw [hfailed] at hdone
    cases hdone

end

/-- Two calls claim the same row; the first loses its acknowledgement, the second marks the row. -/
def overlappingCalls : List Action :=
  Scenario.createActions [Scenario.dataRead] ++
    .publishPending 1 :: List.replicate 4 (.publisher 0 .none) ++
      .publishPending 1 :: List.replicate 4 (.publisher 1 .none) ++
        [.publisher 0 .ackLost, .publisher 1 .acked, .publisher 1 .none, .publisher 1 .none,
          .publisher 1 (.row 0), .publisher 1 .none]

theorem overlappingCalls_outboxAccounted : ∃ h t, Run Scenario.env h t ∧
    (∃ p ∈ h, interrupts? p.1 p.2 = some 0) ∧ (∃ p ∈ h, marks? Scenario.env p.1 p.2 = some 1) ∧
      Accounted Scenario.env h t := by
  obtain ⟨h, t, run, htest⟩ := Scenario.exists_run 5 overlappingCalls
    (fun h _ => (h.any fun p => interrupts? p.1 p.2 = some 0) &&
      h.any fun p => marks? Scenario.env p.1 p.2 = some 1) (by decide +kernel)
  simp only [Bool.and_eq_true, List.any_eq_true, decide_eq_true_eq] at htest
  exact ⟨h, t, run, htest.1, htest.2, outboxAccounted run⟩

end DurableRuntime
