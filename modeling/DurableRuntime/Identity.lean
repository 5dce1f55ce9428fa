import DurableRuntime.Transactions

/-!
# Who works on what

A message is the payload of one committed outbox row, and that payload is the
canonical text of a run id.  So whatever a worker does with a delivery, the text
it splices into keys is the text of the run it updates, and the definition it
interprets is the one the run was created for.
-/

namespace DurableRuntime

open DurableRuntime.Foundation

/-! ## The stream -/

/-- Where a message of the new stream comes from. -/
inductive StreamCase (s : State) (position : Nat) : Message → Prop
  | kept {message} (hmessage : s.stream[position]? = some message) :
      StreamCase s position message
  | redelivered {message instant} (hmessage : s.stream[position]? = some message) :
      StreamCase s position (redeliverAt instant message)
  | acked {index : Nat} {session outcome message} (hworker : s.workers[index]? = some session)
      (hpc : session.pc = .returned outcome) (houtcome : outcome ≠ .error)
      (hposition : session.message = position) (hmessage : s.stream[position]? = some message) :
      StreamCase s position (ackMessage message)
  | published {index : Nat} {session pending rest delivered}
      (hpublisher : s.publishers[index]? = some session)
      (hpc : session.pc = .publish (pending :: rest) delivered)
      (hposition : position = s.stream.length) :
      StreamCase s position (Outbox.message s.toShared pending)

theorem getElem?_modify_some {l : List Message} {f : Message → Message} {i j : Nat}
    {message : Message} (h : (l.modify i f)[j]? = some message) :
    ∃ old, l[j]? = some old ∧ (message = old ∨ (j = i ∧ message = f old)) := by
  rw [List.getElem?_modify] at h
  cases hold : l[j]? with
  | none => simp [hold] at h
  | some old =>
      refine ⟨old, rfl, ?_⟩
      simp only [hold, Option.map_eq_map, Option.map_some, Option.some.injEq] at h
      split at h
      · rename_i heq
        exact .inr ⟨heq.symm, h.symm⟩
      · exact .inl h.symm

section

variable {env : Env} {s s' : State} {a : Action}

/-- Only the acknowledgement of a worker and the publication of a row change the stream. -/
theorem Worker.Turn.stream {session : Worker.Session} {pc : Worker.Pc} {effect : Effect}
    (hturn : Worker.Turn env s.toShared session pc effect) :
    (∀ message, effect ≠ .publish message) ∧
      (effect = .ack → ∃ outcome, session.pc = .returned outcome ∧ outcome ≠ .error) := by
  cases hturn with
  | error => simp
  | crash => simp
  | move hmove =>
      generalize session.pc = old at hmove
      cases hmove with
      | consume run index handle prompt delivery =>
          unfold Worker.consumeCredential
          repeat' split
          all_goals simp
      | ack houtcome => exact ⟨by simp, fun _ => ⟨_, rfl, houtcome⟩⟩
      | _ => simp

theorem ControlPlane.Turn.stream {session moved : ControlPlane.Session} {effect : Effect}
    (hturn : ControlPlane.Turn env s.toShared session moved effect) :
    streamAfter s.stream s.clock 0 effect = s.stream := by
  cases hturn with
  | error => rfl
  | move hmove =>
      cases hmove with
      | start hpc hrequest hstart =>
          cases ControlPlane.startCreate_start hstart with
          | _ => rfl
      | inner hmove =>
          generalize session.pc = old at hmove
          cases hmove <;> rfl

theorem Outbox.Turn.stream {session : Outbox.Session} {pc : Outbox.Pc} {effect : Effect}
    (hturn : Outbox.Turn s.toShared session pc effect) :
    streamAfter s.stream s.clock 0 effect = s.stream ∨
      ∃ pending rest delivered, session.pc = .publish (pending :: rest) delivered ∧
        effect = .publish (Outbox.message s.toShared pending) := by
  cases hturn with
  | error => exact .inl rfl
  | move hmove =>
      generalize session.pc = old at hmove
      cases hmove with
      | acked pending messages delivered => exact .inr ⟨pending, messages, delivered, rfl, rfl⟩
      | ackLost pending messages delivered => exact .inr ⟨pending, messages, delivered, rfl, rfl⟩
      | _ => exact .inl rfl

theorem stream_case (hnext : next env s a = some s') {position : Nat} {message : Message}
    (h : s'.stream[position]? = some message) : StreamCase s position message := by
  cases next_step hnext with
  | deliver hmessage hready =>
      obtain ⟨old, hold, rfl | ⟨rfl, rfl⟩⟩ := getElem?_modify_some h
      · exact .kept hold
      · exact .redelivered hold
  | @worker _ index session pc effect hactor hcommit hworker hturn =>
      obtain ⟨hquiet, hack⟩ := hturn.stream
      cases effect with
      | publish new => exact absurd rfl (hquiet new)
      | ack =>
          obtain ⟨outcome, hpc, houtcome⟩ := hack rfl
          obtain ⟨old, hold, rfl | ⟨hposition, rfl⟩⟩ := getElem?_modify_some h
          · exact .kept hold
          · exact .acked hworker hpc houtcome hposition.symm hold
      | nak =>
          obtain ⟨old, hold, rfl | ⟨rfl, rfl⟩⟩ := getElem?_modify_some h
          · exact .kept hold
          · exact .redelivered hold
      | _ => exact .kept h
  | @publisher _ index session pc effect hactor hcommit hpublisher hturn =>
      rcases hturn.stream with hsame | ⟨pending, rest, delivered, hpc, rfl⟩
      · exact .kept (hsame ▸ h)
      · rcases getElem?_snoc_some h with ⟨hposition, rfl⟩ | hold
        · exact .published hpublisher hpc hposition
        · exact .kept hold
  | @call _ index session moved effect hactor hcommit hcall hturn =>
      exact .kept (hturn.stream ▸ h)
  | tick => exact .kept h
  | createWorkflow => exact .kept h
  | request => exact .kept h
  | publishPending => exact .kept h

/-- A message keeps its row, payload and tenant, and once acknowledged it stays so. -/
structure Message.Later (old new : Message) : Prop where
  row : new.row = old.row
  payload : new.payload = old.payload
  tenantId : new.tenantId = old.tenantId
  acked : old.acked = true → new.acked = true

theorem getElem?_modify_later {l : List Message} {f : Message → Message} {i j : Nat}
    {old : Message} (hf : ∀ message : Message, message.Later (f message)) (h : l[j]? = some old) :
    ∃ new, (l.modify i f)[j]? = some new ∧ old.Later new := by
  rw [List.getElem?_modify, h]
  refine ⟨_, rfl, ?_⟩
  split
  · exact hf old
  · exact ⟨rfl, rfl, rfl, fun h => h⟩

theorem later_redeliver (instant : Int) (message : Message) :
    message.Later (redeliverAt instant message) :=
  ⟨rfl, rfl, rfl, fun h => h⟩

theorem stream_later (hnext : next env s a = some s') {position : Nat} {old : Message}
    (h : s.stream[position]? = some old) :
    ∃ new, s'.stream[position]? = some new ∧ old.Later new := by
  have same : old.Later old := ⟨rfl, rfl, rfl, fun h => h⟩
  have after : ∀ (handled : Nat) (effect : Effect), ∃ new,
      (streamAfter s.stream s.clock handled effect)[position]? = some new ∧ old.Later new := by
    intro handled effect
    cases effect with
    | publish new =>
        refine ⟨old, ?_, same⟩
        rw [streamAfter, List.getElem?_append_left (List.getElem?_eq_some_iff.mp h).1]
        exact h
    | ack =>
        exact getElem?_modify_later (f := ackMessage) (fun _ => ⟨rfl, rfl, rfl, fun _ => rfl⟩) h
    | nak => exact getElem?_modify_later (later_redeliver _) h
    | _ => exact ⟨old, h, same⟩
  cases next_step hnext with
  | deliver hmessage hready => exact getElem?_modify_later (later_redeliver _) h
  | worker => exact after _ _
  | publisher => exact after _ _
  | call => exact after _ _
  | _ => exact ⟨old, h, same⟩

end

/-! ## Messages name runs -/

/-- The messages a publisher has claimed and not yet published. -/
def Outbox.Pc.messages : Outbox.Pc → List Outbox.PendingOutboxMessage
  | .claimUpdate messages | .claimCommit messages | .publish messages _ => messages
  | _ => []

/-- A worker with this position works on the run that its message names. -/
structure Worker.Handles (message : Message) (pc : Worker.Pc) : Prop where
  received : ∀ runId, pc = .received runId → runId = message.payload.runId
  ref : ∀ ref, pc.ref? = some ref →
    ref.text = ref.id.text ∧ message.payload.runId = ref.id.text

structure Named (s : State) : Prop where
  outbox : ∀ row ∈ s.db.outbox, row.payload = ⟨row.runId.text⟩
  publishers : ∀ (index : Nat) (session : Outbox.Session),
    s.publishers[index]? = some session → ∀ pending ∈ session.pc.messages,
      ∃ row ∈ s.db.outbox, row.id = pending.id ∧ row.payload = pending.payload
  stream : ∀ message ∈ s.stream,
    ∃ row ∈ s.db.outbox, row.id = message.row ∧ row.payload = message.payload
  workers : ∀ (index : Nat) (session : Worker.Session), s.workers[index]? = some session →
    ∃ message, s.stream[session.message]? = some message ∧ Worker.Handles message session.pc

theorem Worker.ref?_of_executing {pc : Worker.Pc} {run : Worker.LeasedRun}
    (h : pc.executing? = some run) : pc.ref? = some run.ref := by
  cases pc <;> cases h <;> rfl

theorem Worker.process_ref {runId : String} {ref : Worker.RunRef}
    (h : (Worker.process runId).ref? = some ref) :
    ref.text = runId ∧ Uuid.ofText? runId = some ref.id := by
  unfold Worker.process at h
  split at h
  · split at h
    · rename_i hid
      cases h
      exact ⟨rfl, hid⟩
    · cases h
  · cases h

/-- A worker stays with the run it received. -/
theorem Worker.Turn.ref? {env : Env} {s : Shared} {session : Worker.Session} {pc : Worker.Pc}
    {effect : Effect} (hshape : Worker.Shaped session.pc)
    (hturn : Worker.Turn env s session pc effect) {ref : Worker.RunRef}
    (h : pc.ref? = some ref) :
    session.pc.ref? = some ref ∨
      ∃ runId, session.pc = .received runId ∧ pc = Worker.process runId := by
  cases hturn with
  | error => cases h
  | crash => cases h
  | move hmove =>
      generalize session.pc = old at hmove hshape
      cases hmove with
      | received runId => exact .inr ⟨runId, rfl, rfl⟩
      | claimBegin => exact .inl h
      | claimEmpty => cases h
      | claimFound => exact .inl h
      | claimUpdate => exact .inl h
      | claimEvents hdecode =>
          cases h
          exact .inl (congrArg some (Worker.leasedRun_leases hshape.1 hdecode).2.1.symm)
      | claimUndecodable => cases h
      | terminate => cases h
      | claimCommit => exact .inl h
      | execute run =>
          rw [Worker.ref?_of_executing (Worker.execute_executing run)] at h
          exact .inl h
      | loop run index =>
          rw [Worker.ref?_of_executing (Worker.loop_executing env run index)] at h
          exact .inl h
      | consume run index handle prompt delivery =>
          rw [Worker.ref?_of_executing (Worker.withCredential_executing env run index prompt _)]
            at h
          exact .inl h
      | @record _ run index kind status safeLabel hfree => cases status <;> exact .inl h
      | @eventCommit _ run row after hfree =>
          cases after with
          | ret => cases h
          | advance index => exact .inl h
      | nak => cases h
      | ack => cases h
      | _ => exact .inl h

theorem Worker.Turn.not_received {env : Env} {s : Shared} {session : Worker.Session}
    {pc : Worker.Pc} {effect : Effect} (hturn : Worker.Turn env s session pc effect)
    (runId : String) : pc ≠ .received runId := by
  rintro rfl
  cases hturn with
  | move hmove =>
      generalize session.pc = old at hmove
      generalize hpc : Worker.Pc.received runId = pc at hmove
      have noref : pc.ref? = none ∧ pc.executing? = none := by
        subst hpc
        exact ⟨rfl, rfl⟩
      cases hmove with
      | received runId =>
          unfold Worker.process at hpc
          repeat' split at hpc
          all_goals cases hpc
      | execute run => simp [Worker.execute_executing] at noref
      | loop run index => simp [Worker.loop_executing] at noref
      | consume run index handle prompt delivery =>
          simp [Worker.withCredential_executing] at noref
      | @record _ run index kind status safeLabel hfree => cases status <;> cases hpc
      | @eventCommit _ run row after hfree => cases after <;> cases hpc
      | _ => cases hpc

section

variable {env : Env} {s s' : State} {a : Action}

theorem Named.outbox_next (sound : Sound s) (named : Named s) (hnext : next env s a = some s') :
    ∀ row ∈ s'.db.outbox, row.payload = ⟨row.runId.text⟩ := by
  intro row hrow
  obtain ⟨events, outbox, audits, hdb⟩ := next_db hnext
  rw [hdb] at hrow
  cases hcommit : commitOf env s a with
  | none =>
      rw [hcommit] at hrow
      exact named.outbox row hrow
  | some change =>
      rw [hcommit] at hrow
      rcases mem_outbox_commit hrow with ⟨old, hold, hsame⟩ | ⟨writes, rfl, hnew⟩
      · rw [hsame.payload, hsame.runId]
        exact named.outbox old hold
      · cases commitOf_commits hcommit with
        | request hcall hpc =>
            obtain ⟨eventType, hcomplete⟩ := sound.complete hcall hpc
            have houtbox := hcomplete.outbox
            unfold ControlPlane.OutboxWritten at houtbox
            split at houtbox
            · obtain ⟨queued, hqueued, hrun, hpayload, -⟩ := houtbox
              rw [hnew, Option.some.injEq] at hqueued
              rw [hqueued, hpayload, hrun]
            · rw [hnew] at houtbox
              cases houtbox

theorem Outbox.Turn.messages {session : Outbox.Session} {pc : Outbox.Pc} {effect : Effect}
    (hturn : Outbox.Turn s.toShared session pc effect) :
    ∀ pending ∈ pc.messages, pending ∈ session.pc.messages ∨
      ∃ row ∈ s.db.outbox, pending = Outbox.OutboxRow.pending row := by
  intro pending hpending
  cases hturn with
  | error => cases hpending
  | move hmove =>
      generalize session.pc = old at hmove
      cases hmove with
      | claimSelect =>
          obtain ⟨row, hrow, rfl, -⟩ := Outbox.mem_claimPending hpending
          exact .inr ⟨row, hrow, rfl⟩
      | claimUpdate => exact .inl hpending
      | claimCommit => exact .inl hpending
      | acked pending messages delivered => exact .inl (List.mem_cons_of_mem _ hpending)
      | _ => cases hpending

theorem Named.next (sound : Sound s) (named : Named s) (hnext : next env s a = some s') :
    Named s' := by
  have hextends := next_extends hnext
  have later : ∀ {id : Nat} {payload : Payload},
      (∃ row ∈ s.db.outbox, row.id = id ∧ row.payload = payload) →
        ∃ row ∈ s'.db.outbox, row.id = id ∧ row.payload = payload := by
    rintro id payload ⟨row, hrow, rfl, rfl⟩
    obtain ⟨row', hrow', hsame⟩ := hextends.outbox row hrow
    exact ⟨row', hrow', hsame.id, hsame.payload⟩
  refine ⟨named.outbox_next sound hnext, ?_, ?_, ?_⟩
  · intro index session hpublisher pending hpending
    cases publisher_case hnext hpublisher with
    | kept hold => exact later (named.publishers index _ hold pending hpending)
    | joined => cases hpending
    | turned hold hactor hturn hstate =>
        rcases hturn.messages pending hpending with hmine | ⟨row, hrow, rfl⟩
        · exact later (named.publishers index _ hold pending hmine)
        · exact later ⟨row, hrow, rfl, rfl⟩
  · intro message hmessage
    obtain ⟨position, hposition⟩ := List.mem_iff_getElem?.mp hmessage
    cases stream_case hnext hposition with
    | kept hold => exact later (named.stream _ (List.mem_of_getElem? hold))
    | redelivered hold =>
        have hrow := named.stream _ (List.mem_of_getElem? hold)
        exact later hrow
    | acked hworker hpc houtcome hposition hold =>
        have hrow := named.stream _ (List.mem_of_getElem? hold)
        exact later hrow
    | published hpublisher hpc hposition =>
        exact later (named.publishers _ _ hpublisher _ (by rw [hpc]; exact List.mem_cons_self))
  · intro index session hworker
    cases worker_case hnext hworker with
    | kept hold hactor =>
        obtain ⟨message, hmessage, hhandles⟩ := named.workers index _ hold
        obtain ⟨new, hnew, hlater⟩ := stream_later hnext hmessage
        exact ⟨new, hnew, by
          rw [hlater.payload]
          exact hhandles.received, by
          rw [hlater.payload]
          exact hhandles.ref⟩
    | joined haction hmessage hunacked =>
        obtain ⟨new, hnew, hlater⟩ := stream_later hnext hmessage
        refine ⟨new, hnew, ?_, by simp [Worker.Pc.ref?, Worker.Pc.executing?]⟩
        rw [hlater.payload]
        rintro runId ⟨⟩
        rfl
    | turned hold hactor hcommit hturn hstate =>
        obtain ⟨message, hmessage, hhandles⟩ := named.workers index _ hold
        obtain ⟨new, hnew, hlater⟩ := stream_later hnext hmessage
        refine ⟨new, hnew, fun runId heq => absurd heq (hturn.not_received runId), ?_⟩
        rw [hlater.payload]
        intro ref href
        rcases hturn.ref? (sound.shaped.workers index _ hold) href with hmine | ⟨runId, hpc, rfl⟩
        · exact hhandles.ref ref hmine
        · obtain ⟨htext, hid⟩ := Worker.process_ref href
          have hname := hhandles.received runId hpc
          obtain ⟨row, hrow, -, hpayload⟩ := named.stream message (List.mem_of_getElem? hmessage)
          have hcanonical := named.outbox row hrow
          rw [hpayload] at hcanonical
          rw [hname, hcanonical, ofText?_text, Option.some.injEq] at hid
          exact ⟨by rw [htext, hname, hcanonical, hid], by rw [hcanonical, hid]⟩

end

theorem run_named {env : Env} {h : History State Action} {s : State} (run : Run env h s) :
    Named s := by
  refine run.always ?_ ?_
  · intro s hs
    exact ⟨by simp [hs.outbox], by simp [hs.publishers], by simp [hs.stream],
      by simp [hs.workers]⟩
  · intro h s a s' run named hnext
    exact named.next (run_sound run) hnext

/-! ## Workers interpret the stored definition -/

namespace Worker

/-- The leased run is the stored one: same tenant, and the definition it was created for. -/
def Agrees (db : Db) (run : LeasedRun) : Prop :=
  ∃ row definition, db.run? run.ref.id = some row ∧ row.tenantId = run.tenantId ∧
    db.definition? row.workflowId = some definition ∧
    unmarshalDefinition definition.definition = some run.definition

theorem Agrees.extends {db db' : Db} {run : LeasedRun} (h : Agrees db run)
    (hextends : db.Extends db') : Agrees db' run := by
  obtain ⟨row, definition, hrow, htenant, hdefinition, hdecode⟩ := h
  obtain ⟨row', hrow', hsame⟩ := hextends.runs _ row hrow
  refine ⟨row', definition, hrow', by rw [hsame.tenantId, htenant], ?_, hdecode⟩
  rw [hsame.workflowId]
  exact hextends.definition? hdefinition

namespace Pc

def claiming? : Pc → Option (RunRow × DefinitionRow)
  | claimUpdate _ _ row definition | claimEvents _ _ row definition => some (row, definition)
  | _ => none

def leased? : Pc → Option LeasedRun
  | claimCommit _ _ _ run => some run
  | pc => pc.executing?

end Pc

theorem leased?_of_executing {pc : Pc} {run : LeasedRun} (h : pc.executing? = some run) :
    pc.leased? = some run := by
  cases pc <;> cases h <;> rfl

/-- Where the run of a position comes from. -/
theorem Turn.leased? {env : Env} {s : Shared} {session : Session} {pc : Pc} {effect : Effect}
    (hturn : Turn env s session pc effect) {run : LeasedRun} (h : pc.leased? = some run) :
    session.pc.leased? = some run ∨ ∃ ref now row definition,
      session.pc = .claimEvents ref now row definition ∧
        leasedRun ref row definition = some run := by
  cases hturn with
  | error => cases h
  | crash => cases h
  | move hmove =>
      generalize session.pc = old at hmove
      cases hmove with
      | received runId =>
          unfold process at h
          repeat' split at h
          all_goals cases h
      | claimEvents hdecode =>
          cases h
          exact .inr ⟨_, _, _, _, rfl, hdecode⟩
      | claimCommit => exact .inl h
      | execute run =>
          rw [leased?_of_executing (execute_executing run)] at h
          exact .inl h
      | loop run index =>
          rw [leased?_of_executing (loop_executing env run index)] at h
          exact .inl h
      | consume run index handle prompt delivery =>
          rw [leased?_of_executing (withCredential_executing env run index prompt _)] at h
          exact .inl h
      | @record _ run index kind status safeLabel hfree => cases status <;> exact .inl h
      | @eventCommit _ run row after hfree =>
          cases after with
          | ret => cases h
          | advance index => exact .inl h
      | claimBegin => cases h
      | claimEmpty => cases h
      | claimFound => cases h
      | claimUpdate => cases h
      | claimUndecodable => cases h
      | terminate => cases h
      | nak => cases h
      | ack => cases h
      | _ => exact .inl h

theorem Turn.claiming? {env : Env} {s : Shared} {session : Session} {pc : Pc} {effect : Effect}
    (hturn : Turn env s session pc effect) {row : RunRow} {definition : DefinitionRow}
    (h : pc.claiming? = some (row, definition)) :
    session.pc.claiming? = some (row, definition) ∨
      s.db.definition? row.workflowId = some definition := by
  have executing : ∀ {pc : Pc} {run : LeasedRun}, pc.executing? = some run →
      pc.claiming? = none := by
    intro pc run hexecuting
    cases pc <;> first | rfl | cases hexecuting
  cases hturn with
  | error => cases h
  | crash => cases h
  | move hmove =>
      generalize session.pc = old at hmove
      cases hmove with
      | received runId =>
          unfold process at h
          repeat' split at h
          all_goals cases h
      | claimFound hselect =>
          cases h
          exact .inr (claimable_free hselect).2.2.2.1
      | claimUpdate => exact .inl h
      | execute run => simp [executing (execute_executing run)] at h
      | loop run index => simp [executing (loop_executing env run index)] at h
      | consume run index handle prompt delivery =>
          simp [executing (withCredential_executing env run index prompt _)] at h
      | @record _ run index kind status safeLabel hfree => cases status <;> cases h
      | @eventCommit _ run row after hfree => cases after <;> cases h
      | _ => cases h

end Worker

structure Informed (s : State) : Prop where
  definitions : ∀ definition ∈ s.db.definitions,
    ∃ workflow, Accepted workflow ∧ definition.definition = workflow.toJson
  claims : ∀ (index : Nat) (session : Worker.Session) (row : RunRow)
    (definition : DefinitionRow), s.workers[index]? = some session →
      session.pc.claiming? = some (row, definition) →
        s.db.definition? row.workflowId = some definition
  workers : ∀ (index : Nat) (session : Worker.Session) (run : Worker.LeasedRun),
    s.workers[index]? = some session → session.pc.leased? = some run →
      Worker.Agrees s.db run

theorem mem_definitions_commit {db : Db} {change : Commit} {definition : DefinitionRow}
    (h : definition ∈ (db.commit change).definitions) :
    definition ∈ db.definitions ∨ ∃ audit, change = .createWorkflow definition audit := by
  cases change with
  | createWorkflow row audit =>
      rcases List.mem_append.mp h with hold | hnew
      · exact .inl hold
      · rw [List.mem_singleton] at hnew
        exact .inr ⟨audit, hnew ▸ rfl⟩
  | request writes =>
      obtain ⟨write, event, outbox, audit⟩ := writes
      cases write <;> exact .inl h
  | _ => exact .inl h

theorem Informed.next {env : Env} {s s' : State} {a : Action} (sound : Sound s)
    (informed : Informed s) (hnext : next env s a = some s') : Informed s' := by
  have hextends := next_extends hnext
  constructor
  · intro definition hdefinition
    obtain ⟨events, outbox, audits, hdb⟩ := next_db hnext
    rw [hdb] at hdefinition
    cases hcommit : commitOf env s a with
    | none =>
        rw [hcommit] at hdefinition
        exact informed.definitions definition hdefinition
    | some change =>
        rw [hcommit] at hdefinition
        rcases mem_definitions_commit hdefinition with hold | ⟨audit, rfl⟩
        · exact informed.definitions definition hold
        · cases commitOf_commits hcommit with
          | createWorkflow hschema hinsertable => exact ⟨_, ⟨_, hschema⟩, rfl⟩
  · intro index session row definition hworker hclaiming
    cases worker_case hnext hworker with
    | kept hold hactor =>
        exact hextends.definition? (informed.claims index _ row definition hold hclaiming)
    | joined => cases hclaiming
    | turned hold hactor hcommit hturn hstate =>
        rcases hturn.claiming? hclaiming with hmine | hread
        · exact hextends.definition? (informed.claims index _ row definition hold hmine)
        · exact hextends.definition? hread
  · intro index session run hworker hleased
    cases worker_case hnext hworker with
    | kept hold hactor => exact (informed.workers index _ run hold hleased).extends hextends
    | joined => cases hleased
    | turned hold hactor hcommit hturn hstate =>
        rcases hturn.leased? hleased with hmine | ⟨ref, now, row, definition, hpc, hdecode⟩
        · exact (informed.workers index _ run hold hmine).extends hextends
        · have hshape := sound.shaped.workers index _ hold
          have hrow := sound.snapshots.workers index _ row hold (by rw [hpc]; rfl)
          have hdefinition := informed.claims index _ row definition hold (by rw [hpc]; rfl)
          rw [hpc] at hshape
          obtain ⟨hleases, -, hworkflow⟩ := Worker.leasedRun_leases hshape.1 hdecode
          rw [hleases.id] at hrow
          exact Worker.Agrees.extends
            ⟨row, definition, hrow, hleases.tenantId.symm, hdefinition, hworkflow⟩ hextends

theorem run_informed {env : Env} {h : History State Action} {s : State} (run : Run env h s) :
    Informed s := by
  refine run.always ?_ ?_
  · intro s hs
    exact ⟨by simp [hs.definitions], by simp [hs.workers], by simp [hs.workers]⟩
  · intro h s a s' run informed hnext
    exact informed.next (run_sound run) hnext

/-! ## The definition of a run -/

namespace Db

/-- The definition of a run as a worker decodes it. -/
def interpreted? (db : Db) (runId : Uuid) : Option Worker.Definition :=
  (db.run? runId).bind fun row =>
    (db.definition? row.workflowId).bind fun definition =>
      Worker.unmarshalDefinition definition.definition

/-- The workflow that a run was created for. -/
def WorkflowOf (db : Db) (runId : Uuid) (workflow : WorkflowDefinition) : Prop :=
  ∃ row definition, db.run? runId = some row ∧
    db.definition? row.workflowId = some definition ∧ definition.definition = workflow.toJson

end Db

def decoded (workflow : WorkflowDefinition) : Worker.Definition :=
  ⟨workflow.schemaVersion, workflow.allowedHosts, workflow.steps.map WorkflowStep.toJson⟩

theorem Db.WorkflowOf.interpreted {db : Db} {runId : Uuid} {workflow : WorkflowDefinition}
    (h : db.WorkflowOf runId workflow) : db.interpreted? runId = some (decoded workflow) := by
  obtain ⟨row, definition, hrow, hdefinition, hjson⟩ := h
  rw [Db.interpreted?, hrow, Option.bind_some, hdefinition, Option.bind_some, hjson]
  exact Worker.unmarshalDefinition_toJson workflow

theorem Worker.Agrees.interpreted {db : Db} {run : Worker.LeasedRun}
    (h : Worker.Agrees db run) : db.interpreted? run.ref.id = some run.definition := by
  obtain ⟨row, definition, hrow, -, hdefinition, hdecode⟩ := h
  rw [Db.interpreted?, hrow, Option.bind_some, hdefinition, Option.bind_some, hdecode]

theorem Worker.Agrees.tenant {db : Db} {run : Worker.LeasedRun} {row : RunRow}
    (h : Worker.Agrees db run) (hrow : db.run? run.ref.id = some row) :
    row.tenantId = run.tenantId := by
  obtain ⟨other, definition, hother, htenant, -, -⟩ := h
  rw [hrow, Option.some.injEq] at hother
  rw [hother, htenant]

theorem Informed.workflow {s : State} (informed : Informed s) {run : Worker.LeasedRun}
    (hagrees : Worker.Agrees s.db run) :
    ∃ workflow, Accepted workflow ∧ s.db.WorkflowOf run.ref.id workflow ∧
      run.definition = decoded workflow := by
  obtain ⟨row, definition, hrow, htenant, hdefinition, hdecode⟩ := hagrees
  obtain ⟨workflow, haccepted, hjson⟩ := informed.definitions definition
    (Table.lookup_mem hdefinition)
  rw [hjson, Worker.unmarshalDefinition_toJson, Option.some.injEq] at hdecode
  exact ⟨workflow, haccepted, ⟨row, definition, hrow, hdefinition, hjson⟩, hdecode.symm⟩

/-- The workflow that a creation has found, or that its new row refers to. -/
def ControlPlane.Pc.references? : ControlPlane.Pc → Option Uuid
  | .createInsert create _ _ => some create.workflowId
  | pc => pc.writes?.bind fun writes => writes.run.inserted?.map RunRow.workflowId

/-- The tenant has a definition with this id. -/
def Db.Defines (db : Db) (tenantId workflowId : Uuid) : Prop :=
  ∃ definition, db.definition? workflowId = some definition ∧ definition.tenantId = tenantId

/-- Every run refers to a stored definition of its own tenant. -/
structure Referenced (s : State) : Prop where
  rows : ∀ id row, s.db.run? id = some row → s.db.Defines row.tenantId row.workflowId
  calls : ∀ (index : Nat) (session : ControlPlane.Session) workflowId,
    s.calls[index]? = some session → session.pc.references? = some workflowId →
      s.db.Defines session.principal.tenantId workflowId

namespace ControlPlane

theorem PcMove.references {env : Env} {s : Shared} {choice : Uuid} {session : Session}
    {pc pc' : Pc} {effect : Effect} (hmove : PcMove env s choice session pc pc' effect)
    {workflowId : Uuid} (h : pc'.references? = some workflowId) :
    pc.references? = some workflowId ∨ s.db.Defines session.principal.tenantId workflowId := by
  cases hmove with
  | approve =>
      unfold startTransition at h
      repeat' split at h
      all_goals cases h
  | cancel =>
      unfold startTransition at h
      repeat' split at h
      all_goals cases h
  | readRun =>
      unfold readRunCheck at h
      repeat' split at h
      all_goals cases h
  | workflowFound hworkflow =>
      cases h
      obtain ⟨hdefinition, htenant⟩ := Option.filter_eq_some_iff.mp hworkflow
      exact .inr ⟨_, hdefinition, by simpa using htenant⟩
  | inserted =>
      cases h
      exact .inl rfl
  | transitionUpdate => cases h
  | eventQueued => exact .inl h
  | eventUnqueued => exact .inl h
  | queueOutbox => exact .inl h
  | audit => exact .inl h
  | readEvents => exact .inl h
  | _ => cases h

end ControlPlane

theorem Referenced.next {env : Env} {s s' : State} {a : Action} (sound : Sound s)
    (referenced : Referenced s) (hnext : next env s a = some s') : Referenced s' := by
  have kept : ∀ {tenantId workflowId : Uuid}, s.db.Defines tenantId workflowId →
      s'.db.Defines tenantId workflowId := by
    rintro tenantId workflowId ⟨definition, hdefinition, htenant⟩
    exact ⟨definition, (next_extends hnext).definition? hdefinition, htenant⟩
  constructor
  · intro id row hrow
    cases hold : s.db.run? id with
    | some old =>
        have hsame := sameRequest_next hnext hold hrow
        rw [hsame.workflowId, hsame.tenantId]
        exact kept (referenced.rows id old hold)
    | none =>
        have hstep := row_step sound hnext id
        rw [hold, hrow] at hstep
        cases hstep with
        | @created index choice session writes run _ hcommit hcall hpc hwrite hid =>
            obtain ⟨create, key, now, budgetCents, -, hnew⟩ := sound.insert_eq hcall hpc hwrite
            have hdefines := referenced.calls index session row.workflowId hcall (by
              rw [hpc]
              simp [ControlPlane.Pc.references?, ControlPlane.Pc.writes?, hwrite,
                RunWrite.inserted?])
            rw [hnew] at hdefines ⊢
            exact kept hdefines
  · intro index session workflowId hcall href
    cases call_case hnext hcall with
    | kept hold hactor => exact kept (referenced.calls index _ workflowId hold href)
    | joined => cases href
    | @turned session moved effect hold hactor hcommit hturn hstate =>
        cases hturn with
        | error => cases href
        | move hmove =>
            cases hmove with
            | start hpc hrequest hstart =>
                cases ControlPlane.startCreate_start hstart with
                | _ => cases href
            | inner hmove =>
                rcases hmove.references href with hmine | hread
                · exact kept (referenced.calls index session workflowId hold hmine)
                · exact kept hread

theorem run_referenced {env : Env} {h : History State Action} {s : State} (run : Run env h s) :
    Referenced s := by
  refine run.always ?_ ?_
  · intro s hs
    exact ⟨by simp [Db.run?, hs.runs], by simp [hs.calls]⟩
  · intro h s a s' run referenced hnext
    exact referenced.next (run_sound run) hnext

/-- The definition of a run never changes. -/
theorem interpreted_next {env : Env} {s s' : State} {a : Action}
    (referenced : Referenced s) (hnext : next env s a = some s') {id : Uuid} {row : RunRow}
    (hrow : s.db.run? id = some row) : s'.db.interpreted? id = s.db.interpreted? id := by
  obtain ⟨definition, hdefinition, -⟩ := referenced.rows id row hrow
  obtain ⟨row', hrow', hsame⟩ := (next_extends hnext).runs id row hrow
  rw [Db.interpreted?, Db.interpreted?, hrow, hrow', Option.bind_some, Option.bind_some,
    hsame.workflowId, hdefinition, (next_extends hnext).definition? hdefinition]

end DurableRuntime
