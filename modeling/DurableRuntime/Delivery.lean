import DurableRuntime.Identity
import DurableRuntime.StateMachine

/-!
# Delivery

A run that is queued or running waits for a trigger: the outbox row of its last
creation or approval, then the message published from it, until a worker has
acknowledged that message.  The one way to lose the trigger is a claim that
comes back empty although the run still needs a worker, since `process` then
returns nil and the message is acknowledged.
-/

namespace DurableRuntime

open DurableRuntime.Foundation

def Message.Names (message : Message) (runId : Uuid) : Prop :=
  Uuid.ofText? message.payload.runId = some runId

/-- What can still bring a worker to a run, or has brought one. -/
inductive Triggered (s : State) (runId : Uuid) : Prop
  | unpublished {row} (hrow : row ∈ s.db.outbox) (hrun : row.runId = runId)
      (hpublished : row.publishedAt = none)
  | unacknowledged {message} (hmessage : message ∈ s.stream) (hnames : message.Names runId)
      (hacked : message.acked = false)
  | inProcess {index : Nat} {session : Worker.Session}
      (hworker : s.workers[index]? = some session)
      (hprocessing : session.pc.processing? = some runId)

def NoneStranded (s : State) : Prop :=
  ∀ id row, s.db.run? id = some row → row.state.isPending = true → Triggered s id

/-- The run that an action has looked for in `claim` without finding a row. -/
def emptyClaim? (s : State) : Action → Option Uuid
  | .worker index _ =>
      match s.workers[index]? with
      | some ⟨_, _, .claimSelect ref now⟩ =>
          if (Worker.claimable s.toShared ref.id now).isNone then some ref.id else none
      | _ => none
  | _ => none

/-- A claim that comes back empty was about a run that needs no worker any more. -/
def EmptyClaimsIdle (s : State) (a : Action) : Prop :=
  ∀ id ∈ emptyClaim? s a, ∀ row ∈ s.db.run? id, row.state.isPending = false

instance (s : State) (a : Action) : Decidable (EmptyClaimsIdle s a) :=
  decidable_of_iff
    ((emptyClaim? s a).all fun id => (s.db.run? id).all fun row => !row.state.isPending)
    (by simp [EmptyClaimsIdle, Option.all_eq_true])

/-! ## Outbox rows -/

namespace ControlPlane

theorem PcMove.outbox {env : Env} {s : Shared} {choice : Uuid} {session : Session}
    {pc pc' : Pc} {effect : Effect} (hmove : PcMove env s choice session pc pc' effect)
    {writes : Writes} {row : OutboxRow} (hwrites : pc'.writes? = some writes)
    (hrow : writes.outbox = some row) :
    effect.commit? = none ∧
      ((∃ old, pc.writes? = some old ∧ old.outbox = some row) ∨
        row.id = s.db.nextOutboxId) := by
  cases hmove with
  | approve => simp [startTransition_idle] at hwrites
  | cancel => simp [startTransition_idle] at hwrites
  | readRun => simp [readRunCheck_idle] at hwrites
  | inserted =>
      cases hwrites
      cases hrow
  | transitionUpdate =>
      cases hwrites
      cases hrow
  | queueOutbox =>
      cases hwrites
      cases hrow
      exact ⟨rfl, .inr rfl⟩
  | eventQueued =>
      cases hwrites
      exact ⟨rfl, .inl ⟨_, rfl, hrow⟩⟩
  | eventUnqueued =>
      cases hwrites
      exact ⟨rfl, .inl ⟨_, rfl, hrow⟩⟩
  | audit =>
      cases hwrites
      exact ⟨rfl, .inl ⟨_, rfl, hrow⟩⟩
  | readEvents =>
      cases hwrites
      exact ⟨rfl, .inl ⟨_, rfl, hrow⟩⟩
  | _ => cases hwrites

end ControlPlane

/-- The id of an outbox row is unique, also among the rows about to be inserted. -/
structure OutboxKeyed (s : State) : Prop where
  nodup : (s.db.outbox.map OutboxRow.id).Nodup
  calls : ∀ (index : Nat) (session : ControlPlane.Session) writes row,
    s.calls[index]? = some session → session.pc.writes? = some writes →
      writes.outbox = some row → row.id ∉ s.db.outbox.map OutboxRow.id

/-- The rows that a publisher has published and will mark. -/
def Outbox.Pc.delivered : Outbox.Pc → List Nat
  | .publish _ delivered | .mark delivered | .marking _ delivered _ => delivered
  | _ => []

/-- A row that is marked as published has a message in the stream. -/
structure Published (s : State) : Prop where
  outbox : ∀ row ∈ s.db.outbox, row.publishedAt.isSome = true →
    ∃ message ∈ s.stream, message.row = row.id
  publishers : ∀ (index : Nat) (session : Outbox.Session),
    s.publishers[index]? = some session → ∀ id ∈ session.pc.delivered,
      ∃ message ∈ s.stream, message.row = id

section

variable {env : Env} {s s' : State} {a : Action} {h : History State Action}

theorem outboxIds_next (hnext : next env s a = some s') :
    s'.db.outbox.map OutboxRow.id = s.db.outbox.map OutboxRow.id ++
      (((commitOf env s a).bind Commit.queued?).map OutboxRow.id).toList := by
  obtain ⟨events, outbox, audits, hdb⟩ := next_db hnext
  rw [hdb]
  cases hcommit : commitOf env s a with
  | none => exact (List.append_nil _).symm
  | some change => exact outboxIds_commit _ change

theorem queued_commits {row : OutboxRow}
    (hqueued : (commitOf env s a).bind Commit.queued? = some row) :
    ∃ index choice session writes run, a = .call index choice ∧
      s.calls[index]? = some session ∧ session.pc = .commit writes run ∧
        writes.outbox = some row := by
  obtain ⟨change, hcommit, hrow⟩ := Option.bind_eq_some_iff.mp hqueued
  cases commitOf_commits hcommit with
  | request hcall hpc => exact ⟨_, _, _, _, _, rfl, hcall, hpc, hrow⟩
  | _ => cases hrow

theorem OutboxKeyed.next (locked : Locked s) (keyed : OutboxKeyed s)
    (hnext : next env s a = some s') : OutboxKeyed s' := by
  constructor
  · rw [outboxIds_next hnext]
    cases hqueued : (commitOf env s a).bind Commit.queued? with
    | none => simpa using keyed.nodup
    | some row =>
        obtain ⟨index, choice, session, writes, run, -, hcall, hpc, hrow⟩ :=
          queued_commits hqueued
        have hfresh := keyed.calls index session writes row hcall (by rw [hpc]; rfl) hrow
        simp only [Option.map_some, Option.toList_some]
        exact List.nodup_append'.mpr ⟨keyed.nodup, List.nodup_singleton _, by simpa using hfresh⟩
  · intro index session writes row hcall hwrites hrow
    cases call_case hnext hcall with
    | kept hold hactor =>
        have hfresh := keyed.calls index session writes row hold hwrites hrow
        rw [outboxIds_next hnext]
        cases hqueued : (commitOf env s a).bind Commit.queued? with
        | none => simpa using hfresh
        | some other =>
            obtain ⟨index', choice, session', writes', run, rfl, hcall', hpc, hother⟩ :=
              queued_commits hqueued
            have hlock := (locked.outbox_lt hold hwrites hrow).1
            have hlock' := (locked.outbox_lt hcall' (by rw [hpc]; rfl) hother).1
            simp only [Option.map_some, Option.toList_some, List.mem_append, List.mem_singleton,
              not_or]
            refine ⟨hfresh, ?_⟩
            intro heq
            rw [heq, hlock', Option.some.injEq] at hlock
            exact hactor (by rw [← hlock]; rfl)
    | joined => cases hwrites
    | @turned session moved effect hold hactor hcommit hturn hstate =>
        cases hturn with
        | error => cases hwrites
        | move hmove =>
            cases hmove with
            | start hpc hrequest hstart =>
                rw [(ControlPlane.startCreate_idle hstart).2] at hwrites
                cases hwrites
            | inner hmove =>
                obtain ⟨hquiet, hread⟩ := hmove.outbox hwrites hrow
                rw [outboxIds_next hnext, hcommit, hquiet, Option.bind_none, Option.map_none,
                  Option.toList_none, List.append_nil]
                rcases hread with ⟨old, hold', hmine⟩ | hdrawn
                · exact keyed.calls index _ old row hold hold' hmine
                · rw [hdrawn]
                  intro hmem
                  obtain ⟨other, hother, hid⟩ := List.mem_map.mp hmem
                  exact absurd (locked.drawn other hother) (by rw [hid]; exact Nat.lt_irrefl _)

theorem run_outboxKeyed (run : Run env h s) : OutboxKeyed s := by
  refine run.always ?_ ?_
  · intro s hs
    exact ⟨by simp [hs.outbox], by simp [hs.calls]⟩
  · intro h s a s' run keyed hnext
    exact keyed.next (run_locked run) hnext

theorem Outbox.Turn.delivered {session : Outbox.Session} {pc : Outbox.Pc} {effect : Effect}
    (hturn : Outbox.Turn s.toShared session pc effect) :
    ∀ id ∈ pc.delivered, id ∈ session.pc.delivered ∨
      ∃ message, effect = .publish message ∧ message.row = id := by
  intro id hid
  cases hturn with
  | error => cases hid
  | move hmove =>
      generalize session.pc = old at hmove
      cases hmove with
      | publishedAll => exact .inl hid
      | markBegin => exact .inl hid
      | markRow => exact .inl hid
      | acked pending messages delivered =>
          rcases List.mem_append.mp hid with hold | hnew
          · exact .inl hold
          · rw [List.mem_singleton] at hnew
            exact .inr ⟨_, rfl, hnew.symm⟩
      | _ => cases hid

theorem Published.next (sound : Sound s) (published : Published s)
    (hnext : next env s a = some s') : Published s' := by
  have later : ∀ {id : Nat}, (∃ message ∈ s.stream, message.row = id) →
      ∃ message ∈ s'.stream, message.row = id := by
    rintro id ⟨message, hmessage, rfl⟩
    obtain ⟨position, hposition⟩ := List.mem_iff_getElem?.mp hmessage
    obtain ⟨new, hnew, hlater⟩ := stream_later hnext hposition
    exact ⟨new, List.mem_of_getElem? hnew, hlater.row⟩
  constructor
  · intro row hrow hpublished
    obtain ⟨events, outbox, audits, hdb⟩ := next_db hnext
    rw [hdb] at hrow
    cases hcommit : commitOf env s a with
    | none =>
        rw [hcommit] at hrow
        exact later (published.outbox row hrow hpublished)
    | some change =>
        rw [hcommit] at hrow
        rcases published_commit hrow hpublished with ⟨old, hold, hsame, hmarked⟩ |
          ⟨ids, now, rfl, hid⟩ | ⟨writes, rfl, hnew⟩
        · rw [hsame.id]
          exact later (published.outbox old hold hmarked)
        · cases commitOf_commits hcommit with
          | outboxPublished hpublisher hpc =>
              exact later (published.publishers _ _ hpublisher _ (by rw [hpc]; exact hid))
        · cases commitOf_commits hcommit with
          | request hcall hpc =>
              obtain ⟨eventType, hcomplete⟩ := sound.complete hcall hpc
              rw [hcomplete.unpublished hnew] at hpublished
              cases hpublished
  · intro index session hpublisher id hid
    cases publisher_case hnext hpublisher with
    | kept hold => exact later (published.publishers index _ hold id hid)
    | joined => cases hid
    | turned hold hactor hturn hstate =>
        rcases hturn.delivered id hid with hmine | ⟨message, rfl, rfl⟩
        · exact later (published.publishers index _ hold id hmine)
        · refine ⟨message, ?_, rfl⟩
          rw [hstate]
          exact List.mem_append_right s.stream (List.mem_singleton_self message)

theorem run_published (run : Run env h s) : Published s := by
  refine run.always ?_ ?_
  · intro s hs
    exact ⟨by simp [hs.outbox], by simp [hs.publishers]⟩
  · intro h s a s' run published hnext
    exact published.next (run_sound run) hnext

end

/-! ## Workers that have given their run up -/

namespace Worker

/-- Nothing but events and the acknowledgement is left to do. -/
def Pc.isFinishing : Pc → Bool
  | event _ _ _ .ret | eventCommit _ _ .ret => true
  | returned outcome => outcome ≠ .error
  | _ => false

theorem unfinished_of_branch {pc : Pc} {run : LeasedRun} (hbranch : pc.isBranch = true)
    (hexecuting : pc.executing? = some run) : pc.isFinishing = false := by
  cases pc <;> simp_all [Pc.isBranch, Pc.executing?, Pc.isFinishing]

inductive Finishes (env : Env) (s : Shared) (pc : Pc) (effect : Effect) : Prop
  | already (hfinishing : pc.isFinishing = true)
  | empty {ref now} (hpc : pc = .claimSelect ref now) (hselect : claimable s ref.id now = none)
  | invalid {runId} (hpc : pc = .received runId) (hinvalid : isUUID runId = false)
  | settled {run change state} (hexecuting : pc.executing? = some run)
      (heffect : effect = .commit change)
      (hstate : change.workerState? = some (run.ref.id, state))

theorem Turn.finishes {env : Env} {s : Shared} {session : Session} {pc : Pc} {effect : Effect}
    (hturn : Turn env s session pc effect) (h : pc.isFinishing = true) :
    Finishes env s session.pc effect := by
  cases hturn with
  | error => cases h
  | crash => cases h
  | move hmove =>
      generalize session.pc = old at hmove
      cases hmove with
      | received runId =>
          unfold process at h
          split at h
          · split at h <;> cases h
          · rename_i hinvalid
            exact .invalid rfl (Bool.eq_false_iff.mpr hinvalid)
      | claimEmpty hselect => exact .empty rfl hselect
      | execute run =>
          rw [unfinished_of_branch (execute_branch run) (execute_executing run)] at h
          cases h
      | loop run index =>
          rw [unfinished_of_branch (loop_branch env run index) (loop_executing env run index)]
            at h
          cases h
      | consume run index handle prompt delivery =>
          rw [unfinished_of_branch (withCredential_branch env run index prompt _)
            (withCredential_executing env run index prompt _)] at h
          cases h
      | @record _ run index kind status safeLabel hfree => cases status <;> cases h
      | awaitApproval => exact .settled rfl rfl rfl
      | complete => exact .settled rfl rfl rfl
      | event run eventType detail after =>
          exact .already (by cases after <;> first | rfl | cases h)
      | @eventCommit _ run row after hfree =>
          exact .already (by cases after <;> first | rfl | cases h)
      | ack houtcome => cases h
      | nak => cases h
      | _ => cases h

end Worker

/-! ## Live triggers -/

/-- The message of the row has not been given up: nobody acknowledged it, or is about to. -/
structure Live (s : State) (row : Nat) : Prop where
  unacknowledged : ∀ message ∈ s.stream, message.row = row → message.acked = false
  unfinished : ∀ (index : Nat) (session : Worker.Session) message,
    s.workers[index]? = some session → s.stream[session.message]? = some message →
      message.row = row → session.pc.isFinishing = false

/-- Every run that needs a worker has an outbox row that is live. -/
def Awaited (s : State) : Prop :=
  ∀ id row, s.db.run? id = some row → row.state.isPending = true →
    ∃ queued ∈ s.db.outbox, queued.runId = id ∧ Live s queued.id

section

variable {env : Env} {s s' : State} {a : Action} {h : History State Action}

/-- Rows are told apart by their id, so a message has one row. -/
theorem OutboxKeyed.unique (keyed : OutboxKeyed s) {row other : OutboxRow}
    (hrow : row ∈ s.db.outbox) (hother : other ∈ s.db.outbox) (hid : row.id = other.id) :
    row = other :=
  List.inj_on_of_nodup_map keyed.nodup hrow hother hid

theorem Named.run (named : Named s) (keyed : OutboxKeyed s) {message : Message}
    {queued : OutboxRow} (hmessage : message ∈ s.stream) (hqueued : queued ∈ s.db.outbox)
    (hrow : message.row = queued.id) : message.payload = ⟨queued.runId.text⟩ := by
  obtain ⟨row, hmem, hid, hpayload⟩ := named.stream message hmessage
  rw [← hpayload, keyed.unique hmem hqueued (hid.trans hrow)]
  exact named.outbox queued hqueued

/-- A worker that handles the row's message works on the row's run. -/
theorem handles_run (named : Named s) (keyed : OutboxKeyed s) {index : Nat}
    {session : Worker.Session} {message : Message} {queued : OutboxRow} {ref : Worker.RunRef}
    (hworker : s.workers[index]? = some session)
    (hmessage : s.stream[session.message]? = some message) (hqueued : queued ∈ s.db.outbox)
    (hrow : message.row = queued.id) (href : session.pc.ref? = some ref) :
    ref.id = queued.runId := by
  obtain ⟨other, hother, hhandles⟩ := named.workers index session hworker
  rw [hmessage, Option.some.injEq] at hother
  subst hother
  have hpayload := named.run keyed (List.mem_of_getElem? hmessage) hqueued hrow
  have htext := (hhandles.ref ref href).2
  rw [hpayload] at htext
  exact (text_inj htext).symm

theorem emptyClaim_worker {index : Nat} {reply : Worker.Reply} {session : Worker.Session}
    {ref : Worker.RunRef} {now : Int} (hworker : s.workers[index]? = some session)
    (hpc : session.pc = .claimSelect ref now)
    (hselect : Worker.claimable s.toShared ref.id now = none) :
    emptyClaim? s (.worker index reply) = some ref.id := by
  obtain ⟨id, message, pc⟩ := session
  cases hpc
  simp [emptyClaim?, hworker, hselect]

/-- The row of a run that stays pending stays live, where no claim of the run comes back empty. -/
theorem Live.next (run : Run env h s) (hnext : next env s a = some s') {queued : OutboxRow}
    (hqueued : queued ∈ s.db.outbox) (hfound : emptyClaim? s a ≠ some queued.runId)
    (live : Live s queued.id) {row row' : RunRow} (hrow : s.db.run? queued.runId = some row)
    (hrow' : s'.db.run? queued.runId = some row')
    (hpending' : row'.state.isPending = true) : Live s' queued.id := by
  have sound := run_sound run
  have named := run_named run
  have keyed := run_outboxKeyed run
  constructor
  · intro message hmessage hid
    obtain ⟨position, hposition⟩ := List.mem_iff_getElem?.mp hmessage
    cases stream_case hnext hposition with
    | kept hold => exact live.unacknowledged message (List.mem_of_getElem? hold) hid
    | @redelivered message instant hold =>
        exact live.unacknowledged message (List.mem_of_getElem? hold) hid
    | @acked index session outcome message hworker hpc houtcome hhandled hold =>
        subst hhandled
        have hunfinished := live.unfinished index session message hworker hold hid
        rw [hpc] at hunfinished
        simp [Worker.Pc.isFinishing, houtcome] at hunfinished
    | published => rfl
  · intro index session message hworker hmessage hid
    have before : ∀ {old : Worker.Session}, s.workers[index]? = some old →
        old.message = session.message →
          ∃ first, s.stream[old.message]? = some first ∧ first.row = queued.id := by
      intro old hold hsame
      obtain ⟨first, hfirst, -⟩ := named.workers index old hold
      obtain ⟨new, hnew, hlater⟩ := stream_later hnext hfirst
      rw [hsame, hmessage, Option.some.injEq] at hnew
      exact ⟨first, hfirst, by rw [← hlater.row, ← hnew, hid]⟩
    cases worker_case hnext hworker with
    | kept hold hactor =>
        obtain ⟨first, hfirst, hfirstRow⟩ := before hold rfl
        exact live.unfinished index session first hold hfirst hfirstRow
    | joined => rfl
    | @turned session pc effect hold hactor hcommit hturn hstate =>
        obtain ⟨first, hfirst, hfirstRow⟩ := before hold rfl
        have hunfinished := live.unfinished index session first hold hfirst hfirstRow
        rw [← Bool.not_eq_true]
        intro hfinishing
        cases hturn.finishes hfinishing with
        | already halready =>
            rw [hunfinished] at halready
            cases halready
        | @empty ref now hpc hselect =>
            have hrun := handles_run named keyed hold hfirst hqueued hfirstRow
              (by rw [hpc]; rfl)
            obtain ⟨reply, rfl⟩ : ∃ reply, a = .worker index reply := by
              refine worker_moved hnext hactor hworker ?_ ?_ <;> rintro rfl <;> cases hfinishing
            exact hfound (hrun ▸ emptyClaim_worker hold hpc hselect)
        | @invalid runId hpc hinvalid =>
            obtain ⟨other, hother, hhandles⟩ := named.workers index session hold
            rw [hfirst, Option.some.injEq] at hother
            subst hother
            rw [hhandles.received runId hpc,
              named.run keyed (List.mem_of_getElem? hfirst) hqueued hfirstRow] at hinvalid
            rw [isUUID_text] at hinvalid
            cases hinvalid
        | @settled leased change target hexecuting heffect htarget =>
            have hrun := handles_run named keyed hold hfirst hqueued hfirstRow
              (Worker.ref?_of_executing hexecuting)
            rw [heffect] at hcommit
            have hsettled := workerState_mem hcommit htarget
            rw [hrun] at htarget
            obtain ⟨last, hlast, rfl⟩ := workerState_next hnext hcommit htarget hrow
            rw [hrow', Option.some.injEq] at hlast
            subst hlast
            revert hsettled hpending'
            cases row'.state <;> decide

/-- A creation or an approval puts a row into the outbox that nobody can have handled. -/
theorem live_queued (run : Run env h s) (hnext : next env s a = some s')
    {writes : Writes} {queued : OutboxRow} (hcommit : commitOf env s a = some (.request writes))
    (hqueued : writes.outbox = some queued) :
    queued ∈ s'.db.outbox ∧ Live s' queued.id := by
  have named := run_named run
  have hfresh : queued.id ∉ s.db.outbox.map OutboxRow.id := by
    cases commitOf_commits hcommit with
    | request hcall hpc =>
        exact (run_outboxKeyed run).calls _ _ writes queued hcall (by rw [hpc]; rfl) hqueued
  have older : ∀ message ∈ s'.stream, message.row ≠ queued.id := by
    intro message hmessage heq
    have hknown : ∃ row ∈ s.db.outbox, row.id = message.row := by
      obtain ⟨position, hposition⟩ := List.mem_iff_getElem?.mp hmessage
      cases stream_case hnext hposition with
      | kept hold =>
          obtain ⟨row, hrow, hid, -⟩ := named.stream message (List.mem_of_getElem? hold)
          exact ⟨row, hrow, hid⟩
      | @redelivered message instant hold =>
          obtain ⟨row, hrow, hid, -⟩ := named.stream message (List.mem_of_getElem? hold)
          exact ⟨row, hrow, hid⟩
      | @acked index session outcome message hworker hpc houtcome hhandled hold =>
          obtain ⟨row, hrow, hid, -⟩ := named.stream message (List.mem_of_getElem? hold)
          exact ⟨row, hrow, hid⟩
      | published hpublisher hpc hlast =>
          obtain ⟨row, hrow, hid, -⟩ := named.publishers _ _ hpublisher _
            (by rw [hpc]; exact List.mem_cons_self)
          exact ⟨row, hrow, hid⟩
    obtain ⟨row, hrow, hid⟩ := hknown
    exact hfresh (List.mem_map.mpr ⟨row, hrow, hid.trans heq⟩)
  constructor
  · obtain ⟨events, outbox, audits, hdb⟩ := next_db hnext
    rw [hdb, hcommit, Db.after, outbox_request, hqueued]
    exact List.mem_append_right _ (List.mem_singleton_self queued)
  · refine ⟨fun message hmessage heq => absurd heq (older message hmessage), ?_⟩
    intro index session message hworker hmessage heq
    exact absurd heq (older message (List.mem_of_getElem? hmessage))

theorem ControlPlane.Complete.queued {session : ControlPlane.Session} {eventType : EventType}
    {writes : Writes} (hcomplete : ControlPlane.Complete session eventType writes)
    (hqueues : ControlPlane.queues eventType = true) :
    ∃ queued, writes.outbox = some queued ∧ queued.runId = writes.run.row.id := by
  have houtbox := hcomplete.outbox
  rw [ControlPlane.OutboxWritten, if_pos hqueues] at houtbox
  obtain ⟨queued, hqueued, hrun, -⟩ := houtbox
  exact ⟨queued, hqueued, hrun⟩

theorem Awaited.next (run : Run env h s) (awaited : Awaited s) (hidle : EmptyClaimsIdle s a)
    (hnext : next env s a = some s') : Awaited s' := by
  have sound := run_sound run
  intro id row' hrow' hpending'
  have kept : ∀ row, s.db.run? id = some row → row.state.isPending = true →
      ∃ queued ∈ s'.db.outbox, queued.runId = id ∧ Live s' queued.id := by
    intro row hrow hpending
    obtain ⟨queued, hqueued, rfl, live⟩ := awaited id row hrow hpending
    obtain ⟨later, hlater, hsame⟩ := (next_extends hnext).outbox queued hqueued
    refine ⟨later, hlater, hsame.runId, ?_⟩
    rw [hsame.id]
    refine live.next run hnext hqueued ?_ hrow hrow' hpending'
    intro hempty
    have hsettled := hidle queued.runId hempty row hrow
    rw [hpending] at hsettled
    cases hsettled
  have hstep := row_step sound hnext id
  rw [hrow'] at hstep
  cases hrow : s.db.run? id with
  | none =>
      rw [hrow] at hstep
      cases hstep with
      | created hcommit hcall hpc hwrite hid =>
          obtain ⟨eventType, hcomplete⟩ := sound.complete hcall hpc
          have hopened := hcomplete.opened
          rw [hwrite] at hopened
          obtain ⟨queued, hqueued, hrun⟩ := hcomplete.queued (by rw [hopened.1]; rfl)
          obtain ⟨hmem, live⟩ := live_queued run hnext hcommit hqueued
          exact ⟨queued, hmem, by rw [hrun, hwrite]; exact hid, live⟩
  | some row =>
      rw [hrow] at hstep
      cases hstep with
      | same => exact kept row' hrow hpending'
      | claimed hcommit hworker hpc hid =>
          exact kept _ hrow (sound.claim_state hworker hpc)
      | heartbeat => exact kept _ hrow hpending'
      | paused => cases hpending'
      | completed => cases hpending'
      | @transitioned index choice session writes stored before state approved now hcommit hcall
          hpc hwrite hid =>
          obtain ⟨eventType, hcomplete⟩ := sound.complete hcall hpc
          have hopened := hcomplete.opened
          rw [hwrite] at hopened
          obtain ⟨args, hargs, htype, rfl, -⟩ := hopened
          rcases hargs with rfl | rfl
          · obtain ⟨queued, hqueued, hrun⟩ := hcomplete.queued (by rw [htype]; rfl)
            obtain ⟨hmem, live⟩ := live_queued run hnext hcommit hqueued
            exact ⟨queued, hmem, by rw [hrun, hwrite]; exact hid, live⟩
          · cases hpending'

theorem run_awaited (run : Run env h s) (hidle : Within (fun _ => EmptyClaimsIdle) h) :
    Awaited s := by
  refine run.always_within ?_ ?_ hidle
  · intro s hs id row hrow
    simp [Db.run?, hs.runs] at hrow
  · intro h s a s' run awaited hstep hnext
    exact awaited.next run hstep hnext

/-- A live row triggers its run: it is unpublished, or its message is not acknowledged. -/
theorem Live.triggered (run : Run env h s) {queued : OutboxRow} (live : Live s queued.id)
    (hqueued : queued ∈ s.db.outbox) {id : Uuid} (hrun : queued.runId = id) : Triggered s id := by
  cases hpublished : queued.publishedAt with
  | none => exact .unpublished hqueued hrun hpublished
  | some instant =>
      obtain ⟨message, hmessage, hid⟩ := (run_published run).outbox queued hqueued
        (by rw [hpublished]; rfl)
      refine .unacknowledged hmessage ?_ (live.unacknowledged message hmessage hid)
      rw [Message.Names, (run_named run).run (run_outboxKeyed run) hmessage hqueued hid, hrun]
      exact ofText?_text id

/-- No run is stranded as long as a claim comes back empty only for runs that need no worker. -/
theorem noneStranded_of_emptyClaimsIdle (run : Run env h s)
    (hidle : Within (fun _ => EmptyClaimsIdle) h) : NoneStranded s := by
  intro id row hrow hpending
  obtain ⟨queued, hqueued, hrun, live⟩ := run_awaited run hidle id row hrow hpending
  exact live.triggered run hqueued hrun

end

/-! ## A message acknowledged too early -/

/-- The claim has committed when its worker fails; the message is redelivered a lease later. -/
def redeliveredLate : List Action :=
  Scenario.createActions [Scenario.dataRead] ++ Scenario.publishActions 0 ++
    Scenario.claimActions 0 0 ++ [.workerError 0, .worker 0 .none, .tick 30000001] ++
    Scenario.claimActions 0 1

/-- The same, but the message is redelivered at once. -/
def redeliveredAtOnce : List Action :=
  Scenario.createActions [Scenario.dataRead] ++ Scenario.publishActions 0 ++
    Scenario.claimActions 0 0 ++ [.workerError 0, .worker 0 .none, .deliver 0 "worker"] ++
    Scenario.workerActions 1 4

theorem redeliveredLate_noneStranded : ∃ h t, Run Scenario.env h t ∧
    ((t.db.run? Scenario.runId).any fun row => row.attemptCount = 2) = true ∧
      NoneStranded t := by
  obtain ⟨h, t, run, htest⟩ := Scenario.exists_run 5 redeliveredLate
    (fun h t => ((t.db.run? Scenario.runId).any fun row => row.attemptCount = 2) &&
      h.all fun p => EmptyClaimsIdle p.1 p.2)
    (by decide +kernel)
  simp only [Bool.and_eq_true, List.all_eq_true, decide_eq_true_eq] at htest
  exact ⟨h, t, run, htest.1, noneStranded_of_emptyClaimsIdle run (within_iff.mpr htest.2)⟩

theorem not_noneStranded : ¬∀ env h s, Run env h s → NoneStranded s := by
  intro hall
  obtain ⟨h, t, run, htest⟩ := Scenario.exists_run 5 redeliveredAtOnce
    (fun _ t => ((t.db.run? Scenario.runId).any fun row => row.state.isPending) &&
      (t.db.outbox.all fun row => row.publishedAt.isSome) &&
        (t.stream.all fun message => message.acked) &&
          t.workers.all fun session => session.pc.processing?.isNone)
    (by decide +kernel)
  simp only [Bool.and_eq_true, Option.any_eq_true, List.all_eq_true] at htest
  obtain ⟨⟨⟨⟨row, hrow, hpending⟩, houtbox⟩, hstream⟩, hworkers⟩ := htest
  cases hall Scenario.env h t run Scenario.runId row hrow hpending with
  | unpublished hmem hrun hpublished =>
      have hsome := houtbox _ hmem
      rw [hpublished] at hsome
      cases hsome
  | unacknowledged hmessage hnames hacked =>
      have hack := hstream _ hmessage
      rw [hacked] at hack
      cases hack
  | inProcess hworker hprocessing =>
      have hnone := hworkers _ (List.mem_of_getElem? hworker)
      rw [hprocessing] at hnone
      cases hnone

end DurableRuntime
