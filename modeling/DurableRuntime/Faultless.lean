import DurableRuntime.Delivery
import DurableRuntime.Foundation.Continuations
import DurableRuntime.TimelyWorkers
import DurableRuntime.Worker.Solo

/-!
# Faultless operation

From some state on no session fails, JetStream stores what is published, and no
request comes in any more.  A worker that has a run to work on then brings it to
its end, to an approval, or to a step that fails, however its external calls are
answered; so does one that is still inside its claim.
-/

namespace DurableRuntime

open DurableRuntime.Foundation

/-- The answers to external calls, the batch size of the publisher, and the worker process. -/
structure Operation where
  answers : State → Nat → Worker.Answer
  limit : Nat
  workerId : String
  limit_pos : 0 < limit

/-- JetStream stores what is published, and says so. -/
def Outbox.Reply.isFaultless : Outbox.Reply → Bool
  | .failed | .ackLost => false
  | _ => true

inductive Faultless (op : Operation) (s : State) : Action → Prop
  | tick (elapsed) : Faultless op s (.tick elapsed)
  | call (index choice) : Faultless op s (.call index choice)
  | publishPending : Faultless op s (.publishPending op.limit)
  | publisher (index) {reply} (hreply : reply.isFaultless = true) :
      Faultless op s (.publisher index reply)
  | deliver (message) : Faultless op s (.deliver message op.workerId)
  | worker {index session} (hworker : s.workers[index]? = some session) :
      Faultless op s (.worker index ((op.answers s index).reply session.pc))

/--
The run has ended or waits for an approval, or its worker is about to record a
failure, which the database refuses.
-/
inductive Settled (id : Uuid) (s : State) : Prop
  | row {row} (hrow : s.db.run? id = some row) (hpending : row.state.isPending = false)
  | refused {index : Nat} {session : Worker.Session} {run state code after}
      (hworker : s.workers[index]? = some session)
      (hpc : session.pc = .terminate run state code after) (hid : run.ref.id = id)

/-- A reachable state with the run in it; the input of the run is one that a worker decodes. -/
structure Stored (env : Env) (id : Uuid) (s : State) : Prop where
  reachable : ∃ h, Run env h s
  decodable : ∃ row, s.db.run? id = some row ∧ (Worker.unmarshalInput row.input).isSome = true

def RunFree (id : Uuid) (s : State) : Prop := s.locks (.run id) = none

/-- Nobody has the run locked, and some worker works on it. -/
structure Working (env : Env) (id : Uuid) (s : State) : Prop where
  stored : Stored env id s
  free : RunFree id s
  works : ∃ (index : Nat) (session : Worker.Session), s.workers[index]? = some session ∧
    session.Works id

section

variable {env : Env} {op : Operation} {id : Uuid} {s s' : State} {a : Action}
  {Q : State → Prop}

theorem Stored.next (stored : Stored env id s) (hnext : next env s a = some s') :
    Stored env id s' := by
  obtain ⟨h, run⟩ := stored.reachable
  obtain ⟨row, hrow, hinput⟩ := stored.decodable
  obtain ⟨row', hrow', hsame⟩ := (next_extends hnext).runs id row hrow
  exact ⟨⟨_, run.step hnext⟩, row', hrow', by rwa [hsame.input]⟩

theorem Stored.settled_or (stored : Stored env id s) :
    Settled id s ∨ ∃ row, s.db.run? id = some row ∧ row.state.isPending = true ∧
      (Worker.unmarshalInput row.input).isSome = true := by
  obtain ⟨row, hrow, hinput⟩ := stored.decodable
  cases hpending : row.state.isPending with
  | false => exact .inl (.row hrow hpending)
  | true => exact .inr ⟨row, hrow, hpending, hinput⟩

/-! ## One move of one session -/

theorem worker_leads (stored : Stored env id s) {index : Nat} {session : Worker.Session}
    {pc : Worker.Pc} {effect : Effect} (hworker : s.workers[index]? = some session)
    (hstep : Worker.step env s.toShared session.id ((op.answers s index).reply session.pc)
      session.pc = some (pc, effect))
    (hrest : Stored env id (s.moveWorker index session pc effect) →
      Leads (next env) (Faultless op) Q (s.moveWorker index session pc effect)) :
    Leads (next env) (Faultless op) Q s := by
  have hnext : next env s (.worker index ((op.answers s index).reply session.pc)) =
      some (s.moveWorker index session pc effect) := by
    simp [next, hworker, hstep]
  exact .step (.worker hworker) hnext (hrest (stored.next hnext))

theorem moveWorker_worker {index : Nat} {session : Worker.Session}
    (hworker : s.workers[index]? = some session) (pc : Worker.Pc) (effect : Effect) :
    (s.moveWorker index session pc effect).workers[index]? = some { session with pc } :=
  List.getElem?_set_self (List.getElem?_eq_some_iff.mp hworker).1

/-- A session that leaves a run unlocked does not lock it for another. -/
theorem regrant_free {me : Holder} {held : List Resource} {locks : Resource → Option Holder}
    {x : Resource} (hheld : x ∉ held) (hlock : locks x = none ∨ locks x = some me) :
    regrant me held locks x = none := by
  unfold regrant
  rw [if_neg hheld]
  rcases hlock with hlock | hlock <;> simp [hlock]

/-! ## A worker that has a run -/

namespace Worker

variable {s : Shared} {owner : String} {reply : Reply} {pc pc' : Pc} {effect : Effect}
  {run : LeasedRun}

theorem answered_isSome (hexecuting : pc.executing? = some run)
    (hfree : s.free (.run run.ref.id) = true) (answer : Answer) :
    (step env s owner (answer.reply pc) pc).isSome = true := by
  cases pc with
  | provider run index credential prompt =>
      simp only [step, Answer.reply]
      cases callOpenAICompatible env answer.provider <;> rfl
  | fetch run index target =>
      simp only [step, Answer.reply]
      cases fetchFailure env answer.fetch <;> rfl
  | effect run index =>
      cases hexecuting
      simp only [step, hfree, if_true]
      split <;> rfl
  | received => cases hexecuting
  | claimBegin => cases hexecuting
  | claimSelect => cases hexecuting
  | claimUpdate => cases hexecuting
  | claimEvents => cases hexecuting
  | claimCommit => cases hexecuting
  | returned => cases hexecuting
  | gone => cases hexecuting
  | terminate run state code after =>
      rw [step_terminate]
      rfl
  | _ =>
      cases hexecuting
      simp [step, hfree, Answer.reply]

/-- The bound on the moves that are left also holds among other sessions. -/
theorem step_movesLeft {answer : Answer} (hexecuting : pc.executing? = some run)
    (hstep : step env s owner (answer.reply pc) pc = some (pc', effect)) :
    pc'.movesLeft < pc.movesLeft := by
  have hreply : ({ answer with elapsed := 0 } : Answer).reply pc = answer.reply pc := by
    cases pc <;> rfl
  have hwait : wait s 0 = s := by simp [wait]
  refine @soloNext_movesLeft env owner ⟨s, pc⟩ ⟨s.apply effect, pc'⟩
    { answer with elapsed := 0 } run ?_ hexecuting
  simp [soloNext, hreply, hwait, hstep]

/-- A working session goes on with the run, or its commit settles it, unless a step fails. -/
theorem Move.working (hmove : Move env s owner reply pc pc' effect)
    (hnot : ∀ run state code after, pc ≠ .terminate run state code after)
    (h : pc.working? = some run) :
    pc'.working? = some run ∨ ∃ change, effect.commit? = some change ∧
      ∀ row, ∃ row', change.rowAfter run.ref.id (some row) = some row' ∧
        row'.state.isPending = false := by
  have hexecuting := executing_of_working h
  cases hmove with
  | execute run =>
      refine .inl ?_
      rw [working_of_branch (execute_branch run), execute_executing]
      exact h
  | loop run index =>
      refine .inl ?_
      rw [working_of_branch (loop_branch env run index), loop_executing]
      exact h
  | consume run index handle prompt delivery =>
      refine .inl ?_
      rw [working_of_branch (withCredential_branch env run index prompt _),
        withCredential_executing]
      exact h
  | @record _ run index kind status safeLabel => cases status <;> exact .inl h
  | awaitApproval =>
      cases hexecuting
      exact .inr ⟨_, rfl, fun row => ⟨_, if_pos rfl, rfl⟩⟩
  | complete =>
      cases hexecuting
      exact .inr ⟨_, rfl, fun row => ⟨_, if_pos rfl, rfl⟩⟩
  | terminate run state code after => exact absurd rfl (hnot run state code after)
  | event run eventType detail after => cases after <;> exact .inl h
  | @eventCommit _ run row after => cases after <;> exact .inl h
  | received => cases hexecuting
  | claimBegin => cases hexecuting
  | claimEmpty => cases hexecuting
  | claimFound => cases hexecuting
  | claimUpdate => cases hexecuting
  | claimEvents => cases hexecuting
  | claimUndecodable => cases hexecuting
  | claimCommit => cases hexecuting
  | nak => cases hexecuting
  | ack => cases hexecuting
  | _ => exact .inl h

end Worker

/-- A worker on the run settles it, however its external calls are answered. -/
theorem Working.settles (working : Working env id s) :
    Leads (next env) (Faultless op) (Settled id) s := by
  obtain ⟨stored, free, index, session, hworker, hworks⟩ := working
  let left (t : State) : Nat := ((t.workers[index]?).map fun other => other.pc.movesLeft).getD 0
  refine Leads.of_decreasing (P := fun t => Stored env id t ∧ RunFree id t ∧
    ∃ other : Worker.Session, t.workers[index]? = some other ∧ other.Works id) left ?_
    ⟨stored, free, session, hworker, hworks⟩
  rintro t ⟨stored, free, session, hworker, run, hworking, rfl⟩
  have hexecuting := Worker.executing_of_working hworking
  by_cases hfails : ∃ run state code after, session.pc = .terminate run state code after
  · obtain ⟨run', state, code, after, hpc⟩ := hfails
    rw [hpc] at hexecuting
    cases hexecuting
    exact .here (.inl (.refused hworker hpc rfl))
  simp only [not_exists] at hfails
  have hfree : t.free (.run run.ref.id) = true := by
    rw [Shared.free, free]
    rfl
  obtain ⟨⟨pc, effect⟩, hstep⟩ := Option.isSome_iff_exists.mp
    (@Worker.answered_isSome env t.toShared session.id _ _ hexecuting hfree (op.answers t index))
  refine worker_leads stored hworker hstep fun stored' => .here ?_
  rcases (Worker.step_move hstep).working hfails hworking with hworking' | ⟨change, heffect, hset⟩
  · refine .inr ⟨⟨stored', ?_, _, moveWorker_worker hworker pc effect, run, hworking', rfl⟩, ?_⟩
    · have hheld := Worker.held_of_executing (Worker.executing_of_working hworking')
      refine regrant_free ?_ (.inl free)
      rw [hheld]
      exact List.not_mem_nil
    · have hless := Worker.step_movesLeft hexecuting hstep
      simpa only [left, moveWorker_worker hworker, hworker, Option.map_some, Option.getD_some]
        using hless
  · refine .inl ?_
    obtain ⟨row, hrow, -⟩ := stored.decodable
    obtain ⟨row', hrow', hpending⟩ := hset row
    refine @Settled.row _ _ row' ?_ hpending
    cases effect with
    | commit other =>
        cases heffect
        exact (run?_commit _ _ _).trans (hrow ▸ hrow')
    | _ => cases heffect

/-! ## A worker inside its claim -/

theorem claimCommit_leads (stored : Stored env id s) {index : Nat} {session : Worker.Session}
    {now : Int} {row : RunRow} {events : List EventRow} {run : Worker.LeasedRun}
    (hworker : s.workers[index]? = some session)
    (hpc : session.pc = .claimCommit now row events run) (hid : row.id = id) :
    Leads (next env) (Faultless op) (Working env id) s := by
  obtain ⟨h, past⟩ := stored.reachable
  have sound := run_sound past
  have hshape := sound.shaped.workers index session hworker
  rw [hpc] at hshape
  have hrow : session.pc.lockedRow? = some row := by rw [hpc]; rfl
  have hlock := sound.locked.worker_row hworker hrow
  refine worker_leads stored hworker (by rw [hpc]; rfl) fun stored' => .here ?_
  refine ⟨stored', ?_, index, _, moveWorker_worker hworker _ _, run, rfl, ?_⟩
  · exact regrant_free List.not_mem_nil (.inr (hid ▸ hlock))
  · rw [← hshape.1.id, hid]

theorem claimEvents_leads (stored : Stored env id s) {index : Nat} {session : Worker.Session}
    {ref : Worker.RunRef} {now : Int} {row : RunRow} {definition : DefinitionRow}
    (hworker : s.workers[index]? = some session)
    (hpc : session.pc = .claimEvents ref now row definition) (hid : row.id = id) :
    Leads (next env) (Faultless op) (Working env id) s := by
  obtain ⟨h, past⟩ := stored.reachable
  have informed := run_informed past
  have hrow := (run_sound past).snapshots.workers index session row hworker (by rw [hpc]; rfl)
  have hdefinition := informed.claims index session row definition hworker (by rw [hpc]; rfl)
  obtain ⟨workflow, -, hjson⟩ := informed.definitions definition (Table.lookup_mem hdefinition)
  obtain ⟨stored', hstored, hinput⟩ := stored.decodable
  rw [← hid, hrow, Option.some.injEq] at hstored
  subst hstored
  obtain ⟨input, hinput⟩ := Option.isSome_iff_exists.mp hinput
  have hdecode : ∃ run, Worker.leasedRun ref row definition = some run := by
    simp [Worker.leasedRun, hjson, Worker.unmarshalDefinition_toJson, hinput]
  obtain ⟨run, hdecode⟩ := hdecode
  refine worker_leads stored hworker (by rw [hpc]; simp only [Worker.step, hdecode]; rfl)
    fun stored' => ?_
  exact claimCommit_leads stored' (moveWorker_worker hworker _ _) rfl hid

/-- A worker that has locked the run in its claim goes on to work on it. -/
theorem locked_leads (stored : Stored env id s) {index : Nat} {session : Worker.Session}
    {row : RunRow} (hworker : s.workers[index]? = some session)
    (hlocked : session.pc.lockedRow? = some row) (hid : row.id = id) :
    Leads (next env) (Faultless op) (Working env id) s := by
  cases hpc : session.pc with
  | claimCommit now row' events run =>
      rw [hpc] at hlocked
      cases hlocked
      exact claimCommit_leads stored hworker hpc hid
  | claimEvents ref now row' definition =>
      rw [hpc] at hlocked
      cases hlocked
      exact claimEvents_leads stored hworker hpc hid
  | claimUpdate ref now row' definition =>
      rw [hpc] at hlocked
      cases hlocked
      refine worker_leads stored hworker (by rw [hpc]; rfl) fun stored' => ?_
      exact claimEvents_leads stored' (moveWorker_worker hworker _ _) rfl hid
  | _ =>
      rw [hpc] at hlocked
      cases hlocked

end

end DurableRuntime
