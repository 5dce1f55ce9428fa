import DurableRuntime.Faultless
import DurableRuntime.TableConstraints
import DurableRuntime.Waiting
import Mathlib.Data.Fintype.Card
import Mathlib.Data.List.MinMax
import Mathlib.Data.Set.Finite.Basic

/-!
# Quiescence

Every position has a rank, a bound on the moves that its session has left: a
request is through after thirteen moves, a publisher after its batch, a worker
after the steps of its definition.  Whatever the order of their moves, the
sessions come to an end.  Where none can move all of them have ended, or the
marks of some publishers wait for each other until one of them gives up.
-/

namespace DurableRuntime

open DurableRuntime.Foundation

/-! ## Ranks -/

namespace Worker

def Pc.rank (longest : Nat) : Pc → Nat
  | received _ => 6 * longest + 13
  | claimBegin _ => 6 * longest + 12
  | claimSelect _ _ => 6 * longest + 11
  | claimUpdate _ _ _ _ => 6 * longest + 10
  | claimEvents _ _ _ _ => 6 * longest + 9
  | claimCommit _ _ _ run => (Pc.execute run).movesLeft + 3
  | returned .ok => 2
  | returned _ => 1
  | gone => 0
  | pc => pc.movesLeft + 2

end Worker

namespace ControlPlane

def Pc.rank : Pc → Nat
  | route => 13
  | createBegin _ => 12
  | createLookup _ _ => 11
  | createLimits _ _ | readRun _ _ => 10
  | createUsage _ _ _ | transitionBegin _ _ => 9
  | createWorkflow _ _ | transitionLock _ _ _ => 8
  | createInsert _ _ _ | transitionUpdate _ _ _ => 7
  | insertEvent _ _ _ _ | createRaced _ => 6
  | queueOutbox _ _ _ => 5
  | audit _ _ _ | replayEvents _ _ => 4
  | readEvents _ | replayCommit _ _ => 3
  | commit _ _ | discard _ => 2
  | committed _ => 1
  | done _ => 0

end ControlPlane

namespace Outbox

def Session.rank (session : Session) : Nat :=
  match session.pc with
  | .claimBegin => 2 * session.limit + 7
  | .claimSelect => 2 * session.limit + 6
  | .claimUpdate messages => 2 * messages.length + 5
  | .claimCommit messages => 2 * messages.length + 4
  | .publish messages delivered => 2 * messages.length + delivered.length + 3
  | .mark delivered => delivered.length + 2
  | .marking _ _ left => left.length + 1
  | .done _ | .failed => 0

end Outbox

/-- The number of steps that a worker decodes from a stored definition. -/
def DefinitionRow.stepCount (definition : DefinitionRow) : Nat :=
  ((Worker.unmarshalDefinition definition.definition).map fun workflow =>
    workflow.steps.length).getD 0

def Db.longest (db : Db) : Nat := (db.definitions.map DefinitionRow.stepCount).foldr max 0

def State.rank (s : State) : Nat :=
  (s.workers.map fun session => session.pc.rank s.db.longest).sum +
    (s.calls.map fun session => session.pc.rank).sum +
      (s.publishers.map Outbox.Session.rank).sum

/-- A move of a session: a statement, an error, or the crash of a worker that is still there. -/
inductive Moves (s : State) : Action → Prop
  | call (index choice) : Moves s (.call index choice)
  | callError (index) : Moves s (.callError index)
  | publisher (index reply) : Moves s (.publisher index reply)
  | publisherError (index) : Moves s (.publisherError index)
  | worker (index reply) : Moves s (.worker index reply)
  | workerError (index) : Moves s (.workerError index)
  | crash {index session} (hworker : s.workers[index]? = some session)
      (hlive : session.pc ≠ .gone) : Moves s (.crash index)

/-! ## Moves lower the rank -/

theorem ControlPlane.PcMove.rank {env : Env} {s : Shared} {choice : Uuid}
    {session : ControlPlane.Session} {pc pc' : ControlPlane.Pc} {effect : Effect}
    (hmove : ControlPlane.PcMove env s choice session pc pc' effect) : pc'.rank < pc.rank := by
  cases hmove with
  | approve =>
      unfold startTransition
      repeat' split
      all_goals simp [Pc.rank]
  | cancel =>
      unfold startTransition
      repeat' split
      all_goals simp [Pc.rank]
  | readRun =>
      unfold readRunCheck
      repeat' split
      all_goals simp [Pc.rank]
  | _ => simp [Pc.rank, createError]

theorem ControlPlane.Turn.rank {env : Env} {s : Shared} {session moved : ControlPlane.Session}
    {effect : Effect} (hturn : ControlPlane.Turn env s session moved effect) :
    moved.pc.rank < session.pc.rank := by
  cases hturn with
  | error hstatement =>
      generalize session.pc = pc at hstatement
      cases pc <;> first | cases hstatement; done | simp [Pc.rank]
  | move hmove =>
      cases hmove with
      | inner hmove => exact hmove.rank
      | start hpc hrequest hstart =>
          rw [hpc]
          cases startCreate_start hstart with
          | _ => simp [Pc.rank]

theorem Outbox.claimPending_length (s : Shared) (limit : Nat) :
    (claimPending s limit).length ≤ limit := by
  rw [claimPending, List.length_map]
  exact List.length_take_le _ _

theorem Outbox.Turn.rank {s : Shared} {session : Outbox.Session} {pc : Outbox.Pc}
    {effect : Effect} (hturn : Outbox.Turn s session pc effect) :
    Outbox.Session.rank { session with pc } < session.rank := by
  obtain ⟨limit, old⟩ := session
  cases hturn with
  | error hrunning =>
      have hrunning : old.isRunning = true := hrunning
      cases old <;> simp_all [Session.rank, Pc.isRunning]
  | move hmove =>
      generalize hold : (⟨limit, old⟩ : Session).pc = before at hmove
      cases hold
      cases hmove with
      | claimSelect =>
          have := claimPending_length s limit
          simp only [Session.rank]
          omega
      | acked pending messages delivered =>
          simp only [Session.rank, List.length_cons, List.length_append, List.length_nil]
          omega
      | @markRow now delivered left place id hrow =>
          have hless : (left.filter fun other => other ≠ id).length < left.length :=
            List.length_filter_lt_length_iff_exists.mpr ⟨id, List.mem_of_getElem? hrow, by simp⟩
          simp only [Session.rank]
          exact Nat.succ_lt_succ hless
      | _ => simp [Session.rank]

namespace Worker

section

variable {env : Env} {s : Shared} {owner : String} {reply : Reply} {pc pc' : Pc} {effect : Effect}
  {run : LeasedRun}

/-- A move of a worker is one that it could make alone. -/
theorem Move.answered (hmove : Move env s owner reply pc pc' effect) :
    ∃ answer : Answer, step env s owner (answer.reply pc) pc = some (pc', effect) := by
  cases hmove with
  | consume run index handle prompt delivery => exact ⟨⟨0, delivery, .failed, .failed⟩, rfl⟩
  | @providerAnswered _ _ _ _ reply hreply | @providerFailed _ _ _ _ reply hreply =>
      exact ⟨⟨0, .unreachable, reply, .failed⟩, by simp [step, Answer.reply, hreply]⟩
  | @fetched _ _ _ reply hreply | @fetchFailed _ _ _ reply _ hreply =>
      exact ⟨⟨0, .unreachable, .failed, reply⟩, by simp [step, Answer.reply, hreply]⟩
  | @ack _ outcome houtcome =>
      refine ⟨⟨0, .unreachable, .failed, .failed⟩, ?_⟩
      cases outcome <;> first | rfl | exact absurd rfl houtcome
  | terminate run state code after =>
      exact ⟨⟨0, .unreachable, .failed, .failed⟩, step_terminate ..⟩
  | _ => exact ⟨⟨0, .unreachable, .failed, .failed⟩, by simp [step, *]⟩

theorem Move.movesLeft (hmove : Move env s owner reply pc pc' effect)
    (hexecuting : pc.executing? = some run) :
    pc'.movesLeft < pc.movesLeft ∧
      (pc'.executing? = some run ∨ ∃ outcome, pc' = .returned outcome) := by
  obtain ⟨answer, hstep⟩ := hmove.answered
  have hreply : ({ answer with elapsed := 0 } : Answer).reply pc = answer.reply pc := by
    cases pc <;> rfl
  have hwait : wait s 0 = s := by simp [wait]
  have hsolo : soloNext env owner ⟨s, pc⟩ { answer with elapsed := 0 } =
      some ⟨s.apply effect, pc'⟩ := by
    simp [soloNext, hreply, hwait, hstep]
  exact ⟨soloNext_movesLeft hsolo hexecuting, soloNext_executing hsolo hexecuting⟩

theorem rank_executing (hexecuting : pc.executing? = some run) (longest : Nat) :
    pc.rank longest = pc.movesLeft + 2 := by
  cases pc <;> first | rfl | cases hexecuting

theorem Move.rank (hmove : Move env s owner reply pc pc' effect) {longest : Nat}
    (hclaim : ∀ row definition, pc.claiming? = some (row, definition) →
      definition.stepCount ≤ longest) : pc'.rank longest < pc.rank longest := by
  cases hexecuting : pc.executing? with
  | some run =>
      obtain ⟨hless, hnext⟩ := hmove.movesLeft hexecuting
      rw [rank_executing hexecuting]
      rcases hnext with hnext | ⟨outcome, rfl⟩
      · rw [rank_executing hnext]
        omega
      · cases outcome <;> simp only [Pc.rank] <;> omega
  | none =>
      cases hmove with
      | received runId =>
          unfold process
          repeat' split
          all_goals simp [Pc.rank]
      | @claimEvents _ ref now row definition run hdecode =>
          have hcount := hclaim row definition rfl
          have hsteps : definition.stepCount = run.definition.steps.length := by
            simp [DefinitionRow.stepCount, (leasedRun_reads hdecode).2]
          simp only [Pc.rank, Pc.movesLeft]
          omega
      | @ack _ outcome houtcome => cases outcome <;> simp [Pc.rank]
      | _ => first | cases hexecuting; done | simp [Pc.rank]

end

end Worker

theorem Worker.Turn.rank {env : Env} {s : Shared} {session : Worker.Session} {pc : Worker.Pc}
    {effect : Effect} (hturn : Worker.Turn env s session pc effect) {longest : Nat}
    (hlive : session.pc ≠ .gone)
    (hclaim : ∀ row definition, session.pc.claiming? = some (row, definition) →
      definition.stepCount ≤ longest) : pc.rank longest < session.pc.rank longest := by
  cases hturn with
  | error hfail =>
      generalize session.pc = old at hfail
      cases old with
      | returned outcome => cases outcome <;> first | cases hfail; done | simp [Pc.rank]
      | _ => first | cases hfail; done | simp [Pc.rank]
  | crash =>
      generalize session.pc = old at hlive
      cases old with
      | gone => exact absurd rfl hlive
      | returned outcome => cases outcome <;> simp [Pc.rank]
      | _ => simp [Pc.rank]
  | move hmove => exact hmove.rank hclaim

section

variable {env : Env} {s s' t : State} {a : Action} {h k : History State Action}

theorem definitions_kept (hmoves : Moves s a) (hnext : next env s a = some s') :
    s'.db.definitions = s.db.definitions := by
  obtain ⟨events, outbox, audits, hdb⟩ := next_db hnext
  rw [hdb]
  cases hcommit : commitOf env s a with
  | none => rfl
  | some change =>
      cases commitOf_commits hcommit with
      | createWorkflow => cases hmoves
      | @request _ _ _ writes =>
          obtain ⟨write, event, outbox, audit⟩ := writes
          cases write <;> rfl
      | _ => rfl

theorem longest_le {db : Db} {definition : DefinitionRow} (h : definition ∈ db.definitions) :
    definition.stepCount ≤ db.longest :=
  List.le_max_of_le' 0 (List.mem_map_of_mem h) (Nat.le_refl _)

/-- Where a worker has gone, nothing more happens. -/
theorem live_of_moves {index : Nat} {session : Worker.Session} (hmoves : Moves s a)
    (hnext : next env s a = some s') (hactor : actor a = some (.worker index))
    (hworker : s.workers[index]? = some session) : session.pc ≠ .gone := by
  intro hgone
  cases hmoves with
  | crash hlive hpc =>
      cases hactor
      rw [hworker, Option.some.injEq] at hlive
      exact hpc (hlive ▸ hgone)
  | worker index reply =>
      cases hactor
      simp [next, hworker, Worker.step, hgone] at hnext
  | workerError index =>
      cases hactor
      simp [next, hworker, Worker.Pc.mayFail, hgone] at hnext
  | _ => cases hactor

theorem rank_next (run : Run env h s) (hmoves : Moves s a) (hnext : next env s a = some s') :
    s'.rank < s.rank := by
  have hlongest : s'.db.longest = s.db.longest := by
    rw [Db.longest, Db.longest, definitions_kept hmoves hnext]
  have informed := run_informed run
  unfold State.rank
  rw [hlongest]
  cases next_step hnext with
  | tick => cases hmoves
  | createWorkflow => cases hmoves
  | request => cases hmoves
  | publishPending => cases hmoves
  | deliver => cases hmoves
  | call hactor hcommit hcall hturn =>
      have hless := sum_map_set_lt (f := fun session => session.pc.rank) hcall hturn.rank
      simp only [State.moveCall, State.withShared]
      omega
  | @publisher _ index session pc effect hactor hcommit hpublisher hturn =>
      have hless := sum_map_set_lt (f := Outbox.Session.rank) hpublisher hturn.rank
      simp only [State.movePublisher, State.withShared]
      omega
  | @worker _ index session pc effect hactor hcommit hworker hturn =>
      have hlive := live_of_moves hmoves hnext hactor hworker
      have hrank := hturn.rank hlive fun row definition hclaiming =>
        longest_le (Table.lookup_mem
          (informed.claims index session row definition hworker hclaiming))
      have hless := sum_map_set_lt (f := fun session => session.pc.rank s.db.longest)
        (a := { session with pc }) hworker hrank
      simp only [State.moveWorker, State.withShared]
      omega

/-! ## Rest -/

/-- Every session has ended, and no lock is left. -/
structure SystemAtRest (s : State) : Prop where
  workers : ∀ session ∈ s.workers, session.pc = .gone
  calls : ∀ session ∈ s.calls, ∃ response, session.pc = .done response
  publishers : ∀ session ∈ s.publishers, session.pc.isRunning = false
  locks : s.locks = fun _ => none

/-- Every unfinished request can draw a uuid that it may use. -/
def CanDraw (s : State) : Prop :=
  ∀ session ∈ s.calls, (∀ response, session.pc ≠ .done response) →
    ∃ choice, Draws s.toShared session choice

/-- The session has not ended. -/
def State.Active (s : State) : Holder → Prop
  | .worker index => ∃ session, s.workers[index]? = some session ∧ session.pc ≠ .gone
  | .call index =>
      ∃ session, s.calls[index]? = some session ∧ ∀ response, session.pc ≠ .done response
  | .publisher index =>
      ∃ session, s.publishers[index]? = some session ∧ session.pc.isRunning = true
  | .lease _ => False

/-- The next statement of a session, not an error or a crash. -/
inductive Advances : Action → Prop
  | call (index choice) : Advances (.call index choice)
  | publisher (index reply) : Advances (.publisher index reply)
  | worker (index reply) : Advances (.worker index reply)

theorem Advances.moves (h : Advances a) : Moves s a := by
  cases h with
  | call => exact .call _ _
  | publisher => exact .publisher _ _
  | worker => exact .worker _ _

theorem active_of_held {me : Holder} {x : Resource} (h : x ∈ s.held me) : s.Active me := by
  cases me with
  | worker index =>
      cases hworker : s.workers[index]? with
      | none => simp [State.held, hworker] at h
      | some session =>
          simp only [State.held, hworker, Option.map_some, Option.getD_some] at h
          refine ⟨session, hworker, ?_⟩
          intro hgone
          simp [hgone, Worker.Pc.held, Worker.Pc.lockedRow?] at h
  | call index =>
      cases hcall : s.calls[index]? with
      | none => simp [State.held, hcall] at h
      | some session =>
          simp only [State.held, hcall, Option.map_some, Option.getD_some] at h
          refine ⟨session, hcall, ?_⟩
          intro response hdone
          simp [ControlPlane.Session.held, hdone, ControlPlane.Pc.held,
            ControlPlane.Pc.limitsLocked, ControlPlane.Pc.writes?] at h
  | publisher index =>
      cases hpublisher : s.publishers[index]? with
      | none => simp [State.held, hpublisher] at h
      | some session =>
          simp only [State.held, hpublisher, Option.map_some, Option.getD_some] at h
          refine ⟨session, hpublisher, ?_⟩
          cases hpc : session.pc <;> simp_all [Outbox.Pc.held, Outbox.Pc.isRunning]
  | lease => cases h

/-- A session that has not ended can go on, or waits for one that has not ended either. -/
theorem advances_or_waits (run : Run env h s) (hdraw : CanDraw s) {me : Holder}
    (hactive : s.Active me) :
    (∃ a, Advances a ∧ (next env s a).isSome = true) ∨ ∃ you, WaitsFor s me you ∧ s.Active you := by
  have free := deadlockFree run
  have behind : (∃ you, WaitsFor s me you) → ∃ you, WaitsFor s me you ∧ s.Active you := by
    rintro ⟨you, x, hwants, hlock⟩
    exact ⟨you, ⟨x, hwants, hlock⟩, active_of_held (run_locksOwned run x you hlock)⟩
  cases me with
  | worker index =>
      obtain ⟨session, hworker, hlive⟩ := hactive
      rcases free.workers index session hworker hlive with ⟨reply, hsome⟩ | hwaits
      · exact .inl ⟨_, .worker index reply, hsome⟩
      · exact .inr (behind hwaits)
  | call index =>
      obtain ⟨session, hcall, hlive⟩ := hactive
      obtain ⟨choice, hdraws⟩ := hdraw session (List.mem_of_getElem? hcall) hlive
      rcases free.calls index session choice hcall hlive hdraws with hsome | hwaits
      · exact .inl ⟨_, .call index choice, hsome⟩
      · exact .inr (behind hwaits)
  | publisher index =>
      obtain ⟨session, hpublisher, hlive⟩ := hactive
      rcases free.publishers index session hpublisher hlive with ⟨reply, hsome⟩ | hwaits
      · exact .inl ⟨_, .publisher index reply, hsome⟩
      · exact .inr (behind hwaits)
  | lease => cases hactive

/-- The sessions that have not ended are finitely many. -/
theorem finite_active (s : State) : Set.Finite {me | s.Active me} := by
  have bounded : ∀ (f : Nat → Holder) (n : Nat), Set.Finite (f '' {index | index < n}) :=
    fun f n => (Set.finite_lt_nat n).image f
  refine ((bounded .worker s.workers.length).union ((bounded .call s.calls.length).union
    (bounded .publisher s.publishers.length))).subset ?_
  intro me hactive
  cases me with
  | worker index =>
      obtain ⟨session, hworker, -⟩ := hactive
      exact .inl ⟨index, (List.getElem?_eq_some_iff.mp hworker).1, rfl⟩
  | call index =>
      obtain ⟨session, hcall, -⟩ := hactive
      exact .inr (.inl ⟨index, (List.getElem?_eq_some_iff.mp hcall).1, rfl⟩)
  | publisher index =>
      obtain ⟨session, hpublisher, -⟩ := hactive
      exact .inr (.inr ⟨index, (List.getElem?_eq_some_iff.mp hpublisher).1, rfl⟩)
  | lease => exact hactive.elim

/-- A circle of waiting sessions, which PostgreSQL breaks with an error in one of them. -/
def Circle (s : State) (index : Nat) : Prop :=
  Relation.TransGen (WaitsFor s) (.publisher index) (.publisher index)

theorem circle_of_waits (run : Run env h s) {me : Holder}
    (hcircle : Relation.TransGen (WaitsFor s) me me) : ∃ index, Circle s index ∧
      (next env s (.publisherError index)).isSome = true := by
  obtain ⟨you, hwaits, hback⟩ := Relation.TransGen.head'_iff.mp hcircle
  obtain ⟨-, id, hmarks, -⟩ := (deadlockFree run).circles me you hwaits hback
  cases me with
  | publisher index =>
      refine ⟨index, hcircle, ?_⟩
      cases hpublisher : s.publishers[index]? with
      | none => simp [State.marks, hpublisher] at hmarks
      | some session =>
          have hrunning : session.pc.isRunning = true := by
            cases hpc : session.pc <;>
              simp_all [State.marks, Outbox.Pc.marks, Outbox.Pc.isRunning]
          simp [next, hpublisher, hrunning]
  | _ => cases hmarks

/-- While some session has not ended, some session can go on, or a circle has closed. -/
theorem advances_of_active (run : Run env h s) (hdraw : CanDraw s) {me : Holder}
    (hactive : s.Active me) :
    (∃ a, Advances a ∧ (next env s a).isSome = true) ∨
      ∃ index, Circle s index ∧ (next env s (.publisherError index)).isSome = true := by
  by_contra hstuck
  rw [not_or] at hstuck
  -- Without a circle, waiting is well-founded, and whoever waits for nobody can go on.
  let behind (you me : {me // s.Active me}) : Prop := Relation.TransGen (WaitsFor s) me.1 you.1
  have : Finite {me // s.Active me} := (finite_active s).to_subtype
  have : IsTrans _ behind := ⟨fun _ _ _ hab hbc => hbc.trans hab⟩
  have : Std.Irrefl behind := ⟨fun me hcircle => hstuck.2 (circle_of_waits run hcircle)⟩
  obtain ⟨last, -, hlast⟩ := (Finite.wellFounded_of_trans_of_irrefl behind).has_min Set.univ
    ⟨⟨me, hactive⟩, trivial⟩
  rcases advances_or_waits run hdraw last.2 with hadvances | ⟨you, hwaits, hyou⟩
  · exact hstuck.1 hadvances
  · exact hlast ⟨you, hyou⟩ trivial (.single hwaits)

theorem atRest_of_inactive (owned : LocksOwned s) (hnone : ∀ me, ¬s.Active me) :
    SystemAtRest s := by
  constructor
  · intro session hmem
    obtain ⟨index, hworker⟩ := List.getElem?_of_mem hmem
    by_contra hlive
    exact hnone (.worker index) ⟨session, hworker, hlive⟩
  · intro session hmem
    obtain ⟨index, hcall⟩ := List.getElem?_of_mem hmem
    by_contra hlive
    exact hnone (.call index) ⟨session, hcall, not_exists.mp hlive⟩
  · intro session hmem
    obtain ⟨index, hpublisher⟩ := List.getElem?_of_mem hmem
    rw [← Bool.not_eq_true]
    exact fun hlive => hnone (.publisher index) ⟨session, hpublisher, hlive⟩
  · funext x
    cases hlock : s.locks x with
    | none => rfl
    | some me => exact absurd (active_of_held (owned x me hlock)) (hnone me)

/-! ## The system comes to rest -/

/-- The moves of the sessions that have started, in any order, without a new one. -/
abbrev MovesTo (env : Env) (s : State) (k : History State Action) (t : State) : Prop :=
  Exec (fun u => u = s) (next env) k t ∧ ∀ p ∈ k, Moves p.1 p.2

structure ComesToRest (env : Env) (s : State) : Prop where
  bounded : ∀ k t, MovesTo env s k t → k.length + t.rank ≤ s.rank
  goesOn : ∀ k t, MovesTo env s k t → CanDraw t → ¬SystemAtRest t →
    (∃ a, Advances a ∧ (next env t a).isSome = true) ∨
      ∃ index, Circle t index ∧ (next env t (.publisherError index)).isSome = true

/--
From a reachable state on, whatever the order in which the sessions move, fail
or crash, they make at most so many moves as the rank of the state says.  As
long as they are not at rest, with every session ended and every lock released,
some session can make its next move, or the marks of publishers wait for each
other in a circle and the error of one of them is the next move.
-/
theorem comesToRest (run : Run env h s) : ComesToRest env s := by
  constructor
  · intro k t hmoves
    exact Exec.length_le State.rank rank_next run hmoves.1 hmoves.2
  · intro k t hmoves hdraw hbusy
    have run' := run.append hmoves.1
    by_contra hstuck
    refine hbusy (atRest_of_inactive (run_locksOwned run') fun me hactive => ?_)
    exact hstuck (advances_of_active run' hdraw hactive)

theorem canDraw_of_routes (choice : Uuid) (hroutes : ∀ session ∈ s.calls,
    session.pc.rank = 0 ∨ (session.pc = .route ∧
      ControlPlane.freshHandle s.toShared choice = true)) : CanDraw s := by
  intro session hmem hlive
  rcases hroutes session hmem with hrank | ⟨hpc, hfresh⟩
  · cases hpc : session.pc with
    | done response => exact absurd hpc (hlive response)
    | _ => simp [hpc, ControlPlane.Pc.rank] at hrank
  · exact ⟨choice, hfresh, by simp [hpc]⟩

end

/-- A worker has claimed a run, and another request to create it has arrived. -/
def busy : List Action :=
  Scenario.createActions [Scenario.dataRead] ++ .call 0 0 :: Scenario.publishActions 0 ++
    Scenario.claimActions 0 0 ++ [Scenario.createRun]

theorem busy_comesToRest : ∃ h s, Run Scenario.env h s ∧ s.rank = 26 ∧ CanDraw s ∧
    ComesToRest Scenario.env s := by
  obtain ⟨h, s, run, htest⟩ := Scenario.exists_run 5 busy
    (fun _ s => s.rank = 26 && s.calls.all fun session => session.pc.rank = 0 ||
      (session.pc.rank = 13 && ControlPlane.freshHandle s.toShared 9)) (by decide +kernel)
  simp only [Bool.and_eq_true, Bool.or_eq_true, decide_eq_true_eq, List.all_eq_true] at htest
  refine ⟨h, s, run, htest.1, canDraw_of_routes 9 fun session hmem => ?_, comesToRest run⟩
  refine (htest.2 session hmem).imp_right fun hroute => ⟨?_, hroute.2⟩
  cases hpc : session.pc <;> simp_all [ControlPlane.Pc.rank]

end DurableRuntime
