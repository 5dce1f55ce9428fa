import DurableRuntime.Foundation.History
import DurableRuntime.Shapes

/-!
# A worker that runs alone

One execution of a claimed run without any other session: nothing is locked, no
statement fails, and every external call is answered in some way.  Such an
execution never waits, and every move brings its return nearer.
-/

namespace DurableRuntime.Worker

open DurableRuntime.Foundation

structure Solo where
  shared : Shared
  pc : Pc

/-- The time that passes before a move, and how an external call is answered if it makes one. -/
structure Answer where
  elapsed : Nat
  delivery : Delivery
  provider : ProviderReply
  fetch : FetchReply

def Answer.reply (answer : Answer) : Pc → Reply
  | .consume _ _ _ _ => .consume answer.delivery
  | .provider _ _ _ _ => .provider answer.provider
  | .fetch _ _ _ => .fetch answer.fetch
  | _ => .none

def wait (s : Shared) (elapsed : Nat) : Shared := { s with clock := s.clock + elapsed }

def soloNext (env : Env) (owner : String) (t : Solo) (answer : Answer) : Option Solo :=
  match step env (wait t.shared answer.elapsed) owner (answer.reply t.pc) t.pc with
  | none => none
  | some (pc, effect) => some ⟨(wait t.shared answer.elapsed).apply effect, pc⟩

/-- The state in which `claim` leaves a run to a worker that runs alone. -/
structure Leased (run : LeasedRun) (s : Shared) : Prop where
  unlocked : s.locks = fun _ => none
  row : ∃ row, s.db.run? run.ref.id = some row ∧ row.state = .running ∧
    row.currentStep = run.currentStep

/-- The executions of a leased run from `execute` on. -/
abbrev SoloRun (env : Env) (owner : String) (run : LeasedRun) (s : Shared) :
    History Solo Answer → Solo → Prop :=
  Exec (fun t => t = ⟨s, .execute run⟩) (soloNext env owner)

section

variable {env : Env} {owner : String} {t t' : Solo} {answer : Answer} {run : LeasedRun}

theorem soloNext_move (h : soloNext env owner t answer = some t') :
    ∃ effect, Move env (wait t.shared answer.elapsed) owner (answer.reply t.pc) t.pc t'.pc effect ∧
      t'.shared = (wait t.shared answer.elapsed).apply effect := by
  unfold soloNext at h
  split at h
  · cases h
  · rename_i pc effect hstep
    cases h
    exact ⟨effect, step_move hstep, rfl⟩

theorem apply_locks (s : Shared) (effect : Effect) : (s.apply effect).locks = s.locks := by
  cases effect <;> rfl

theorem soloNext_unlocked (h : soloNext env owner t answer = some t')
    (hlocks : t.shared.locks = fun _ => none) : t'.shared.locks = fun _ => none := by
  obtain ⟨effect, -, hshared⟩ := soloNext_move h
  rw [hshared, apply_locks]
  exact hlocks

/-- An execution goes on until it returns: nil, or the error of a refused update. -/
theorem soloNext_executing (h : soloNext env owner t answer = some t')
    (hexecuting : t.pc.executing? = some run) :
    t'.pc.executing? = some run ∨ ∃ outcome, t'.pc = .returned outcome := by
  obtain ⟨effect, hmove, -⟩ := soloNext_move h
  generalize t.pc = old at hmove hexecuting
  generalize t'.pc = new at hmove ⊢
  generalize answer.reply old = reply at hmove
  cases hmove with
  | execute run =>
      rw [execute_executing]
      exact .inl hexecuting
  | loop run index =>
      rw [loop_executing]
      exact .inl hexecuting
  | consume run index handle prompt delivery =>
      rw [withCredential_executing]
      exact .inl hexecuting
  | @record _ run index kind status safeLabel hfree => cases status <;> exact .inl hexecuting
  | @eventCommit _ run row after hfree =>
      cases after with
      | ret => exact .inr ⟨.ok, rfl⟩
      | advance index => exact .inl hexecuting
  | terminate => exact .inr ⟨.error, rfl⟩
  | claimCommit => cases hexecuting
  | received => cases hexecuting
  | claimBegin => cases hexecuting
  | claimEmpty => cases hexecuting
  | claimFound => cases hexecuting
  | claimUpdate => cases hexecuting
  | claimEvents => cases hexecuting
  | claimUndecodable => cases hexecuting
  | nak => cases hexecuting
  | ack => cases hexecuting
  | _ => exact .inl hexecuting

/-- Nothing that an executing worker does can wait while nothing is locked. -/
theorem soloNext_isSome (hlocks : t.shared.locks = fun _ => none)
    (hexecuting : t.pc.executing? = some run) (answer : Answer) :
    ∃ t', soloNext env owner t answer = some t' := by
  have hfree : ∀ id, (wait t.shared answer.elapsed).free (.run id) = true := by
    intro id
    simp [Shared.free, wait, hlocks]
  unfold soloNext
  generalize t.pc = pc at hexecuting
  cases pc with
  | provider run index credential prompt =>
      simp only [step, Answer.reply]
      cases callOpenAICompatible env answer.provider <;> exact ⟨_, rfl⟩
  | fetch run index target =>
      simp only [step, Answer.reply]
      cases fetchFailure env answer.fetch <;> exact ⟨_, rfl⟩
  | effect run index =>
      simp only [step, hfree, if_true]
      generalize Option.isSome _ = found
      cases found <;> exact ⟨_, rfl⟩
  | received => cases hexecuting
  | claimBegin => cases hexecuting
  | claimSelect => cases hexecuting
  | claimUpdate => cases hexecuting
  | claimEvents => cases hexecuting
  | claimCommit => cases hexecuting
  | returned => cases hexecuting
  | gone => cases hexecuting
  | terminate run state code after =>
      rw [step_terminate]
      exact ⟨_, rfl⟩
  | _ =>
      simp only [step, hfree, if_true, Answer.reply]
      exact ⟨_, rfl⟩

/-! ## Return -/

/-- A bound on the moves that are left at a position. -/
def Pc.movesLeft : Pc → Nat
  | execute run => 6 * (run.definition.steps.length - run.currentStep) + 5
  | loop run index => 6 * (run.definition.steps.length - index) + 4
  | consume run index _ _ => 6 * (run.definition.steps.length - (index + 1)) + 9
  | provider run index _ _ | fetch run index _ | effect run index =>
      6 * (run.definition.steps.length - (index + 1)) + 8
  | record run index _ .succeeded _ => 6 * (run.definition.steps.length - (index + 1)) + 7
  | record _ _ _ .awaitingApproval _ => 4
  | heartbeat run index => 6 * (run.definition.steps.length - (index + 1)) + 6
  | heartbeatUpdate run index _ => 6 * (run.definition.steps.length - (index + 1)) + 5
  | event run _ _ (.advance index) => 6 * (run.definition.steps.length - (index + 1)) + 8
  | eventCommit run _ (.advance index) => 6 * (run.definition.steps.length - (index + 1)) + 7
  | complete _ | awaitApproval _ _ => 3
  | event _ _ _ .ret => 2
  | eventCommit _ _ .ret | terminate _ _ _ _ => 1
  | _ => 0

theorem movesLeft_withCredential (env : Env) (run : LeasedRun) (index : Nat) (prompt : String)
    (credential : Option String) :
    (withCredential env run index prompt credential).movesLeft ≤
      6 * (run.definition.steps.length - (index + 1)) + 8 := by
  unfold withCredential
  repeat' split
  all_goals simp only [uncertain, Pc.movesLeft]; omega

theorem movesLeft_executeStep (env : Env) (run : LeasedRun) (index : Nat) (current : Step) :
    (executeStep env run index current).movesLeft ≤
      6 * (run.definition.steps.length - (index + 1)) + 9 := by
  unfold executeStep executeTool executeProviderModel
  repeat' split
  all_goals simp only [fail, uncertain, recordStep, awaitApproval, Pc.movesLeft]; omega

theorem movesLeft_loop (env : Env) (run : LeasedRun) (index : Nat) :
    (loop env run index).movesLeft < (Pc.loop run index).movesLeft := by
  unfold loop
  split
  · simp only [Pc.movesLeft]
    omega
  · rename_i raw hraw
    have hindex := (List.getElem?_eq_some_iff.mp hraw).1
    split
    · simp only [fail, Pc.movesLeft]
      omega
    · rename_i current hcurrent
      have hle := movesLeft_executeStep env run index current
      have hloop : (Pc.loop run index).movesLeft =
          6 * (run.definition.steps.length - index) + 4 := rfl
      omega

theorem soloNext_movesLeft (h : soloNext env owner t answer = some t')
    (hexecuting : t.pc.executing? = some run) : t'.pc.movesLeft < t.pc.movesLeft := by
  obtain ⟨effect, hmove, -⟩ := soloNext_move h
  generalize t.pc = old at hmove hexecuting ⊢
  generalize t'.pc = new at hmove ⊢
  generalize answer.reply old = reply at hmove
  cases hmove with
  | execute run =>
      unfold execute
      split
      · simp only [Pc.movesLeft]
        omega
      · simp only [fail, Pc.movesLeft]
        omega
  | loop run index => exact movesLeft_loop env run index
  | consume run index handle prompt delivery =>
      have hle := movesLeft_withCredential env run index prompt
        (consumeCredential env (wait t.shared answer.elapsed) handle delivery).1
      have hconsume : (Pc.consume run index handle prompt).movesLeft =
          6 * (run.definition.steps.length - (index + 1)) + 9 := rfl
      omega
  | @record _ run index kind status safeLabel hfree =>
      cases status <;> simp only [afterRecord, Pc.movesLeft] <;> omega
  | event run eventType detail after => cases after <;> simp only [Pc.movesLeft] <;> omega
  | @eventCommit _ run row after hfree =>
      cases after <;> simp only [After.pc, Pc.movesLeft] <;> omega
  | claimCommit => cases hexecuting
  | received => cases hexecuting
  | claimBegin => cases hexecuting
  | claimEmpty => cases hexecuting
  | claimFound => cases hexecuting
  | claimUpdate => cases hexecuting
  | claimEvents => cases hexecuting
  | claimUndecodable => cases hexecuting
  | nak => cases hexecuting
  | ack => cases hexecuting
  | _ => simp only [recordStep, fail, uncertain, Pc.movesLeft]; omega

/-- However the calls are answered, an execution returns. -/
theorem solo_returns (env : Env) (owner : String) (answers : Nat → Answer)
    (hlocks : t.shared.locks = fun _ => none) (hexecuting : t.pc.executing? = some run) :
    ∃ count h t', count ≤ t.pc.movesLeft ∧
      replay (soloNext env owner) t ((List.range count).map answers) = some (h, t') ∧
        ∃ outcome, t'.pc = .returned outcome := by
  induction hleft : t.pc.movesLeft using Nat.strongRecOn generalizing t answers with
  | ind left ih =>
      obtain ⟨t', hnext⟩ := @soloNext_isSome env owner _ _ hlocks hexecuting (answers 0)
      have hless := soloNext_movesLeft hnext hexecuting
      rcases soloNext_executing hnext hexecuting with hexecuting' | hreturned
      · obtain ⟨count, h, t'', hcount, hreplay, hpc⟩ :=
          ih t'.pc.movesLeft (by omega) (fun index => answers (index + 1))
            (soloNext_unlocked hnext hlocks) hexecuting' rfl
        refine ⟨count + 1, (t, answers 0) :: h, t'', by omega, ?_, hpc⟩
        rw [List.range_succ_eq_map, List.map_cons, List.map_map]
        simp only [replay, hnext]
        rw [show List.map (answers ∘ Nat.succ) (List.range count) =
          List.map (fun index => answers (index + 1)) (List.range count) from rfl, hreplay]
      · exact ⟨1, [(t, answers 0)], t', by omega, by simp [replay, hnext], hreturned⟩

end

end DurableRuntime.Worker
