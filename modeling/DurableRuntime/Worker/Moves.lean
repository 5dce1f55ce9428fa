import DurableRuntime.Worker.Process

/-!
# The moves of a worker

`Move` lists what a worker can do from each position, with the guard of each
move and its effect; `step_move` derives it from `step` once.  The lemmas after
it say where the functions that branch on the workflow definition can lead.
-/

namespace DurableRuntime.Worker

open DurableRuntime.Foundation

inductive Move (env : Env) (s : Shared) (owner : String) : Reply → Pc → Pc → Effect → Prop
  | received {reply} (runId) : Move env s owner reply (.received runId) (process runId) .none
  | claimBegin {reply} (ref) :
      Move env s owner reply (.claimBegin ref) (.claimSelect ref s.clock) .none
  | claimEmpty {reply ref now} (hselect : claimable s ref.id now = none) :
      Move env s owner reply (.claimSelect ref now) (.returned .ok) .none
  | claimFound {reply ref now row definition}
      (hselect : claimable s ref.id now = some (row, definition)) :
      Move env s owner reply (.claimSelect ref now) (.claimUpdate ref now row definition) .none
  | claimUpdate {reply} (ref now row definition) :
      Move env s owner reply (.claimUpdate ref now row definition)
        (.claimEvents ref now row definition) .none
  | claimEvents {reply ref now row definition run}
      (hdecode : leasedRun ref row definition = some run) :
      Move env s owner reply (.claimEvents ref now row definition)
        (.claimCommit now row (claimEventRows s now row) run) (.draw 2 0 0)
  | claimUndecodable {reply ref now row definition}
      (hdecode : leasedRun ref row definition = none) :
      Move env s owner reply (.claimEvents ref now row definition) (.returned .error)
        (.draw 2 0 0)
  | claimCommit {reply} (now row events run) :
      Move env s owner reply (.claimCommit now row events run) (.execute run)
        (.commit (.claim row.id owner now events))
  | execute {reply} (run) : Move env s owner reply (.execute run) (execute run) .none
  | loop {reply} (run index) : Move env s owner reply (.loop run index) (loop env run index) .none
  | consume (run index handle prompt delivery) :
      Move env s owner (.consume delivery) (.consume run index handle prompt)
        (withCredential env run index prompt (consumeCredential env s handle delivery).1)
        (consumeCredential env s handle delivery).2
  | providerAnswered {run index credential prompt reply}
      (hreply : callOpenAICompatible env reply = true) :
      Move env s owner (.provider reply) (.provider run index credential prompt)
        (recordStep run index .model "openai-compatible-model") .none
  | providerFailed {run index credential prompt reply}
      (hreply : callOpenAICompatible env reply = false) :
      Move env s owner (.provider reply) (.provider run index credential prompt)
        (uncertain run "provider_model_unavailable" (.advance index)) .none
  | fetched {run index target reply} (hreply : fetchFailure env reply = none) :
      Move env s owner (.fetch reply) (.fetch run index target)
        (recordStep run index .tool "allowlisted-http-fetch") .none
  | fetchFailed {run index target reply code} (hreply : fetchFailure env reply = some code) :
      Move env s owner (.fetch reply) (.fetch run index target)
        (fail run code (.advance index)) .none
  | effectReplayed {reply run index} (hfree : s.free (.run run.ref.id) = true)
      (hfound : (s.db.effect? run.tenantId (effectKey run.ref.text index)).isSome = true) :
      Move env s owner reply (.effect run index)
        (recordStep run index .tool "mock-ticket-replayed") .none
  | effectCommitted {reply run index} (hfree : s.free (.run run.ref.id) = true)
      (habsent : s.db.effect? run.tenantId (effectKey run.ref.text index) = none) :
      Move env s owner reply (.effect run index)
        (recordStep run index .tool "mock-ticket-committed")
        (.commit (.effect (effectRow run index)))
  | record {reply run index kind status safeLabel} (hfree : s.free (.run run.ref.id) = true) :
      Move env s owner reply (.record run index kind status safeLabel)
        (afterRecord run index status)
        (.commit (.stepResult (stepResultRow env run index kind status safeLabel)))
  | awaitApproval {reply run index} (hfree : s.free (.run run.ref.id) = true) :
      Move env s owner reply (.awaitApproval run index)
        (.event run .approvalRequested "Configured side effect requires approval" .ret)
        (.commit (.awaitApproval run.ref.id index))
  | heartbeat {reply} (run index) :
      Move env s owner reply (.heartbeat run index) (.heartbeatUpdate run index s.clock) .none
  | heartbeatUpdate {reply run index now} (hfree : s.free (.run run.ref.id) = true) :
      Move env s owner reply (.heartbeatUpdate run index now) (.loop run (index + 1))
        (.commit (.heartbeat run.ref.id (index + 1) now))
  | terminate {reply} (run state code after) :
      Move env s owner reply (.terminate run state code after) (.returned .error) .none
  | complete {reply run} (hfree : s.free (.run run.ref.id) = true) :
      Move env s owner reply (.complete run)
        (.event run .succeeded "All workflow steps completed" .ret)
        (.commit (.complete run.ref.id))
  | event {reply} (run eventType detail after) :
      Move env s owner reply (.event run eventType detail after)
        (.eventCommit run
          ⟨s.db.nextEventId, run.tenantId, run.ref.id, eventType, detail, s.clock⟩ after)
        (.draw 1 0 0)
  | eventCommit {reply run row after} (hfree : s.free (.run run.ref.id) = true) :
      Move env s owner reply (.eventCommit run row after) (after.pc run) (.commit (.event row))
  | nak {reply} : Move env s owner reply (.returned .error) .gone .nak
  | ack {reply outcome} (houtcome : outcome ≠ .error) :
      Move env s owner reply (.returned outcome) .gone .ack

theorem step_move {env : Env} {s : Shared} {owner : String} {reply : Reply} {pc pc' : Pc}
    {effect : Effect} (h : step env s owner reply pc = some (pc', effect)) :
    Move env s owner reply pc pc' effect := by
  cases pc with
  | received runId =>
      cases h
      exact .received runId
  | claimBegin ref =>
      cases h
      exact .claimBegin ref
  | claimSelect ref now =>
      simp only [step] at h
      split at h
      · rename_i hselect
        cases h
        exact .claimEmpty hselect
      · rename_i hselect
        cases h
        exact .claimFound hselect
  | claimUpdate ref now row definition =>
      cases h
      exact .claimUpdate ref now row definition
  | claimEvents ref now row definition =>
      simp only [step] at h
      split at h
      · rename_i hdecode
        cases h
        exact .claimUndecodable hdecode
      · rename_i hdecode
        cases h
        exact .claimEvents hdecode
  | claimCommit now row events run =>
      cases h
      exact .claimCommit now row events run
  | execute run =>
      cases h
      exact .execute run
  | loop run index =>
      cases h
      exact .loop run index
  | consume run index handle prompt =>
      cases reply with
      | consume delivery =>
          cases h
          exact .consume run index handle prompt delivery
      | _ => cases h
  | provider run index credential prompt =>
      cases reply with
      | provider reply =>
          simp only [step] at h
          split at h
          · rename_i hreply
            cases h
            exact .providerAnswered hreply
          · rename_i hreply
            cases h
            exact .providerFailed (Bool.not_eq_true _ ▸ hreply)
      | _ => cases h
  | fetch run index target =>
      cases reply with
      | fetch reply =>
          simp only [step] at h
          split at h
          · rename_i hreply
            cases h
            exact .fetchFailed hreply
          · rename_i hreply
            cases h
            exact .fetched hreply
      | _ => cases h
  | effect run index =>
      simp only [step] at h
      split at h
      · rename_i hfree
        split at h
        · rename_i hfound
          cases h
          exact .effectReplayed hfree hfound
        · rename_i habsent
          cases h
          exact .effectCommitted hfree (by simpa using habsent)
      · cases h
  | record run index kind status safeLabel =>
      simp only [step] at h
      split at h
      · rename_i hfree
        cases h
        exact .record hfree
      · cases h
  | awaitApproval run index =>
      simp only [step] at h
      split at h
      · rename_i hfree
        cases h
        exact .awaitApproval hfree
      · cases h
  | heartbeat run index =>
      cases h
      exact .heartbeat run index
  | heartbeatUpdate run index now =>
      simp only [step] at h
      split at h
      · rename_i hfree
        cases h
        exact .heartbeatUpdate hfree
      · cases h
  | terminate run state code after =>
      rw [step_terminate] at h
      cases h
      exact .terminate run state code after
  | complete run =>
      simp only [step] at h
      split at h
      · rename_i hfree
        cases h
        exact .complete hfree
      · cases h
  | event run eventType detail after =>
      cases h
      exact .event run eventType detail after
  | eventCommit run row after =>
      simp only [step] at h
      split at h
      · rename_i hfree
        cases h
        exact .eventCommit hfree
      · cases h
  | returned outcome =>
      cases outcome with
      | error =>
          cases h
          exact .nak
      | ok =>
          cases h
          exact .ack (by decide)
      | invalidQueueMessage =>
          cases h
          exact .ack (by decide)
  | gone => cases h

/-! ## Where the branching functions lead -/

/-- The positions at which a function that branches on its data can leave the worker. -/
def Pc.isBranch : Pc → Bool
  | claimBegin _ | returned _ | loop _ _ | consume _ _ _ _ | provider _ _ _ _ | fetch _ _ _
  | effect _ _ | record _ _ _ _ _ | terminate _ _ _ _ | complete _ => true
  | _ => false

theorem process_branch (runId : String) : (process runId).isBranch = true := by
  unfold process
  repeat' split
  all_goals rfl

theorem execute_branch (run : LeasedRun) : (execute run).isBranch = true := by
  unfold execute
  split <;> rfl

theorem loop_branch (env : Env) (run : LeasedRun) (index : Nat) :
    (loop env run index).isBranch = true := by
  unfold loop executeStep executeTool executeProviderModel
  repeat' split
  all_goals rfl

theorem withCredential_branch (env : Env) (run : LeasedRun) (index : Nat) (prompt : String)
    (credential : Option String) :
    (withCredential env run index prompt credential).isBranch = true := by
  unfold withCredential
  repeat' split
  all_goals rfl

end DurableRuntime.Worker
