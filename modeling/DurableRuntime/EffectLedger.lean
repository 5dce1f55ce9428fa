import DurableRuntime.Identity
import DurableRuntime.Scenario

/-!
# The effect ledger

An effect row is inserted once per tenant and effect key, and the key spells the
run and the step.  So a step has at most one effect, however often and by
however many workers it is executed, and a step recorded as a committed or
replayed ticket has exactly one.
-/

namespace DurableRuntime

open DurableRuntime.Foundation

/-- The rows of `effect_commits` for one step of a run. -/
def Db.effectsAt (db : Db) (tenantId runId : Uuid) (stepIndex : Nat) : List EffectRow :=
  db.effects.filter fun row =>
    row.tenantId = tenantId && row.runId = runId && row.stepIndex = stepIndex

/-- A result that `executeTool` records for a ticket, on the first execution or on a later one. -/
def isTicketLabel (label : String) : Bool :=
  label = "mock-ticket-committed" || label = "mock-ticket-replayed"

structure AtMostOneEffect (h : History State Action) (t : State) : Prop where
  unique : ∀ tenantId runId stepIndex, (t.db.effectsAt tenantId runId stepIndex).length ≤ 1
  stable : ∀ s a, (s, a) ∈ h → ∀ tenantId runId stepIndex,
    ∀ row ∈ s.db.effectsAt tenantId runId stepIndex,
      t.db.effectsAt tenantId runId stepIndex = [row]
  recorded : ∀ result ∈ t.db.stepResults, isTicketLabel result.label = true →
    (t.db.effectsAt result.tenantId result.runId result.stepIndex).length = 1

/-! ## Effect keys -/

theorem toString_inj {a b : Nat} (h : toString a = toString b) : a = b := by
  have hdigits := congrArg String.toList h
  simp only [Nat.toString_eq_repr, Nat.toList_repr] at hdigits
  calc
    a = Nat.ofDigitChars 10 (Nat.toDigits 10 a) 0 := Nat.ofDigitChars_ten_toDigits.symm
    _ = Nat.ofDigitChars 10 (Nat.toDigits 10 b) 0 := by rw [hdigits]
    _ = b := Nat.ofDigitChars_ten_toDigits

/-- Run ids of one length have keys of their own. -/
theorem effectKey_of_length {a b : String} (hlength : a.toList.length = b.toList.length) {i j : Nat}
    (h : Worker.effectKey a i = Worker.effectKey b j) : a = b ∧ i = j := by
  have hlist := congrArg String.toList h
  simp only [Worker.effectKey, String.toList_append, List.append_assoc] at hlist
  obtain ⟨htext, hrest⟩ := List.append_inj hlist hlength
  have hindex := (List.append_inj' (List.append_cancel_left hrest) rfl).1
  exact ⟨String.toList_injective htext, toString_inj (String.toList_injective hindex)⟩

/-- The key of a canonical run id names the run and the step. -/
theorem effectKey_inj {a b : Uuid} {i j : Nat}
    (h : Worker.effectKey a.text i = Worker.effectKey b.text j) : a = b ∧ i = j := by
  obtain ⟨htext, hindex⟩ := effectKey_of_length (by rw [length_text, length_text]) h
  exact ⟨text_inj htext, hindex⟩

/-! ## The invariant -/

def EffectRow.At (row : EffectRow) (tenantId runId : Uuid) (stepIndex : Nat) : Prop :=
  row.tenantId = tenantId ∧ row.runId = runId ∧ row.stepIndex = stepIndex

structure Ledger (s : State) : Prop where
  keys : (s.db.effects.map EffectRow.key).Nodup
  canonical : ∀ row ∈ s.db.effects, row.effectKey = Worker.effectKey row.runId.text row.stepIndex
  recorded : ∀ result ∈ s.db.stepResults, isTicketLabel result.label = true →
    ∃ row ∈ s.db.effects, row.At result.tenantId result.runId result.stepIndex
  pending : ∀ (index : Nat) (session : Worker.Session) run step kind status label,
    s.workers[index]? = some session → session.pc = .record run step kind status label →
      isTicketLabel label = true → ∃ row ∈ s.db.effects, row.At run.tenantId run.ref.id step

namespace Worker

theorem loop_label {env : Env} {run other : LeasedRun} {index step : Nat} {kind : ResultKind}
    {status : ResultStatus} {label : String}
    (h : loop env run index = .record other step kind status label) :
    isTicketLabel label = false := by
  unfold loop executeStep executeTool executeProviderModel at h
  repeat' split at h
  all_goals cases h
  all_goals first | decide | skip
  -- the label of a transform is its operation
  rename_i hoperation
  simp only [not_and_or, not_not] at hoperation
  rcases hoperation with heq | heq <;> rw [heq] <;> decide

/-- Only the ledger's statement leads to a result labelled as a ticket. -/
theorem Turn.ticket {env : Env} {s : Shared} {session : Session} {pc : Pc} {effect : Effect}
    (hturn : Turn env s session pc effect) {run : LeasedRun} {step : Nat} {kind : ResultKind}
    {status : ResultStatus} {label : String} (hpc : pc = .record run step kind status label)
    (hlabel : isTicketLabel label = true) :
    session.pc = .effect run step ∧
      ((s.db.effect? run.tenantId (effectKey run.ref.text step)).isSome = true ∨
        effect = .commit (.effect (effectRow run step))) := by
  cases hturn with
  | error => cases hpc
  | crash => cases hpc
  | move hmove =>
      generalize session.pc = old at hmove
      cases hmove with
      | received runId =>
          unfold process at hpc
          repeat' split at hpc
          all_goals cases hpc
      | execute run =>
          unfold execute at hpc
          split at hpc <;> cases hpc
      | loop run index =>
          rw [loop_label hpc] at hlabel
          cases hlabel
      | consume run index handle prompt delivery =>
          unfold withCredential at hpc
          repeat' split at hpc
          all_goals cases hpc
      | effectReplayed hfree hfound =>
          cases hpc
          exact ⟨rfl, .inl hfound⟩
      | effectCommitted hfree habsent =>
          cases hpc
          exact ⟨rfl, .inr rfl⟩
      | @record _ run index kind status safeLabel hfree => cases status <;> cases hpc
      | @eventCommit _ run row after hfree => cases after <;> cases hpc
      | providerAnswered =>
          cases hpc
          exact absurd hlabel (by decide)
      | fetched =>
          cases hpc
          exact absurd hlabel (by decide)
      | _ => cases hpc

end Worker

section

variable {env : Env} {s s' : State} {a : Action} {h : History State Action}

theorem Named.canonical (named : Named s) {index : Nat} {session : Worker.Session}
    {run : Worker.LeasedRun} (hworker : s.workers[index]? = some session)
    (hexecuting : session.pc.executing? = some run) : run.ref.text = run.ref.id.text := by
  obtain ⟨message, -, hhandles⟩ := named.workers index session hworker
  exact (hhandles.ref run.ref (Worker.ref?_of_executing hexecuting)).1

/-- The row under the key of a step is the effect of that step. -/
theorem at_of_key {row : EffectRow} {run : Worker.LeasedRun} {step : Nat}
    (hrow : row.effectKey = Worker.effectKey row.runId.text row.stepIndex)
    (hcanonical : run.ref.text = run.ref.id.text)
    (hkey : row.key = (run.tenantId, Worker.effectKey run.ref.text step)) :
    row.At run.tenantId run.ref.id step := by
  simp only [EffectRow.key, Prod.mk.injEq] at hkey
  obtain ⟨htenant, hkey⟩ := hkey
  rw [hrow, hcanonical] at hkey
  exact ⟨htenant, effectKey_inj hkey⟩

/-- The ledger's statement leaves the effect of its own step behind, old or new. -/
theorem effect_at (named : Named s) (hnext : next env s a = some s') {index : Nat}
    {session : Worker.Session} {run : Worker.LeasedRun} {step : Nat}
    (hworker : s.workers[index]? = some session) (hpc : session.pc = .effect run step)
    (heffect : (s.db.effect? run.tenantId (Worker.effectKey run.ref.text step)).isSome = true ∨
      commitOf env s a = some (.effect (Worker.effectRow run step)))
    (hcanonical : ∀ row ∈ s'.db.effects,
      row.effectKey = Worker.effectKey row.runId.text row.stepIndex) :
    ∃ row ∈ s'.db.effects, row.At run.tenantId run.ref.id step := by
  have href : run.ref.text = run.ref.id.text := named.canonical hworker (by rw [hpc]; rfl)
  obtain ⟨row, hrow, hkey⟩ : ∃ row ∈ s'.db.effects,
      row.key = (run.tenantId, Worker.effectKey run.ref.text step) := by
    rcases heffect with hfound | hcommit
    · obtain ⟨row, hrow, hkey⟩ := Table.lookup_isSome.mp hfound
      exact ⟨row, (next_extends hnext).effects.subset hrow, hkey⟩
    · obtain ⟨events, outbox, audits, hdb⟩ := next_db hnext
      rw [hdb, hcommit]
      exact Table.exists_key_insertIfAbsent (Worker.effectRow run step) _
  exact ⟨row, hrow, at_of_key (hcanonical row hrow) href hkey⟩

theorem Ledger.next (named : Named s) (ledger : Ledger s) (hnext : next env s a = some s') :
    Ledger s' := by
  have hextends := next_extends hnext
  have kept : ∀ {tenantId runId : Uuid} {step : Nat},
      (∃ row ∈ s.db.effects, row.At tenantId runId step) →
        ∃ row ∈ s'.db.effects, row.At tenantId runId step := by
    rintro tenantId runId step ⟨row, hrow, hat⟩
    exact ⟨row, hextends.effects.subset hrow, hat⟩
  obtain ⟨events, outbox, audits, hdb⟩ := next_db hnext
  -- what the step inserts into the ledger has the key of its own run and step
  have heffects : s'.db.effects = s.db.effects ∨ ∃ row,
      row.effectKey = Worker.effectKey row.runId.text row.stepIndex ∧
        s'.db.effects = Table.insertIfAbsent EffectRow.key row s.db.effects := by
    rw [hdb]
    cases hcommit : commitOf env s a with
    | none => exact .inl rfl
    | some change =>
        rcases effects_commit (s.db.draw events outbox audits) change with
          hsame | ⟨row, rfl, hinsert⟩
        · exact .inl hsame
        · refine .inr ⟨row, ?_, hinsert⟩
          cases commitOf_commits hcommit with
          | effect hworker hpc hfree habsent =>
              have hcanonical := named.canonical hworker (by rw [hpc]; rfl)
              simp [Worker.effectRow, hcanonical]
  have hcanonical : ∀ row ∈ s'.db.effects,
      row.effectKey = Worker.effectKey row.runId.text row.stepIndex := by
    intro row hrow
    rcases heffects with hsame | ⟨new, hnew, hinsert⟩
    · rw [hsame] at hrow
      exact ledger.canonical row hrow
    · rw [hinsert] at hrow
      rcases Table.mem_insertIfAbsent hrow with hold | ⟨rfl, -⟩
      · exact ledger.canonical row hold
      · exact hnew
  refine ⟨?_, hcanonical, ?_, ?_⟩
  · rcases heffects with hsame | ⟨row, -, hinsert⟩
    · rw [hsame]
      exact ledger.keys
    · rw [hinsert]
      exact Table.nodup_insertIfAbsent ledger.keys
  · intro result hresult hlabel
    rw [hdb] at hresult
    cases hcommit : commitOf env s a with
    | none =>
        rw [hcommit] at hresult
        exact kept (ledger.recorded result hresult hlabel)
    | some change =>
        rw [hcommit] at hresult
        rcases mem_stepResults_commit hresult with hold | rfl
        · exact kept (ledger.recorded result hold hlabel)
        · cases commitOf_commits hcommit with
          | stepResult hworker hpc hfree =>
              exact kept (ledger.pending _ _ _ _ _ _ _ hworker hpc hlabel)
  · intro index session run step kind status label hworker hpc hlabel
    cases worker_case hnext hworker with
    | kept hold hactor => exact kept (ledger.pending _ _ _ _ _ _ _ hold hpc hlabel)
    | joined => cases hpc
    | turned hold hactor hcommit hturn hstate =>
        obtain ⟨hold', heffect⟩ := hturn.ticket hpc hlabel
        refine effect_at named hnext hold hold' ?_ hcanonical
        rcases heffect with hfound | rfl
        · exact .inl hfound
        · exact .inr hcommit

theorem run_ledger (run : Run env h s) : Ledger s := by
  refine run.always ?_ ?_
  · intro s hs
    exact ⟨by simp [hs.effects], by simp [hs.effects], by simp [hs.stepResults],
      by simp [hs.workers]⟩
  · intro h s a s' run ledger hnext
    exact ledger.next (run_named run) hnext

/-! ## At most one effect -/

theorem mem_effectsAt {db : Db} {tenantId runId : Uuid} {step : Nat} {row : EffectRow} :
    row ∈ db.effectsAt tenantId runId step ↔ row ∈ db.effects ∧ row.At tenantId runId step := by
  simp [Db.effectsAt, EffectRow.At, and_assoc]

theorem Ledger.unique (ledger : Ledger s) (tenantId runId : Uuid) (step : Nat) :
    (s.db.effectsAt tenantId runId step).length ≤ 1 := by
  refine Table.length_filter_le_one ledger.keys ?_
  intro row hrow other hother hat hat'
  simp only [Bool.and_eq_true, decide_eq_true_eq] at hat hat'
  obtain ⟨⟨htenant, hrun⟩, hstep⟩ := hat
  obtain ⟨⟨htenant', hrun'⟩, hstep'⟩ := hat'
  simp only [EffectRow.key, ledger.canonical row hrow, ledger.canonical other hother, htenant,
    hrun, hstep, htenant', hrun', hstep']

theorem Ledger.eq_singleton (ledger : Ledger s) {tenantId runId : Uuid} {step : Nat}
    {row : EffectRow} (hrow : row ∈ s.db.effectsAt tenantId runId step) :
    s.db.effectsAt tenantId runId step = [row] := by
  have hle := ledger.unique tenantId runId step
  cases hrows : s.db.effectsAt tenantId runId step with
  | nil => simp [hrows] at hrow
  | cons first rest =>
      rw [hrows] at hrow hle
      have hrest : rest = [] := List.eq_nil_of_length_eq_zero (by simpa using hle)
      subst hrest
      rw [List.mem_singleton.mp hrow]

/--
However often its steps are executed, a run has at most one effect a step; the
effect never changes, and a step recorded as a ticket has one.
-/
theorem atMostOneEffect (run : Run env h s) : AtMostOneEffect h s := by
  have ledger := run_ledger run
  refine ⟨ledger.unique, ?_, ?_⟩
  · intro s₀ a₀ hp tenantId runId step row hrow
    obtain ⟨h₁, h₂, rfl⟩ := List.append_of_mem hp
    obtain ⟨s₁, -, hfirst, hrest⟩ := run_extends run
    obtain ⟨hmem, hat⟩ := mem_effectsAt.mp hrow
    refine ledger.eq_singleton (mem_effectsAt.mpr ⟨?_, hat⟩)
    exact (hfirst.trans hrest).effects.subset hmem
  · intro result hresult hlabel
    obtain ⟨row, hrow, hat⟩ := ledger.recorded result hresult hlabel
    rw [ledger.eq_singleton (mem_effectsAt.mpr ⟨hrow, hat⟩)]
    rfl

end

/-! ## A ticket written twice -/

/-- The worker that writes the ticket crashes before it records its step. -/
def ticketReplayed : List Action :=
  Scenario.createActions [Scenario.approval, Scenario.ticketWrite] ++ Scenario.publishActions 0 ++
    Scenario.claimActions 0 0 ++ Scenario.workerActions 0 7 ++
    Scenario.transitionActions (.approve Scenario.runId.text) 1 10 ++
    Scenario.publishActions 1 ++ Scenario.claimActions 1 1 ++ Scenario.workerActions 1 3 ++
    [.crash 1, .tick 180000000] ++ Scenario.claimActions 1 2 ++ Scenario.workerActions 2 4

theorem ticketReplayed_atMostOneEffect : ∃ h t, Run Scenario.env h t ∧
    (∃ result ∈ t.db.stepResults, result.label = "mock-ticket-replayed") ∧
      AtMostOneEffect h t := by
  obtain ⟨h, t, run, htest⟩ := Scenario.exists_run 5 ticketReplayed
    (fun _ t => t.db.stepResults.any fun result => result.label = "mock-ticket-replayed")
    (by decide +kernel)
  exact ⟨h, t, run, by simpa using htest, atMostOneEffect run⟩

end DurableRuntime
