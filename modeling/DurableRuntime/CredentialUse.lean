import DurableRuntime.RequestCredentials

/-!
# The credential of a run

A handle belongs to one run.  Until a worker of that run has consumed it, the
credential that was issued under it waits in the broker as long as it lives.
-/

namespace DurableRuntime

open DurableRuntime.Foundation

/-- Two runs have two handles. -/
def HandlesApart (db : Db) : Prop :=
  ∀ id id' row row' handle, db.run? id = some row → db.run? id' = some row' →
    row.providerCredentialHandle = some handle → row'.providerCredentialHandle = some handle →
      id = id'

/-- What was issued under the handle of a run is still held. -/
def Deposited (env : Env) (h : History State Action) (s : State) : Prop :=
  ∀ id row handle, s.db.run? id = some row → row.providerCredentialHandle = some handle →
    ∃ deposit, lastDeposit env handle h = some deposit ∧ deposit.Held handle s

/-- Every entry of the broker is what was last issued under its handle. -/
def Sourced (env : Env) (h : History State Action) (s : State) : Prop :=
  ∀ entry ∈ s.broker.entries, ∃ deposit, lastDeposit env entry.handle h = some deposit ∧
    deposit.credential = entry.credential ∧ deposit.issuedAt + s.broker.ttlMs = entry.expiresAt

section

variable {env : Env} {s s' : State} {a : Action} {h : History State Action} {handle id : Uuid}

/-! ## One run for a handle -/

/-- A row of the next state has been there, or a request commits it. -/
theorem row_origin (sound : Sound s) (hnext : next env s a = some s') {row' : RunRow}
    (hrow' : s'.db.run? id = some row') :
    (∃ row, s.db.run? id = some row ∧ row.SameRequest row') ∨
      ∃ index choice session writes run, a = .call index choice ∧
        commitOf env s a = some (.request writes) ∧ s.calls[index]? = some session ∧
          session.pc = .commit writes run ∧ writes.run = .insert row' ∧ row'.id = id := by
  have hstep := row_step sound hnext id
  rw [hrow'] at hstep
  cases hrow : s.db.run? id with
  | some row =>
      exact .inl ⟨row, rfl, sameRequest_next hnext hrow hrow'⟩
  | none =>
      rw [hrow] at hstep
      cases hstep with
      | created hcommit hcall hpc hwrite hid =>
          exact .inr ⟨_, _, _, _, _, rfl, hcommit, hcall, hpc, hwrite, hid⟩

/-- The handle of a row that a request commits is the one the request has drawn. -/
theorem insert_handle (sound : Sound s) {index : Nat} {session : ControlPlane.Session}
    {writes : Writes} {run : ControlPlane.StoredRun} {row : RunRow}
    (hcall : s.calls[index]? = some session) (hpc : session.pc = .commit writes run)
    (hwrite : writes.run = .insert row) : row.providerCredentialHandle = session.handle := by
  obtain ⟨create, id, now, budgetCents, -, rfl⟩ := sound.insert_eq hcall hpc hwrite
  rfl

theorem handleUnused_of_insert (run : Run env h s) {index : Nat}
    {session : ControlPlane.Session} {writes : Writes} {stored : ControlPlane.StoredRun}
    {row : RunRow} (hcall : s.calls[index]? = some session)
    (hpc : session.pc = .commit writes stored) (hwrite : writes.run = .insert row)
    (hhandle : row.providerCredentialHandle = some handle) :
    session.handle = some handle ∧ ControlPlane.handleUnused s.toShared handle = true := by
  rw [insert_handle (run_sound run) hcall hpc hwrite] at hhandle
  exact ⟨hhandle, run_unreferenced run index session handle hcall hhandle (by rw [hpc]; rfl)⟩

theorem handleUsed_of_row {row : RunRow} (hrow : s.db.run? id = some row)
    (hhandle : row.providerCredentialHandle = some handle) :
    ControlPlane.handleUnused s.toShared handle = false := by
  rw [handleUnused_eq_false, ← hhandle]
  exact List.mem_map_of_mem (Table.lookup_mem hrow)

theorem run_handlesApart (run : Run env h s) : HandlesApart s.db := by
  refine run.always (P := fun s => HandlesApart s.db) ?_ ?_
  · intro s hs id id' row row' handle hrow
    simp [Db.run?, Table.lookup, hs.runs] at hrow
  · intro h s a s' run apart hnext id id' row row' handle hrow hrow' hhandle hhandle'
    have sound := run_sound run
    have clash : ∀ {i : Uuid} {old new : RunRow} {index : Nat} {session : ControlPlane.Session}
        {writes : Writes} {stored : ControlPlane.StoredRun}, s.db.run? i = some old →
        old.providerCredentialHandle = some handle → s.calls[index]? = some session →
        session.pc = .commit writes stored → writes.run = .insert new →
        new.providerCredentialHandle = some handle → False := by
      intro i old new index session writes stored hold hused hcall hpc hwrite hnew
      have hunused := (handleUnused_of_insert run hcall hpc hwrite hnew).2
      rw [handleUsed_of_row hold hused] at hunused
      cases hunused
    rcases row_origin sound hnext hrow with ⟨old, hold, hsame⟩ |
      ⟨index, choice, session, writes, stored, haction, hcommit, hcall, hpc, hwrite, hid⟩
    · rw [hsame.handle] at hhandle
      rcases row_origin sound hnext hrow' with ⟨old', hold', hsame'⟩ |
        ⟨index, choice, session, writes, stored, -, -, hcall, hpc, hwrite, -⟩
      · rw [hsame'.handle] at hhandle'
        exact apart id id' old old' handle hold hold' hhandle hhandle'
      · exact (clash hold hhandle hcall hpc hwrite hhandle').elim
    · rcases row_origin sound hnext hrow' with ⟨old', hold', hsame'⟩ |
        ⟨index', choice', session', writes', stored', haction', hcommit', hcall', hpc', hwrite',
          hid'⟩
      · rw [hsame'.handle] at hhandle'
        exact (clash hold' hhandle' hcall hpc hwrite hhandle).elim
      · rw [hcommit, Option.some.injEq, Commit.request.injEq] at hcommit'
        rw [← hcommit', hwrite, RunWrite.insert.injEq] at hwrite'
        rw [← hid, ← hid', hwrite']

/-! ## Consume calls -/

/-- A consume call is made by a worker that executes the run of the handle. -/
theorem consume_worker (run : Run env h s) (heffect : effectOf env s a = .consume handle) :
    ∃ index reply session leased step prompt, a = .worker index reply ∧
      s.workers[index]? = some session ∧ session.pc = .consume leased step handle prompt ∧
        ∃ row, s.db.run? leased.ref.id = some row ∧
          row.providerCredentialHandle = some handle := by
  cases a with
  | worker index reply =>
      simp only [effectOf] at heffect
      cases hworker : s.workers[index]? with
      | none =>
          rw [hworker] at heffect
          cases heffect
      | some session =>
          rw [hworker, Option.bind_some] at heffect
          cases hmove : Worker.step env s.toShared session.id reply session.pc with
          | none =>
              rw [hmove] at heffect
              cases heffect
          | some move =>
              rw [hmove] at heffect
              change move.2 = .consume handle at heffect
              rcases (Worker.step_move hmove).consumes with
                ⟨leased, step, other, prompt, hpc, hconsume⟩ | ⟨-, hquiet, -⟩
              · rw [hconsume, Effect.consume.injEq] at heffect
                subst heffect
                have handled := run_handled run
                obtain ⟨row, hrow, hmine⟩ :=
                  handled.leased index session leased hworker (by rw [hpc]; rfl)
                have hhandle := handled.consume index session leased other hworker
                  (by rw [hpc]; rfl)
                exact ⟨index, reply, session, leased, step, prompt, rfl, hworker, hpc, row, hrow,
                  hmine.trans hhandle⟩
              · exact absurd heffect (hquiet handle)
  | call index choice =>
      simp only [effectOf] at heffect
      cases hmove : (s.calls[index]?).bind (ControlPlane.step env s.toShared choice) with
      | none =>
          rw [hmove] at heffect
          cases heffect
      | some move =>
          rw [hmove] at heffect
          change move.2 = .consume handle at heffect
          obtain ⟨session, -, hstep⟩ := Option.bind_eq_some_iff.mp hmove
          obtain ⟨moved, effect⟩ := move
          cases (ControlPlane.step_move hstep).handleMove with
          | quiet hactive hnot hroute hissue hconsume => exact absurd heffect (hconsume handle)
          | _ => cases heffect
  | _ => cases heffect

/-- A deposit is marked by a consume call. -/
theorem consumed_of_lastDeposit {deposit : Deposit}
    (hlast : lastDeposit env handle h = some deposit) (hconsumed : deposit.consumed = true) :
    ∃ p ∈ h, effectOf env p.1 p.2 = .consume handle := by
  induction h using List.reverseRecOn generalizing deposit with
  | nil => cases hlast
  | append_singleton h p ih =>
      have earlier : ∀ {old : Deposit}, lastDeposit env handle h = some old →
          old.consumed = true → ∃ q ∈ h ++ [p], effectOf env q.1 q.2 = .consume handle := by
        intro old hold hmarked
        obtain ⟨q, hq, heffect⟩ := ih hold hmarked
        exact ⟨q, List.mem_append_left _ hq, heffect⟩
      rw [lastDeposit_snoc] at hlast
      unfold depositAfter at hlast
      split at hlast
      · split at hlast
        · cases hlast
          cases hconsumed
        · exact earlier hlast hconsumed
      · rename_i heffect
        split at hlast
        · rename_i hsame
          subst hsame
          exact ⟨p, List.mem_append_right _ (List.mem_singleton_self p), heffect⟩
        · exact earlier hlast hconsumed
      · exact earlier hlast hconsumed

/-! ## The deposit of a run -/

theorem effectOf_commit {index : Nat} {choice : Uuid} {change : Commit}
    (hcommit : commitOf env s (.call index choice) = some change) :
    effectOf env s (.call index choice) = .commit change := by
  simp only [commitOf] at hcommit
  obtain ⟨session, hcall, hmove⟩ := Option.bind_eq_some_iff.mp hcommit
  obtain ⟨move, hstep, hchange⟩ := Option.bind_eq_some_iff.mp hmove
  simp only [effectOf, hcall, Option.bind_some, hstep]
  cases heffect : move.2 <;> rw [heffect] at hchange <;> cases hchange
  rfl

theorem run_deposited (run : Run env h s) : Deposited env h s := by
  refine run.invariant ?_ ?_
  · intro s hs id row handle hrow
    simp [Db.run?, Table.lookup, hs.runs] at hrow
  · intro h s a s' run deposited hnext id row' handle hrow' hhandle
    have sound := run_sound run
    have hstep := next_broker (run_handled run) hnext
    rcases row_origin sound hnext hrow' with ⟨row, hrow, hsame⟩ |
      ⟨index, choice, session, writes, stored, rfl, hcommit, hcall, hpc, hwrite, -⟩
    · rw [hsame.handle] at hhandle
      obtain ⟨deposit, hlast, hheld⟩ := deposited id row handle hrow hhandle
      obtain ⟨deposit', hlast', -, -, hheld'⟩ :=
        carries hnext hstep (not_touches_of_used (run_unreferenced run) hstep
          (handleUsed_of_row hrow hhandle)) deposit hlast hheld
      exact ⟨deposit', hlast', hheld'⟩
    · obtain ⟨hmine, -⟩ := handleUnused_of_insert run hcall hpc hwrite hhandle
      have hdeposit := (run_traced run).active index session handle hcall hmine (by rw [hpc]; rfl)
      obtain ⟨create, deposit, -, -, hlast, -, hheld⟩ := hdeposit.next hnext hstep rfl
        (not_touches_of_quiet (effectOf_commit hcommit) (by simp) (by simp))
      exact ⟨deposit, hlast, hheld⟩

/-- A broker call leaves what was last issued under the other handles. -/
theorem Sourced.perform (sourced : Sourced env h s) (call : CredentialBroker.Call)
    (hbroker : s'.broker = s.broker.perform ⟨s.dateNow, call⟩)
    (hsame : ∀ other, other ≠ call.handle →
      lastDeposit env other (h ++ [(s, a)]) = lastDeposit env other h)
    (hissue : ∀ credential, call = .issue call.handle credential → ∃ deposit,
      lastDeposit env call.handle (h ++ [(s, a)]) = some deposit ∧
        deposit.credential = credential ∧ deposit.issuedAt = s.dateNow) :
    Sourced env (h ++ [(s, a)]) s' := by
  intro entry hentry
  rw [hbroker] at hentry ⊢
  rw [CredentialBroker.perform_ttlMs]
  rcases CredentialBroker.mem_perform.mp hentry with ⟨hnew, hexpires⟩ | ⟨hold, hne, -⟩
  · simp only at hnew hexpires
    have hhandle : call.handle = entry.handle := by
      rw [hnew]
      rfl
    obtain ⟨deposit, hlast, hcredential, hissued⟩ := hissue entry.credential (by rw [hhandle, hnew])
    exact ⟨deposit, hhandle ▸ hlast, hcredential, by rw [hissued, hexpires]⟩
  · obtain ⟨deposit, hlast, hcredential, hexpires⟩ := sourced entry hold
    exact ⟨deposit, (hsame _ hne).trans hlast, hcredential, hexpires⟩

theorem run_sourced (run : Run env h s) : Sourced env h s := by
  refine run.invariant ?_ ?_
  · intro s hs entry hentry
    simp [hs.broker] at hentry
  · intro h s a s' run sourced hnext
    have still : (∀ other, lastDeposit env other (h ++ [(s, a)]) = lastDeposit env other h) →
        s'.broker = s.broker → Sourced env (h ++ [(s, a)]) s' := by
      intro hlast hbroker entry hentry
      rw [hbroker] at hentry ⊢
      rw [hlast]
      exact sourced entry hentry
    cases next_broker (run_handled run) hnext with
    | quiet hother hsame hbroker =>
        refine still ?_ hbroker
        intro other
        rw [lastDeposit_snoc, hsame]
    | failed haction hcall hstatement hstate =>
        subst haction
        exact still (fun other => lastDeposit_snoc other _) (by rw [hstate]; rfl)
    | @consumed index reply handle haction hused heffect hbroker =>
        subst haction
        refine sourced.perform (.consume handle) hbroker ?_ ?_
        · intro other hne
          simp only [lastDeposit_snoc, depositAfter, heffect]
          exact if_neg (Ne.symm hne)
        · intro credential hissue
          cases hissue
    | @call index choice session moved effect haction hcall hmove hrun heffect hstate =>
        subst haction
        cases hmove with
        | @issue create credential handle hpc hrequest hcredential hfresh =>
            refine sourced.perform (.issue handle credential) (by rw [hstate]; rfl) ?_ ?_
            · intro other hne
              simp only [lastDeposit_snoc, depositAfter, heffect]
              exact if_neg (Ne.symm hne)
            · intro secret hissue
              cases hissue
              refine ⟨⟨index, credential, s.dateNow, false⟩, ?_, rfl, rfl⟩
              simp [lastDeposit_snoc, depositAfter, heffect, CredentialBroker.Call.handle]
        | @discard stored handle hpc hhandle =>
            refine sourced.perform (.discard handle) (by rw [hstate]; rfl) ?_ ?_
            · intro other hne
              simp only [lastDeposit_snoc, depositAfter, heffect]
            · intro credential hissue
              cases hissue
        | answer =>
            refine still (fun other => ?_) (by rw [hstate]; rfl)
            simp only [lastDeposit_snoc, depositAfter, heffect]
        | quiet hactive hnot hroute hissue hconsume hdiscard =>
            refine still ?_ ?_
            · intro other
              simp only [lastDeposit_snoc, depositAfter, heffect]
              cases effect with
              | issue handle credential => exact absurd rfl (hissue handle credential)
              | _ => rfl
            · rw [hstate]
              exact Shared.apply_broker hissue hconsume hdiscard

/-- A consume call for the handle of a run yields its credential, unless it comes too late. -/
theorem consume_yields (run : Run env h s) {row : RunRow} (hrow : s.db.run? id = some row)
    (hhandle : row.providerCredentialHandle = some handle)
    (hunspent : ∀ p ∈ h, effectOf env p.1 p.2 ≠ .consume handle) :
    ∃ deposit, lastDeposit env handle h = some deposit ∧
      (s.dateNow < deposit.issuedAt + s.broker.ttlMs →
        (s.broker.consume s.dateNow handle).1 = some deposit.credential) := by
  obtain ⟨deposit, hlast, hheld⟩ := run_deposited run id row handle hrow hhandle
  refine ⟨deposit, hlast, ?_⟩
  intro hlive
  rcases hheld with hentry | hconsumed | hexpired
  · have hkept : ((s.broker.purge s.dateNow).get handle).isSome = true := by
      rw [CredentialBroker.get, List.find?_isSome]
      exact ⟨_, List.mem_filter.mpr ⟨hentry, by simpa using hlive⟩, by simp⟩
    obtain ⟨entry, hfound⟩ := Option.isSome_iff_exists.mp hkept
    have hmem := (List.mem_filter.mp (List.mem_of_find?_eq_some hfound)).1
    have hmine : entry.handle = handle := by simpa using List.find?_some hfound
    obtain ⟨source, hsource, hcredential, -⟩ := run_sourced run entry hmem
    rw [hmine, hlast, Option.some.injEq] at hsource
    rw [CredentialBroker.consume, hfound, Option.map_some, hsource, hcredential]
  · obtain ⟨p, hp, heffect⟩ := consumed_of_lastDeposit hlast hconsumed
    exact absurd heffect (hunspent p hp)
  · omega

end

end DurableRuntime
