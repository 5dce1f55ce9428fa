import DurableRuntime.Scenario
import DurableRuntime.Transactions

/-!
# Quotas

A creation counts the runs of its tenant while it holds the lock on the tenant's
limits, and it holds that lock until its own run is committed or given up.  So
between the count and the insert nobody else adds a run of the tenant, and the
transitions of the control plane only take runs out of the count.
-/

namespace DurableRuntime

open DurableRuntime.Foundation

/-- A database that keeps its keys, with no session that uses it. -/
structure AtRest (s : State) : Prop where
  keyed : RunsKeyed s.db
  drawn : ∀ row ∈ s.db.outbox, row.id < s.db.nextOutboxId
  locks : s.locks = fun _ => none
  workers : s.workers = []
  calls : s.calls = []
  publishers : s.publishers = []

theorem AtRest.sound {s : State} (h : AtRest s) : Sound s where
  locked := ⟨by simp [HeldBy, h.workers], by simp [HeldBy, h.calls], by simp [HeldBy, h.publishers],
    h.drawn, by simp [h.publishers], by simp [h.locks]⟩
  shaped := ⟨by simp [h.workers], by simp [h.calls]⟩
  snapshots := ⟨by simp [h.workers], by simp [h.calls], by simp [h.calls]⟩

theorem Initial.atRest {s : State} (h : Initial s) : AtRest s where
  keyed := ⟨by simp [h.runs], by simp [h.runs]⟩
  drawn := by simp [h.outbox]
  locks := h.locks
  workers := h.workers
  calls := h.calls
  publishers := h.publishers

/-! ## The active quota -/

def WithinActiveQuota (tenantId : Uuid) (s : State) : Prop :=
  ∀ limits, s.db.limits? tenantId = some limits →
    ControlPlane.activeRuns s.toShared tenantId ≤ limits.maxActiveRuns

/-- The runs of the control plane alone, from any database within the quota. -/
abbrev ControlPlaneRun (env : Env) (tenantId : Uuid) (h : History State Action) (t : State) :
    Prop :=
  Exec (fun s => AtRest s ∧ WithinActiveQuota tenantId s) (next env) h t ∧
    ∀ p ∈ h, ∀ index, actor p.2 ≠ some (.worker index)

/-- When the run of a call was created that has passed the quota check and not yet committed. -/
def ControlPlane.Pc.counted? : ControlPlane.Pc → Option Int
  | .createWorkflow _ now | .createInsert _ now _ => some now
  | pc => pc.writes?.bind fun writes => writes.run.inserted?.map RunRow.createdAt

namespace ControlPlane

variable {env : Env} {s : Shared} {choice : Uuid} {session moved : Session} {pc pc' : Pc}
  {effect : Effect} {now : Int}

theorem limitsLocked_of_counted (h : pc.counted? = some now) : pc.limitsLocked = true := by
  cases pc with
  | insertEvent now eventType detail writes =>
      obtain ⟨write, event, outbox, audit⟩ := writes
      cases write <;> first | rfl | cases h
  | queueOutbox now eventType writes =>
      obtain ⟨write, event, outbox, audit⟩ := writes
      cases write <;> first | rfl | cases h
  | audit now eventType writes =>
      obtain ⟨write, event, outbox, audit⟩ := writes
      cases write <;> first | rfl | cases h
  | readEvents writes =>
      obtain ⟨write, event, outbox, audit⟩ := writes
      cases write <;> first | rfl | cases h
  | commit writes run =>
      obtain ⟨write, event, outbox, audit⟩ := writes
      cases write <;> first | rfl | cases h
  | _ => first | rfl | cases h

theorem held_of_counted (h : session.pc.counted? = some now) :
    Resource.limits session.principal.tenantId ∈ session.held := by
  refine List.mem_append_left _ (List.mem_append_left _ ?_)
  rw [if_pos (limitsLocked_of_counted h)]
  exact List.mem_singleton_self _

/-- The limits that a call has read under its lock. -/
def Pc.limits? : Pc → Option LimitsRow
  | .createUsage _ _ limits => some limits
  | _ => none

/-- Only the quota check lets a call count its run. -/
theorem PcMove.counted (hmove : PcMove env s choice session pc pc' effect)
    (h : pc'.counted? = some now) : effect.commit? = none ∧
      (pc.counted? = some now ∨ ∃ create limits, pc = .createUsage create now limits ∧
        quotaError env s now limits session.principal.tenantId = none) := by
  cases hmove with
  | approve =>
      unfold startTransition at h
      repeat' split at h
      all_goals cases h
  | cancel =>
      unfold startTransition at h
      repeat' split at h
      all_goals cases h
  | readRun =>
      unfold readRunCheck at h
      repeat' split at h
      all_goals cases h
  | quotaFree hquota =>
      cases h
      exact ⟨rfl, .inr ⟨_, _, rfl, hquota⟩⟩
  | workflowFound => exact ⟨rfl, .inl h⟩
  | inserted => exact ⟨rfl, .inl h⟩
  | transitionUpdate => cases h
  | eventQueued => exact ⟨rfl, .inl h⟩
  | eventUnqueued => exact ⟨rfl, .inl h⟩
  | queueOutbox => exact ⟨rfl, .inl h⟩
  | audit => exact ⟨rfl, .inl h⟩
  | readEvents => exact ⟨rfl, .inl h⟩
  | _ => cases h

theorem Turn.counted (hturn : Turn env s session moved effect)
    (h : moved.pc.counted? = some now) : effect.commit? = none ∧
      (session.pc.counted? = some now ∨ ∃ create limits,
        session.pc = .createUsage create now limits ∧
          quotaError env s now limits session.principal.tenantId = none) := by
  cases hturn with
  | error => cases h
  | move hmove =>
      cases hmove with
      | start hpc hrequest hstart =>
          cases startCreate_start hstart with
          | _ => cases h
      | inner hmove => exact hmove.counted h

theorem Turn.readLimits (hturn : Turn env s session moved effect) {limits : LimitsRow}
    (h : moved.pc.limits? = some limits) :
    effect.commit? = none ∧ s.db.limits? session.principal.tenantId = some limits := by
  cases hturn with
  | error => cases h
  | move hmove =>
      cases hmove with
      | start hpc hrequest hstart =>
          cases startCreate_start hstart with
          | _ => cases h
      | inner hmove =>
          generalize session.pc = old at hmove
          cases hmove with
          | approve =>
              simp only [startTransition] at h
              repeat' split at h
              all_goals cases h
          | cancel =>
              simp only [startTransition] at h
              repeat' split at h
              all_goals cases h
          | readRun =>
              simp only [readRunCheck] at h
              repeat' split at h
              all_goals cases h
          | limitsFound hfree hlimits =>
              cases h
              exact ⟨rfl, hlimits⟩
          | _ => cases h

end ControlPlane

structure ActiveQuotaKept (tenantId : Uuid) (s : State) : Prop where
  sound : Sound s
  keyed : RunsKeyed s.db
  within : WithinActiveQuota tenantId s
  read : ∀ (index : Nat) (session : ControlPlane.Session) limits,
    s.calls[index]? = some session → session.pc.limits? = some limits →
      s.db.limits? session.principal.tenantId = some limits
  room : ∀ (index : Nat) (session : ControlPlane.Session) now, s.calls[index]? = some session →
    session.principal.tenantId = tenantId → session.pc.counted? = some now →
      ∀ limits, s.db.limits? tenantId = some limits →
        ControlPlane.activeRuns s.toShared tenantId < limits.maxActiveRuns

section

variable {env : Env} {s s' : State} {a : Action} {tenantId : Uuid}

/-- An insert adds one run; no other commit of the control plane adds to the count. -/
inductive CountCase (env : Env) (s s' : State) (a : Action) (tenantId : Uuid) : Prop
  | fewer (hcount : ControlPlane.activeRuns s'.toShared tenantId ≤
      ControlPlane.activeRuns s.toShared tenantId)
  | inserted {index : Nat} {session : ControlPlane.Session} {now : Int}
      (hactor : actor a = some (.call index)) (hcall : s.calls[index]? = some session)
      (htenant : session.principal.tenantId = tenantId)
      (hcounted : session.pc.counted? = some now)
      (hcount : ControlPlane.activeRuns s'.toShared tenantId ≤
        ControlPlane.activeRuns s.toShared tenantId + 1)

theorem runs_quiet (hnext : next env s a = some s')
    (hquiet : ∀ change, commitOf env s a = some change →
      ∀ db : Db, (db.commit change).runs = db.runs) :
    s'.db.runs = s.db.runs := by
  obtain ⟨events, outbox, audits, hdb⟩ := next_db hnext
  rw [hdb]
  cases hcommit : commitOf env s a with
  | none => rfl
  | some change => exact hquiet change hcommit _

theorem countCase (sound : Sound s) (keyed : RunsKeyed s.db) (hnext : next env s a = some s')
    (hworker : ∀ index, actor a ≠ some (.worker index)) (tenantId : Uuid) :
    CountCase env s s' a tenantId := by
  have quiet : s'.db.runs = s.db.runs → CountCase env s s' a tenantId := by
    intro hruns
    refine .fewer ?_
    unfold ControlPlane.activeRuns
    rw [hruns]
  cases hcommit : commitOf env s a with
  | none => exact quiet (runs_quiet hnext (by simp [hcommit]))
  | some change =>
      cases commitOf_commits hcommit with
      | @request index choice session writes stored hcall hpc =>
          obtain ⟨events, outbox, audits, hdb⟩ := next_db hnext
          rw [hcommit] at hdb
          obtain ⟨write, event, queued, audit⟩ := writes
          cases write with
          | insert row =>
              have hruns : s'.db.runs = s.db.runs ++ [row] := by rw [hdb]; rfl
              by_cases htenant : row.tenantId = tenantId
              · refine .inserted rfl hcall ?_ (by rw [hpc]; rfl) ?_
                · obtain ⟨create, id, now, budgetCents, -, rfl⟩ := sound.insert_eq hcall hpc rfl
                  exact htenant
                · unfold ControlPlane.activeRuns
                  rw [hruns, List.countP_append]
                  exact Nat.add_le_add_left List.countP_le_length _
              · refine .fewer ?_
                unfold ControlPlane.activeRuns
                rw [hruns, List.countP_append]
                simp [htenant]
          | update before state approved now =>
              refine .fewer ?_
              have hruns : s'.db.runs = Table.modify RunRow.id before.id
                  (RunRow.transition state approved now) s.db.runs := by rw [hdb]; rfl
              have hrow := sound.snapshots.updates index session before hcall (by rw [hpc]; rfl)
              obtain ⟨args, -, rfl, -, hallowed⟩ := sound.update_args hcall hpc rfl
              unfold ControlPlane.activeRuns
              rw [hruns]
              refine Table.countP_modify_le ?_
              intro row hmem hid hactive
              have hsame : row = before :=
                Table.eq_of_key_eq keyed.ids hmem (Table.lookup_mem hrow) hid
              subst hsame
              simp only [RunRow.transition, Bool.and_eq_true] at hactive ⊢
              refine ⟨hactive.1, ?_⟩
              revert hallowed
              cases row.state <;> simp [allowedTransitions, RunState.isActive]
      | createWorkflow => exact quiet (runs_quiet hnext (by simp [hcommit, Db.commit]))
      | outboxAttempts =>
          exact quiet (runs_quiet hnext (by simp [hcommit, Db.commit, Db.updateOutbox]))
      | outboxPublished =>
          exact quiet (runs_quiet hnext (by simp [hcommit, Db.commit, Db.updateOutbox]))
      | _ => exact absurd rfl (hworker _)

theorem limits?_next (hnext : next env s a = some s') (tenantId : Uuid) :
    s'.db.limits? tenantId = s.db.limits? tenantId := by
  rw [Db.limits?, Db.limits?, (next_extends hnext).limits]

theorem activeRuns_quiet (hnext : next env s a = some s') (hcommit : commitOf env s a = none)
    (tenantId : Uuid) :
    ControlPlane.activeRuns s'.toShared tenantId = ControlPlane.activeRuns s.toShared tenantId := by
  unfold ControlPlane.activeRuns
  rw [runs_quiet hnext (by simp [hcommit])]

theorem quotaError_none {s : Shared} {now : Int} {limits : LimitsRow}
    (h : ControlPlane.quotaError env s now limits tenantId = none) :
    ControlPlane.activeRuns s tenantId < limits.maxActiveRuns ∧
      ControlPlane.runsToday env s now tenantId < limits.maxRunsPerDay := by
  unfold ControlPlane.quotaError at h
  split at h
  · cases h
  · split at h
    · cases h
    · constructor <;> omega

theorem ActiveQuotaKept.next (kept : ActiveQuotaKept tenantId s) (hnext : next env s a = some s')
    (hworker : ∀ index, actor a ≠ some (.worker index)) : ActiveQuotaKept tenantId s' where
  sound := kept.sound.next hnext
  keyed := kept.keyed.next kept.sound hnext
  within := by
    intro limits hlimits
    rw [limits?_next hnext] at hlimits
    cases countCase kept.sound kept.keyed hnext hworker tenantId with
    | fewer hcount => exact Nat.le_trans hcount (kept.within limits hlimits)
    | inserted hactor hcall htenant hcounted hcount =>
        exact Nat.le_trans hcount (kept.room _ _ _ hcall htenant hcounted limits hlimits)
  read := by
    intro index session limits hcall hread
    rw [limits?_next hnext]
    cases call_case hnext hcall with
    | kept hold hactor => exact kept.read index session limits hold hread
    | joined => cases hread
    | turned hold hactor hcommit hturn hstate =>
        rw [hturn.same.1]
        exact (hturn.readLimits hread).2
  room := by
    intro index session now hcall htenant hcounted limits hlimits
    rw [limits?_next hnext] at hlimits
    cases call_case hnext hcall with
    | joined => cases hcounted
    | @turned old moved effect hold hactor hcommit hturn hstate =>
        obtain ⟨hquiet, hmine | ⟨create, limits', hpc, hquota⟩⟩ := hturn.counted hcounted
        · rw [activeRuns_quiet hnext (hcommit.trans hquiet)]
          rw [hturn.same.1] at htenant
          exact kept.room index old now hold htenant hmine limits hlimits
        · rw [activeRuns_quiet hnext (hcommit.trans hquiet)]
          rw [hturn.same.1] at htenant
          have hread := kept.read index old limits' hold (by rw [hpc]; rfl)
          rw [htenant] at hread hquota
          rw [hlimits, Option.some.injEq] at hread
          rw [hread]
          exact (quotaError_none hquota).1
    | kept hold hactor =>
        have hroom := kept.room index session now hold htenant hcounted limits hlimits
        cases countCase kept.sound kept.keyed hnext hworker tenantId with
        | fewer hcount => exact Nat.lt_of_le_of_lt hcount hroom
        | @inserted other twin _ hactor' hcall' htenant' hcounted' =>
            -- both would hold the lock on the limits
            have hmine := kept.sound.locked.calls index session hold _
              (ControlPlane.held_of_counted hcounted)
            have hother := kept.sound.locked.calls other twin hcall' _
              (ControlPlane.held_of_counted hcounted')
            rw [htenant'] at hother
            rw [htenant, hother, Option.some.injEq] at hmine
            rw [hmine] at hactor'
            exact absurd hactor' hactor

/-- Creations, approves and cancels keep the tenant within its active quota. -/
theorem activeQuota {h : History State Action} (run : ControlPlaneRun env tenantId h s) :
    WithinActiveQuota tenantId s := by
  obtain ⟨exec, hworkers⟩ := run
  have kept : ActiveQuotaKept tenantId s := by
    refine Exec.always_within (C := fun _ _ a => ∀ index, actor a ≠ some (.worker index))
      ?_ ?_ exec (within_iff.mpr hworkers)
    · rintro s ⟨hrest, hwithin⟩
      exact ⟨hrest.sound, hrest.keyed, hwithin, by simp [hrest.calls], by simp [hrest.calls]⟩
    · intro h s a s' _ kept hworker hnext
      exact kept.next hnext hworker
  exact kept.within

end

/-! ## The daily quota -/

/-- The UTC calendar day of an instant. -/
def utcDay (instant : Int) : Int := instant / ControlPlane.day

def runsOnDay (s : State) (tenantId : Uuid) (date : Int) : Nat :=
  s.db.runs.countP fun row => row.tenantId = tenantId && utcDay row.createdAt = date

def WithinDailyQuota (s : State) : Prop :=
  ∀ tenantId limits, s.db.limits? tenantId = some limits →
    ∀ date, runsOnDay s tenantId date ≤ limits.maxRunsPerDay

/-- A quota check sees every run of its tenant that was created on the transaction's UTC day. -/
def DayCounted (env : Env) (s : State) (a : Action) : Prop :=
  ∀ (index : Nat) (session : ControlPlane.Session) create now limits,
    actor a = some (.call index) → s.calls[index]? = some session →
      session.pc = .createUsage create now limits →
        ∀ row ∈ s.db.runs, row.tenantId = session.principal.tenantId →
          utcDay row.createdAt = utcDay now → ControlPlane.startOfToday env now ≤ row.createdAt

/-- The runs of the system, from any database at rest within the daily quotas. -/
abbrev DailyRun (env : Env) : History State Action → State → Prop :=
  Exec (fun s => AtRest s ∧ WithinDailyQuota s) (next env)

structure DailyQuotaKept (s : State) : Prop where
  sound : Sound s
  within : WithinDailyQuota s
  read : ∀ (index : Nat) (session : ControlPlane.Session) limits,
    s.calls[index]? = some session → session.pc.limits? = some limits →
      s.db.limits? session.principal.tenantId = some limits
  room : ∀ (index : Nat) (session : ControlPlane.Session) now limits,
    s.calls[index]? = some session → session.pc.counted? = some now →
      s.db.limits? session.principal.tenantId = some limits →
        runsOnDay s session.principal.tenantId (utcDay now) < limits.maxRunsPerDay

section

variable {env : Env} {s s' : State} {a : Action} {tenantId : Uuid} {date : Int}

inductive DayCase (env : Env) (s s' : State) (a : Action) (tenantId : Uuid) (date : Int) : Prop
  | same (hcount : runsOnDay s' tenantId date = runsOnDay s tenantId date)
  | inserted {index : Nat} {session : ControlPlane.Session} {now : Int}
      (hactor : actor a = some (.call index)) (hcall : s.calls[index]? = some session)
      (htenant : session.principal.tenantId = tenantId)
      (hcounted : session.pc.counted? = some now) (hdate : utcDay now = date)
      (hcount : runsOnDay s' tenantId date ≤ runsOnDay s tenantId date + 1)

/-- The tenant and the time of creation of a run never change. -/
theorem runDays_next (hnext : next env s a = some s') (tenantId : Uuid) (date : Int) :
    runsOnDay s' tenantId date = runsOnDay s tenantId date +
      ((commitOf env s a).bind Commit.inserted?).toList.countP fun row =>
        row.tenantId = tenantId && utcDay row.createdAt = date := by
  obtain ⟨events, outbox, audits, hdb⟩ := next_db hnext
  have column : ∀ rows : List RunRow,
      rows.countP (fun row => row.tenantId = tenantId && utcDay row.createdAt = date) =
        (rows.map fun row => (row.tenantId, row.createdAt)).countP fun created =>
          created.1 = tenantId && utcDay created.2 = date := by
    intro rows
    rw [List.countP_map]
    rfl
  unfold runsOnDay
  rw [hdb]
  cases hcommit : commitOf env s a with
  | none => rfl
  | some change =>
      rw [Db.after, column, runs_commit_map (fun row => (row.tenantId, row.createdAt))
        (fun h => by rw [h.tenantId, h.createdAt]), List.countP_append, ← column]
      cases hinserted : change.inserted? with
      | none => simp [hinserted, Db.draw]
      | some row => simp [hinserted, Db.draw, List.countP_cons]

theorem dayCase (sound : Sound s) (hnext : next env s a = some s') (tenantId : Uuid)
    (date : Int) : DayCase env s s' a tenantId date := by
  have hdays := runDays_next hnext tenantId date
  cases hinserted : (commitOf env s a).bind Commit.inserted? with
  | none =>
      rw [hinserted] at hdays
      exact .same hdays
  | some row =>
      rw [hinserted] at hdays
      obtain ⟨index, choice, session, writes, stored, rfl, hcommit, hcall, hpc, hwrite⟩ :=
        inserted_commits hinserted
      obtain ⟨create, id, now, budgetCents, -, hnew⟩ := sound.insert_eq hcall hpc hwrite
      by_cases hmine : row.tenantId = tenantId ∧ utcDay row.createdAt = date
      · have hcounted : session.pc.counted? = some row.createdAt := by
          simp [hpc, ControlPlane.Pc.counted?, ControlPlane.Pc.writes?, hwrite, RunWrite.inserted?]
        refine .inserted rfl hcall ?_ hcounted hmine.2 ?_
        · rw [← hmine.1, hnew]
          rfl
        · rw [hdays]
          exact Nat.add_le_add_left List.countP_le_length _
      · refine .same (hdays.trans ?_)
        simpa using hmine

/-- The daily count of a check that misses no run of the day bounds the runs of the day. -/
theorem runsOnDay_le {now : Int}
    (hday : ∀ row ∈ s.db.runs, row.tenantId = tenantId →
      utcDay row.createdAt = utcDay now → ControlPlane.startOfToday env now ≤ row.createdAt) :
    runsOnDay s tenantId (utcDay now) ≤ ControlPlane.runsToday env s.toShared now tenantId := by
  refine List.countP_mono_left ?_
  intro row hrow htest
  simp only [Bool.and_eq_true, decide_eq_true_eq] at htest ⊢
  exact ⟨htest.1, hday row hrow htest.1 htest.2⟩

theorem DailyQuotaKept.next (kept : DailyQuotaKept s) (hday : DayCounted env s a)
    (hnext : next env s a = some s') : DailyQuotaKept s' where
  sound := kept.sound.next hnext
  within := by
    intro tenantId limits hlimits date
    rw [limits?_next hnext] at hlimits
    cases dayCase kept.sound hnext tenantId date with
    | same hcount =>
        rw [hcount]
        exact kept.within tenantId limits hlimits date
    | inserted hactor hcall htenant hcounted hdate hcount =>
        subst htenant hdate
        exact Nat.le_trans hcount (kept.room _ _ _ limits hcall hcounted hlimits)
  read := by
    intro index session limits hcall hread
    rw [limits?_next hnext]
    cases call_case hnext hcall with
    | kept hold hactor => exact kept.read index session limits hold hread
    | joined => cases hread
    | turned hold hactor hcommit hturn hstate =>
        rw [hturn.same.1]
        exact (hturn.readLimits hread).2
  room := by
    intro index session now limits hcall hcounted hlimits
    rw [limits?_next hnext] at hlimits
    have hcase := dayCase kept.sound hnext session.principal.tenantId (utcDay now)
    cases call_case hnext hcall with
    | joined => cases hcounted
    | @turned old moved effect hold hactor hcommit hturn hstate =>
        obtain ⟨hquiet, hcounted⟩ := hturn.counted hcounted
        rw [hturn.same.1] at hlimits hcase ⊢
        have hsame : runsOnDay s' old.principal.tenantId (utcDay now) =
            runsOnDay s old.principal.tenantId (utcDay now) := by
          rw [runDays_next hnext, hcommit, hquiet]
          rfl
        rw [hsame]
        rcases hcounted with hmine | ⟨create, limits', hpc, hquota⟩
        · exact kept.room index old now limits hold hmine hlimits
        · have hread := kept.read index old limits' hold (by rw [hpc]; rfl)
          rw [hlimits, Option.some.injEq] at hread
          subst hread
          exact Nat.lt_of_le_of_lt
            (runsOnDay_le (hday index old create now limits hactor hold hpc))
            (quotaError_none hquota).2
    | kept hold hactor =>
        have hroom := kept.room index session now limits hold hcounted hlimits
        cases hcase with
        | same hcount => rwa [hcount]
        | @inserted other twin _ hactor' hcall' htenant' hcounted' =>
            have hmine := kept.sound.locked.calls index session hold _
              (ControlPlane.held_of_counted hcounted)
            have hother := kept.sound.locked.calls other twin hcall' _
              (ControlPlane.held_of_counted hcounted')
            rw [htenant', hmine, Option.some.injEq] at hother
            rw [← hother] at hactor'
            exact absurd hactor' hactor

/-- With every daily check complete, no UTC day has more runs of a tenant than its quota. -/
theorem dailyQuota {h : History State Action} (run : DailyRun env h s)
    (hday : Within (fun _ => DayCounted env) h) : WithinDailyQuota s := by
  have kept : DailyQuotaKept s := by
    refine Exec.always_within ?_ ?_ run hday
    · rintro s ⟨hrest, hwithin⟩
      exact ⟨hrest.sound, hwithin, by simp [hrest.calls], by simp [hrest.calls]⟩
    · intro h s a s' _ kept hday hnext
      exact kept.next hday hnext
  exact kept.within

/-- In a session whose zone is UTC or lies east of it, every check is complete. -/
theorem dayCounted_of_east
    (heast : ∀ date, env.timestampToInstant (date * ControlPlane.day) ≤ date * ControlPlane.day)
    (s : State) (a : Action) : DayCounted env s a := by
  intro index session create now limits _ _ _ row _ _ hdate
  have hstart : now - now % ControlPlane.day = utcDay now * ControlPlane.day := by
    have := Int.mul_ediv_add_emod now ControlPlane.day
    unfold utcDay
    rw [Int.mul_comm]
    omega
  unfold ControlPlane.startOfToday
  rw [hstart, ← hdate]
  refine Int.le_trans (heast _) ?_
  exact Int.ediv_mul_le _ (by decide)

end

/-! ## Two creations -/

def otherCreate : ControlPlane.Request :=
  .createRun ⟨Scenario.workflowId, .obj [("url", .str "https://example.com/data")], none,
    "idempotency-key-2"⟩

/-- Two creations that count at the same time; the second waits for the lock of the first. -/
def concurrentCreates : List Action :=
  .createWorkflow Scenario.owner Scenario.workflowId (Scenario.workflow [Scenario.dataRead]) ::
    Scenario.createRun :: .request Scenario.owner otherCreate ::
      [.call 0 0, .call 0 0, .call 0 0, .call 1 0, .call 1 0, .call 1 0] ++
        List.replicate 9 (.call 0 Scenario.runId) ++ List.replicate 2 (.call 1 5)

def isWorkerAction (a : Action) : Bool :=
  match actor a with
  | some (.worker _) => true
  | _ => false

theorem initial_within {tenantId : Uuid} {s : State} (h : Initial s) :
    WithinActiveQuota tenantId s := by
  intro limits _
  simp [ControlPlane.activeRuns, h.runs]

theorem concurrentCreates_activeQuota : ∃ h t,
    ControlPlaneRun Scenario.env Scenario.tenantId h t ∧
      ControlPlane.activeRuns t.toShared Scenario.tenantId = 1 ∧
        WithinActiveQuota Scenario.tenantId t := by
  obtain ⟨h, t, run, htest⟩ := Scenario.exists_run 1 concurrentCreates
    (fun h t => ControlPlane.activeRuns t.toShared Scenario.tenantId = 1 &&
      h.all fun p => !isWorkerAction p.2) (by decide +kernel)
  simp only [Bool.and_eq_true, decide_eq_true_eq, List.all_eq_true, Bool.not_eq_true'] at htest
  have exec : ControlPlaneRun Scenario.env Scenario.tenantId h t := by
    refine ⟨run.weaken fun s hs => ⟨hs.atRest, initial_within hs⟩, ?_⟩
    intro p hp index hactor
    have hworker := htest.2 p hp
    rw [isWorkerAction, hactor] at hworker
    cases hworker
  exact ⟨h, t, exec, htest.1, activeQuota exec⟩

/-- A quota of one run a day. -/
def startDaily : State :=
  { Scenario.start 5 with
    db := { (Scenario.start 5).db with limits := [⟨Scenario.tenantId, 5, 1⟩] } }

theorem initial_startDaily : Initial startDaily := by
  constructor <;> rfl

/-- Two creations at midnight UTC, one after the other. -/
def createdAtMidnight : List Action :=
  Scenario.createActions [Scenario.dataRead] ++ .request Scenario.owner otherCreate ::
    List.replicate 5 (.call 1 5)

/-- A session of the zone UTC-5, where the UTC midnight of a timestamp is read as 5 a.m. UTC. -/
def westernEnv : Env := { Scenario.env with timestampToInstant := fun t => t + 18000000000 }

theorem initial_dailyRun {env : Env} {h : History State Action} {t : State} (run : Run env h t) :
    DailyRun env h t := by
  refine run.weaken fun s hs => ⟨hs.atRest, ?_⟩
  intro tenantId limits _ date
  simp [runsOnDay, hs.runs]

/-- In UTC the second creation of the day is refused. -/
theorem createdAtMidnight_dailyQuota : ∃ h t, DailyRun Scenario.env h t ∧
    runsOnDay t Scenario.tenantId 0 = 1 ∧ WithinDailyQuota t := by
  obtain ⟨h, t, run, htest⟩ := Scenario.exists_run_of Scenario.env initial_startDaily
    createdAtMidnight
    (fun _ t => runsOnDay t Scenario.tenantId 0 = 1) (by decide +kernel)
  refine ⟨h, t, initial_dailyRun run, of_decide_eq_true htest, dailyQuota (initial_dailyRun run) ?_⟩
  exact within_iff.mpr fun p _ => dayCounted_of_east (fun _ => Int.le_refl _) p.1 p.2

theorem not_withinDailyQuota : ¬∀ env h s, DailyRun env h s → WithinDailyQuota s := by
  intro hall
  obtain ⟨h, t, run, htest⟩ := Scenario.exists_run_of westernEnv initial_startDaily
    (createdAtMidnight ++ List.replicate 7 (.call 1 5))
    (fun _ t => runsOnDay t Scenario.tenantId 0 = 2 &&
      (t.db.limits? Scenario.tenantId).any fun limits => limits.maxRunsPerDay = 1)
    (by decide +kernel)
  simp only [Bool.and_eq_true, decide_eq_true_eq, Option.any_eq_true] at htest
  obtain ⟨htwo, limits, hlimits, hone⟩ := htest
  have hwithin := hall westernEnv h t (initial_dailyRun run) Scenario.tenantId limits hlimits 0
  omega

end DurableRuntime
