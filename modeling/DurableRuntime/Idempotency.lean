import DurableRuntime.Accounting

/-!
# Idempotent creation

Calls with one key find the run of the first of them at three places: the
lookup, the wait for the limits of the tenant and the insert.  Between the wait
and the insert stands the quota check, which also counts the run that the call
is about to find.
-/

namespace DurableRuntime

open DurableRuntime.Foundation

namespace ControlPlane

/-- The call has the given tenant and request. -/
structure Twin (tenantId : Uuid) (create : CreateRun) (session : Session) : Prop where
  tenant : session.principal.tenantId = tenantId
  request : session.request = .createRun create

/-- The handler passes the request on to the store. -/
def Admitted (principal : Principal) (create : CreateRun) : Prop :=
  principal.role ∈ privilegedRoles ∧
    ¬(utf16Length create.idempotencyKey < 16 ∨ 128 < utf16Length create.idempotencyKey)

/-- The call has been refused, and not because the database has failed. -/
def Refused (pc : Pc) : Prop :=
  ∃ status message, pc = .done (.error status message) ∧
    Response.error status message ≠ databaseError

/-- The call has returned the run of another one. -/
def Replays (session : Session) (runId : Uuid) : Prop :=
  ∃ run, session.pc = .done (.created run true) ∧ run.id = runId

/-- The call has returned from the store. -/
def Completes (create : CreateRun) (session : Session) : Prop :=
  Admitted session.principal create ∧
    ∃ response, session.pc = .done response ∧ response ≠ databaseError

end ControlPlane

/-- One run with its records, for the key. -/
structure CreatedOnce (db : Db) (tenantId : Uuid) (idempotencyKey : String) (runId : Uuid) :
    Prop where
  runs : ∃ row, db.runs.filter (fun row => row.key = (tenantId, idempotencyKey)) = [row] ∧
    row.id = runId
  created : eventCount db runId .created = 1
  outbox : outboxCount db runId = 1 + eventCount db runId .approved
  audit : auditCount db runId "run.created" = 1

/--
Once one call has created the run, whether or not it has learned of its commit,
the run is there once and every twin that completes has returned it.
-/
def IdempotentCreation (h : History State Action) (t : State) : Prop :=
  ∀ (index : Nat) (session : ControlPlane.Session) create runId,
    t.calls[index]? = some session → session.request = .createRun create →
      createdRun? index h = some runId →
        CreatedOnce t.db session.principal.tenantId create.idempotencyKey runId ∧
          ∀ (other : Nat) (twin : ControlPlane.Session), other ≠ index →
            t.calls[other]? = some twin →
              ControlPlane.Twin session.principal.tenantId create twin →
                ControlPlane.Completes create twin → ControlPlane.Replays twin runId

/--
The quota check of a call whose twin has created the run succeeds, and no twin was
refused before.
-/
structure TwinsAdmitted (env : Env) (h : History State Action) (s : State) (a : Action) :
    Prop where
  spared : ∀ (index : Nat) choice (session : ControlPlane.Session) create now limits,
    a = .call index choice → s.calls[index]? = some session →
      session.pc = .createUsage create now limits →
        (∃ (other : Nat) (twin : ControlPlane.Session), s.calls[other]? = some twin ∧
          ControlPlane.Twin session.principal.tenantId create twin ∧
            (createdRun? other h).isSome = true) →
          ControlPlane.quotaError env s.toShared now limits session.principal.tenantId = none
  first : ∀ (index : Nat) choice (session : ControlPlane.Session) create writes run row,
    a = .call index choice → s.calls[index]? = some session →
      session.pc = .commit writes run → writes.run = .insert row →
        session.request = .createRun create →
          ∀ twin ∈ s.calls, ControlPlane.Twin session.principal.tenantId create twin →
            ControlPlane.Admitted twin.principal create → ¬ControlPlane.Refused twin.pc

/-! ## Keys -/

section

variable {env : Env} {s s' : State} {a : Action} {h : History State Action}

/-- The run with this id has the key. -/
def Known (db : Db) (tenantId : Uuid) (idempotencyKey : String) (runId : Uuid) : Prop :=
  ∃ row, db.run? runId = some row ∧ row.key = (tenantId, idempotencyKey)

theorem Known.next {tenantId : Uuid} {idempotencyKey : String} {runId : Uuid}
    (known : Known s.db tenantId idempotencyKey runId) (hnext : next env s a = some s') :
    Known s'.db tenantId idempotencyKey runId := by
  obtain ⟨row, hrow, hkey⟩ := known
  obtain ⟨row', hrow', hsame⟩ := (next_extends hnext).runs runId row hrow
  exact ⟨row', hrow', hsame.key.trans hkey⟩

theorem known_of_runByKey? (run : Run env h s) {tenantId : Uuid} {idempotencyKey : String}
    {row : RunRow} (hrow : s.db.runByKey? tenantId idempotencyKey = some row) :
    Known s.db tenantId idempotencyKey row.id :=
  ⟨row, Table.lookup_of_mem (run_runsKeyed run).ids (Table.lookup_mem hrow), Table.lookup_key hrow⟩

theorem Known.runByKey? (run : Run env h s) {tenantId : Uuid} {idempotencyKey : String}
    {runId : Uuid} (known : Known s.db tenantId idempotencyKey runId) :
    ∃ row, s.db.runByKey? tenantId idempotencyKey = some row ∧ row.id = runId := by
  obtain ⟨row, hrow, hkey⟩ := known
  refine ⟨row, ?_, Table.lookup_key hrow⟩
  rw [Db.runByKey?, ← hkey]
  exact Table.lookup_of_mem (run_runsKeyed run).keys (Table.lookup_mem hrow)

theorem Known.unique (run : Run env h s) {tenantId : Uuid} {idempotencyKey : String}
    {runId other : Uuid} (known : Known s.db tenantId idempotencyKey runId)
    (known' : Known s.db tenantId idempotencyKey other) : other = runId := by
  obtain ⟨row, hrow, rfl⟩ := known.runByKey? run
  obtain ⟨row', hrow', rfl⟩ := known'.runByKey? run
  rw [hrow, Option.some.injEq] at hrow'
  rw [hrow']

theorem Known.createdOnce (run : Run env h s) {tenantId : Uuid} {idempotencyKey : String}
    {runId : Uuid} (known : Known s.db tenantId idempotencyKey runId) :
    CreatedOnce s.db tenantId idempotencyKey runId := by
  have books := run_books run
  have hcreated : eventCount s.db runId .created = 1 := by
    obtain ⟨row, hrow, -⟩ := known
    rw [books.created, hrow]
    rfl
  refine ⟨?_, hcreated, ?_, ?_⟩
  · obtain ⟨row, hrow, hid⟩ := known.runByKey? run
    have hmem : row ∈ s.db.runs.filter fun row => row.key = (tenantId, idempotencyKey) := by
      simpa using ⟨Table.lookup_mem hrow, Table.lookup_key hrow⟩
    have hone : (s.db.runs.filter fun row => row.key = (tenantId, idempotencyKey)).length ≤ 1 := by
      refine Table.length_filter_le_one (run_runsKeyed run).keys ?_
      intro row _ other _ htest htest'
      rw [of_decide_eq_true htest, of_decide_eq_true htest']
    refine ⟨row, ?_, hid⟩
    cases hfilter : s.db.runs.filter fun row => row.key = (tenantId, idempotencyKey) with
    | nil => simp [hfilter] at hmem
    | cons first rest =>
        rw [hfilter] at hmem hone
        cases rest with
        | nil => rw [List.mem_singleton.mp hmem]
        | cons second rest => simp at hone
  · rw [books.outbox, hcreated]
  · rw [← hcreated, ← books.audits runId .created rfl]
    rfl

end

/-! ## What a creation has found -/

namespace ControlPlane

/-- The run that a call of `createRun` will answer with. -/
def Pc.answer? : Pc → Option Uuid
  | .replayEvents row _ => some row.id
  | .replayCommit run _ | .discard run | .committed (.created run _) | .done (.created run _) =>
      some run.id
  | _ => none

variable {env : Env} {s : Shared} {choice : Uuid} {session moved : Session} {pc pc' : Pc}
  {effect : Effect} {create : CreateRun}

/-- Where the answer of a creation comes from. -/
inductive Answer (env : Env) (s : Shared) (session : Session) (effect : Effect) (id : Uuid) : Prop
  | same (hold : session.pc.answer? = some id) (hquiet : effect.commit? = none)
  | found {create row} (hrequest : session.request = .createRun create)
      (hfound : s.db.runByKey? session.principal.tenantId create.idempotencyKey = some row)
      (hid : row.id = id) (hquiet : effect.commit? = none)
  | inserted {writes run row} (hpc : session.pc = .commit writes run)
      (hwrite : writes.run = .insert row) (hid : run.id = id)
      (heffect : effect.commit? = some (.request writes))

theorem startTransition_answer (role : Role) (runId : String) (args : TransitionArgs) :
    (startTransition role runId args).answer? = none := by
  unfold startTransition
  repeat' split
  all_goals rfl

theorem readRunCheck_answer (args : TransitionArgs) (runId : Uuid) (row : Option RunRow) :
    (readRunCheck args runId row).answer? = none := by
  unfold readRunCheck
  repeat' split
  all_goals rfl

theorem Turn.answer (hshape : Shaped session) (hturn : Turn env s session moved effect) {id : Uuid}
    (h : moved.pc.answer? = some id) : Answer env s session effect id := by
  cases hturn with
  | error => cases h
  | move hmove =>
      cases hmove with
      | start hpc hrequest hstart =>
          cases startCreate_start hstart with
          | _ => cases h
      | @inner pc' effect hmove =>
          unfold Shaped at hshape
          generalize hpc : session.pc = pc at hmove hshape
          cases hmove with
          | approve => simp [startTransition_answer] at h
          | cancel => simp [startTransition_answer] at h
          | readRun => simp [readRunCheck_answer] at h
          | lookupFound hfound =>
              cases h
              exact .found hshape hfound rfl rfl
          | racedFound hfound =>
              cases h
              exact .found hshape hfound rfl rfl
          | replayEvents row locked =>
              cases h
              exact .same (by rw [hpc]; rfl) rfl
          | replayCommit run locked =>
              cases h
              exact .same (by rw [hpc]; rfl) rfl
          | discardNone =>
              cases h
              exact .same (by rw [hpc]; rfl) rfl
          | discardSome =>
              cases h
              exact .same (by rw [hpc]; rfl) rfl
          | commit writes run =>
              cases hwrite : writes.run with
              | insert row =>
                  simp only [response, hwrite, Pc.answer?, Option.some.injEq] at h
                  exact .inserted hpc hwrite h rfl
              | update => simp [response, hwrite, Pc.answer?] at h
          | committed response => exact .same (by rw [hpc, ← h]; cases response <;> rfl) rfl
          | _ => cases h

/-- A creation that is not yet done goes through the store. -/
def AdmittedPc (session : Session) : Prop :=
  session.pc = .route ∨ (∃ response, session.pc = .done response) ∨
    ∀ create, session.request = .createRun create → Admitted session.principal create

theorem Turn.admitted (hturn : Turn env s session moved effect) (h : AdmittedPc session) :
    AdmittedPc moved := by
  cases hturn with
  | error => exact .inr (.inl ⟨_, rfl⟩)
  | move hmove =>
      cases hmove with
      | start hpc hrequest hstart =>
          have admitted : ∀ {create'}, session.request = .createRun create' →
              session.principal.role ∈ privilegedRoles →
              ¬(utf16Length create'.idempotencyKey < 16 ∨
                128 < utf16Length create'.idempotencyKey) →
              ∀ other, session.request = .createRun other → Admitted session.principal other := by
            intro create' hmine hrole hlength other hother
            rw [hmine, Request.createRun.injEq] at hother
            rw [← hother]
            exact ⟨hrole, hlength⟩
          cases startCreate_start hstart with
          | refused => exact .inr (.inl ⟨_, rfl⟩)
          | plain hrole hlength => exact .inr (.inr (admitted hrequest hrole hlength))
          | issue hrole hlength => exact .inr (.inr (admitted hrequest hrole hlength))
      | inner hmove =>
          rcases h with hroute | ⟨response, hdone⟩ | hadmitted
          · rw [hroute] at hmove
            cases hmove with
            | approve hrequest => exact .inr (.inr (by simp [hrequest]))
            | cancel hrequest => exact .inr (.inr (by simp [hrequest]))
          · rw [hdone] at hmove
            cases hmove
          · exact .inr (.inr hadmitted)

theorem PcMove.limited (hmove : PcMove env s choice session pc pc' effect)
    (h : pc'.limitsLocked = true) :
    pc.limitsLocked = true ∨ (s.db.limits? session.principal.tenantId).isSome = true := by
  cases hmove with
  | approve =>
      unfold startTransition at h
      repeat' split at h
      all_goals cases h
  | cancel =>
      unfold startTransition at h
      repeat' split at h
      all_goals cases h
  | readRun =>
      unfold readRunCheck at h
      repeat' split at h
      all_goals cases h
  | limitsFound hfree hlimits => exact .inr (by rw [hlimits]; rfl)
  | quotaFree => exact .inl rfl
  | workflowFound => exact .inl rfl
  | raced => exact .inl rfl
  | inserted => exact .inl rfl
  | racedFound => exact .inl rfl
  | replayEvents row locked => cases locked <;> first | exact .inl rfl | cases h
  | transitionUpdate => cases h
  | @eventQueued now eventType detail writes =>
      obtain ⟨write, event, outbox, audit⟩ := writes
      cases write <;> first | exact .inl rfl | cases h
  | @eventUnqueued now eventType detail writes =>
      obtain ⟨write, event, outbox, audit⟩ := writes
      cases write <;> first | exact .inl rfl | cases h
  | @queueOutbox now eventType writes =>
      obtain ⟨write, event, outbox, audit⟩ := writes
      cases write <;> first | exact .inl rfl | cases h
  | audit now eventType writes =>
      obtain ⟨write, event, outbox, audit⟩ := writes
      cases write <;> first | exact .inl rfl | cases h
  | readEvents writes =>
      obtain ⟨write, event, outbox, audit⟩ := writes
      cases write <;> first | exact .inl rfl | cases h
  | _ => cases h

theorem Turn.limited (hturn : Turn env s session moved effect)
    (h : moved.pc.limitsLocked = true) :
    session.pc.limitsLocked = true ∨
      (s.db.limits? session.principal.tenantId).isSome = true := by
  cases hturn with
  | error => cases h
  | move hmove =>
      cases hmove with
      | start hpc hrequest hstart =>
          cases startCreate_start hstart with
          | _ => cases h
      | inner hmove => exact hmove.limited h

theorem Turn.raced (hturn : Turn env s session moved effect)
    (hpc : moved.pc = .createRaced create) :
    ∃ row, s.db.runByKey? session.principal.tenantId create.idempotencyKey = some row := by
  cases hturn with
  | error => cases hpc
  | move hmove =>
      cases hmove with
      | start hroute hrequest hstart =>
          cases startCreate_start hstart with
          | _ => cases hpc
      | inner hmove =>
          generalize session.pc = old at hmove
          cases hmove with
          | approve =>
              unfold startTransition at hpc
              repeat' split at hpc
              all_goals cases hpc
          | cancel =>
              unfold startTransition at hpc
              repeat' split at hpc
              all_goals cases hpc
          | readRun =>
              unfold readRunCheck at hpc
              repeat' split at hpc
              all_goals cases hpc
          | raced hfree hfound =>
              cases hpc
              exact ⟨_, hfound⟩
          | _ => cases hpc

/-- The transaction has inserted a run. -/
def Pc.inserts (pc : Pc) : Bool :=
  match pc.writes?.map Writes.run with
  | some (.insert _) => true
  | _ => false

/-- An insert has got past the conversion of its input. -/
theorem Turn.inserts (hshape : Shaped session) (hturn : Turn env s session moved effect)
    (h : moved.pc.inserts = true) :
    session.pc.inserts = true ∨ ∃ create, session.request = .createRun create ∧
      PostgresDurableStore.jsonError env create.input = none := by
  cases hturn with
  | error => cases h
  | move hmove =>
      cases hmove with
      | start hpc hrequest hstart =>
          cases startCreate_start hstart with
          | _ => cases h
      | inner hmove =>
          unfold Shaped at hshape
          generalize session.pc = old at hmove hshape
          cases hmove with
          | approve =>
              unfold startTransition at h
              repeat' split at h
              all_goals cases h
          | cancel =>
              unfold startTransition at h
              repeat' split at h
              all_goals cases h
          | readRun =>
              unfold readRunCheck at h
              repeat' split at h
              all_goals cases h
          | inserted hfree habsent hinsertable hinput => exact .inr ⟨_, hshape, hinput⟩
          | eventQueued => exact .inl h
          | eventUnqueued => exact .inl h
          | queueOutbox => exact .inl h
          | audit => exact .inl h
          | readEvents => exact .inl h
          | _ => cases h

end ControlPlane

/-- Nothing that stays as it is refuses the creation. -/
structure Creatable (env : Env) (db : Db) (tenantId : Uuid) (create : ControlPlane.CreateRun) :
    Prop where
  defines : db.Defines tenantId create.workflowId
  limits : (db.limits? tenantId).isSome = true
  input : PostgresDurableStore.jsonError env create.input = none

/-- What the calls of `createRun` know of the database. -/
structure CreationsInformed (env : Env) (h : History State Action) (s : State) : Prop where
  answers : ∀ (index : Nat) (session : ControlPlane.Session) create id,
    s.calls[index]? = some session → session.request = .createRun create →
      session.pc.answer? = some id →
        Known s.db session.principal.tenantId create.idempotencyKey id
  raced : ∀ (index : Nat) (session : ControlPlane.Session) create,
    s.calls[index]? = some session → session.pc = .createRaced create →
      ∃ id, Known s.db session.principal.tenantId create.idempotencyKey id
  limited : ∀ (index : Nat) (session : ControlPlane.Session), s.calls[index]? = some session →
    session.pc.limitsLocked = true →
      (s.db.limits? session.principal.tenantId).isSome = true
  created : ∀ (index : Nat) (session : ControlPlane.Session) create id,
    s.calls[index]? = some session → session.request = .createRun create →
      createdRun? index h = some id →
        Creatable env s.db session.principal.tenantId create ∧
          Known s.db session.principal.tenantId create.idempotencyKey id
  inputs : ∀ (index : Nat) (session : ControlPlane.Session) create,
    s.calls[index]? = some session → session.request = .createRun create →
      session.pc.inserts = true → PostgresDurableStore.jsonError env create.input = none
  admitted : ∀ (index : Nat) (session : ControlPlane.Session), s.calls[index]? = some session →
    ControlPlane.AdmittedPc session

section

variable {env : Env} {s s' : State} {a : Action} {h : History State Action}

theorem known_inserted (hnext : next env s a = some s') {writes : Writes} {row : RunRow}
    (hcommit : commitOf env s a = some (.request writes)) (hwrite : writes.run = .insert row)
    (habsent : s.db.run? row.id = none) : Known s'.db row.tenantId row.idempotencyKey row.id := by
  refine ⟨row, ?_, rfl⟩
  rw [next_run? hnext, hcommit]
  simp [Commit.rowAfter, RunWrite.rowAfter, hwrite, habsent]

theorem CreationsInformed.answers_next (run : Run env h s) (informed : CreationsInformed env h s)
    (hnext : next env s a = some s') {index : Nat} {session : ControlPlane.Session}
    {create : ControlPlane.CreateRun} {id : Uuid} (hcall : s'.calls[index]? = some session)
    (hrequest : session.request = .createRun create) (hanswer : session.pc.answer? = some id) :
    Known s'.db session.principal.tenantId create.idempotencyKey id := by
  cases call_case hnext hcall with
  | kept hold hactor =>
      exact (informed.answers index session create id hold hrequest hanswer).next hnext
  | joined => cases hanswer
  | @turned old moved effect hold hactor hcommit hturn hstate =>
      obtain ⟨hprincipal, hrequest'⟩ := hturn.same
      rw [hrequest'] at hrequest
      rw [hprincipal]
      have shaped := (run_shaped run).calls index old hold
      cases hturn.answer shaped hanswer with
      | same hmine => exact (informed.answers index old create id hold hrequest hmine).next hnext
      | found hrequest'' hfound hid =>
          rw [hrequest, ControlPlane.Request.createRun.injEq] at hrequest''
          subst hrequest''
          rw [← hid]
          exact (known_of_runByKey? run hfound).next hnext
      | @inserted writes stored row hpc hwrite hid heffect =>
          have sound := run_sound run
          obtain ⟨create', key, now, budgetCents, hrequest'', hnew⟩ :=
            sound.insert_eq hold hpc hwrite
          rw [hrequest, ControlPlane.Request.createRun.injEq] at hrequest''
          subst hrequest''
          have habsent := (sound.snapshots.inserts index old writes row hold (by rw [hpc]; rfl)
            hwrite).1
          rw [ControlPlane.Shaped, hpc] at shaped
          obtain ⟨-, events, hstored⟩ := shaped
          have hinserted := known_inserted hnext (hcommit.trans heffect) hwrite habsent
          have hid' : id = row.id := by
            rw [← hid, hstored, hwrite]
            rfl
          rw [hid']
          rw [hnew] at hinserted ⊢
          exact hinserted

/-- A call keeps its principal and its request. -/
theorem call_same (hnext : next env s a = some s') {index : Nat}
    {session : ControlPlane.Session} (hlt : index < s.calls.length)
    (hcall : s'.calls[index]? = some session) :
    ∃ old, s.calls[index]? = some old ∧ session.principal = old.principal ∧
      session.request = old.request := by
  cases call_case hnext hcall with
  | kept hold => exact ⟨session, hold, rfl, rfl⟩
  | joined haction hnew => exact absurd (List.getElem?_eq_none_iff.mp hnew) (Nat.not_le.mpr hlt)
  | turned hold hactor hcommit hturn => exact ⟨_, hold, hturn.same⟩

/-- A call has arrived before the step that creates its run. -/
theorem created_known (run : Run env h s) {index : Nat} {id : Uuid}
    (hcreated : createdRun? index (h ++ [(s, a)]) = some id) : index < s.calls.length := by
  rw [createdRun?_snoc, Option.or_eq_some_iff] at hcreated
  rcases hcreated with hcreated | ⟨-, hcreated⟩
  · obtain ⟨p, hp, hcreated⟩ := List.exists_of_findSome?_eq_some hcreated
    obtain ⟨choice, session, writes, stored, row, haction, -⟩ :=
      @createdBy_commit p.1 p.2 index id hcreated
    exact (run_callPasts run).known p hp index (by rw [haction]; rfl)
  · obtain ⟨choice, session, writes, stored, row, -, hcall, -⟩ := createdBy_commit hcreated
    exact (List.getElem?_eq_some_iff.mp hcall).1

theorem Creatable.next (hnext : next env s a = some s') {tenantId : Uuid}
    {create : ControlPlane.CreateRun} (h : Creatable env s.db tenantId create) :
    Creatable env s'.db tenantId create := by
  have hextends := next_extends hnext
  obtain ⟨⟨definition, hdefinition, htenant⟩, hlimits, hinput⟩ := h
  refine ⟨⟨definition, hextends.definition? hdefinition, htenant⟩, ?_, hinput⟩
  rwa [Db.limits?, hextends.limits]

/-- A call that inserts its run meets nothing that refuses it, and finds its key unused. -/
theorem CreationsInformed.creating (run : Run env h s) (informed : CreationsInformed env h s)
    {index : Nat} {session : ControlPlane.Session} {create : ControlPlane.CreateRun}
    {writes : Writes} {stored : ControlPlane.StoredRun} {row : RunRow}
    (hcall : s.calls[index]? = some session) (hrequest : session.request = .createRun create)
    (hpc : session.pc = .commit writes stored) (hwrite : writes.run = .insert row) :
    Creatable env s.db session.principal.tenantId create ∧
      s.db.runByKey? session.principal.tenantId create.idempotencyKey = none ∧
        s.db.run? row.id = none ∧
          row.key = (session.principal.tenantId, create.idempotencyKey) := by
  obtain ⟨habsent, hunused⟩ := (run_sound run).snapshots.inserts index session writes row hcall
    (by rw [hpc]; rfl) hwrite
  obtain ⟨create', key, now, budgetCents, hrequest', hnew⟩ :=
    (run_sound run).insert_eq hcall hpc hwrite
  rw [hrequest, ControlPlane.Request.createRun.injEq] at hrequest'
  subst hrequest'
  have hinserts : session.pc.inserts = true := by
    rw [hpc]
    simp [ControlPlane.Pc.inserts, ControlPlane.Pc.writes?, hwrite]
  refine ⟨⟨?_, ?_, informed.inputs index session create hcall hrequest hinserts⟩, ?_, habsent, ?_⟩
  · refine (run_referenced run).calls index session create.workflowId hcall ?_
    simp [hpc, ControlPlane.Pc.references?, ControlPlane.Pc.writes?, hwrite,
      RunWrite.inserted?, hnew, ControlPlane.newRun]
  · refine informed.limited index session hcall ?_
    obtain ⟨write, event, outbox, audit⟩ := writes
    cases hwrite
    rw [hpc]
    rfl
  · rw [hnew] at hunused
    exact hunused
  · rw [hnew]
    rfl

theorem CreationsInformed.created_next (run : Run env h s) (informed : CreationsInformed env h s)
    (hnext : next env s a = some s') {index : Nat} {session : ControlPlane.Session}
    {create : ControlPlane.CreateRun} {id : Uuid} (hcall : s'.calls[index]? = some session)
    (hrequest : session.request = .createRun create)
    (hcreated : createdRun? index (h ++ [(s, a)]) = some id) :
    Creatable env s'.db session.principal.tenantId create ∧
      Known s'.db session.principal.tenantId create.idempotencyKey id := by
  obtain ⟨old, hold, hprincipal, hrequest'⟩ :=
    call_same hnext (created_known run hcreated) hcall
  rw [hrequest'] at hrequest
  rw [hprincipal]
  rw [createdRun?_snoc, Option.or_eq_some_iff] at hcreated
  rcases hcreated with hcreated | ⟨-, hcreated⟩
  · obtain ⟨hcreatable, known⟩ := informed.created index old create id hold hrequest hcreated
    exact ⟨hcreatable.next hnext, known.next hnext⟩
  · obtain ⟨choice, session', writes, stored, row, rfl, hold', hpc, hwrite, rfl⟩ :=
      createdBy_commit hcreated
    cases hold.symm.trans hold'
    obtain ⟨hcreatable, -, habsent, hkey⟩ := informed.creating run hold hrequest hpc hwrite
    have hcommit : commitOf env s (.call index choice) = some (.request writes) := by
      simp [commitOf, hold, ControlPlane.step, ControlPlane.stepPc, hpc, Effect.commit?]
    refine ⟨hcreatable.next hnext, ?_⟩
    have hinserted := known_inserted hnext hcommit hwrite habsent
    obtain ⟨htenant, hidempotency⟩ := Prod.ext_iff.mp hkey
    rwa [show row.tenantId = _ from htenant, show row.idempotencyKey = _ from hidempotency]
      at hinserted

theorem run_creationsInformed (run : Run env h s) : CreationsInformed env h s := by
  refine @Exec.invariant _ _ _ _ (CreationsInformed env) ?_ ?_ _ _ run
  · intro s hs
    exact ⟨by simp [hs.calls], by simp [hs.calls], by simp [hs.calls], by simp [hs.calls],
      by simp [hs.calls], by simp [hs.calls]⟩
  · intro h s a s' run informed hnext
    have hextends := next_extends hnext
    refine ⟨?_, ?_, ?_, ?_, ?_, ?_⟩
    · intro index session create id hcall hrequest hanswer
      exact informed.answers_next run hnext hcall hrequest hanswer
    · intro index session create hcall hpc
      cases call_case hnext hcall with
      | kept hold hactor =>
          obtain ⟨id, known⟩ := informed.raced index session create hold hpc
          exact ⟨id, known.next hnext⟩
      | joined => cases hpc
      | @turned old moved effect hold hactor hcommit hturn hstate =>
          rw [hturn.same.1]
          obtain ⟨row, hfound⟩ := hturn.raced hpc
          exact ⟨row.id, (known_of_runByKey? run hfound).next hnext⟩
    · intro index session hcall hlimited
      rw [Db.limits?, hextends.limits]
      cases call_case hnext hcall with
      | kept hold hactor => exact informed.limited index session hold hlimited
      | joined => cases hlimited
      | @turned old moved effect hold hactor hcommit hturn hstate =>
          rw [hturn.same.1]
          rcases hturn.limited hlimited with hmine | hread
          · exact informed.limited index old hold hmine
          · exact hread
    · intro index session create id hcall hrequest hcreated
      exact informed.created_next run hnext hcall hrequest hcreated
    · intro index session create hcall hrequest hinserts
      cases call_case hnext hcall with
      | kept hold hactor => exact informed.inputs index session create hold hrequest hinserts
      | joined => cases hinserts
      | @turned old moved effect hold hactor hcommit hturn hstate =>
          rw [hturn.same.2] at hrequest
          cases hturn.inserts ((run_shaped run).calls index old hold) hinserts with
          | inl hmine => exact informed.inputs index old create hold hrequest hmine
          | inr haccepted =>
              obtain ⟨create', hrequest', hinput⟩ := haccepted
              cases hrequest.symm.trans hrequest'
              exact hinput
    · intro index session hcall
      cases call_case hnext hcall with
      | kept hold hactor => exact informed.admitted index session hold
      | joined => exact .inl rfl
      | turned hold hactor hcommit hturn hstate =>
          exact hturn.admitted (informed.admitted index _ hold)

end

/-! ## Refusals -/

namespace ControlPlane

variable {env : Env} {s : Shared} {session moved : Session} {effect : Effect} {create : CreateRun}

/-- Why a call of `createRun` ends in an error. -/
inductive Refusal (env : Env) (s : Shared) (session : Session) (create : CreateRun)
    (response : Response) : Prop
  | database (hresponse : response = databaseError)
  | unadmitted (hrefused : ¬Admitted session.principal create)
  | limits (hlimits : s.db.limits? session.principal.tenantId = none)
  | quota {now limits message} (hpc : session.pc = .createUsage create now limits)
      (hquota : quotaError env s now limits session.principal.tenantId = some message)
  | workflow (hworkflow : ¬s.db.Defines session.principal.tenantId create.workflowId)
  | input (hinput : PostgresDurableStore.jsonError env create.input ≠ none)
  | raced (hpc : session.pc = .createRaced create)
      (habsent : s.db.runByKey? session.principal.tenantId create.idempotencyKey = none)

theorem Turn.refusal (hshape : Shaped session) (hasked : Asked session)
    (hcommitted : ∀ response, session.pc = .committed response → response.isCommitted = true)
    (hrequest : session.request = .createRun create) (hturn : Turn env s session moved effect)
    {status : Nat} {message : String} (hpc : moved.pc = .done (.error status message)) :
    Refusal env s session create (.error status message) := by
  cases hturn with
  | error =>
      cases hpc
      exact .database rfl
  | move hmove =>
      cases hmove with
      | start hroute hrequest' hstart =>
          rw [hrequest, Request.createRun.injEq] at hrequest'
          subst hrequest'
          cases startCreate_start hstart with
          | refused hrefused =>
              exact .unadmitted fun hadmitted => hadmitted.2 (hrefused hadmitted.1)
          | plain => cases hpc
          | issue => cases hpc
      | inner hmove =>
          unfold Shaped at hshape
          unfold Asked at hasked
          generalize hold : session.pc = old at hmove hshape hasked
          cases hmove with
          | approve hrequest' =>
              rw [hrequest] at hrequest'
              cases hrequest'
          | cancel hrequest' =>
              rw [hrequest] at hrequest'
              cases hrequest'
          | limitsMissing hfree hlimits => exact .limits hlimits
          | quotaExceeded hquota =>
              cases Request.createRun.inj (hrequest.symm.trans hshape)
              exact .quota hold hquota
          | workflowMissing hworkflow =>
              cases Request.createRun.inj (hrequest.symm.trans hshape)
              refine .workflow ?_
              rintro ⟨definition, hdefinition, htenant⟩
              simp [hdefinition, htenant] at hworkflow
          | racedMissing habsent =>
              cases Request.createRun.inj (hrequest.symm.trans hshape)
              exact .raced hold habsent
          | readRun =>
              rw [hrequest] at hasked
              cases hasked
          | runMissing =>
              rw [hrequest] at hasked
              cases hasked
          | transitionInvalid =>
              rw [hrequest] at hasked
              cases hasked
          | @queueRefused now eventType writes hrefused =>
              obtain ⟨hopened, -⟩ := hshape
              cases hwrite : writes.run with
              | insert row =>
                  rw [hwrite] at hopened
                  obtain ⟨-, create', id, now', budgetCents, -, rfl⟩ := hopened
                  refine absurd ?_ hrefused
                  rw [hwrite]
                  exact ⟨rfl, rfl⟩
              | update =>
                  simp only [hwrite, hrequest, AskedWrite] at hasked
                  obtain ⟨args, hasks, -⟩ := hasked
                  cases hasks
          | inputRefused hinput =>
              cases Request.createRun.inj (hrequest.symm.trans hshape)
              exact .input (by simp [hinput])
          | committed response =>
              cases hpc
              cases hcommitted _ hold
          | _ => cases hpc

end ControlPlane

/-- No twin of a call that has created its run is refused, or creates another. -/
def TwinsReplayed (h : History State Action) (s : State) : Prop :=
  ∀ (index : Nat) (session : ControlPlane.Session) create runId,
    s.calls[index]? = some session → session.request = .createRun create →
      createdRun? index h = some runId →
        ∀ (other : Nat) (twin : ControlPlane.Session), other ≠ index →
          s.calls[other]? = some twin →
            ControlPlane.Twin session.principal.tenantId create twin →
              (ControlPlane.Admitted twin.principal create → ¬ControlPlane.Refused twin.pc) ∧
                createdRun? other h = none

section

variable {env : Env} {s s' : State} {a : Action} {h : History State Action}

/-- What a call answers once its transaction has committed, is no error. -/
theorem committed_isCommitted (run : Run env h s) {index : Nat} {session : ControlPlane.Session}
    {response : ControlPlane.Response} (hcall : s.calls[index]? = some session)
    (hpc : session.pc = .committed response) : response.isCommitted = true := by
  cases (run_callPasts run).calls index session hcall with
  | quiet _ hopen =>
      rw [hpc] at hopen
      cases hopen
  | committed honly hcall' hcommit hreplied =>
      rw [hpc] at hreplied
      cases hreplied with
      | awaited => exact ControlPlane.response_isCommitted _ _

/-- A call that is answered with a new run has created it. -/
theorem created_of_answer (run : Run env h s) {index : Nat} {session : ControlPlane.Session}
    {answer : ControlPlane.StoredRun} (hcall : s.calls[index]? = some session)
    (hpc : session.pc = .done (.created answer false)) :
    createdRun? index h ≠ none := by
  cases (run_callPasts run).calls index session hcall with
  | quiet _ hopen =>
      rw [hpc] at hopen
      cases hopen
  | @committed t a writes stored honly hcall' hcommit hreplied =>
      obtain ⟨hactor, h₁, h₂, rfl, -⟩ := honly
      have hresponse := hreplied.response hpc (by simp [databaseError])
      simp only [ControlPlane.response] at hresponse
      split at hresponse
      · rename_i row hwrite
        intro hnone
        have hlast := List.findSome?_eq_none_iff.mp hnone (t, a) (by simp)
        obtain ⟨choice, rfl⟩ : ∃ choice, a = .call index choice := by
          cases commitOf_commits hcommit with
          | request => cases hactor; exact ⟨_, rfl⟩
        rw [createdBy_call hcall'] at hlast
        simp [ControlPlane.Pc.creating?, hwrite] at hlast
      · cases hresponse

theorem Known.not_absent (run : Run env h s) {tenantId : Uuid} {idempotencyKey : String}
    {id : Uuid} (known : Known s.db tenantId idempotencyKey id) :
    s.db.runByKey? tenantId idempotencyKey ≠ none := by
  obtain ⟨row, hrow, -⟩ := known.runByKey? run
  rw [hrow]
  simp

/-- A twin of a call that has created its run is not refused by its next statement. -/
theorem twin_notRefused (run : Run env h s) (hadmitted : TwinsAdmitted env h s a)
    (hnext : next env s a = some s') {index other : Nat} {session twin : ControlPlane.Session}
    {create : ControlPlane.CreateRun} {runId : Uuid} (hcall : s.calls[index]? = some session)
    (hrequest : session.request = .createRun create) (hcreated : createdRun? index h = some runId)
    (hcreatable : Creatable env s.db session.principal.tenantId create)
    (known : Known s.db session.principal.tenantId create.idempotencyKey runId)
    (hbefore : ∀ twin, s.calls[other]? = some twin →
      ControlPlane.Twin session.principal.tenantId create twin →
        ControlPlane.Admitted twin.principal create → ¬ControlPlane.Refused twin.pc)
    (htwin : s'.calls[other]? = some twin)
    (htwins : ControlPlane.Twin session.principal.tenantId create twin) :
    ControlPlane.Admitted twin.principal create → ¬ControlPlane.Refused twin.pc := by
  cases call_case hnext htwin with
  | kept htwin₀ hactor => exact hbefore twin htwin₀ htwins
  | joined =>
      rintro - ⟨status, message, hpc, -⟩
      cases hpc
  | @turned old moved effect htwin₀ hactor hcommit hturn hstate =>
      obtain ⟨hprincipal, hrequest'⟩ := hturn.same
      obtain ⟨htenant, hsame⟩ := htwins
      rw [hprincipal] at htenant ⊢
      rw [hrequest'] at hsame
      rintro hreaches ⟨status, message, hpc, hresponse⟩
      have hcommitted : ∀ response, old.pc = .committed response → response.isCommitted = true :=
        fun _ => committed_isCommitted run htwin₀
      cases hturn.refusal ((run_shaped run).calls other old htwin₀)
          (run_asked run other old htwin₀) hcommitted hsame hpc with
      | database hdatabase => exact hresponse hdatabase
      | unadmitted hrefused => exact hrefused hreaches
      | limits hnone =>
          rw [htenant] at hnone
          have hlimits := hcreatable.limits
          rw [hnone] at hlimits
          cases hlimits
      | @quota now limits _ hold' hquota =>
          obtain ⟨choice, haction⟩ := call_moved hnext hactor htwin (by
            rw [hpc]
            exact fun heq => hresponse (ControlPlane.Pc.done.inj heq))
          have hspared := hadmitted.spared other choice old create now limits haction htwin₀ hold'
            ⟨index, session, hcall, ⟨htenant.symm, hrequest⟩, by rw [hcreated]; rfl⟩
          rw [hspared] at hquota
          cases hquota
      | workflow hworkflow =>
          rw [htenant] at hworkflow
          exact hworkflow hcreatable.defines
      | input hinput => exact hinput hcreatable.input
      | raced _ habsent =>
          rw [htenant] at habsent
          exact known.not_absent run habsent

/-- A call that has created its run waits for no more than the reply. -/
theorem created_settled (run : Run env h s) {index : Nat} {id : Uuid}
    (hcreated : createdRun? index h = some id) :
    ∃ session, s.calls[index]? = some session ∧
      ∃ response, session.pc = .committed response ∨ session.pc = .done response := by
  obtain ⟨p, hp, hcreated⟩ := List.exists_of_findSome?_eq_some hcreated
  obtain ⟨choice, old, writes, stored, row, haction, hold, hpc, -⟩ :=
    @createdBy_commit p.1 p.2 index id hcreated
  have hcommit : commitOf env p.1 p.2 = some (.request writes) := by
    simp [haction, commitOf, hold, ControlPlane.step, ControlPlane.stepPc, hpc, Effect.commit?]
  have hactor : actor p.2 = some (.call index) := by rw [haction]; rfl
  have pasts := run_callPasts run
  obtain ⟨session, hcall⟩ : ∃ session, s.calls[index]? = some session :=
    ⟨_, List.getElem?_eq_getElem (pasts.known p hp index hactor)⟩
  refine ⟨session, hcall, ?_⟩
  cases pasts.calls index session hcall with
  | quiet hquiet =>
      rw [hquiet p hp hactor] at hcommit
      cases hcommit
  | committed honly hcall' hcommit' hreplied =>
      generalize session.pc = pc at hreplied
      cases hreplied with
      | awaited => exact ⟨_, .inl rfl⟩
      | answered => exact ⟨_, .inr rfl⟩
      | lost => exact ⟨_, .inr rfl⟩

theorem TwinsReplayed.next (run : Run env h s) (replayed : TwinsReplayed h s)
    (hadmitted : TwinsAdmitted env h s a) (hnext : next env s a = some s') :
    TwinsReplayed (h ++ [(s, a)]) s' := by
  intro index session create runId hcall hrequest hcreated other twin hne htwin htwins
  have informed := run_creationsInformed run
  obtain ⟨old, hold, hprincipal, hrequest'⟩ :=
    call_same hnext (created_known run hcreated) hcall
  rw [hrequest'] at hrequest
  rw [hprincipal] at htwins
  rw [createdRun?_snoc, Option.or_eq_some_iff] at hcreated
  rcases hcreated with hcreated | ⟨-, hcreated⟩
  · obtain ⟨hcreatable, known⟩ := informed.created index old create runId hold hrequest hcreated
    constructor
    · exact twin_notRefused run hadmitted hnext hold hrequest hcreated hcreatable known
        (fun twin htwin htwins =>
          (replayed index old create runId hold hrequest hcreated other twin hne htwin htwins).1)
        htwin htwins
    · rw [Option.eq_none_iff_forall_ne_some]
      intro id htwinCreated
      obtain ⟨oldTwin, htwin₀, htenant, hsame⟩ :=
        call_same hnext (created_known run htwinCreated) htwin
      have htwins₀ : ControlPlane.Twin old.principal.tenantId create oldTwin :=
        ⟨htenant ▸ htwins.tenant, hsame ▸ htwins.request⟩
      rw [createdRun?_snoc, (replayed index old create runId hold hrequest hcreated other oldTwin
        hne htwin₀ htwins₀).2, Option.none_or] at htwinCreated
      obtain ⟨choice, twin', writes, stored, row, rfl, htwin', hpc, hwrite, -⟩ :=
        createdBy_commit htwinCreated
      cases htwin₀.symm.trans htwin'
      obtain ⟨-, habsent, -⟩ := informed.creating run htwin₀ htwins₀.request hpc hwrite
      rw [htwins₀.tenant] at habsent
      exact known.not_absent run habsent
  · -- the call commits its creation now, so the twin does not move
    obtain ⟨choice, old', writes, stored, row, rfl, hold', hpc, hwrite, -⟩ :=
      createdBy_commit hcreated
    cases hold.symm.trans hold'
    obtain ⟨-, habsent, -⟩ := informed.creating run hold hrequest hpc hwrite
    cases call_case hnext htwin with
    | joined haction => cases haction
    | turned _ hactor =>
        cases hactor
        exact absurd rfl hne
    | kept htwin₀ hactor =>
        refine ⟨hadmitted.first index choice old create writes stored row rfl hold hpc hwrite
          hrequest twin (List.mem_of_getElem? htwin₀) htwins, ?_⟩
        rw [Option.eq_none_iff_forall_ne_some]
        intro id htwinCreated
        rw [createdRun?_snoc, createdBy_other (by simpa [actor] using Ne.symm hne), Option.or_none]
          at htwinCreated
        have known := (informed.created other twin create id htwin₀ htwins.request
          htwinCreated).2
        rw [htwins.tenant] at known
        exact known.not_absent run habsent

theorem run_twinsReplayed (run : Run env h s) (hadmitted : Within (TwinsAdmitted env) h) :
    TwinsReplayed h s := by
  refine @Exec.invariant_within _ _ _ _ (TwinsAdmitted env) TwinsReplayed ?_ ?_ _ _ run hadmitted
  · intro s hs index session create runId hcall
    simp [hs.calls] at hcall
  · intro h s a s' run _ replayed hadmitted hnext
    exact replayed.next run hadmitted hnext

/-- Only a transition is answered with a moved run. -/
theorem request_of_moved (run : Run env h s) {index : Nat} {session : ControlPlane.Session}
    {answer : ControlPlane.StoredRun} (hcall : s.calls[index]? = some session)
    (hpc : session.pc = .done (.run answer)) (create : ControlPlane.CreateRun) :
    session.request ≠ .createRun create := by
  intro hrequest
  cases (run_callPasts run).calls index session hcall with
  | quiet _ hopen =>
      rw [hpc] at hopen
      cases hopen
  | @committed t a writes stored honly hcall' hcommit hreplied =>
      obtain ⟨-, h₁, h₂, rfl, -⟩ := honly
      obtain ⟨t', run', -, -⟩ := run.split
      have hasked := run_asked run' index _ hcall'
      have hdone := hreplied.response hpc (by simp [databaseError])
      cases hwrite : writes.run with
      | insert =>
          rw [ControlPlane.response, hwrite] at hdone
          cases hdone
      | update =>
          simp only [ControlPlane.Asked, hwrite, ControlPlane.AskedWrite, hrequest] at hasked
          obtain ⟨args, hasks, -⟩ := hasked
          cases hasks

theorem idempotentCreation_of_replayed (run : Run env h s) (replayed : TwinsReplayed h s) :
    IdempotentCreation h s := by
  intro index session create runId hcall hrequest hcreates
  have informed := run_creationsInformed run
  obtain ⟨-, known⟩ := informed.created index session create runId hcall hrequest hcreates
  refine ⟨known.createdOnce run, ?_⟩
  intro other twin hne htwin htwins ⟨hreaches, response, hpc, hresponse⟩
  obtain ⟨hrefused, hcreated⟩ :=
    replayed index session create runId hcall hrequest hcreates other twin hne htwin htwins
  cases response with
  | error status message => exact absurd ⟨status, message, hpc, hresponse⟩ (hrefused hreaches)
  | run answer => exact absurd htwins.request (request_of_moved run htwin hpc create)
  | created answer again =>
      cases again with
      | false => exact absurd hcreated (created_of_answer run htwin hpc)
      | true =>
          have known' := informed.answers other twin create answer.id htwin htwins.request
            (by rw [hpc]; rfl)
          rw [htwins.tenant] at known'
          exact ⟨answer, hpc, known.unique run known'⟩

/-! ## Exactly then -/

/-- A request keeps what it asks for, and stays as it is once it is done. -/
structure CallsStay (s t : State) : Prop where
  same : ∀ (index : Nat) (session : ControlPlane.Session), s.calls[index]? = some session →
    ∃ later, t.calls[index]? = some later ∧ later.principal = session.principal ∧
      later.request = session.request
  done : ∀ (index : Nat) (session : ControlPlane.Session) response,
    s.calls[index]? = some session → session.pc = .done response →
      t.calls[index]? = some session

theorem callsStay_next (hnext : next env s a = some s') : CallsStay s s' := by
  have stays : ∀ (index : Nat) (session : ControlPlane.Session), s.calls[index]? = some session →
      ∃ later, s'.calls[index]? = some later := by
    intro index session hcall
    have hlt := (List.getElem?_eq_some_iff.mp hcall).1
    exact ⟨_, List.getElem?_eq_getElem (Nat.lt_of_lt_of_le hlt (calls_length_next hnext))⟩
  constructor
  · intro index session hcall
    obtain ⟨later, hlater⟩ := stays index session hcall
    obtain ⟨old, hold, hsame⟩ := call_same hnext (List.getElem?_eq_some_iff.mp hcall).1 hlater
    cases hcall.symm.trans hold
    exact ⟨later, hlater, hsame⟩
  · intro index session response hcall hpc
    obtain ⟨later, hlater⟩ := stays index session hcall
    cases call_case hnext hlater with
    | kept hold hactor => rw [hlater, ← hcall, hold]
    | joined haction hnew =>
        rw [hcall] at hnew
        cases hnew
    | turned hold hactor hcommit hturn hstate =>
        rw [hcall, Option.some.injEq] at hold
        subst hold
        exact absurd hpc (hturn.not_done response)

theorem run_callsStay {h₁ h₂ : History State Action} {t : State}
    (run : Run env (h₁ ++ (s, a) :: h₂) t) :
    ∃ s', next env s a = some s' ∧ CallsStay s s' ∧ CallsStay s' t := by
  refine @Exec.grows _ _ Initial (next env) CallsStay ?_ ?_ callsStay_next _ _ _ _ _ run
  · intro s
    exact ⟨fun index session hcall => ⟨session, hcall, rfl, rfl⟩, fun _ _ _ hcall _ => hcall⟩
  · intro s t u hst htu
    constructor
    · intro index session hcall
      obtain ⟨mid, hmid, hprincipal, hrequest⟩ := hst.same index session hcall
      obtain ⟨later, hlater, hprincipal', hrequest'⟩ := htu.same index mid hmid
      exact ⟨later, hlater, hprincipal'.trans hprincipal, hrequest'.trans hrequest⟩
    · intro index session response hcall hpc
      exact htu.done index session response (hst.done index session response hcall hpc) hpc

theorem createdRun?_append {index : Nat} {id : Uuid} {h₁ : History State Action}
    (hcreated : createdRun? index h₁ = some id) (h₂ : History State Action) :
    createdRun? index (h₁ ++ h₂) = some id := by
  rw [createdRun?, List.findSome?_append, show List.findSome? _ h₁ = some id from hcreated]
  rfl

theorem quotaError_message {s : Shared} {now : Int} {limits : LimitsRow} {tenantId : Uuid}
    {message : String} (h : ControlPlane.quotaError env s now limits tenantId = some message) :
    message ≠ "database error" := by
  unfold ControlPlane.quotaError at h
  split at h
  · cases h
    decide
  · split at h
    · cases h
      decide
    · cases h

theorem twinsAdmitted_of_idempotent {h₁ h₂ : History State Action} {t : State}
    (run : Run env (h₁ ++ (s, a) :: h₂) t)
    (hidempotent : IdempotentCreation (h₁ ++ (s, a) :: h₂) t) : TwinsAdmitted env h₁ s a := by
  obtain ⟨s', hnext, hfirst, hrest⟩ := run_callsStay run
  obtain ⟨-, run₁, -, -⟩ := run.split
  have informed := run_creationsInformed run₁
  constructor
  · rintro index choice session create now limits rfl hcall hpc ⟨other, twin, htwin, htwins, hsome⟩
    obtain ⟨runId, hcreated⟩ := Option.isSome_iff_exists.mp hsome
    cases hquota : ControlPlane.quotaError env s.toShared now limits session.principal.tenantId with
    | none => rfl
    | some message =>
        exfalso
        have hrequest : session.request = .createRun create := by
          have shaped := (run_shaped run₁).calls index session hcall
          rwa [ControlPlane.Shaped, hpc] at shaped
        obtain ⟨moved, effect, hmove, hmoved⟩ := call_action hnext hcall
        have hrefused : moved = { session with pc := ControlPlane.createError message } := by
          cases hmove with
          | start hroute =>
              rw [hpc] at hroute
              cases hroute
          | inner hmove =>
              rw [hpc] at hmove
              cases hmove with
              | quotaExceeded hquota' =>
                  rw [hquota, Option.some.injEq] at hquota'
                  rw [hquota']
              | quotaFree hquota' =>
                  rw [hquota] at hquota'
                  cases hquota'
        subst hrefused
        obtain ⟨mid, hmid, hprincipal, hsame⟩ := hfirst.same other twin htwin
        obtain ⟨later, hlater, hprincipal', hsame'⟩ := hrest.same other mid hmid
        have hmoved' := hrest.done index _ _ hmoved rfl
        obtain ⟨-, hall⟩ := hidempotent other later create runId hlater
          ((hsame'.trans hsame).trans htwins.request) (createdRun?_append hcreated _)
        have hne : index ≠ other := by
          rintro rfl
          obtain ⟨settled, hsettled, response, hsettled' | hsettled'⟩ :=
            created_settled run₁ hcreated
          · cases hcall.symm.trans hsettled
            cases hpc.symm.trans hsettled'
          · cases hcall.symm.trans hsettled
            cases hpc.symm.trans hsettled'
        have hadmitted : ControlPlane.Admitted session.principal create := by
          rcases informed.admitted index session hcall with hroute | ⟨response, hdone'⟩ | hadmitted
          · rw [hpc] at hroute
            cases hroute
          · rw [hpc] at hdone'
            cases hdone'
          · exact hadmitted create hrequest
        obtain ⟨replayed, hreplay, -⟩ := hall index _ hne hmoved'
          ⟨(htwins.tenant.symm.trans (congrArg _ (hprincipal'.trans hprincipal).symm)), hrequest⟩
          ⟨hadmitted, _, rfl, by simp [databaseError, quotaError_message hquota]⟩
        cases hreplay
  · rintro index choice session create writes stored row rfl hcall hpc hwrite hrequest twin hmem
      htwins hreaches ⟨status, message, hdone, hresponse⟩
    obtain ⟨other, htwin⟩ := List.getElem?_of_mem hmem
    have hcreated : createdRun? index (h₁ ++ (s, .call index choice) :: h₂) = some row.id := by
      rw [List.append_cons]
      refine createdRun?_append ?_ h₂
      rw [createdRun?_snoc, createdBy_call hcall, hpc]
      have hnone : createdRun? index h₁ = none := by
        rw [Option.eq_none_iff_forall_ne_some]
        intro id hcreated
        obtain ⟨settled, hsettled, response, hsettled' | hsettled'⟩ :=
          created_settled run₁ hcreated
        · cases hcall.symm.trans hsettled
          cases hpc.symm.trans hsettled'
        · cases hcall.symm.trans hsettled
          cases hpc.symm.trans hsettled'
      rw [hnone, Option.none_or, ControlPlane.Pc.creating?, hwrite]
    have htwin' := hrest.done other twin _ (hfirst.done other twin _ htwin hdone) hdone
    obtain ⟨mid, hmid, hprincipal, hsame⟩ := hfirst.same index session hcall
    obtain ⟨later, hlater, hprincipal', hsame'⟩ := hrest.same index mid hmid
    have hne : other ≠ index := by
      rintro rfl
      rw [hcall, Option.some.injEq] at htwin
      rw [← htwin, hpc] at hdone
      cases hdone
    obtain ⟨-, hall⟩ := hidempotent index later create row.id hlater
      ((hsame'.trans hsame).trans hrequest) hcreated
    obtain ⟨replayed, hreplay, -⟩ := hall other twin hne htwin'
      ⟨htwins.tenant.trans (congrArg _ (hprincipal'.trans hprincipal).symm), htwins.request⟩
      ⟨hreaches, _, hdone, hresponse⟩
    rw [hdone] at hreplay
    cases hreplay

/--
Creation is idempotent exactly in the runs in which no quota check counts a run
that a twin of the call has created, and none refuses a call whose twin creates
the run later.
-/
theorem idempotentCreation_iff (run : Run env h s) :
    IdempotentCreation h s ↔ Within (TwinsAdmitted env) h := by
  constructor
  · intro hidempotent h₁ t a h₂ heq
    subst heq
    exact twinsAdmitted_of_idempotent run hidempotent
  · intro hadmitted
    exact idempotentCreation_of_replayed run (run_twinsReplayed run hadmitted)

end

/-! ## A twin that meets the quota -/

/-- Two calls with one request; the second misses the lookup and then waits for the limits. -/
def concurrentTwins (moves : Nat) : List Action :=
  .createWorkflow Scenario.owner Scenario.workflowId (Scenario.workflow [Scenario.dataRead]) ::
    Scenario.createRun :: Scenario.createRun ::
      [.call 0 0, .call 0 0, .call 0 0, .call 1 0, .call 1 0, .call 1 0] ++
        List.replicate 10 (.call 0 Scenario.runId) ++ List.replicate moves (.call 1 0)

/-- A stronger condition to test: no quota is exceeded, and nothing was refused before a commit. -/
def noneRefused (env : Env) (s : State) : Action → Bool
  | .call index _ =>
      match s.calls[index]? with
      | some ⟨principal, _, _, .createUsage _ now limits⟩ =>
          (ControlPlane.quotaError env s.toShared now limits principal.tenantId).isNone
      | some ⟨_, _, _, .commit _ _⟩ =>
          s.calls.all fun twin =>
            match twin.pc with
            | .done (.error _ _) => false
            | _ => true
      | _ => true
  | _ => true

theorem twinsAdmitted_of_test {env : Env} {h : History State Action} {s : State} {a : Action}
    (htest : noneRefused env s a = true) : TwinsAdmitted env h s a := by
  constructor
  · rintro index choice ⟨principal, request, handle, pc⟩ create now limits rfl hcall rfl -
    simpa [noneRefused, hcall] using htest
  · rintro index choice ⟨principal, request, handle, pc⟩ create writes stored row rfl hcall rfl -
      - twin hmem - - ⟨status, message, hdone, -⟩
    simp only [noneRefused, hcall, List.all_eq_true] at htest
    have htwin := htest twin hmem
    rw [hdone] at htwin
    cases htwin

/-- The call has been answered with the created run, new or found. -/
def answered (t : State) (index : Nat) (replayed : Bool) : Bool :=
  match t.calls[index]? with
  | some ⟨_, _, _, .done (.created run again)⟩ => run.id = Scenario.runId && again = replayed
  | _ => false

theorem concurrentTwins_idempotentCreation : ∃ h t, Run Scenario.env h t ∧
    answered t 0 false = true ∧ answered t 1 true = true ∧ IdempotentCreation h t := by
  obtain ⟨h, t, run, htest⟩ := Scenario.exists_run 5 (concurrentTwins 8)
    (fun h t => answered t 0 false && answered t 1 true &&
      h.all fun p => noneRefused Scenario.env p.1 p.2) (by decide +kernel)
  simp only [Bool.and_eq_true, List.all_eq_true] at htest
  exact ⟨h, t, run, htest.1.1, htest.1.2, (idempotentCreation_iff run).mpr
    ((within_iff.mpr fun p hp => htest.2 p hp).mono fun _ _ _ => twinsAdmitted_of_test)⟩

/-- The call is one of the scenario. -/
def isScenarioCall (session : ControlPlane.Session) : Bool :=
  session.principal.tenantId = Scenario.tenantId && session.principal.role = .owner &&
    match session.request with
    | .createRun ⟨workflowId, .obj [(key, .str url)], none, idempotencyKey⟩ =>
        workflowId = Scenario.workflowId && key = "url" && url = "https://example.com/data" &&
          idempotencyKey = "idempotency-key-1"
    | _ => false

theorem isScenarioCall_spec {session : ControlPlane.Session}
    (h : isScenarioCall session = true) : session.principal.tenantId = Scenario.tenantId ∧
      session.principal.role = .owner ∧ session.request = Scenario.create := by
  simp only [isScenarioCall, Bool.and_eq_true, decide_eq_true_eq] at h
  obtain ⟨⟨htenant, hrole⟩, hrequest⟩ := h
  refine ⟨htenant, hrole, ?_⟩
  split at hrequest
  · rename_i heq
    simp only [Bool.and_eq_true, decide_eq_true_eq] at hrequest
    obtain ⟨⟨⟨rfl, rfl⟩, rfl⟩, rfl⟩ := hrequest
    exact heq
  · cases hrequest

inductive Outcome where
  | created
  | overQuota
  | other
  deriving DecidableEq

def outcome (session : ControlPlane.Session) : Outcome :=
  match session.pc with
  | .done (.created _ false) => .created
  | .done (.error status _) => if status = 429 then .overQuota else .other
  | _ => .other

theorem outcome_created {session : ControlPlane.Session} (h : outcome session = .created) :
    ∃ run, session.pc = .done (.created run false) := by
  unfold outcome at h
  split at h
  · rename_i run hpc
    exact ⟨run, hpc⟩
  · split at h <;> cases h
  · cases h

theorem outcome_overQuota {session : ControlPlane.Session} (h : outcome session = .overQuota) :
    ∃ message, session.pc = .done (.error 429 message) := by
  unfold outcome at h
  split at h
  · cases h
  · split at h
    · rename_i status message hpc hstatus
      exact ⟨message, by rw [hpc, hstatus]⟩
    · cases h
  · cases h

/-- With room for one active run the second call is refused for the run of the first. -/
theorem not_idempotentCreation : ¬∀ env h s, Run env h s → IdempotentCreation h s := by
  intro hall
  obtain ⟨h, t, run, htest⟩ := Scenario.exists_run 1 (concurrentTwins 2)
    (fun _ t => t.calls.all isScenarioCall && t.calls.map outcome = [.created, .overQuota])
    (by decide +kernel)
  simp only [Bool.and_eq_true, decide_eq_true_eq, List.all_eq_true] at htest
  obtain ⟨hscenario, houtcomes⟩ := htest
  obtain ⟨first, rest, hcalls, hcreated, hrest⟩ := List.map_eq_cons_iff.mp houtcomes
  obtain ⟨second, rest, rfl, hover, hnil⟩ := List.map_eq_cons_iff.mp hrest
  obtain rfl := List.map_eq_nil_iff.mp hnil
  obtain ⟨htenant, -, hrequest⟩ := isScenarioCall_spec (hscenario first (by simp [hcalls]))
  obtain ⟨htenant', hrole', hrequest'⟩ := isScenarioCall_spec (hscenario second (by simp [hcalls]))
  obtain ⟨answer, hanswer⟩ := outcome_created hcreated
  obtain ⟨runId, hcreates⟩ := Option.ne_none_iff_exists'.mp
    (@created_of_answer _ _ _ run 0 _ _ (by simp [hcalls]) hanswer)
  obtain ⟨message, hrefused⟩ := outcome_overQuota hover
  obtain ⟨-, htwins⟩ :=
    hall Scenario.env h t run 0 first _ runId (by simp [hcalls]) hrequest hcreates
  obtain ⟨answer, hreplay, -⟩ := htwins 1 second (by decide) (by simp [hcalls])
    ⟨htenant'.trans htenant.symm, hrequest'⟩
    ⟨⟨by rw [hrole']; decide, by decide⟩, _, hrefused, by simp [databaseError]⟩
  rw [hrefused] at hreplay
  cases hreplay

end DurableRuntime
