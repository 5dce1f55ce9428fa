import DurableRuntime.ControlPlane.Routes
import DurableRuntime.Rows
import DurableRuntime.Scenario

/-!
# The declared replies

`contracts/openapi.yaml` declares the statuses of every route and what they
mean.  The handlers answer with one of them where they check something
themselves; what `requireRole`, `assertTransition` and the database throw
becomes a status 500 that no route declares.
-/

namespace DurableRuntime.App

open DurableRuntime.Foundation
open DurableRuntime.ControlPlane (Principal Role privilegedRoles activeRuns runsToday runOfTenant?
  handleUnused)
open DurableRuntime.PostgresDurableStore (isJsonText)
open DurableRuntime.RuntimeStore (StoredWorkflow StoredRun AuditRecord)

/-! ## What is declared -/

def declared : Route → List Nat
  | .createWorkflow => [201, 400, 401, 403]
  | .createRun => [201, 200, 400, 401, 403, 404, 429]
  | .readRun _ => [200, 401, 404]
  | .approve _ | .cancel _ => [200, 401, 403, 404, 409]
  | .audit => [200, 401, 403]

def Route.roles : Route → List Role
  | createWorkflow | createRun | approve _ | cancel _ => privilegedRoles
  | readRun _ => [.owner, .operator, .viewer]
  | audit => [.owner]

/-- The run that a path names. -/
def Route.runId? : Route → Option String
  | readRun runId | approve runId | cancel runId => some runId
  | _ => none

namespace Request

def definition? (request : Request) : Option WorkflowDefinition :=
  request.body.bind fun body => workflowDefinitionSchema body.toJson

def key? (request : Request) : Option String :=
  (request.headers.idempotencyKey.map Subtype.val).filter validKey

def runBody? (request : Request) : Option RunBody := request.body.bind createRunSchema

end Request

def runNamed? (s : Shared) (principal : Principal) (runId : String) : Option RunRow :=
  (Uuid.ofText? runId).bind (runOfTenant? s principal.tenantId)

def workflowNamed? (s : Shared) (principal : Principal) (workflowId : String) :
    Option DefinitionRow :=
  (Uuid.ofText? workflowId).bind fun id =>
    (s.db.definition? id).filter fun row => row.tenantId = principal.tenantId

/-- The active or the daily limit of the tenant is reached. -/
def QuotaExceeded (env : Env) (s : Shared) (principal : Principal) (limits : LimitsRow) : Prop :=
  limits.maxActiveRuns ≤ activeRuns s principal.tenantId ∨
    limits.maxRunsPerDay ≤ runsToday env s s.clock principal.tenantId

/-- What a status other than 401 and 403 means for a principal with a required role. -/
inductive Means (env : Env) (views : Views) (principal : Principal) (request : Request)
    (after : Shared) : Route → Reply → Prop
  | workflowCreated {definition workflow} (hdefinition : request.definition? = some definition)
      (hstored : after.db.definitions =
        views.reading.db.definitions ++ [definitionRow principal request.id definition])
      (hworkflow : workflow.id = request.id.text ∧ workflow.definition = definition) :
      Means env views principal request after .createWorkflow ⟨201, .workflow workflow⟩
  | invalidWorkflow {body} (h : request.definition? = none) :
      Means env views principal request after .createWorkflow ⟨400, body⟩
  | runCreated {key row run} (hkey : request.key? = some key)
      (hnew : views.reading.db.runByKey? principal.tenantId key = none)
      (hstored : after.db.runs = views.reading.db.runs ++ [row])
      (hrow : row.key = (principal.tenantId, key) ∧ row.state = .queued)
      (hrun : run.id = row.id.text) :
      Means env views principal request after .createRun ⟨201, .created run false⟩
  | runReplayed {key row run} (hkey : request.key? = some key)
      (hfound : views.reading.db.runByKey? principal.tenantId key = some row)
      (hrun : run.id = row.id.text) :
      Means env views principal request after .createRun ⟨200, .created run true⟩
  | invalidRun {body} (h : request.key? = none ∨ request.runBody? = none) :
      Means env views principal request after .createRun ⟨400, body⟩
  | workflowNotFound {body text} (hbody : request.runBody? = some body)
      (h : workflowNamed? views.reading principal body.workflowId = none) :
      Means env views principal request after .createRun ⟨404, text⟩
  | quotaExceeded {limits body}
      (hlimits : views.reading.db.limits? principal.tenantId = some limits)
      (h : QuotaExceeded env views.reading principal limits) :
      Means env views principal request after .createRun ⟨429, body⟩
  | runFound {runId row run} (hrow : runNamed? views.reading principal runId = some row)
      (hrun : run.id = row.id.text) :
      Means env views principal request after (.readRun runId) ⟨200, .run run⟩
  | runNotFound {route runId body} (hroute : route.runId? = some runId)
      (h : runNamed? views.reading principal runId = none) :
      Means env views principal request after route ⟨404, body⟩
  | requeued {runId read row later run}
      (hread : runNamed? views.reading principal runId = some read)
      (hrow : runNamed? views.moving principal runId = some row)
      (hstate : row.state = .awaitingApproval)
      (hlater : runNamed? after principal runId = some later)
      (hmoved : later.state = .queued ∧ later.currentStep = row.currentStep + 1) :
      Means env views principal request after (.approve runId) ⟨200, .run run⟩
  | notAwaiting {runId read body} (hread : runNamed? views.reading principal runId = some read)
      (h : read.state ≠ .awaitingApproval ∨ ∃ row,
        runNamed? views.moving principal runId = some row ∧ row.state ≠ .awaitingApproval) :
      Means env views principal request after (.approve runId) ⟨409, body⟩
  | cancelled {runId read row later run}
      (hread : runNamed? views.reading principal runId = some read)
      (hrow : runNamed? views.moving principal runId = some row)
      (hstate : row.state.isTerminal = false)
      (hlater : runNamed? after principal runId = some later)
      (hmoved : later.state = .cancelled) :
      Means env views principal request after (.cancel runId) ⟨200, .run run⟩
  | terminal {runId read body} (hread : runNamed? views.reading principal runId = some read)
      (h : read.state.isTerminal = true ∨ ∃ row,
        runNamed? views.moving principal runId = some row ∧ row.state.isTerminal = true) :
      Means env views principal request after (.cancel runId) ⟨409, body⟩
  | audited {records} (hrecords : ∀ record, record ∈ records ↔
        ∃ row ∈ views.reading.db.audits, row.tenantId = principal.tenantId ∧
          PostgresDurableStore.auditRecord views.reading.db row = record) :
      Means env views principal request after .audit ⟨200, .records records⟩

/-- The run has left the state that the handler has read it in. -/
def LostRace (views : Views) (principal : Principal) : Route → Prop
  | .approve runId => ∃ read row, runNamed? views.reading principal runId = some read ∧
      runNamed? views.moving principal runId = some row ∧
        read.state = .awaitingApproval ∧ row.state ≠ .awaitingApproval
  | .cancel runId => ∃ read row, runNamed? views.reading principal runId = some read ∧
      runNamed? views.moving principal runId = some row ∧
        read.state.isTerminal = false ∧ row.state.isTerminal = true
  | _ => False

structure Conforms (env : Env) (hashApiKey : String → String) (views : Views) (request : Request) :
    Prop where
  declared : (handle env hashApiKey views request).1.status ∈ declared request.route
  unauthenticated : preHandler hashApiKey views.authenticating request.headers = none →
    (handle env hashApiKey views request).1.status = 401
  forbidden : ∀ principal,
    preHandler hashApiKey views.authenticating request.headers = some principal →
      principal.role ∉ request.route.roles →
        (handle env hashApiKey views request).1.status = 403
  means : ∀ principal,
    preHandler hashApiKey views.authenticating request.headers = some principal →
      principal.role ∈ request.route.roles →
        Means env views principal request (handle env hashApiKey views request).2 request.route
          (handle env hashApiKey views request).1
  notFound : ∀ principal runId,
    preHandler hashApiKey views.authenticating request.headers = some principal →
      principal.role ∈ request.route.roles → request.route.runId? = some runId →
        runNamed? views.reading principal runId = none →
          (handle env hashApiKey views request).1.status = 404
  lostRace : ∀ principal,
    preHandler hashApiKey views.authenticating request.headers = some principal →
      principal.role ∈ request.route.roles → LostRace views principal request.route →
        (handle env hashApiKey views request).1.status = 409

/-! ## When a request is served -/

/-- `jsonb` takes the input, and no constraint of the database refuses the new run. -/
def Insertable (env : Env) (s : Shared) (id : Uuid) (create : RuntimeStore.CreateRun) : Prop :=
  (create.input.isStorable = true ∧ env.nests create.input.toJson = true) ∧
    s.db.run? id = none ∧ ∀ handle, create.providerCredentialHandle = some handle →
      handleUnused s handle = true

def Servable (env : Env) (views : Views) (principal : Principal) (request : Request) :
    Route → Prop
  | .createWorkflow => ∀ definition, request.definition? = some definition →
      isJsonText definition.toJson = true ∧
        env.fitsIndex definition.name definition.version = true ∧
          definitionInsertable views.reading.db
            (definitionRow principal request.id definition) = true
  | .createRun => ∀ key body, request.key? = some key → request.runBody? = some body →
      views.reading.db.runByKey? principal.tenantId key = none →
        ∃ limits, views.reading.db.limits? principal.tenantId = some limits ∧
          (QuotaExceeded env views.reading principal limits ∨
            workflowNamed? views.reading principal body.workflowId = none ∨
              Insertable env views.reading request.id (request.create body))
  | .readRun runId => (Uuid.ofText? runId).isSome = true
  | .approve runId => (Uuid.ofText? runId).isSome = true ∧
      ∀ read, runNamed? views.reading principal runId = some read → read.state = .awaitingApproval →
        ∃ row, runNamed? views.moving principal runId = some row ∧ row.state = .awaitingApproval
  | .cancel runId => (Uuid.ofText? runId).isSome = true ∧
      ∀ read, runNamed? views.reading principal runId = some read → read.state.isTerminal = false →
        ∃ row, runNamed? views.moving principal runId = some row ∧ row.state.isTerminal = false
  | .audit => True

/-- The caller, if it is authenticated, has a required role and meets no exception. -/
def Served (env : Env) (hashApiKey : String → String) (views : Views) (request : Request) : Prop :=
  ∀ principal, preHandler hashApiKey views.authenticating request.headers = some principal →
    principal.role ∈ request.route.roles ∧ Servable env views principal request request.route

/-- A reply with a declared status that means what it declares. -/
def Answered (env : Env) (views : Views) (principal : Principal) (request : Request)
    (route : Route) (handled : Handled) : Prop :=
  (replyOf handled.1).status ∈ App.declared route ∧
    Means env views principal request handled.2 route (replyOf handled.1)

section

variable {env : Env} {hashApiKey : String → String} {views : Views} {principal : Principal}
  {request : Request} {route : Route} {s : Shared} {runId message : String}

theorem not_answered {handled : Handled} (h : (replyOf handled.1).status = 500) :
    ¬ Answered env views principal request route handled := by
  rintro ⟨hdeclared, -⟩
  rw [h] at hdeclared
  cases route <;> simp [declared] at hdeclared

theorem not_answered_thrown :
    ¬ Answered env views principal request route (.error message, s) :=
  not_answered rfl

theorem answered_ok {reply : Reply} (hdeclared : reply.status ∈ declared route)
    (hmeans : Means env views principal request s route reply) :
    Answered env views principal request route (.ok reply, s) :=
  ⟨hdeclared, hmeans⟩

/-! ## Reading a run -/

theorem readRun_named {id : Uuid} (hid : Uuid.ofText? runId = some id) :
    PostgresDurableStore.readRun s principal runId =
      .ok ((runNamed? s principal runId).map
        (PostgresDurableStore.readRunInTransaction s.db principal.tenantId)) := by
  simp only [PostgresDurableStore.readRun, runNamed?, hid, Option.bind_some]

theorem readRun_unnamed (hid : Uuid.ofText? runId = none) :
    PostgresDurableStore.readRun s principal runId =
      .error (PostgresDurableStore.notUuid runId) := by
  simp only [PostgresDurableStore.readRun, hid]

theorem getRun_answered :
    Answered env views principal request (.readRun runId)
        (getRun views.reading principal runId) ↔ (Uuid.ofText? runId).isSome = true := by
  cases hid : Uuid.ofText? runId with
  | none =>
      rw [getRun, readRun_unnamed hid]
      exact ⟨fun h => absurd h not_answered_thrown, fun h => by cases h⟩
  | some id =>
      rw [getRun, readRun_named hid]
      refine ⟨fun _ => rfl, fun _ => ?_⟩
      cases hnamed : runNamed? views.reading principal runId with
      | none => exact answered_ok (by simp [declared]) (.runNotFound rfl hnamed)
      | some row => exact answered_ok (by simp [declared]) (.runFound hnamed rfl)

/-! ## Moving a run -/

theorem runNamed_tenant {row : RunRow} (h : runNamed? s principal runId = some row) :
    Uuid.ofText? runId = some row.id ∧ s.db.run? row.id = some row ∧
      row.tenantId = principal.tenantId := by
  obtain ⟨id, hid, hrow⟩ := Option.bind_eq_some_iff.mp h
  obtain ⟨hrow, htenant⟩ := Option.filter_eq_some_iff.mp hrow
  have heq : row.id = id := Table.lookup_key hrow
  subst heq
  exact ⟨hid, hrow, of_decide_eq_true htenant⟩

theorem transition_refused {args : ControlPlane.TransitionArgs} {event : RuntimeStore.RunEvent}
    (h : ∀ row, runNamed? s principal runId = some row →
      args.state ∉ allowedTransitions row.state) :
    ∃ message, PostgresDurableStore.transition s principal runId args.state event =
      (.error message, s) := by
  unfold PostgresDurableStore.transition
  cases hid : Uuid.ofText? runId with
  | none => exact ⟨_, rfl⟩
  | some id =>
      cases hrow : runOfTenant? s principal.tenantId id with
      | none =>
          simp only [hrow]
          exact ⟨_, rfl⟩
      | some row =>
          have hnot := h row (by simp [runNamed?, hid, hrow])
          simp only [hrow, assertTransition, if_neg hnot]
          exact ⟨_, rfl⟩

/-- What `transition` does once nothing refuses it. -/
theorem moveRun_ok {row : RunRow} {args : ControlPlane.TransitionArgs}
    (hrow : runNamed? s principal runId = some row)
    (hallowed : args.state ∈ allowedTransitions row.state)
    (hdetail : PostgresDurableStore.detailError args.detail = none) :
    ∃ run s', moveRun s principal runId args = (.ok ⟨200, .run run⟩, s') ∧
      runNamed? s' principal runId = some (row.transition args.state args.approves s.clock) := by
  obtain ⟨hid, hfound, htenant⟩ := runNamed_tenant hrow
  have hofTenant : runOfTenant? s principal.tenantId row.id = some row := by
    simp [runOfTenant?, hfound, htenant]
  obtain ⟨queued, hqueued⟩ := PostgresDurableStore.queueApproved_ok s s.clock htenant args
  simp only [moveRun, PostgresDurableStore.transition, hid, hofTenant,
    assertTransition_ok.mpr hallowed, PostgresDurableStore.updateRun, hdetail, hqueued, Except.map]
  refine ⟨_, _, rfl, ?_⟩
  have hafter : ∀ event outbox audit,
      ((s.db.draw 1 queued.toList.length 1).commit (.request
        ⟨.update row args.state args.approves s.clock, event, outbox, audit⟩)).run? row.id =
          some (row.transition args.state args.approves s.clock) := by
    intro event outbox audit
    rw [run?_commit]
    change RunWrite.rowAfter row.id (s.db.run? row.id) (.update row _ _ _) = _
    rw [hfound]
    simp [RunWrite.rowAfter]
  simp only [runNamed?, hid, Option.bind_some, runOfTenant?, hafter, Option.filter_some]
  exact if_pos (decide_eq_true htenant)

theorem moveRun_cases {args : ControlPlane.TransitionArgs}
    (hdetail : PostgresDurableStore.detailError args.detail = none) :
    (∃ message, moveRun s principal runId args = (.error message, s)) ∨
      ∃ row run s', runNamed? s principal runId = some row ∧
        moveRun s principal runId args = (.ok ⟨200, .run run⟩, s') ∧
          runNamed? s' principal runId =
            some (row.transition args.state args.approves s.clock) := by
  by_cases hrefused : ∀ row, runNamed? s principal runId = some row →
      args.state ∉ allowedTransitions row.state
  · obtain ⟨message, hthrown⟩ := @transition_refused principal s runId args
      ⟨s.clock, args.eventType, args.detail⟩ hrefused
    refine .inl ⟨message, ?_⟩
    rw [moveRun, hthrown]
    rfl
  · simp only [not_forall, not_not] at hrefused
    obtain ⟨row, hrow, hallowed⟩ := hrefused
    obtain ⟨run, s', hmoved, hlater⟩ := moveRun_ok hrow hallowed hdetail
    exact .inr ⟨row, run, s', hrow, hmoved, hlater⟩

section

variable {args : ControlPlane.TransitionArgs} {refuse : RunState → Option String}
  (hrole : principal.role ∈ privilegedRoles)

include hrole

theorem postTransition_unnamed (hid : Uuid.ofText? runId = none) :
    ∃ message, postTransition views principal runId refuse args =
      (.error message, views.reading) := by
  simp only [postTransition, requireRole, if_pos hrole, readRun_unnamed hid]
  exact ⟨_, rfl⟩

theorem postTransition_notFound {id : Uuid} (hid : Uuid.ofText? runId = some id)
    (hnamed : runNamed? views.reading principal runId = none) :
    postTransition views principal runId refuse args =
      (.ok ⟨404, .error "run_not_found"⟩, views.reading) := by
  simp only [postTransition, requireRole, if_pos hrole, readRun_named hid, hnamed, Option.map_none]

theorem postTransition_read {read : RunRow}
    (hread : runNamed? views.reading principal runId = some read) :
    postTransition views principal runId refuse args =
      match refuse read.state with
      | some message => (.ok ⟨409, .error message⟩, views.reading)
      | none => moveRun views.moving principal runId args := by
  have hid := (runNamed_tenant hread).1
  simp only [postTransition, requireRole, if_pos hrole, readRun_named hid, hread, Option.map_some]
  rfl

/-- The handlers for a check `ready`, given what the second transaction does. -/
theorem postTransition_answered (route : Route) (ready : RunState → Prop)
    (hroute : route.runId? = some runId)
    (hstatuses : 404 ∈ declared route ∧ 409 ∈ declared route)
    (hrefuse : ∀ state, refuse state = none ↔ ready state)
    (hconflict : ∀ read body, runNamed? views.reading principal runId = some read →
      ¬ ready read.state → Means env views principal request views.reading route ⟨409, body⟩)
    (hmove : ∀ read, runNamed? views.reading principal runId = some read →
      (Answered env views principal request route (moveRun views.moving principal runId args) ↔
        ∃ row, runNamed? views.moving principal runId = some row ∧ ready row.state)) :
    Answered env views principal request route
        (postTransition views principal runId refuse args) ↔
      (Uuid.ofText? runId).isSome = true ∧
        ∀ read, runNamed? views.reading principal runId = some read → ready read.state →
          ∃ row, runNamed? views.moving principal runId = some row ∧ ready row.state := by
  cases hid : Uuid.ofText? runId with
  | none =>
      obtain ⟨message, hthrown⟩ := @postTransition_unnamed views principal runId
        args refuse hrole hid
      rw [hthrown]
      refine ⟨fun h => absurd h not_answered_thrown, ?_⟩
      rintro ⟨hsome, -⟩
      cases hsome
  | some id =>
      cases hread : runNamed? views.reading principal runId with
      | none =>
          rw [postTransition_notFound hrole hid hread]
          constructor
          · intro _
            refine ⟨rfl, ?_⟩
            intro read hfound
            cases hfound
          · intro _
            exact answered_ok hstatuses.1 (.runNotFound hroute hread)
      | some read =>
          rw [postTransition_read hrole hread]
          cases hcheck : refuse read.state with
          | none =>
              rw [hmove read hread]
              constructor
              · intro hmoved
                exact ⟨rfl, fun _ _ _ => hmoved⟩
              · rintro ⟨-, hmoved⟩
                exact hmoved read rfl ((hrefuse read.state).mp hcheck)
          | some message =>
              have hnot : ¬ ready read.state := by
                intro hready
                rw [(hrefuse read.state).mpr hready] at hcheck
                cases hcheck
              constructor
              · intro _
                refine ⟨rfl, ?_⟩
                intro found hfound hready
                cases hfound
                exact absurd hready hnot
              · intro _
                exact answered_ok hstatuses.2 (hconflict read _ hread hnot)

theorem postApprove_answered :
    Answered env views principal request (.approve runId) (postApprove views principal runId) ↔
      Servable env views principal request (.approve runId) := by
  refine postTransition_answered hrole (.approve runId) (fun state => state = .awaitingApproval) rfl
    (by simp [declared]) ?_ ?_ ?_
  · intro state
    simp [refuseApprove]
  · intro read body hread hnot
    exact .notAwaiting hread (.inl hnot)
  · intro read hread
    constructor
    · intro hanswered
      rcases @moveRun_cases principal views.moving runId ControlPlane.approveArgs rfl with
        ⟨message, hthrown⟩ | ⟨row, run, after, hrow, hmoved, -⟩
      · rw [hthrown] at hanswered
        exact absurd hanswered not_answered_thrown
      · rw [hmoved] at hanswered
        obtain ⟨-, hmeans⟩ := hanswered
        cases hmeans with
        | requeued _ hrow hstate => exact ⟨_, hrow, hstate⟩
    · rintro ⟨row, hrow, hstate⟩
      obtain ⟨run, after, hmoved, hlater⟩ := @moveRun_ok principal views.moving runId row
        ControlPlane.approveArgs hrow (by rw [hstate]; decide) rfl
      rw [hmoved]
      exact answered_ok (by simp [declared]) (.requeued hread hrow hstate hlater ⟨rfl, rfl⟩)

theorem postCancel_answered :
    Answered env views principal request (.cancel runId) (postCancel views principal runId) ↔
      Servable env views principal request (.cancel runId) := by
  refine postTransition_answered hrole (.cancel runId) (fun state => state.isTerminal = false) rfl
    (by simp [declared]) ?_ ?_ ?_
  · intro state
    cases state <;> decide
  · intro read body hread hnot
    exact .terminal hread (.inl (by simpa using hnot))
  · intro read hread
    constructor
    · intro hanswered
      rcases @moveRun_cases principal views.moving runId ControlPlane.cancelArgs rfl with
        ⟨message, hthrown⟩ | ⟨row, run, after, hrow, hmoved, -⟩
      · rw [hthrown] at hanswered
        exact absurd hanswered not_answered_thrown
      · rw [hmoved] at hanswered
        obtain ⟨-, hmeans⟩ := hanswered
        cases hmeans with
        | cancelled _ hrow hstate => exact ⟨_, hrow, hstate⟩
    · rintro ⟨row, hrow, hstate⟩
      have hallowed : ControlPlane.cancelArgs.state ∈ allowedTransitions row.state := by
        revert hstate
        cases row.state <;> decide
      obtain ⟨run, after, hmoved, hlater⟩ := @moveRun_ok principal views.moving runId row
        ControlPlane.cancelArgs hrow hallowed rfl
      rw [hmoved]
      exact answered_ok (by simp [declared]) (.cancelled hread hrow hstate hlater rfl)

end

/-! ## Workflows and audit records -/

theorem getAudit_answered (hrole : principal.role ∈ [Role.owner]) :
    Answered env views principal request .audit (getAudit views.reading principal) := by
  simp only [getAudit, requireRole, if_pos hrole]
  refine answered_ok (by simp [declared]) (.audited ?_)
  intro record
  simp only [PostgresDurableStore.listAudit, PostgresDurableStore.auditsOf, List.mem_map,
    List.mem_insertionSort, List.mem_filter, decide_eq_true_eq, and_assoc]

theorem definitionError_none_iff {db : Db} {row : DefinitionRow}
    (hversion : isVersion row.version = true) :
    PostgresDurableStore.definitionError env db row = none ↔
      isJsonText row.definition = true ∧ env.fitsIndex row.name row.version = true ∧
        definitionInsertable db row = true := by
  unfold PostgresDurableStore.definitionError
  cases isJsonText row.definition <;> cases env.fitsIndex row.name row.version <;>
    cases definitionInsertable db row <;> simp [hversion]

theorem postWorkflows_answered (hrole : principal.role ∈ privilegedRoles) :
    Answered env views principal request .createWorkflow
        (postWorkflows env views.reading principal request) ↔
      Servable env views principal request .createWorkflow := by
  simp only [postWorkflows, requireRole, if_pos hrole]
  cases hdefinition : request.body.bind fun body => workflowDefinitionSchema body.toJson with
  | none =>
      constructor
      · intro _ definition hsome
        rw [Request.definition?, hdefinition] at hsome
        cases hsome
      · intro _
        exact answered_ok (by simp [declared]) (.invalidWorkflow hdefinition)
  | some definition =>
      have hversion : isVersion definition.version = true := by
        obtain ⟨body, -, haccepted⟩ := Option.bind_eq_some_iff.mp hdefinition
        exact Accepted.version ⟨body.toJson, haccepted⟩
      have hiff := @definitionError_none_iff env views.reading.db
        (definitionRow principal request.id definition) hversion
      simp only [PostgresDurableStore.createWorkflow]
      cases herror : PostgresDurableStore.definitionError env views.reading.db
          (definitionRow principal request.id definition) with
      | some message =>
          refine ⟨fun h => absurd h not_answered_thrown, ?_⟩
          intro hservable
          rw [hiff.mpr (hservable definition hdefinition)] at herror
          cases herror
      | none =>
          constructor
          · intro _ other hother
            rw [Request.definition?, hdefinition] at hother
            cases hother
            exact hiff.mp herror
          · intro _
            exact answered_ok (by simp [declared]) (.workflowCreated hdefinition rfl ⟨rfl, rfl⟩)

/-! ## Creating runs -/

theorem headerText_isText {value : HeaderText} : PostgresDurableStore.isText value.val = true := by
  refine List.all_eq_true.mpr ?_
  intro c hc
  have hchar := List.all_eq_true.mp value.property c hc
  simp only [Bool.and_eq_true, decide_eq_true_eq] at hchar ⊢
  omega

theorem headerText_length {value : HeaderText} : utf16Length value.val = value.val.length := by
  have hone : ∀ c ∈ value.val.toList, (if c.toNat < 0x10000 then 1 else 2) = 1 := by
    intro c hc
    have hchar := List.all_eq_true.mp value.property c hc
    simp only [Bool.and_eq_true, decide_eq_true_eq] at hchar
    rw [if_pos (by omega)]
  unfold utf16Length
  rw [List.map_congr_left hone]
  simp [String.length_toList]

theorem key_accepted {key : String} (hkey : request.key? = some key) :
    PostgresDurableStore.isText key = true ∧ 16 ≤ key.length ∧ key.length ≤ 128 := by
  obtain ⟨hkey, hvalid⟩ := Option.filter_eq_some_iff.mp hkey
  obtain ⟨value, -, rfl⟩ := Option.map_eq_some_iff.mp hkey
  simp only [validKey, Bool.and_eq_true, decide_eq_true_eq, headerText_length] at hvalid
  exact ⟨headerText_isText, hvalid⟩

theorem workflowId_accepted {body : RunBody} (hbody : request.runBody? = some body) :
    ∃ id, Uuid.ofText? body.workflowId = some id := by
  obtain ⟨json, -, hschema⟩ := Option.bind_eq_some_iff.mp hbody
  unfold createRunSchema at hschema
  split at hschema
  · simp only [Option.bind_eq_bind, Option.bind_eq_some_iff] at hschema
    obtain ⟨workflowId, ⟨value, -, hvalue⟩, input, -, credential, -, heq⟩ := hschema
    cases heq
    unfold parseWorkflowId at hvalue
    split at hvalue
    · obtain ⟨-, hzod⟩ := Option.filter_eq_some_iff.mp hvalue
      simp only [isZodUuid, Bool.and_eq_true] at hzod
      obtain ⟨id, hid, -⟩ := ofText?_of_isUUID hzod.1
      exact ⟨id, hid⟩
    · cases hvalue
  · cases hschema

theorem runError_none_iff {row : RunRow}
    (hlength : 16 ≤ row.idempotencyKey.length ∧ row.idempotencyKey.length ≤ 128) :
    PostgresDurableStore.runError s row = none ↔
      s.db.run? row.id = none ∧
        ∀ handle, row.providerCredentialHandle = some handle → handleUnused s handle = true := by
  unfold PostgresDurableStore.runError
  cases s.db.run? row.id <;> cases row.providerCredentialHandle <;> simp [hlength]

theorem createErrorStatus_quota {now : Int} {limits : LimitsRow} {tenantId : Uuid}
    (h : ControlPlane.quotaError env s now limits tenantId = some message) :
    createErrorStatus message = 429 := by
  unfold ControlPlane.quotaError at h
  split at h
  · cases h
    decide +kernel
  · split at h
    · cases h
      decide +kernel
    · cases h

theorem quotaError_none_iff {limits : LimitsRow} :
    ControlPlane.quotaError env s s.clock limits principal.tenantId = none ↔
      ¬ QuotaExceeded env s principal limits := by
  unfold ControlPlane.quotaError QuotaExceeded
  split
  · rename_i h
    simp [h]
  · split
    · rename_i h h'
      simp [h']
    · rename_i h h'
      simp [h, h']

theorem createErrorStatus_json {json : Json}
    (h : PostgresDurableStore.jsonError env json = some message) :
    createErrorStatus message = 500 := by
  unfold PostgresDurableStore.jsonError at h
  split at h
  · cases h
    decide +kernel
  · split at h <;> cases h
    decide +kernel

/-- What `insertRun` does to a request of the tenant whose body has been accepted. -/
theorem insertRun_cases {key : String} {create : RuntimeStore.CreateRun} {workflow : DefinitionRow}
    {id : Uuid} (hlength : 16 ≤ key.length ∧ key.length ≤ 128) :
    (Insertable env s id create ∧ ∃ run row s',
      PostgresDurableStore.insertRun env s principal create workflow key id =
        (.ok (run, false), s') ∧
        s'.db.runs = s.db.runs ++ [row] ∧ row.key = (principal.tenantId, key) ∧
          row.state = .queued ∧ run.id = row.id.text) ∨
    (¬ Insertable env s id create ∧ ∃ message,
      PostgresDurableStore.insertRun env s principal create workflow key id = (.error message, s) ∧
        createErrorStatus message = 500) := by
  unfold PostgresDurableStore.insertRun
  generalize hrow : ControlPlane.newRun principal.tenantId
    ⟨workflow.id, create.input.toJson, none, key⟩ create.providerCredentialHandle id s.clock
      workflow.budgetCents = row
  have hid : row.id = id := by rw [← hrow]; rfl
  have hhandle : row.providerCredentialHandle = create.providerCredentialHandle := by
    rw [← hrow]; rfl
  have hqueued : row.tenantId = principal.tenantId ∧ row.state = .queued := by
    rw [← hrow]; exact ⟨rfl, rfl⟩
  have hkey : row.idempotencyKey = key := by rw [← hrow]; rfl
  have herror := @runError_none_iff s row (by rw [hkey]; exact hlength)
  rw [hid, hhandle] at herror
  by_cases haccepted : Insertable env s id create
  · refine .inl ⟨haccepted, ?_⟩
    obtain ⟨hjson, hconstraints⟩ := haccepted
    simp only [jsonError_none_iff.mpr hjson, herror.mpr hconstraints,
      PostgresDurableStore.queueRunOutbox,
      if_pos hqueued]
    refine ⟨_, row, _, rfl, rfl, ?_, hqueued.2, rfl⟩
    rw [RunRow.key, hqueued.1, hkey]
  · refine .inr ⟨haccepted, ?_⟩
    cases hjson : PostgresDurableStore.jsonError env create.input.toJson with
    | some message => exact ⟨message, rfl, createErrorStatus_json hjson⟩
    | none =>
        cases hmessage : PostgresDurableStore.runError s row with
        | none => exact absurd ⟨jsonError_none_iff.mp hjson, herror.mp hmessage⟩ haccepted
        | some message =>
            refine ⟨message, by simp only [hmessage], ?_⟩
            unfold PostgresDurableStore.runError at hmessage
            split at hmessage
            · cases hmessage
              decide +kernel
            · split at hmessage
              · cases hmessage
                decide +kernel
              · split at hmessage
                · cases hmessage
                  decide +kernel
                · cases hmessage

/-- What the store answers to a creation whose key and workflow id have been accepted. -/
inductive Creation (env : Env) (s : Shared) (principal : Principal)
    (create : RuntimeStore.CreateRun) (key : String) (id : Uuid) :
    Except String (StoredRun × Bool) × Shared → Prop
  | replayed {row run} (hfound : s.db.runByKey? principal.tenantId key = some row)
      (hrun : run.id = row.id.text) : Creation env s principal create key id (.ok (run, true), s)
  | quota {limits} {message : String} (hnew : s.db.runByKey? principal.tenantId key = none)
      (hlimits : s.db.limits? principal.tenantId = some limits)
      (hexceeded : QuotaExceeded env s principal limits)
      (hstatus : createErrorStatus message = 429) :
      Creation env s principal create key id (.error message, s)
  | noWorkflow {limits} {message : String} (hnew : s.db.runByKey? principal.tenantId key = none)
      (hlimits : s.db.limits? principal.tenantId = some limits)
      (hnone : workflowNamed? s principal create.workflowId = none)
      (hstatus : createErrorStatus message = 404) :
      Creation env s principal create key id (.error message, s)
  | inserted {limits row run s'} (hnew : s.db.runByKey? principal.tenantId key = none)
      (hlimits : s.db.limits? principal.tenantId = some limits)
      (hinsertable : Insertable env s id create) (hstored : s'.db.runs = s.db.runs ++ [row])
      (hrow : row.key = (principal.tenantId, key) ∧ row.state = .queued)
      (hrun : run.id = row.id.text) : Creation env s principal create key id (.ok (run, false), s')
  | refused {message : String} (hnew : s.db.runByKey? principal.tenantId key = none)
      (hrefused : ∀ limits, s.db.limits? principal.tenantId = some limits →
        ¬ QuotaExceeded env s principal limits ∧
          workflowNamed? s principal create.workflowId ≠ none ∧ ¬ Insertable env s id create)
      (hstatus : createErrorStatus message = 500) :
      Creation env s principal create key id (.error message, s)

theorem creation {create : RuntimeStore.CreateRun} {key : String} {id workflowId : Uuid}
    (htext : PostgresDurableStore.isText key = true) (hlength : 16 ≤ key.length ∧ key.length ≤ 128)
    (hworkflowId : Uuid.ofText? create.workflowId = some workflowId) :
    Creation env s principal create key id
      (PostgresDurableStore.createRun env s principal create key id) := by
  have hnamed : workflowNamed? s principal create.workflowId =
      (s.db.definition? workflowId).filter (fun row => row.tenantId = principal.tenantId) := by
    rw [workflowNamed?, hworkflowId]
    rfl
  simp only [PostgresDurableStore.createRun, htext, hworkflowId, ← hnamed]
  cases hfound : s.db.runByKey? principal.tenantId key with
  | some row => exact .replayed hfound rfl
  | none =>
      cases hlimits : s.db.limits? principal.tenantId with
      | none =>
          refine .refused hfound ?_ (by decide +kernel)
          intro limits hsome
          rw [hlimits] at hsome
          cases hsome
      | some limits =>
          have hexceeded := @quotaError_none_iff env principal s limits
          cases herror : ControlPlane.quotaError env s s.clock limits principal.tenantId with
          | some message =>
              simp only [herror]
              refine .quota hfound hlimits ?_ (createErrorStatus_quota herror)
              by_contra hnot
              rw [hexceeded.mpr hnot] at herror
              cases herror
          | none =>
              cases hworkflow : workflowNamed? s principal create.workflowId with
              | none =>
                  have hstatus : createErrorStatus "Workflow not found" = 404 := by
                    decide +kernel
                  simp only [herror]
                  exact .noWorkflow hfound hlimits hworkflow hstatus
              | some workflow =>
                  rcases @insertRun_cases env principal s key create workflow id hlength with
                    ⟨hinsertable, run, row, s', hresult, hstored, hkey, hstate, hrun⟩ |
                      ⟨hnot, message, hresult, hstatus⟩
                  · simp only [herror, hresult]
                    exact .inserted hfound hlimits hinsertable hstored ⟨hkey, hstate⟩ hrun
                  · simp only [herror, hresult]
                    refine .refused hfound ?_ hstatus
                    intro other hother
                    rw [hlimits, Option.some.injEq] at hother
                    subst hother
                    exact ⟨hexceeded.mp herror, by simp [hworkflow], hnot⟩

theorem createRun_answered {key : String} {body : RunBody} (hkey : request.key? = some key)
    (hbody : request.runBody? = some body) :
    Answered env views principal request .createRun
        (createRun env views.reading principal request key body) ↔
      (views.reading.db.runByKey? principal.tenantId key = none →
        ∃ limits, views.reading.db.limits? principal.tenantId = some limits ∧
          (QuotaExceeded env views.reading principal limits ∨
            workflowNamed? views.reading principal body.workflowId = none ∨
              Insertable env views.reading request.id (request.create body))) := by
  obtain ⟨htext, hlength⟩ := key_accepted hkey
  obtain ⟨workflowId, hworkflowId⟩ := workflowId_accepted hbody
  -- issuing the credential changes the broker alone, which no statement reads
  obtain ⟨broker, hissued⟩ : ∃ broker, issueCredential views.reading request.handle
      body.providerCredential = { views.reading with broker } := by
    cases body.providerCredential <;> exact ⟨_, rfl⟩
  have hcase := @creation env principal { views.reading with broker } (request.create body) key
    request.id workflowId htext hlength hworkflowId
  rw [createRun, hissued]
  generalize PostgresDurableStore.createRun env _ principal _ key request.id = result at hcase ⊢
  cases hcase with
  | replayed hfound hrun =>
      constructor
      · intro _ hnone
        rw [show views.reading.db.runByKey? principal.tenantId key = _ from hfound] at hnone
        cases hnone
      · intro _
        exact answered_ok (by simp [declared]) (.runReplayed hkey hfound hrun)
  | quota hnew hlimits hexceeded hstatus =>
      constructor
      · intro _ _
        exact ⟨_, hlimits, .inl hexceeded⟩
      · intro _
        refine answered_ok (by simp [declared, hstatus]) ?_
        rw [hstatus]
        exact .quotaExceeded hlimits hexceeded
  | noWorkflow hnew hlimits hnone hstatus =>
      constructor
      · intro _ _
        exact ⟨_, hlimits, .inr (.inl hnone)⟩
      · intro _
        refine answered_ok (by simp [declared, hstatus]) ?_
        rw [hstatus]
        exact .workflowNotFound hbody hnone
  | inserted hnew hlimits hinsertable hstored hrow hrun =>
      constructor
      · intro _ _
        exact ⟨_, hlimits, .inr (.inr hinsertable)⟩
      · intro _
        exact answered_ok (by simp [declared]) (.runCreated hkey hnew hstored hrow hrun)
  | refused hnew hrefused hstatus =>
      refine ⟨fun h => absurd h (not_answered hstatus), ?_⟩
      intro hservable
      obtain ⟨limits, hlimits, hserved⟩ := hservable hnew
      obtain ⟨hquota, hworkflow, hinsertable⟩ := hrefused limits hlimits
      rcases hserved with hserved | hserved | hserved
      · exact absurd hserved hquota
      · exact absurd hserved hworkflow
      · exact absurd hserved hinsertable

theorem postRuns_answered (hrole : principal.role ∈ privilegedRoles) :
    Answered env views principal request .createRun (postRuns env views.reading principal request) ↔
      Servable env views principal request .createRun := by
  simp only [postRuns, requireRole, if_pos hrole]
  cases hkey : (request.headers.idempotencyKey.map Subtype.val).filter validKey with
  | none =>
      constructor
      · intro _ key body hsome
        rw [Request.key?, hkey] at hsome
        cases hsome
      · intro _
        exact answered_ok (by simp [declared]) (.invalidRun (.inl hkey))
  | some key =>
      cases hbody : request.body.bind createRunSchema with
      | none =>
          constructor
          · intro _ key body _ hsome
            rw [Request.runBody?, hbody] at hsome
            cases hsome
          · intro _
            exact answered_ok (by simp [declared]) (.invalidRun (.inr hbody))
      | some body =>
          have hanswered := @createRun_answered env views principal request key body hkey hbody
          constructor
          · intro h key' body' hkey' hbody'
            rw [Request.key?, hkey] at hkey'
            rw [Request.runBody?, hbody] at hbody'
            cases hkey'
            cases hbody'
            exact hanswered.mp h
          · intro hservable
            exact hanswered.mpr (hservable key body hkey hbody)

/-! ## Every route -/

theorem handler_answered (hrole : principal.role ∈ request.route.roles) :
    Answered env views principal request request.route (handler env views principal request) ↔
      Servable env views principal request request.route := by
  unfold handler
  cases hroute : request.route with
  | createWorkflow => exact postWorkflows_answered (by rwa [hroute] at hrole)
  | createRun => exact postRuns_answered (by rwa [hroute] at hrole)
  | readRun runId => exact getRun_answered
  | approve runId => exact postApprove_answered (by rwa [hroute] at hrole)
  | cancel runId => exact postCancel_answered (by rwa [hroute] at hrole)
  | audit => exact ⟨fun _ => trivial, fun _ => getAudit_answered (by rwa [hroute] at hrole)⟩

/-- A principal without the role meets `requireRole`, whose error nothing catches. -/
theorem handler_role (hrole : principal.role ∉ request.route.roles) :
    (handler env views principal request).1 = .error "Insufficient role" := by
  unfold handler
  cases hroute : request.route with
  | readRun runId =>
      rw [hroute] at hrole
      exact absurd (by cases principal.role <;> simp [Route.roles]) hrole
  | createWorkflow =>
      rw [hroute] at hrole
      simp only [postWorkflows, requireRole,
        if_neg (show principal.role ∉ privilegedRoles from hrole)]
  | createRun =>
      rw [hroute] at hrole
      simp only [postRuns, requireRole, if_neg (show principal.role ∉ privilegedRoles from hrole)]
  | approve runId =>
      rw [hroute] at hrole
      simp only [postApprove, postTransition, requireRole,
        if_neg (show principal.role ∉ privilegedRoles from hrole)]
  | cancel runId =>
      rw [hroute] at hrole
      simp only [postCancel, postTransition, requireRole,
        if_neg (show principal.role ∉ privilegedRoles from hrole)]
  | audit =>
      rw [hroute] at hrole
      simp only [getAudit, requireRole, if_neg (show principal.role ∉ [Role.owner] from hrole)]

theorem Means.notFound {after : Shared} {reply : Reply}
    (hmeans : Means env views principal request after route reply)
    (hroute : route.runId? = some runId)
    (hnamed : runNamed? views.reading principal runId = none) : reply.status = 404 := by
  cases hmeans with
  | runNotFound => rfl
  | runFound hfound =>
      cases hroute
      rw [hnamed] at hfound
      cases hfound
  | requeued hread | notAwaiting hread | cancelled hread | terminal hread =>
      cases hroute
      rw [hnamed] at hread
      cases hread
  | _ => cases hroute

theorem Means.lostRace {after : Shared} {reply : Reply}
    (hmeans : Means env views principal request after route reply)
    (hlost : LostRace views principal route) : reply.status = 409 := by
  cases hmeans with
  | notAwaiting | terminal => rfl
  | requeued _ hrow hstate =>
      obtain ⟨read, row, -, hlater, -, hleft⟩ := hlost
      rw [hrow, Option.some.injEq] at hlater
      subst hlater
      exact absurd hstate hleft
  | cancelled _ hrow hstate =>
      obtain ⟨read, row, -, hlater, -, hleft⟩ := hlost
      rw [hrow, Option.some.injEq] at hlater
      subst hlater
      rw [hstate] at hleft
      cases hleft
  | @runNotFound _ runId _ hroute hnamed =>
      cases route with
      | approve other | cancel other =>
          cases hroute
          obtain ⟨read, row, hread, -⟩ := hlost
          rw [hnamed] at hread
          cases hread
      | _ => exact hlost.elim
  | _ => exact hlost.elim

theorem handle_anonymous
    (hnone : preHandler hashApiKey views.authenticating request.headers = none) :
    handle env hashApiKey views request = (⟨401, .error "unauthenticated"⟩, views.reading) := by
  rw [handle, hnone]

theorem handle_principal
    (hsome : preHandler hashApiKey views.authenticating request.headers = some principal) :
    handle env hashApiKey views request =
      (replyOf (handler env views principal request).1,
        (handler env views principal request).2) := by
  rw [handle, hsome]

theorem conforms_anonymous
    (hnone : preHandler hashApiKey views.authenticating request.headers = none) :
    Conforms env hashApiKey views request where
  declared := by
    rw [handle_anonymous hnone]
    cases request.route <;> simp [App.declared]
  unauthenticated := by
    intro _
    rw [handle_anonymous hnone]
  forbidden := by simp [hnone]
  means := by simp [hnone]
  notFound := by simp [hnone]
  lostRace := by simp [hnone]

theorem conforms_of_answered
    (hsome : preHandler hashApiKey views.authenticating request.headers = some principal)
    (hrole : principal.role ∈ request.route.roles)
    (h : Answered env views principal request request.route (handler env views principal request)) :
    Conforms env hashApiKey views request := by
  have only : ∀ other, preHandler hashApiKey views.authenticating request.headers = some other →
      other = principal := by
    intro other hother
    rw [hsome, Option.some.injEq] at hother
    exact hother.symm
  obtain ⟨hdeclared, hmeans⟩ := h
  constructor
  · rw [handle_principal hsome]
    exact hdeclared
  · intro hnone
    rw [hsome] at hnone
    cases hnone
  · intro other hother hlacks
    rw [only other hother] at hlacks
    exact absurd hrole hlacks
  · intro other hother _
    rw [only other hother, handle_principal hsome]
    exact hmeans
  · intro other runId hother _ hroute hnamed
    rw [only other hother] at hnamed
    rw [handle_principal hsome]
    exact hmeans.notFound hroute hnamed
  · intro other hother _ hlost
    rw [only other hother] at hlost
    rw [handle_principal hsome]
    exact hmeans.lostRace hlost

/-- A request gets a declared reply, with what it means, exactly when it meets no exception. -/
theorem conforms_iff (env : Env) (hashApiKey : String → String) (views : Views)
    (request : Request) :
    Conforms env hashApiKey views request ↔ Served env hashApiKey views request := by
  constructor
  · intro hconforms principal hsome
    by_cases hrole : principal.role ∈ request.route.roles
    · refine ⟨hrole, handler_answered hrole |>.mp ⟨?_, ?_⟩⟩
      · have hdeclared := hconforms.declared
        rwa [handle_principal hsome] at hdeclared
      · have hmeans := hconforms.means principal hsome hrole
        rwa [handle_principal hsome] at hmeans
    · have hstatus := hconforms.forbidden principal hsome hrole
      rw [handle_principal hsome, handler_role hrole] at hstatus
      cases hstatus
  · intro hserved
    cases hprincipal : preHandler hashApiKey views.authenticating request.headers with
    | none => exact conforms_anonymous hprincipal
    | some principal =>
        obtain ⟨hrole, hservable⟩ := hserved principal hprincipal
        exact conforms_of_answered hprincipal hrole ((handler_answered hrole).mpr hservable)

end

/-! ## A viewer's request -/

/-- One tenant with a viewer; the digest of a key is the key. -/
def viewers : PostgresDurableStore.Directory where
  tenants := [⟨Scenario.tenantId, "demo-tenant"⟩]
  limits := []
  principals := [⟨4, Scenario.tenantId, "viewer", .viewer⟩]
  apiKeys := [⟨5, Scenario.tenantId, 4, "viewer-key", none⟩]

def idle : Shared := ⟨0, (Scenario.start 1).db, ⟨[], 900000⟩, fun _ => none⟩

def registration : Request where
  route := .createWorkflow
  headers :=
    ⟨some ⟨"demo-tenant", by decide +kernel⟩, some ⟨"viewer-key", by decide +kernel⟩, none⟩
  body := some (.ofJson (Scenario.workflow [Scenario.dataRead]))
  id := 6
  handle := 7

/-- A viewer that registers a workflow gets 500 where 403 is declared. -/
theorem not_conforms :
    ¬ ∀ (env : Env) (hashApiKey : String → String) (views : Views) (request : Request),
      Conforms env hashApiKey views request := by
  intro hall
  have hstatus := (hall Scenario.env id ⟨viewers, idle, idle⟩ registration).forbidden
    ⟨Scenario.tenantId, .viewer, "viewer"⟩ rfl (by decide)
  revert hstatus
  decide +kernel

end DurableRuntime.App
