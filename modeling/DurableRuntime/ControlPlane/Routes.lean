import DurableRuntime.ControlPlane.Bootstrap
import Mathlib.Data.List.Infix

/-!
# The routes

The `/v1` routes of `createApp` over `PostgresDurableStore`, from the parsed
request to the reply.  A handler runs up to two transactions after `preHandler`
has authenticated its caller, and other requests may commit before each of them.
What a handler throws becomes a reply with status 500.
-/

namespace DurableRuntime.App

open DurableRuntime.ControlPlane (Principal Role privilegedRoles)
open DurableRuntime.PostgresDurableStore (Directory)
open DurableRuntime.RuntimeStore (StoredWorkflow StoredRun AuditRecord)

/-! ## Requests and replies -/

/-- A header value reaches a handler as Latin-1 text without NUL characters. -/
def isHeaderText (value : String) : Bool :=
  value.toList.all fun c => 0 < c.toNat && c.toNat < 0x100

abbrev HeaderText := { value : String // isHeaderText value = true }

structure Headers where
  tenantId : Option HeaderText
  apiKey : Option HeaderText
  idempotencyKey : Option HeaderText

inductive Route where
  | createWorkflow
  | createRun
  | readRun (runId : String)
  | approve (runId : String)
  | cancel (runId : String)
  | audit

/--
A request whose body, if it has one, is JSON.  `id` and `handle` are the random
uuids for the row that it may insert and for the credential that it may issue.
-/
structure Request where
  route : Route
  headers : Headers
  body : Option JsValue
  id : Uuid
  handle : Uuid

inductive Body where
  | error (error : String)
  | workflow (workflow : StoredWorkflow)
  | created (run : StoredRun) (replayed : Bool)
  | run (run : StoredRun)
  | records (records : List AuditRecord)

structure Reply where
  status : Nat
  body : Body

/--
What the statements of one request see: `authenticate`, the handler's first call,
`transition`.
-/
structure Views where
  authenticating : Directory
  reading : Shared
  moving : Shared

/-- The end of a handler, which may throw, and the state that its last transaction leaves. -/
abbrev Handled := Except String Reply × Shared

/-! ## `createRunSchema` -/

def isHexText (text : List Char) : Bool := text.all fun c => (hexValue c).isSome

/-- `z.uuid()`: a version from 1 to 8 and the variant, or the nil or the max uuid. -/
def isZodUuid (text : String) : Bool :=
  isUUID text &&
    (((text.toList.drop 14).head?.any fun c => '1' ≤ c && c ≤ '8') &&
        ((text.toList.drop 19).head?.any fun c => c ∈ ['8', '9', 'a', 'b', 'A', 'B']) ||
      text = "00000000-0000-0000-0000-000000000000" ||
      text = "ffffffff-ffff-ffff-ffff-ffffffffffff")

structure RunBody where
  workflowId : String
  input : JsValue
  providerCredential : Option JsString

def parseWorkflowId : JsValue → Option String
  | .str text => text.text?.filter isZodUuid
  | _ => none

def parseInput : Option JsValue → Option JsValue
  | none => some (.obj [])
  | some (.obj members) => some (.obj members)
  | some _ => none

def parseProviderCredential : Option JsValue → Option (Option JsString)
  | none => some none
  | some (.str text) => if 20 ≤ text.length16 ∧ text.length16 ≤ 512 then some (some text) else none
  | some _ => none

def createRunSchema : JsValue → Option RunBody
  | .obj members => do
      let workflowId ← (JsValue.member? "workflowId" members).bind parseWorkflowId
      let input ← parseInput (JsValue.member? "input" members)
      let providerCredential ←
        parseProviderCredential (JsValue.member? "providerCredential" members)
      some { workflowId, input, providerCredential }
  | _ => none

/-! ## Handlers -/

/-- The `preHandler` hook: the principal of a request, if it has one. -/
def preHandler (hashApiKey : String → String) (directory : Directory) (headers : Headers) :
    Option Principal :=
  match headers.tenantId with
  | none => none
  | some tenant =>
      if tenant.val = "" then none
      else
        PostgresDurableStore.authenticate hashApiKey directory tenant.val
          (headers.apiKey.map Subtype.val)

def requireRole (principal : Principal) (roles : List Role) : Except String Unit :=
  if principal.role ∈ roles then .ok () else .error "Insufficient role"

def postWorkflows (env : Env) (s : Shared) (principal : Principal) (request : Request) : Handled :=
  match requireRole principal privilegedRoles with
  | .error message => (.error message, s)
  | .ok _ =>
      match request.body.bind fun body => workflowDefinitionSchema body.toJson with
      | none => (.ok ⟨400, .error "invalid_workflow"⟩, s)
      | some definition =>
          let result := PostgresDurableStore.createWorkflow env s principal definition request.id
          (result.1.map fun workflow => ⟨201, .workflow workflow⟩, result.2)

/-- `message.includes(part)`. -/
def includes (message part : String) : Bool := part.toList <:+: message.toList

/-- The status that the `catch` of `POST /v1/runs` gives to a message. -/
def createErrorStatus (message : String) : Nat :=
  if includes message "quota" then 429
  else if message = "Workflow not found" then 404
  else 500

def issueCredential (s : Shared) (handle : Uuid) : Option JsString → Shared
  | none => s
  | some credential => { s with broker := s.broker.issue s.dateNow handle credential }

def discardCredential (s : Shared) (handle : Uuid) : Option JsString → Shared
  | none => s
  | some _ => { s with broker := s.broker.discard handle }

/-- What `POST /v1/runs` passes to the store. -/
def Request.create (request : Request) (body : RunBody) : RuntimeStore.CreateRun :=
  ⟨body.workflowId, body.input, body.providerCredential.map fun _ => request.handle⟩

/-- What `POST /v1/runs` makes of the answer of the store. -/
def createReply (request : Request) (body : RunBody) :
    Except String (StoredRun × Bool) × Shared → Handled
  | (.ok (run, replayed), s) =>
      (.ok ⟨if replayed then 200 else 201, .created run replayed⟩,
        if replayed then discardCredential s request.handle body.providerCredential else s)
  | (.error message, s) => (.ok ⟨createErrorStatus message, .error message⟩, s)

/-- `POST /v1/runs` from the parsed body on. -/
def createRun (env : Env) (s : Shared) (principal : Principal) (request : Request) (key : String)
    (body : RunBody) : Handled :=
  createReply request body
    (PostgresDurableStore.createRun env
      (issueCredential s request.handle body.providerCredential) principal (request.create body)
      key request.id)

def validKey (key : String) : Bool := 16 ≤ utf16Length key && utf16Length key ≤ 128

def postRuns (env : Env) (s : Shared) (principal : Principal) (request : Request) : Handled :=
  match requireRole principal privilegedRoles with
  | .error message => (.error message, s)
  | .ok _ =>
      match (request.headers.idempotencyKey.map Subtype.val).filter validKey with
      | none => (.ok ⟨400, .error "idempotency_key_required"⟩, s)
      | some key =>
          match request.body.bind createRunSchema with
          | none => (.ok ⟨400, .error "invalid_run"⟩, s)
          | some body => createRun env s principal request key body

def getRun (s : Shared) (principal : Principal) (runId : String) : Handled :=
  match PostgresDurableStore.readRun s principal runId with
  | .error message => (.error message, s)
  | .ok none => (.ok ⟨404, .error "run_not_found"⟩, s)
  | .ok (some run) => (.ok ⟨200, .run run⟩, s)

/-- The second transaction of the approve and cancel handlers. -/
def moveRun (s : Shared) (principal : Principal) (runId : String)
    (args : ControlPlane.TransitionArgs) : Handled :=
  let result := PostgresDurableStore.transition s principal runId args.state
    ⟨s.clock, args.eventType, args.detail⟩
  (result.1.map fun run => ⟨200, .run run⟩, result.2)

/-- The approve and cancel handlers; `refuse` is the check they make on the state they read. -/
def postTransition (views : Views) (principal : Principal) (runId : String)
    (refuse : RunState → Option String) (args : ControlPlane.TransitionArgs) : Handled :=
  match requireRole principal privilegedRoles with
  | .error message => (.error message, views.reading)
  | .ok _ =>
      match PostgresDurableStore.readRun views.reading principal runId with
      | .error message => (.error message, views.reading)
      | .ok none => (.ok ⟨404, .error "run_not_found"⟩, views.reading)
      | .ok (some run) =>
          match refuse run.state with
          | some message => (.ok ⟨409, .error message⟩, views.reading)
          | none => moveRun views.moving principal runId args

def refuseApprove (state : RunState) : Option String :=
  if state ≠ .awaitingApproval then some "run_not_awaiting_approval" else none

def refuseCancel (state : RunState) : Option String :=
  if state ∈ ControlPlane.terminalStates then some "terminal_run" else none

def postApprove (views : Views) (principal : Principal) (runId : String) : Handled :=
  postTransition views principal runId refuseApprove ControlPlane.approveArgs

def postCancel (views : Views) (principal : Principal) (runId : String) : Handled :=
  postTransition views principal runId refuseCancel ControlPlane.cancelArgs

def getAudit (s : Shared) (principal : Principal) : Handled :=
  match requireRole principal [.owner] with
  | .error message => (.error message, s)
  | .ok _ => (.ok ⟨200, .records (PostgresDurableStore.listAudit s principal)⟩, s)

def handler (env : Env) (views : Views) (principal : Principal) (request : Request) : Handled :=
  match request.route with
  | .createWorkflow => postWorkflows env views.reading principal request
  | .createRun => postRuns env views.reading principal request
  | .readRun runId => getRun views.reading principal runId
  | .approve runId => postApprove views principal runId
  | .cancel runId => postCancel views principal runId
  | .audit => getAudit views.reading principal

/-- The error handler of Fastify: 500 for an error without a status of its own. -/
def replyOf : Except String Reply → Reply
  | .ok reply => reply
  | .error message => ⟨500, .error message⟩

def handle (env : Env) (hashApiKey : String → String) (views : Views) (request : Request) :
    Reply × Shared :=
  match preHandler hashApiKey views.authenticating request.headers with
  | none => (⟨401, .error "unauthenticated"⟩, views.reading)
  | some principal =>
      let handled := handler env views principal request
      (replyOf handled.1, handled.2)

end DurableRuntime.App
