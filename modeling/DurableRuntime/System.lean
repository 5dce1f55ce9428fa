import DurableRuntime.ControlPlane.Handlers
import DurableRuntime.ControlPlane.Publisher
import DurableRuntime.Foundation.History
import DurableRuntime.Foundation.Sessions
import DurableRuntime.Worker.Process

/-!
# The system

Any number of requests, publishers and workers over one database, one broker
and one JetStream consumer.  An action is one move of one session, a new
session, an error or a crash, or the passing of time; `next` is what it does.
JetStream keeps every message until it is acknowledged, and delivers it again
as soon as it is nacked or `AckWait` after the last delivery.
-/

namespace DurableRuntime

open DurableRuntime.Foundation

structure State extends Shared where
  stream : List Message
  workers : List Worker.Session
  calls : List ControlPlane.Session
  publishers : List Outbox.Session

inductive Action where
  | tick (elapsed : Nat)
  | createWorkflow (principal : ControlPlane.Principal) (id : Uuid) (body : Json)
  | request (principal : ControlPlane.Principal) (request : ControlPlane.Request)
  | call (index : Nat) (choice : Uuid)
  | callError (index : Nat)
  | publishPending (limit : Nat)
  | publisher (index : Nat) (reply : Outbox.Reply)
  | publisherError (index : Nat)
  | deliver (message : Nat) (workerId : String)
  | worker (index : Nat) (reply : Worker.Reply)
  | workerError (index : Nat)
  | crash (index : Nat)

/-- `AckWait: 2 * time.Minute`. -/
def ackWait : Int := 120000000

def ackMessage (message : Message) : Message := { message with acked := true }

def redeliverAt (instant : Int) (message : Message) : Message :=
  { message with availableAt := instant }

/-- The stream after an effect of a session that handles the given message. -/
def streamAfter (stream : List Message) (clock : Int) (message : Nat) :
    Effect → List Message
  | .publish new => stream ++ [new]
  | .ack => stream.modify message ackMessage
  | .nak => stream.modify message (redeliverAt clock)
  | _ => stream

namespace State

def withShared (s : State) (holder : Holder) (held : List Resource) (effect : Effect)
    (message : Nat) : State :=
  { s with
    toShared :=
      { s.toShared.apply effect with locks := regrant holder held s.locks }
    stream := streamAfter s.stream s.clock message effect }

def moveWorker (s : State) (index : Nat) (session : Worker.Session) (pc : Worker.Pc)
    (effect : Effect) : State :=
  { s.withShared (.worker index) pc.held effect session.message with
    workers := s.workers.set index { session with pc } }

def moveCall (s : State) (index : Nat) (session : ControlPlane.Session) (effect : Effect) :
    State :=
  { s.withShared (.call index) session.held effect 0 with
    calls := s.calls.set index session }

def movePublisher (s : State) (index : Nat) (session : Outbox.Session) (pc : Outbox.Pc)
    (effect : Effect) : State :=
  { s.withShared (.publisher index) pc.held effect 0 with
    publishers := s.publishers.set index { session with pc } }

end State

/-- The row and the audit record that `createWorkflow` inserts. -/
def definitionRow (principal : ControlPlane.Principal) (id : Uuid)
    (workflow : WorkflowDefinition) : DefinitionRow :=
  ⟨id, principal.tenantId, workflow.name, workflow.version, workflow.toJson,
    workflow.budgetCents⟩

/-- The keys of `workflow_definitions` leave room for the row. -/
def definitionInsertable (db : Db) (row : DefinitionRow) : Bool :=
  db.definitions.all fun other =>
    other.id ≠ row.id &&
      (other.tenantId ≠ row.tenantId || other.name ≠ row.name || other.version ≠ row.version)

/-- What `jsonb` and the index of `workflow_definitions` can hold of a row. -/
def definitionHeld (env : Env) (row : DefinitionRow) : Bool :=
  PostgresDurableStore.isJsonText row.definition && env.fitsIndex row.name row.version

/-- `POST /v1/workflows`: what its one transaction, which conflicts with no other, commits. -/
def createWorkflow (env : Env) (s : Shared) (principal : ControlPlane.Principal) (id : Uuid)
    (body : Json) : Option Commit :=
  if principal.role ∈ ControlPlane.privilegedRoles then
    match workflowDefinitionSchema body with
    | none => none
    | some workflow =>
        let row := definitionRow principal id workflow
        if definitionHeld env row && definitionInsertable s.db row then
          some (.createWorkflow row
            (ControlPlane.auditRow s principal s.clock "workflow.created" id))
        else none
  else none

def databaseError : ControlPlane.Response := .error 500 "database error"

def next (env : Env) (s : State) : Action → Option State
  | .tick elapsed => some { s with clock := s.clock + elapsed }
  | .createWorkflow principal id body =>
      match createWorkflow env s.toShared principal id body with
      | none => none
      | some change => some { s with db := (s.db.draw 0 0 1).commit change }
  | .request principal request =>
      some { s with calls := s.calls ++ [⟨principal, request, none, .route⟩] }
  | .call index choice =>
      match s.calls[index]? with
      | none => none
      | some session =>
          match ControlPlane.step env s.toShared choice session with
          | none => none
          | some (moved, effect) => some (s.moveCall index moved effect)
  | .callError index =>
      match s.calls[index]? with
      | none => none
      | some session =>
          if session.pc.isStatement then
            some (s.moveCall index { session with pc := .done databaseError } .none)
          else none
  | .publishPending limit =>
      some { s with publishers := s.publishers ++ [⟨limit, .claimBegin⟩] }
  | .publisher index reply =>
      match s.publishers[index]? with
      | none => none
      | some session =>
          match Outbox.step s.toShared session.limit reply session.pc with
          | none => none
          | some (pc, effect) => some (s.movePublisher index session pc effect)
  | .publisherError index =>
      match s.publishers[index]? with
      | none => none
      | some session =>
          if session.pc.isRunning then some (s.movePublisher index session .failed .none)
          else none
  | .deliver index workerId =>
      match s.stream[index]? with
      | none => none
      | some message =>
          if !message.acked && message.availableAt ≤ s.clock then
            some
              { s with
                stream := s.stream.modify index (redeliverAt (s.clock + ackWait))
                workers := s.workers ++ [⟨workerId, index, .received message.payload.runId⟩] }
          else none
  | .worker index reply =>
      match s.workers[index]? with
      | none => none
      | some session =>
          match Worker.step env s.toShared session.id reply session.pc with
          | none => none
          | some (pc, effect) => some (s.moveWorker index session pc effect)
  | .workerError index =>
      match s.workers[index]? with
      | none => none
      | some session =>
          if session.pc.mayFail then
            some (s.moveWorker index session (.returned .error) .none)
          else none
  | .crash index =>
      match s.workers[index]? with
      | none => none
      | some session => some (s.moveWorker index session .gone .none)

/-- The commit that an action carries out, if any. -/
def commitOf (env : Env) (s : State) : Action → Option Commit
  | .createWorkflow principal id body => createWorkflow env s.toShared principal id body
  | .call index choice =>
      (s.calls[index]?).bind fun session =>
        (ControlPlane.step env s.toShared choice session).bind fun move => move.2.commit?
  | .publisher index reply =>
      (s.publishers[index]?).bind fun session =>
        (Outbox.step s.toShared session.limit reply session.pc).bind fun move =>
          move.2.commit?
  | .worker index reply =>
      (s.workers[index]?).bind fun session =>
        (Worker.step env s.toShared session.id reply session.pc).bind fun move =>
          move.2.commit?
  | _ => none

/-- The session that an action moves. -/
def actor : Action → Option Holder
  | .call index _ | .callError index => some (.call index)
  | .publisher index _ | .publisherError index => some (.publisher index)
  | .worker index _ | .workerError index | .crash index => some (.worker index)
  | _ => none

/-- The database with its tenants, before the first request. -/
structure Initial (s : State) : Prop where
  definitions : s.db.definitions = []
  runs : s.db.runs = []
  events : s.db.events = []
  stepResults : s.db.stepResults = []
  effects : s.db.effects = []
  outbox : s.db.outbox = []
  audits : s.db.audits = []
  broker : s.broker.entries = []
  locks : s.locks = fun _ => none
  stream : s.stream = []
  workers : s.workers = []
  calls : s.calls = []
  publishers : s.publishers = []

/-- The runs of the system, each with its history. -/
abbrev Run (env : Env) : History State Action → State → Prop := Exec Initial (next env)

end DurableRuntime
