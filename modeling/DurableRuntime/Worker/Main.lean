import DurableRuntime.System

/-!
# The process of a worker

`main` of `services/worker/main.go` from the first message on: the receive loop,
the channel `jobs`, the handlers that range over it, and the drain after a
signal.  The deliveries that the handlers process are worker sessions of the
system, which goes on around the process; a session of this process moves only
while a handler processes it.
-/

namespace DurableRuntime.Worker

/-- `strconv.Atoi`. -/
def atoi (text : String) : Option Int :=
  let (negative, digits) :=
    match text.toList with
    | '-' :: digits => (true, digits)
    | '+' :: digits => (false, digits)
    | digits => (false, digits)
  let value : Int := digits.foldl (fun value c => 10 * value + (c.toNat - '0'.toNat : Nat)) 0
  let value := if negative then -value else value
  if digits.isEmpty || !digits.all Char.isDigit then none
  else if value < -9223372036854775808 || 9223372036854775807 < value then none
  else some value

/-- The argument is the value of `DAR_WORKER_CONCURRENCY`. -/
def workerConcurrency (setting : String) : Nat :=
  match atoi setting with
  | some parsed => if 0 < parsed && parsed ≤ 128 then parsed.toNat else 16
  | none => 16

/-- Where `main` stands; a message is named by its worker session. -/
inductive Receiver where
  | condition
  | next
  | select (session : Nat)
  | wait
  | waitDrained
  | returned
  deriving DecidableEq

/-- Where a handler stands: at `range jobs`, in the body of the loop, or at its end. -/
inductive Handler where
  | range
  | body (session : Nat)
  | done
  deriving DecidableEq

namespace Handler

def session? : Handler → Option Nat
  | body session => some session
  | _ => none

end Handler

/-- `buffered` are the messages that the iterator has pulled and `Next` has not returned yet. -/
structure Process where
  workerId : String
  concurrency : Nat
  receiveDone : Bool
  workDone : Bool
  receiver : Receiver
  buffered : List Nat
  jobs : List Nat
  closed : Bool
  handlers : List Handler

namespace Process

def start (workerId setting : String) : Process :=
  let concurrency := workerConcurrency setting
  { workerId, concurrency, receiveDone := false, workDone := false, receiver := .condition,
    buffered := [], jobs := [], closed := false,
    handlers := List.replicate concurrency .range }

/-- The receive loop is not over, so that the iterator has not been stopped. -/
def receiving (process : Process) : Bool :=
  match process.receiver with
  | .condition | .next | .select _ => true
  | _ => false

end Process

structure Deployment where
  system : State
  process : Process

inductive MainAction where
  | other (action : Action)
  | pull (message : Nat)
  | signal
  | condition
  | next
  | nextFailed
  | send
  | abandon
  | timeout
  | drained
  | take (handler : Nat)
  | work (handler : Nat) (reply : Reply)
  | fail (handler : Nat)
  | answerLost (handler : Nat)
  | finish (handler : Nat)
  | endRange (handler : Nat)

namespace Deployment

def owns (d : Deployment) (session : Nat) : Bool :=
  (d.system.workers[session]?).any fun session => session.id = d.process.workerId

/-- An action of the rest of the system. -/
def foreign (d : Deployment) : Action → Bool
  | .deliver _ workerId => workerId ≠ d.process.workerId
  | .worker session _ | .workerError session | .crash session => !d.owns session
  | _ => true

/-- A move of the session that a handler processes. -/
def handle (env : Env) (d : Deployment) (handler : Nat) (action : Nat → Action) :
    Option Deployment :=
  match d.process.handlers[handler]? with
  | some (.body session) =>
      (next env d.system (action session)).map fun system => { d with system }
  | _ => none

def setHandler (d : Deployment) (handler : Nat) (value : Handler) : Process :=
  { d.process with handlers := d.process.handlers.set handler value }

end Deployment

def mainNext (env : Env) (d : Deployment) : MainAction → Option Deployment
  | .other action =>
      if d.foreign action then
        (next env d.system action).map fun system => { d with system }
      else none
  | .pull message =>
      -- `PullMaxMessages(concurrency*4)`
      if d.process.receiving && d.process.buffered.length < d.process.concurrency * 4 then
        (next env d.system (.deliver message d.process.workerId)).map fun system =>
          { system
            process :=
              { d.process with
                buffered := d.process.buffered ++ [d.system.workers.length] } }
      else none
  | .signal => some { d with process := { d.process with receiveDone := true } }
  | .condition =>
      match d.process.receiver with
      | .condition =>
          if d.process.receiveDone then
            -- `iterator.Stop()` and `close(jobs)`
            some
              { d with
                process := { d.process with receiver := .wait, buffered := [], closed := true } }
          else some { d with process := { d.process with receiver := .next } }
      | _ => none
  | .next =>
      match d.process.receiver, d.process.buffered with
      | .next, session :: buffered =>
          some { d with process := { d.process with receiver := .select session, buffered } }
      | _, _ => none
  | .nextFailed =>
      match d.process.receiver with
      | .next => some { d with process := { d.process with receiver := .condition } }
      | _ => none
  | .send =>
      match d.process.receiver with
      | .select session =>
          if d.process.jobs.length < d.process.concurrency * 4 then
            some
              { d with
                process :=
                  { d.process with
                    receiver := .condition
                    jobs := d.process.jobs ++ [session] } }
          else none
      | _ => none
  | .abandon =>
      match d.process.receiver with
      | .select _ =>
          if d.process.receiveDone then
            some { d with process := { d.process with receiver := .condition } }
          else none
      | _ => none
  | .timeout =>
      match d.process.receiver with
      | .wait =>
          some { d with process := { d.process with receiver := .waitDrained, workDone := true } }
      | _ => none
  | .drained =>
      if (d.process.receiver = .wait ∨ d.process.receiver = .waitDrained) ∧
          ∀ handler ∈ d.process.handlers, handler = .done then
        some { d with process := { d.process with receiver := .returned } }
      else none
  | .take handler =>
      match d.process.handlers[handler]?, d.process.jobs with
      | some .range, session :: jobs =>
          some { d with process := { d.setHandler handler (.body session) with jobs } }
      | _, _ => none
  | .work handler reply => d.handle env handler fun session => .worker session reply
  | .fail handler => d.handle env handler .workerError
  | .answerLost handler =>
      match d.process.handlers[handler]? with
      | some (.body session) =>
          match d.system.workers[session]? with
          | some ⟨_, _, .returned _⟩ => d.handle env handler .crash
          | _ => none
      | _ => none
  | .finish handler =>
      match d.process.handlers[handler]? with
      | some (.body session) =>
          match d.system.workers[session]? with
          | some ⟨_, _, .gone⟩ => some { d with process := d.setHandler handler .range }
          | _ => none
      | _ => none
  | .endRange handler =>
      match d.process.handlers[handler]?, d.process.jobs with
      | some .range, [] =>
          if d.process.closed then some { d with process := d.setHandler handler .done }
          else none
      | _, _ => none

/-- The process starts while the system runs, and no other process has its id. -/
structure Deployed (env : Env) (d : Deployment) : Prop where
  system : ∃ h, Run env h d.system
  fresh : ∀ session ∈ d.system.workers, session.id ≠ d.process.workerId
  process : ∃ workerId setting, d.process = Process.start workerId setting

/-- The steps of the process itself; a call fails on its own once its context is cancelled. -/
def Own (d : Deployment) : MainAction → Prop
  | .other _ | .pull _ | .signal => False
  | .fail _ => d.process.workDone = true
  | _ => True

abbrev MainRun (env : Env) :
    Foundation.History Deployment MainAction → Deployment → Prop :=
  Foundation.Exec (Deployed env) (mainNext env)

end DurableRuntime.Worker
