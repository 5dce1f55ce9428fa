import DurableRuntime.CredentialBroker
import DurableRuntime.Database
import DurableRuntime.Jsonb

/-!
# What the components share

The clock, the database with its row locks, and the credential broker.  Every
move of a worker, a request handler or a publisher is a change of its own
position together with one `Effect` on the rest of the system.
-/

namespace DurableRuntime

structure Url where
  scheme : String
  hostname : String
  deriving DecidableEq

/--
Deployment settings, and the library functions whose results the runtime only
inspects: URL and media-type parsing, case folding, the contents of a provider
response, hashing, and the session `TimeZone` of the database connection.
`fitsIndex` tells the names and versions of which an index row, compressed,
stays within the 2704 bytes of a b-tree; `nests` tells the values that are not
too deep for `JSON.stringify` and for the parser of `jsonb`, which recurse.
-/
structure Env where
  controlPlaneInternalUrl : String
  workerInternalToken : String
  controlInternalToken : String
  openaiBaseUrl : String
  openaiModel : String
  parseUrl : String → Option Url
  equalFold : String → String → Bool
  parseMediaType : String → Option String
  providerContents : List UInt8 → Option (List String)
  sha256Hex : String → String
  timestampToInstant : Int → Int
  fitsIndex : String → String → Bool
  nests : Json → Bool

/-- What `jsonb` finds wrong with a value: too deep for its parser, or a NUL character. -/
def PostgresDurableStore.jsonError (env : Env) (json : Json) : Option String :=
  if !env.nests json then some "stack depth limit exceeded"
  else if !isJsonText json then some nulInJson
  else none

theorem jsonError_none_iff {env : Env} {value : JsValue} :
    PostgresDurableStore.jsonError env value.toJson = none ↔
      value.isStorable = true ∧ env.nests value.toJson = true := by
  rw [PostgresDurableStore.jsonError, value.isJsonText_toJson]
  cases value.isStorable <;> cases env.nests value.toJson <;> simp

inductive Holder where
  | worker (index : Nat)
  | call (index : Nat)
  | publisher (index : Nat)
  | lease (index : Nat)
  deriving DecidableEq

/-- What a transaction can lock until it ends; inserted keys count as locked. -/
inductive Resource where
  | run (id : Uuid)
  | limits (tenantId : Uuid)
  | runKey (tenantId : Uuid) (idempotencyKey : String)
  | handle (handle : Uuid)
  | outbox (id : Nat)
  deriving DecidableEq

structure Shared where
  clock : Int
  db : Db
  broker : CredentialBroker
  locks : Resource → Option Holder

def Shared.free (s : Shared) (resource : Resource) : Bool := (s.locks resource).isNone

/-- `Date.now()`. -/
def Shared.dateNow (s : Shared) : Int := s.clock / 1000

/--
A message of the stream.  `row` is the outbox row it was published from; the
message itself carries only the subject, the payload and the tenant.
-/
structure Message where
  row : Nat
  subject : String
  payload : Payload
  tenantId : Uuid
  acked : Bool
  availableAt : Int

inductive Effect where
  | none
  | commit (change : Commit)
  | draw (events outbox audits : Nat)
  | issue (handle : Uuid) (credential : JsString)
  | consume (handle : Uuid)
  | discard (handle : Uuid)
  | publish (message : Message)
  | ack
  | nak

/-- The commit an effect carries out, if any. -/
def Effect.commit? : Effect → Option Commit
  | .commit change => some change
  | _ => Option.none

def Shared.apply (s : Shared) : Effect → Shared
  | .commit change => { s with db := s.db.commit change }
  | .draw events outbox audits => { s with db := s.db.draw events outbox audits }
  | .issue handle credential =>
      { s with broker := s.broker.issue s.dateNow handle credential }
  | .consume handle => { s with broker := (s.broker.consume s.dateNow handle).2 }
  | .discard handle => { s with broker := s.broker.discard handle }
  | .none | .publish _ | .ack | .nak => s

end DurableRuntime
