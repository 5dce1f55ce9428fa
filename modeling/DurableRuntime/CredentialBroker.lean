import DurableRuntime.Identifiers
import DurableRuntime.Json

/-!
# The credential broker

`services/control-plane/src/credential-broker.ts`: an in-memory map from opaque
handles to provider credentials.  Times are milliseconds of `Date.now()`.
Expired entries leave the map only when `issue` or `consume` purges it.
-/

namespace DurableRuntime

structure BrokerEntry where
  handle : Uuid
  credential : JsString
  expiresAt : Int
  deriving DecidableEq

structure CredentialBroker where
  entries : List BrokerEntry
  ttlMs : Int

namespace CredentialBroker

def purge (broker : CredentialBroker) (now : Int) : CredentialBroker :=
  { broker with entries := broker.entries.filter fun entry => now < entry.expiresAt }

def delete (broker : CredentialBroker) (handle : Uuid) : CredentialBroker :=
  { broker with entries := broker.entries.filter fun entry => entry.handle ≠ handle }

def get (broker : CredentialBroker) (handle : Uuid) : Option BrokerEntry :=
  broker.entries.find? fun entry => entry.handle = handle

/-- `issue` with the random handle it draws. -/
def issue (broker : CredentialBroker) (now : Int) (handle : Uuid) (credential : JsString) :
    CredentialBroker :=
  let purged := (broker.purge now).delete handle
  { purged with entries := purged.entries ++ [⟨handle, credential, now + broker.ttlMs⟩] }

def consume (broker : CredentialBroker) (now : Int) (handle : Uuid) :
    Option JsString × CredentialBroker :=
  let purged := broker.purge now
  ((purged.get handle).map (·.credential), purged.delete handle)

def discard (broker : CredentialBroker) (handle : Uuid) : CredentialBroker :=
  broker.delete handle

end CredentialBroker

end DurableRuntime
