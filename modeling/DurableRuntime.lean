import DurableRuntime.ApprovalGate
import DurableRuntime.Attempts
import DurableRuntime.BrokerLaw
import DurableRuntime.Cancellation
import DurableRuntime.Completion
import DurableRuntime.Conformance
import DurableRuntime.ControlPlane.CleanText
import DurableRuntime.ControlPlane.SecretCoverage
import DurableRuntime.Delivery
import DurableRuntime.Draining
import DurableRuntime.EffectKeys
import DurableRuntime.EffectLedger
import DurableRuntime.EventLog
import DurableRuntime.Evidence
import DurableRuntime.Fencing
import DurableRuntime.Idempotency
import DurableRuntime.IdentityColumns
import DurableRuntime.LeaseColumns
import DurableRuntime.LeaseExclusion
import DurableRuntime.LoopMeaning
import DurableRuntime.Migrations
import DurableRuntime.ProviderCalls
import DurableRuntime.Provisioning
import DurableRuntime.Publication
import DurableRuntime.Quiescence
import DurableRuntime.Quota
import DurableRuntime.ReadGuarantees
import DurableRuntime.Recovery
import DurableRuntime.RequestCredentials
import DurableRuntime.Resumption
import DurableRuntime.SerialRuns
import DurableRuntime.SideEffects
import DurableRuntime.StateMachine
import DurableRuntime.StepResults
import DurableRuntime.StoreEquivalence
import DurableRuntime.StoreIsolation
import DurableRuntime.SufficientPrivilege
import DurableRuntime.TableConstraints
import DurableRuntime.TenantIsolation
import DurableRuntime.Tenants
import DurableRuntime.TimelyWorkers
import DurableRuntime.Waiting
import DurableRuntime.WorkflowLanguage
