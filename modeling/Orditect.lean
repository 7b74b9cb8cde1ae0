import Orditect.Quota.Proofs.Rejection
import Orditect.Snapshot.Proofs.Ancestors
import Orditect.Bucket.Proofs.Rate
import Orditect.Bucket.Proofs.Encoding
import Orditect.Semaphore.Proofs.Leak
import Orditect.Governor.Proofs.Streaming
import Orditect.Governor.Proofs.Books
import Orditect.Budget.Proofs.Conservation
import Orditect.TaskStore.Proofs.Validation
import Orditect.TaskStore.Proofs.Preserve
import Orditect.TaskStore.Proofs.Atomic
import Orditect.TaskStore.Proofs.Attached
import Orditect.Stream.Proofs.Context
import Orditect.Stream.Proofs.Pipeline
import Orditect.Stream.Proofs.Chunking
import Orditect.Stream.Proofs.Mux
import Orditect.Stream.Proofs.Partial
import Orditect.Stream.Proofs.Protocol
import Orditect.Stream.Proofs.Enrich
import Orditect.Stream.Proofs.Manifest
import Orditect.Stream.Proofs.Grace
import Orditect.Stream.Proofs.Resolver
import Orditect.Content.Proofs.Immutable
import Orditect.Stream.Proofs.Slot
import Orditect.Governance.Proofs.Cycles
import Orditect.Governance.Proofs.Rebuild
import Orditect.Governance.Proofs.Exemption
import Orditect.Governance.Proofs.Horizon
import Orditect.Governance.Proofs.NoLoss
import Orditect.Governance.Proofs.Readiness
import Orditect.Governance.Proofs.VoteCancel
import Orditect.Executor.Proofs.Agreement
import Orditect.Executor.Proofs.Cancellation
import Orditect.Executor.Proofs.Termination
import Orditect.Executor.Proofs.Slot
import Orditect.Executor.Proofs.Token
import Orditect.Orchestrator.Proofs.Transitions
import Orditect.Orchestrator.Proofs.Cascade
import Orditect.Recovery.Proofs.Exactness
import Orditect.Governance.Proofs.Crossing
import Orditect.Snapshot.Proofs.Repeat
import Orditect.Snapshot.Proofs.Rules
import Orditect.Actions.Proofs.Window
import Orditect.Workflow.Proofs.Levels
