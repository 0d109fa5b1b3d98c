import Proxyma.Lib.Bucket
import Proxyma.Lib.CleanPath
import Proxyma.Lib.Program
import Proxyma.Lib.Replica
import Proxyma.Lib.Text
import Proxyma.Protocol
import Proxyma.Storage.Physical
import Proxyma.Storage.Task
import Proxyma.Storage.Entry
import Proxyma.Storage.Database
import Proxyma.Storage.Engine
import Proxyma.Storage.Engine
import Proxyma.Storage.Remote
import Proxyma.Storage.IndexEffects
import Proxyma.Storage.Convergence
import Proxyma.Storage.Idempotence
import Proxyma.Storage.Journal
import Proxyma.Storage.Isolation
import Proxyma.Storage.Interleaving
import Proxyma.Storage.Confinement
import Proxyma.Storage.BlobSafety
import Proxyma.Storage.StagedOutputs
import Proxyma.Storage.PrunedEntries
import Proxyma.Join.Installation
import Proxyma.Join.Layout
import Proxyma.Join.Rollback
import Proxyma.Join.Recovery
import Proxyma.Join.Install
import Proxyma.Join.Staging
import Proxyma.Join.Crashes
import Proxyma.Join.Restart
import Proxyma.Lib.Table
import Proxyma.Pipeline.Validation
import Proxyma.Compute.Retention
import Proxyma.Compute.Engine
import Proxyma.Compute.StatusLaw
import Proxyma.Compute.Binding
import Proxyma.Compute.Dispatch
import Proxyma.Compute.Escrow
import Proxyma.Compute.Execution
import Proxyma.Compute.Discipline
import Proxyma.Compute.Cluster
import Proxyma.Compute.PipelineInvariant
import Proxyma.Compute.EscrowOwners
import Proxyma.Compute.Preparation
import Proxyma.Compute.SchemaBinding
import Proxyma.Compute.Panics
import Proxyma.Compute.Dispatching
import Proxyma.Compute.EscrowConservation
import Proxyma.Compute.EscrowUnfinished
import Proxyma.Compute.FailedAttempts
import Proxyma.Compute.StepAgreement
import Proxyma.Compute.Progress
import Proxyma.Compute.Budget
import Proxyma.Compute.Deliveries
import Proxyma.Compute.Redelivery
import Proxyma.Compute.EscrowRestart
import Proxyma.Peers.Registry
import Proxyma.Peers.Views
import Proxyma.Peers.Gossip
import Proxyma.Storage.LocalVersions
import Proxyma.Storage.Sync
import Proxyma.Peers.Invites
import Proxyma.Outbox.Waiting
import Proxyma.Peers.Rotation
import Proxyma.Peers.Sessions
import Proxyma.Lib.Crew
import Proxyma.Outbox.Catalog
import Proxyma.Outbox.Engine
import Proxyma.Outbox.Ledger
import Proxyma.Outbox.Retention
import Proxyma.Outbox.Superseding
import Proxyma.Outbox.Commitment
import Proxyma.Compute.Callbacks
import Proxyma.Pipeline.Registry
import Proxyma.Pipeline.Sync
import Proxyma.Storage.Checkpoints
import Proxyma.Peers.Services
import Proxyma.Storage.Quarantine
import Proxyma.Storage.CollectionIntents
import Proxyma.Storage.DownloadIntents
import Proxyma.Peers.HolePunch
import Proxyma.Peers.Router
import Proxyma.Compute.Failover
import Proxyma.Pipeline.Soundness
import Proxyma.Compute.Metadata
import Proxyma.Compute.BidiCalls
import Proxyma.Peers.Handshakes
