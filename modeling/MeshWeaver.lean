import MeshWeaver.Raft.Deliveries
import MeshWeaver.Raft.Determinism
import MeshWeaver.Raft.Acknowledge
import MeshWeaver.Raft.Compaction
import MeshWeaver.Raft.Futures
import MeshWeaver.Raft.Representation
import MeshWeaver.Raft.AppliedOnce
import MeshWeaver.Raft.CatchUp
import MeshWeaver.Raft.Batch
import MeshWeaver.Raft.SnapshotTransfer
import MeshWeaver.Cluster.CommitMajority
import MeshWeaver.Election.Discovery
import MeshWeaver.Cluster.LogMatching
import MeshWeaver.Cluster.StateMachineSafety
import MeshWeaver.Transactions.Serial
import MeshWeaver.Orchestrator.Fencing
import MeshWeaver.Wal.RecoveredLog
import MeshWeaver.Wal.TornWrite
import MeshWeaver.Wal.Damage
import MeshWeaver.Wal.Purge
import MeshWeaver.Wal.Keys
import MeshWeaver.Wal.Integrity
import MeshWeaver.Storage.Newest
import MeshWeaver.Storage.CrashSafety
import MeshWeaver.Sync.Rendezvous
import MeshWeaver.Sync.FirstCome
import MeshWeaver.Transactions.Restart
import MeshWeaver.Node.Durability
import MeshWeaver.Node.LastSeen
import MeshWeaver.Node.Lookup
import MeshWeaver.Node.Networking
import MeshWeaver.Node.Heartbeats
import MeshWeaver.Breaker.Trip
import MeshWeaver.Breaker.Probes
import MeshWeaver.Breaker.Overflow
import MeshWeaver.Queue.Aging
import MeshWeaver.Queue.Accounting
import MeshWeaver.Queue.Paused
import MeshWeaver.Scheduler.Verdicts
import MeshWeaver.Scheduler.LoadShedder
import MeshWeaver.Tasks.Cache
import MeshWeaver.Tasks.MapReduce
import MeshWeaver.Tasks.TreeReduce
import MeshWeaver.Tasks.BatchExecutor
