import Virthub.Raft.Election
import Virthub.Raft.CommitCallback
import Virthub.Raft.ElectionRestriction
import Virthub.Raft.Roles
import Virthub.Klnk.Core.SingleWriter
import Virthub.Klnk.Core.LockQueue
import Virthub.Klnk.Core.Versions
import Virthub.Klnk.Core.RegionLoops
import Virthub.Klnk.Core.Patching
import Virthub.Klnk.Core.DiffCanonical
import Virthub.Index.HashIndex.Concurrent
import Virthub.Index.HashIndex.Refusals
import Virthub.Index.HashIndex.ProbeBounds
import Virthub.Index.RangeQuery
import Virthub.Index.EvictionTracking
import Virthub.Store.Monotone
import Virthub.Store.Fp4
import Virthub.Store.BlockSharing
import Virthub.Klnk.Daemon.Locks
import Virthub.Klnk.Daemon.LostInvalidation
import Virthub.Klnk.Daemon.PrefetchAge
import Virthub.Klnk.Daemon.RingDelivery
import Virthub.Klnk.Daemon.InvalidationPoller
import Virthub.Klnk.Daemon.RegionIdentity
import Virthub.Klnk.Daemon.RdmaMetadata
import Virthub.Klnk.Daemon.UnitFrame
import Virthub.Klnk.Daemon.FaultSource
import Virthub.Klnk.Daemon.FaultPipeline
import Virthub.Klnk.Daemon.Telemetry
import Virthub.Klnk.Daemon.ClientLoop
import Virthub.Klnk.Daemon.Limits
import Virthub.Klnk.Ebpf.StrideDetector
import Virthub.Klnk.Net.FrameLimits
import Virthub.Klnk.Net.UringTransport
import Virthub.Klnk.Shim.IpcClient
import Virthub.Klnk.Rma.LiveRegions
import Virthub.Klnk.Rma.ConcurrentRegistration
import Virthub.Klnk.Rma.RegistryLocks
import Virthub.Klnk.Rma.RangeChecks
import Virthub.Klnk.Rma.RqRefill
import Virthub.Klnk.Rma.CompletionQueue
import Virthub.Klnk.Dsm.BlockMetadata
import Virthub.Precision.Specification
import Virthub.Precision.LosslessWindows
import Virthub.Precision.Thrashing
import Virthub.Master.Sequential
import Virthub.Master.Coordinator
import Virthub.Config.NodeIdentity
import Virthub.Kernels.IndexWidth
import Virthub.Kernels.QuantizerAgreement
import Virthub.Kernels.EnhancedDequant
import Virthub.Kernels.BtkvDequant
import Virthub.Kernels.FusedDequant
import Virthub.Kernels.TmaDescriptors
import Virthub.Connectors.VllmMetadata
import Virthub.Connectors.VllmFailures
import Virthub.Connectors.LmCacheStore
import Virthub.Connectors.Sglang
