import RosheraCad.Timeline.DeletedRefs
import RosheraCad.Durability.Heads
import RosheraCad.Recorder.Failures
import RosheraCad.Recorder.KeysUsedOnce
import RosheraCad.Replay.TruncateBoundary
import RosheraCad.Replay.Remap
import RosheraCad.Verdict.Replay
import RosheraCad.Ros.Authentication
import RosheraCad.Ros.Binding
import RosheraCad.Brep.RoundTrip
import RosheraCad.Sketch.Constrainment
import RosheraCad.Bounded.Recording
import RosheraCad.Bounded.LostUpdate
import RosheraCad.Kernel.Sidecars
import RosheraCad.Api.AtMostOnce
import RosheraCad.Mcp.SilentClose
import RosheraCad.Mcp.RefusalCache
import RosheraCad.Mcp.PointBudget
import RosheraCad.Api.VerificationSettled
import RosheraCad.Api.ProviderEpoch
import RosheraCad.Api.AcpGate
import RosheraCad.Session.DeltaSync
import RosheraCad.Session.Replicas
import RosheraCad.Session.Escalation
import RosheraCad.Mates.PlanSound
import RosheraCad.Timeline.ConflictSymmetry
import RosheraCad.Timeline.Cascade
import RosheraCad.Sketch.Components
import RosheraCad.Blackboard.LockStep
import RosheraCad.Blackboard.WriteThrough
import RosheraCad.Blackboard.Hydrate
import RosheraCad.Storage.Index
import RosheraCad.Mcp.Ledger
import RosheraCad.Replay.RebuildCertificate
import RosheraCad.Kernel.SpliceExact
import RosheraCad.Ros.MerkleProof
import RosheraCad.Ros.Codecs
import RosheraCad.Ros.Disjoint
import RosheraCad.Projection.Closure
import RosheraCad.Projection.ParallelGroups
import RosheraCad.Projected
import RosheraCad.Timeline.Cursors
import RosheraCad.Timeline.Validate
import RosheraCad.Durability.HistoryOrder
import RosheraCad.Ros.Access
import RosheraCad.Ros.Filters
import RosheraCad.Ros.StreamTruncated
import RosheraCad.Verdict.Quorum
import RosheraCad.Kernel.DeleteEdge
import RosheraCad.Kernel.EdgeIndexes
import RosheraCad.Kernel.VertexIds
import RosheraCad.Api.Eviction
import RosheraCad.Session.Batching
import RosheraCad.Session.FailedBatch
import RosheraCad.Session.CacheKeys
import RosheraCad.Session.InstanceNumbers
import RosheraCad.StepFile.Preprocess
import RosheraCad.Timeline.EntityMapping
import RosheraCad.Timeline.DependencyCache
import RosheraCad.Geometry.Filters
import RosheraCad.Geometry.PointInPolygon
import RosheraCad.Geometry.Expansions
import RosheraCad.Sketch.Loops
import RosheraCad.Sketch.ConstraintCount
import RosheraCad.Api.Transactions
