import ProtoBridge.Collective.AlltoAllTotals
import ProtoBridge.Collective.BarrierPhases
import ProtoBridge.Collective.Completion
import ProtoBridge.Collective.Embedding
import ProtoBridge.Collective.NcclTotals
import ProtoBridge.Collective.RingPassEnd
import ProtoBridge.Collective.RingPipeEnd
import ProtoBridge.Collective.TreeEnd
import ProtoBridge.Config.Verdict
import ProtoBridge.Core.TimeBounds
import ProtoBridge.Endpoint.BulkPaths
import ProtoBridge.Endpoint.CollectiveFragments
import ProtoBridge.Endpoint.LlrRequest
import ProtoBridge.Endpoint.MemoryOnce
import ProtoBridge.Endpoint.PfcStream
import ProtoBridge.Endpoint.Reorder
import ProtoBridge.Endpoint.SendRetransmission
import ProtoBridge.Pcie.Acknowledge
import ProtoBridge.Pcie.FlowRuns
import ProtoBridge.Pcie.Header
import ProtoBridge.Pcie.Router
import ProtoBridge.Rdma.Atomic
import ProtoBridge.Rdma.Doorbell
import ProtoBridge.Rdma.Receiving
import ProtoBridge.Rdma.Requests
import ProtoBridge.Rdma.SignalWaits
import ProtoBridge.Switch.Departures
import ProtoBridge.Switch.FailureRuns
import ProtoBridge.Topology.Direct
import ProtoBridge.Topology.HybridRoutes
import ProtoBridge.Topology.LoopBound
import ProtoBridge.Topology.MultiRack
import ProtoBridge.Transaction.Notification
