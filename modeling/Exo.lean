import Exo.Routing.Retransmission
import Exo.Mlx.PrefixEviction
import Exo.Routing.TopicRouter
import Exo.Roles
import Exo.Cluster.Cancellation
import Exo.Cluster.Dispatch
import Exo.Cluster.Housing
import Exo.Worker.GenerationProgress
import Exo.Worker.PrefillSafety
import Exo.Worker.ImageEngineSafety
import Exo.Worker.RankAgreement
import Exo.Mlx.MediaMatch
import Exo.Mlx.VisionSafety
import Exo.Image.BranchSafety
import Exo.Utils.ChannelsSafety
import Exo.Master.PlacementCompleteness
import Exo.Api.Orphans
import Exo.Nodes.BridgeCycles
import Exo.Cluster.Linking
import Exo.Api.Applier
import Exo.Api.ImageDelivery
import Exo.Worker.Protocol
import Exo.Api.ResponseItems
import Exo.Api.RequestTexts
import Exo.Master.LayerAllocation
import Exo.Mlx.RemoteFetch
import Exo.Mlx.ThinkTokens
import Exo.Agent.Turn
import Exo.Api.LlamaAccounting
import Exo.Parsers.Thinking
import Exo.Parsers.DsmlSafety
import Exo.Agent.AccountSafety
import Exo.Agent.PythonShell
import Exo.Parsers.GptOssSafety
import Exo.Worker.StopSequenceSafety
import Exo.Mlx.PrefillStateSafety
import Exo.Shared.TopologyGraphSafety
import Exo.Utils.Backoff
import Exo.Utils.DiskEventLogRuns
import Exo.Master.LeastLoaded
import Exo.Worker.BookkeepingSafety
import Exo.Agent.ResourceSafety
import Exo.Parsers.CoercionSafety
import Exo.Api.StreamAgreement
import Exo.Mlx.VisionProcess
import Exo.Worker.DecodeSlotsSafety
import Exo.Download.CoordinatorSafety
import Exo.Cluster.Departures
import Exo.Agent.RetentionPolicy
import Exo.Election.Seniority
import Exo.Agent.ChatJobRuns
import Exo.Download.ShardDownloadRuns
