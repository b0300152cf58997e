import NxCacheServer.Lib.Prog
import NxCacheServer.Lib.Run
import NxCacheServer.Lib.Refines
import NxCacheServer.Lib.Fair
import NxCacheServer.Lib.Past
import NxCacheServer.Lib.Cost
import NxCacheServer.Lib.WriteOnce
import NxCacheServer.Lib.Text
import NxCacheServer.Domain.Config
import NxCacheServer.Infra.Client
import NxCacheServer.Server.Task
import NxCacheServer.Server.ProbeCache
import NxCacheServer.Server.CacheInv
import NxCacheServer.Server.CacheRun
import NxCacheServer.Server.Queueing
import NxCacheServer.Server.Returning
import NxCacheServer.Server.SingleFlight
import NxCacheServer.Server.OneSlot
import NxCacheServer.Server.Convoy
import NxCacheServer.Server.LockOrder
import NxCacheServer.Server.ProbeRate
import NxCacheServer.Server.Bounded
import NxCacheServer.Server.Sweeping
import NxCacheServer.Infra.Aws
import NxCacheServer.Infra.Parts
import NxCacheServer.Infra.Startup
import NxCacheServer.Bin.Aws
import NxCacheServer.Server.Error
import NxCacheServer.Server.Validation
import NxCacheServer.Server.Handlers
import NxCacheServer.Server.Middleware
import NxCacheServer.Server.Access
import NxCacheServer.Server.Router
import NxCacheServer.Server.Keys
import NxCacheServer.Server.Drain
import NxCacheServer.Server.Session
import NxCacheServer.Server.Answers
import NxCacheServer.Server.Served
import NxCacheServer.Server.Alerts
import NxCacheServer.Server.Blame
import NxCacheServer.Server.Multipart
import NxCacheServer.Infra.Cleanup
import NxCacheServer.Server.Tariff
import NxCacheServer.Server.Holding
import NxCacheServer.Server.SelfProbe
import NxCacheServer.System.World
import NxCacheServer.System.Steps
import NxCacheServer.System.Sessions
import NxCacheServer.System.Spending
import NxCacheServer.System.Noninterference
import NxCacheServer.System.Racing
import NxCacheServer.System.ReadYourWrites
import NxCacheServer.System.Moments
import NxCacheServer.System.MonotonicReads
import NxCacheServer.System.Staleness
import NxCacheServer.System.Upload
import NxCacheServer.System.WriteOnceMap
import NxCacheServer.System.Serving
import NxCacheServer.System.Sequential
import NxCacheServer.System.Keys
import NxCacheServer.System.Waiting
import NxCacheServer.System.Absence
import NxCacheServer.System.Liveness
import NxCacheServer.System.Dangling
import NxCacheServer.System.Deployment
import NxCacheServer.System.Admission
import NxCacheServer.System.Alarm
import NxCacheServer.System.Refinement
import NxCacheServer.System.ProbeObject
import NxCacheServer.System.Booting
import NxCacheServer.System.Tending
import NxCacheServer.System.Vigil
import NxCacheServer.System.Detection
