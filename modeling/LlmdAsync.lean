import LlmdAsync.SqlQueue.Handoff
import LlmdAsync.Redis.ClaimFence
import LlmdAsync.FlowControl.Admission
import LlmdAsync.Redis.ResultFence
import LlmdAsync.Redis.ResultParking
import LlmdAsync.SqlFlow.PollWait
import LlmdAsync.AsyncWorker.Deadlines
import LlmdAsync.MergePolicy.RoundRobin
import LlmdAsync.MergePolicy.Scheduler
import LlmdAsync.Redis.CancelKept
import LlmdAsync.Redis.RateWindow
import LlmdAsync.Redis.Payloads
import LlmdAsync.SqlQueue.Convergence
import LlmdAsync.SqlQueue.Renewal
import LlmdAsync.FlowControl.ClosedGates
import LlmdAsync.PubSub.Acks
import LlmdAsync.Redis.ResultOrder
import LlmdAsync.Redis.SlotQuota
import LlmdAsync.SqlFlow.PollSettles
import LlmdAsync.SqlFlow.QuotaRetirement
import LlmdAsync.SqlQueue.BatchAck
import LlmdAsync.SqlQueue.DispatchOrder
import LlmdAsync.SqlQueue.MigrateOnce
import LlmdAsync.SqlQueue.ShareReached
import LlmdAsync.AsyncWorker.Backoff
import LlmdAsync.Redis.Backlog
import LlmdAsync.Redis.LeaseExpiry
import LlmdAsync.MergePolicy.FanIn
import LlmdAsync.FlowControl.FreeCapacity
import LlmdAsync.Redis.SharedSlots
import LlmdAsync.Redis.Crc
import LlmdAsync.FlowControl.MetricCache
import LlmdAsync.AsyncWorker.Multipart
import LlmdAsync.MergePolicy.Headers
import LlmdAsync.Foundation.TokenBucket
import LlmdAsync.Redis.LeasedRate
import LlmdAsync.SqlQueue.QuotaRate
