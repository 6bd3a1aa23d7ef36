import Moab.Framework.OrderedStore
import Moab.Framework.SortedList
import Moab.Framework.Ensures
import Moab.Framework.Secondary
import Moab.Tasks.Types
import Moab.Tasks.Tables
import Moab.Tasks.Threads
import Moab.Tasks.Lifecycle
import Moab.Tasks.Dequeue
import Moab.Tasks.Core
import Moab.Framework.Trace
import Moab.Tasks.Rows
import Moab.Tasks.Indexed
import Moab.Tasks.Refine
import Moab.Tasks.Transitions
import Moab.Tasks.Calls
import Moab.Tasks.Collect
import Moab.Tasks.Scan
import Moab.Tasks.Heads
import Moab.Tasks.ThreadHeads
import Moab.Tasks.HeadSteps
import Moab.Tasks.HeadCalls
import Moab.Tasks.Exec
import Moab.Tasks.HeadRuns
import Moab.Tasks.Exclusion
import Moab.Tasks.Cursor
import Moab.Tasks.Unthreaded
import Moab.Tasks.KeysAndDeadlines
import Moab.Tasks.Counters
import Moab.Tasks.Filed
import Moab.Tasks.Snapshot
import Moab.Tasks.Restored
import Moab.Tasks.RestoredRuns
import Moab.Tasks.Purged
import Moab.Framework.Machine
import Moab.Framework.TokenBucket
import Moab.Tasks.Limiter
import Moab.Tasks.RateLimits
import Moab.Validators
import Moab.Tasks.RefillSafety
import Moab.Tasks.Concurrency
import Moab.Tasks.Drift
import Moab.Tasks.Leases
import Moab.Framework.Walk
import Moab.Queues.Core
import Moab.Queues.Exec
import Moab.Queues.Validators
import Moab.Workers.Cron
import Moab.Workers.Worlds
import Moab.Workers.ExactlyOnce
import Moab.Workers.Replays
import Moab.Workers.LostUpdates
import Moab.Tasks.Fencing
import Moab.Queues.Paging
import Moab.Queues.Structured
import Moab.Queues.Runs
import Moab.Queues.Deletions
import Moab.Framework.Load
import Moab.Queues.Snapshot
import Moab.Framework.BigEndian
import Moab.Framework.Related
import Moab.Tasks.Keys
import Moab.Tasks.Confined
import Moab.Tasks.Isolation
import Moab.Tasks.StrandSteps
import Moab.Tasks.ThreadOrder
import Moab.Tasks.FailedHeads
import Moab.Tasks.Selection
import Moab.Tasks.Intact
import Moab.Tasks.ExpiredHeads
import Moab.Framework.Newest
import Moab.Tasks.DeadLetters
import Moab.Tasks.Lapses
import Moab.Tasks.Rebirths
import Moab.Tasks.ExpiredDuplicates
import Moab.Tasks.Validators
import Moab.Workers.Admission
import Moab.Tasks.Sweep
import Moab.Tasks.PurgeDrains
import Moab.Queues.Swaps
import Moab.Queues.Drains
import Moab.Tasks.Commute
import Moab.Tasks.Burials
import Moab.Tasks.Turns
import Moab.Tasks.ReportOrder
import Moab.Tasks.KeyOrder
import Moab.Framework.Program
import Moab.Server.Requests
import Moab.Server.Validators
import Moab.Server.Handler
import Moab.Server.Runs
import Moab.Server.Retries
import Moab.Server.Rules
import Moab.Server.Agreement
import Moab.Tasks.Timely
import Moab.Server.Timestamps
import Moab.Tasks.Numbered
import Moab.Server.World
import Moab.Server.PublicIds
import Moab.Tasks.Apart
import Moab.Tasks.Lived
import Moab.Tasks.RetryBudget
import Moab.Framework.Search
import Moab.Coreapis.Nonclustered
import Moab.Tasks.Lifetimes
