import Qml.Lib.Prog
import Qml.Lib.Run
import Qml.Runtime.Ownership
import Qml.Runtime.LeftoverLocks
import Qml.Runtime.Budget
import Qml.Runtime.Expiry
import Qml.Runtime.Lifecycle
import Qml.Runtime.PeerReclaim
import Qml.Runtime.Membership
import Qml.Runtime.Contexts
import Qml.Dashboard.Rewinds
import Qml.Dashboard.Statistics
import Qml.Dashboard.Queries
import Qml.Memory.Operators
import Qml.Recurring.Failures
import Qml.Postgres.Dispatch
import Qml.Postgres.Storing
import Qml.Redis.Commands
import Qml.Redis.DispatchOrder
import Qml.Redis.Deletions
import Qml.Redis.HandOuts
import Qml.Redis.Recovery
import Qml.Redis.Claims
import Qml.Redis.Servers
import Qml.Redis.Retries
import Qml.Redis.Progress
import Qml.Redis.Recoding
import Qml.Redis.DueOrder
import Qml.Redis.Keys
import Qml.Redis.Interruptions
import Qml.Processing.Verdicts
import Qml.Processing.Delays
import Qml.Processing.Metrics
import Qml.Processing.Middleware
import Qml.Memory.Conservation
import Qml.Memory.Capacity
import Qml.Memory.JobLocks
import Qml.Memory.NamedLocks
import Qml.Memory.Selection
import Qml.Memory.Promotion
import Qml.Memory.Recovery
import Qml.Redis.Available
import Qml.Backends.Reenqueue
import Qml.Backends.Contract
import Qml.Postgres.Exclusion
import Qml.Postgres.NamedLocks
import Qml.Redis.NamedLocks
import Qml.Backends.NamedLocks
import Qml.Postgres.Ticks
import Qml.Server.Shutdown
import Qml.Dashboard.Access
import Qml.Dashboard.Updates
import Qml.Redis.Ticks
