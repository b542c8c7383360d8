import Headgate.Api.Search
import Headgate.Core.Keys
import Headgate.Core.Trace
import Headgate.Core.Units
import Headgate.Redis.Handout
import Headgate.Redis.Uniqueness
import Headgate.Sql.Transaction
import Headgate.Sql.ThrottleLaw
import Headgate.Backends.Polling
import Headgate.Sqlite.Live
import Headgate.Redis.Fair
import Headgate.Redis.Order
import Headgate.Redis.Isolation
import Headgate.Redis.Limits
import Headgate.Backends.Ledger
import Headgate.Postgres.Direct
import Headgate.Sqlite.Paused
import Headgate.Redis.Depth
import Headgate.Redis.Due
import Headgate.Backends.Pending
import Headgate.Redis.LiveSets
import Headgate.Postgres.Bookkeeping
import Headgate.Sqlite.Handles
import Headgate.Redis.Explain
import Headgate.Schedule.Due
import Headgate.Workflow.Cancel
import Headgate.Workflow.Verdict
import Headgate.Workflow.Retry
import Headgate.Worker.Effects
import Headgate.Worker.Inflight
