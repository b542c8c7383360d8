import Headgate.Data.SortedSet
import Headgate.Data.Table
import Headgate.Sql.Calls

/-!
# The SQLite database

The tables of `0001_init.sql` that the store's statements read or write.  SQLite
runs one writer at a time and the adapter wraps every operation in one immediate
transaction, so an operation is a function on the whole database.

Left out: counters for the console, schedules, workers, duties, effects and
durable events.
-/

namespace Headgate.Sqlite

open Headgate.Core Data
open Sql (BulkAction Selector)

/-- A row of `headgate_job`; SQLite keeps the throttle window beside its end. -/
structure Job extends Sql.Job where
  uniqueWindowMs : Int
  deriving DecidableEq, Repr

structure QueueState where
  weight : Int := 1
  paused : Bool := false
  dispatchCount : Int := 0
  deriving DecidableEq, Repr

structure Bucket where
  tokens : Int
  burst : Int
  limit : Int
  window : Int
  refilled : Int
  paused : Bool
  deriving DecidableEq, Repr

structure ConcurrencyLimit where
  queue : String
  maxConcurrent : Int
  onSaturated : SaturationStrategy
  deriving DecidableEq, Repr

structure QuarantineEntry where
  crashCount : Nat
  quarantinedAtMs : Int
  deriving DecidableEq, Repr

structure Operation where
  action : BulkAction
  selector : Selector
  completed : Bool := false
  affected : Nat := 0
  dryRun : Bool
  createdAtMs : Int
  deriving DecidableEq, Repr

structure Store where
  jobs : Table String Job
  queueStates : Table String QueueState
  buckets : Table String Bucket
  /-- Keyed by the limit's name; at most one limit per queue. -/
  limits : Table String ConcurrencyLimit
  enqueuePolicy : Table String (Option Int)
  quarantine : Table String QuarantineEntry
  operations : Table String Operation

def Store.init : Store := ⟨.empty, .empty, .empty, .empty, .empty, .empty, .empty⟩

/-- The options a store is opened with. -/
structure Options where
  crashLimit : Nat := 3
  retryBaseMs : Int := 1000
  retryCapMs : Int := 24 * 60 * 60 * 1000
  deriving DecidableEq, Repr

/-- Does an inserted or updated row pass the only check of the table that the boundary
validation does not already imply? -/
def schemaVersionOk (version : Nat) : Bool := 1 ≤ version && version ≤ 2147483647

def checkFailed : StoreError :=
  .backend "SQLite: CHECK constraint failed: schema_version BETWEEN 1 AND 2147483647"

/-- Update one row where a condition on it holds; the flag is `changes() > 0`. -/
def Store.updateJob (db : Store) (id : String) (p : Job → Bool) (f : Job → Job) : Store × Bool :=
  ({ db with jobs := db.jobs.updateAt id p f }, (db.jobs.get id).any p)

/-- `Result<i64>` arithmetic that saturates at the bounds of the type. -/
def saturate (n : Int) : Int := max (-2 ^ 63) (min (2 ^ 63 - 1) n)

/-- `retry_delay`. -/
def retryDelay (opts : Options) (attempt : Nat) : Int :=
  min (saturate (opts.retryBaseMs * 2 ^ min (attempt - 1) 20)) opts.retryCapMs

end Headgate.Sqlite
