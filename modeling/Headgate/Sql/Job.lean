import Headgate.Core.Envelope

/-!
# Rows of the job table

The columns that the SQL stores share.  The four lease columns are one optional
record, since every statement writes all of them together.

Left out: columns and tables that only metrics, schedules and the console read.
-/

namespace Headgate.Sql

open Headgate.Core

/-- One entry of the attempt timeline. -/
structure AttemptEntry where
  atMs : Int
  outcome : String
  attempt : Nat
  /-- Zero is not written. -/
  crashAttempt : Nat
  error : Option String
  logs : List String
  deriving DecidableEq, Repr

/-- A row of `headgate_job`. -/
structure Job where
  kind : String
  schemaVersion : Int
  payload : Bytes
  queue : String
  partitionKey : String
  rateClass : String
  weight : Int
  /-- What admission charged the rate class for the current attempt. -/
  rateCharge : Int
  fingerprint : String
  priority : Int
  attempt : Nat
  crashAttempt : Nat
  maxAttempts : Int
  enqueuedAtMs : Int
  scheduledAtMs : Int
  timeoutMs : Int
  deadlineMs : Int
  retentionMs : Int
  finalizedAtMs : Option Int
  state : State
  lease : Option Lease
  fence : Nat
  uniqueKey : Option Bytes
  uniqueStates : Nat
  /-- The end of a throttle window; lifecycle keys have none. -/
  uniqueExpiresAtMs : Option Int
  headers : List (String × String)
  tags : List String
  periodicScheduleId : String
  periodicTickMs : Int
  stickyWorker : String
  errors : List AttemptEntry
  checkpoint : Option Checkpoint
  result : Option JobResult
  output : Option JobOutput
  progress : Option JobProgress
  deriving DecidableEq, Repr

/-- `append_attempt`: the timeline keeps the last fifty entries; an empty error is not written. -/
def appendAttempt (history : List AttemptEntry) (atMs : Int) (attempt crashAttempt : Nat)
    (outcome : String) (error : Option String) (logs : List String) : List AttemptEntry :=
  let kept := if history.length ≥ 50 then history.drop (history.length - 49) else history
  kept ++ [⟨atMs, outcome, attempt, crashAttempt, error.filter (· ≠ ""), logs⟩]

/-- A queue and a partition key. -/
abbrev Part := String × String

instance : LawfulBEq Part := inferInstance

/-- The row is running under exactly this lease and fence. -/
def Job.heldBy (j : Job) (ref : LeaseRef) : Bool :=
  j.state = .running && j.lease.map Lease.leaseId = some ref.leaseId && j.fence = ref.fence

/-- The name an outcome is recorded under. -/
def outcomeName : Outcome → String
  | .success => "success"
  | .retry => "retry"
  | .skip => "skip"
  | .revoke => "revoke"
  | .snooze => "snooze"
  | .leaseLost => "lease_lost"
  | .undecodable => "undecodable"
  | .rateLimited => "rate_limited"

end Headgate.Sql
