import Headgate.Core.Envelope
import Headgate.Data.Double
import Headgate.Data.SortedSet

/-!
# The Redis keyspace

One field per kind of key the scripts share.  Keys that the scripts build by
concatenating names (`pending`, `routes`, `runningp`) stay maps from the
concatenated string, because two different name tuples can build the same
string; keys whose parts can be told apart are curried.

`Store.history` is not in Redis: it records what a run has done so far, and no
script reads it.

Left out: keys only the console reads (`avail`, `metricparts`, `hist`, `histp`,
`qmeta`, `mem`) and the wake-up channel.

The scripts compute in doubles.  Numbers are exact here, as doubles are up to 2^53
(an instant in milliseconds is far below, and so is any count of jobs); the one
product that can leave this range, elapsed time times limit, is rounded as the
scripts round it (`Bucket.gained`).
-/

namespace Headgate.Redis

open Headgate.Core Data

/-! ## Section 1: Job hashes -/

/-- One entry of the bounded attempt timeline. -/
structure AttemptEntry where
  atMs : Int
  attempt : Nat
  outcome : String
  error : String
  logs : Option (List String)
  deriving DecidableEq, Repr

/-- A job hash. -/
structure Job where
  kind : String
  schemaVersion : Nat
  payload : Bytes
  queue : String
  partitionKey : String
  rateClass : String
  weight : Nat
  /-- What admission charged the rate class for the current attempt. -/
  rateCharge : Int
  fingerprint : String
  priority : Int
  attempt : Nat
  crashAttempt : Nat
  maxAttempts : Nat
  enqueuedAtMs : Int
  scheduledAtMs : Int
  timeoutMs : Int
  deadlineMs : Int
  retentionMs : Int
  uniqueKey : Bytes
  uniqueWindowMs : Int
  uniqueStates : Nat
  periodicScheduleId : String
  periodicTickMs : Int
  tags : List String
  stickyWorker : String
  headers : List (String × String)
  state : State
  fence : Nat
  errors : List AttemptEntry
  lease : Option Lease
  finalizedAtMs : Option Int
  checkpoint : Option Checkpoint
  output : Option JobOutput
  progress : Option JobProgress
  result : Option JobResult
  deriving DecidableEq, Repr, Inhabited

/-- Does the job hold a lifecycle unique key? -/
def Job.hasLifecycleKey (j : Job) : Bool := j.uniqueKey ≠ [] && j.uniqueWindowMs = 0

/-! ## Section 2: Policy records -/

/-- The hash of a rate class. -/
structure Bucket where
  tokens : Int
  burst : Int
  limit : Int
  window : Int
  refilled : Int
  deriving DecidableEq, Repr

/-- What an elapsed time is worth in whole tokens, as the scripts compute it. -/
def Bucket.gained (elapsed : Int) (b : Bucket) : Int := floorDiv (elapsed * b.limit) b.window

@[simp] theorem Bucket.gained_zero (b : Bucket) : b.gained 0 = 0 := by simp [Bucket.gained]

/-- The doubles of the scripts are exact for this elapsed time. -/
def Bucket.Exact (elapsed : Int) (b : Bucket) : Prop :=
  elapsed * b.limit < 2 ^ 53 ∧ b.window ≤ 2 ^ 53

theorem Bucket.gained_eq {elapsed : Int} {b : Bucket} (hwindow : 0 < b.window)
    (h : b.Exact elapsed) : b.gained elapsed = elapsed * b.limit / b.window :=
  floorDiv_eq hwindow h.1 h.2

/-- An encoded concurrency limit. -/
structure ConcurrencyLimit where
  queue : String
  maxConcurrent : Int
  onSaturated : SaturationStrategy
  deriving DecidableEq, Repr

/-- The hash `enqueue:{queue}`: the producer limit and the depth counters. -/
structure EnqueueCounters where
  limit : Option Int := none
  entered : Int := 0
  exited : Int := 0
  counted : Bool := false
  deriving DecidableEq, Repr

/-! ## Section 3: Groups of keys -/

/-- The keys the gate finds waiting jobs through. -/
structure Waiting where
  /-- `pending:{queue}:{part}` and `pending:{queue}:{part}:worker:{sticky}` -/
  pending : String → ZSet String
  /-- `pending-routes:{queue}:{part}` -/
  routes : String → Finset String
  /-- `parts:{queue}` -/
  parts : String → Finset String

/-- The keys that account for running jobs. -/
structure Running where
  lease : ZSet String
  /-- `running:{queue}` -/
  running : String → Finset String
  /-- `runningp:{queue}:{part}` -/
  runningp : String → ZSet String
  /-- `inflight:{queue}`, field `part` -/
  inflight : String → String → Int

/-- Holders of unique keys. -/
structure Holders where
  /-- `unique:{key}` -/
  unique : Bytes → Option String
  /-- `uniquet:{key}` with the instant its TTL ends -/
  uniquet : Bytes → Option (String × Int)

/-- Inspection and sweep indexes. -/
structure Index where
  /-- `idx:{queue}:{state}` -/
  idx : String → State → ZSet String
  sched : ZSet String
  ret : ZSet String
  /-- `fpi:{fingerprint}` -/
  fpi : String → Finset String
  /-- `qjobs:{fingerprint}` -/
  qjobs : String → Finset String
  /-- `tag:{tag}` -/
  tag : String → Finset String

/-- Fleet policy and the counters it is evaluated against. -/
structure Policy where
  /-- `rate:{name}` -/
  rate : String → Option Bucket
  /-- `climits`, by limit name -/
  climits : String → Option ConcurrencyLimit
  /-- `climitq`, by queue -/
  climitq : String → Option ConcurrencyLimit
  qweights : String → Option Int
  qserved : String → Int
  /-- `deficit:{queue}`, field `part` -/
  deficit : String → String → Int
  paused : Finset String
  queues : Finset String
  quarantine : Finset String
  /-- `enqueue:{queue}` -/
  enqueue : String → EnqueueCounters

/-- What a script did to a claim or to a rate class. -/
inductive Event where
  /-- The gate wrote this lease and fence. -/
  | claimed (id lease : String) (fence : Nat)
  /-- An ack under this lease and fence was applied. -/
  | acked (id lease : String) (fence : Nat)
  | reclaimed (id : String)
  /-- Cancelled by an operator. -/
  | cancelled (id : String)
  /-- Cancelled by the gate to make room. -/
  | displaced (id : String)
  /-- The hash was deleted by an operator or by eviction. -/
  | deleted (id : String)
  /-- An admission charged the class. -/
  | charged (rateClass : String) (cost : Int) (atMs : Int)
  /-- An ack corrected the charge by `debit` (negative: a refund). -/
  | reconciled (rateClass : String) (debit : Int) (atMs : Int)
  deriving DecidableEq, Repr

/-- The whole keyspace. -/
structure Store where
  jobs : Finmap fun _ : String => Job
  waiting : Waiting
  running : Running
  holders : Holders
  index : Index
  policy : Policy
  /-- Ghost: what the run did so far, newest first. -/
  history : List Event

/-- The empty keyspace. -/
def Store.init : Store where
  jobs := ∅
  waiting := ⟨fun _ => ZSet.empty, fun _ => ∅, fun _ => ∅⟩
  running := ⟨ZSet.empty, fun _ => ∅, fun _ => ZSet.empty, fun _ _ => 0⟩
  holders := ⟨fun _ => none, fun _ => none⟩
  index := ⟨fun _ _ => ZSet.empty, ZSet.empty, ZSet.empty, fun _ => ∅, fun _ => ∅, fun _ => ∅⟩
  policy := ⟨fun _ => none, fun _ => none, fun _ => none, fun _ => none, fun _ => 0,
    fun _ _ => 0, ∅, ∅, ∅, fun _ => {}⟩
  history := []

end Headgate.Redis
