import Headgate.Redis.Enqueue
import Headgate.Redis.Lease
import Headgate.Redis.Sweep
import Headgate.Redis.Admin
import Headgate.Data.Run

/-!
# Runs of the Redis store

Redis executes one script at a time, so a run of any number of workers and
operators is a sequence of whole calls.  Each call carries the clock value the
script reads; nothing here assumes that clocks move forward, and results that
need it say so.
-/

namespace Headgate.Redis

open Headgate.Core Data

/-- The calls of the store port and the control plane that write. -/
inductive Op where
  | enqueue (batch : List Envelope)
  | admission (req : AdmitRequest) (order : SetOrder String)
  | ack (ref : LeaseRef) (args : AckArgs)
  | renew (refs : List LeaseRef) (leaseMs : Int)
  | checkpoint (ref : LeaseRef) (cp : Checkpoint)
  | output (ref : LeaseRef) (value : JobResult)
  | progress (ref : LeaseRef) (current total : Nat) (message : Option String)
  | reclaim (limit crashLimit retryBaseMs retryCapMs : Int)
  | promote (limit : Int)
  | operatorCancel (id : String)
  | operatorRetry (id : String)
  | deleteJob (id : String)
  | promoteJob (id : String)
  | schedulePendingJob (id : String) (atMs : Int)
  | rescheduleJob (id : String) (atMs : Int)
  | editPayload (id : String) (payload : Bytes) (schemaVersion : Nat) (fingerprint : String)
  | quarantineRelease (fingerprint : String) (order : SetOrder String)
  | quarantineSweep (limit : Int) (order : SetOrder String)
  | evict (limit : Int)
  | bulk (args : BulkArgs) (cursor : BulkCursor) (order : SetOrder String)
  | upsertRateClass (name : String) (limit window burst : Int) (paused : Bool)
  | upsertConcurrencyLimit (name : String) (cfg : ConcurrencyLimit)
  | setEnqueueLimit (queue : String) (limit : Option Int)
  | setQueueWeight (queue : String) (weight : Int)
  | deleteQueue (queue : String) (force : Bool)
  | setQueuePaused (queue : String) (paused : Bool)

/-- A call and the clock value its script reads. -/
structure Call where
  now : Int
  op : Op

/-- `validate_rate_class_config`. -/
def rateClassOk (limit window burst : Int) : Bool := 1 ≤ window && 0 ≤ limit && 1 ≤ burst

/-- `validate_concurrency_limit`. -/
def concurrencyLimitOk (name : String) (cfg : ConcurrencyLimit) : Bool :=
  name ≠ "" && cfg.queue ≠ "" && 1 ≤ cfg.maxConcurrent

/-- One call. -/
def step (s : Store) (c : Call) : Store :=
  match c.op with
  | .enqueue batch => (enqueue c.now batch s).1
  | .admission req order => (admitCall c.now req order s).1
  | .ack ref args => (ack c.now ref args s).1
  | .renew refs leaseMs => renew c.now leaseMs refs s
  | .checkpoint ref cp => checkpoint ref cp s
  | .output ref value => output c.now ref value s
  | .progress ref current total message => progress c.now ref current total message s
  | .reclaim limit crashLimit base cap => reclaim c.now limit crashLimit base cap s
  | .promote limit => promote c.now limit s
  | .operatorCancel id => (operatorCancel c.now id s).1
  | .operatorRetry id => (operatorRetry c.now id s).1
  | .deleteJob id => (deleteJob id s).1
  | .promoteJob id => (promoteJob c.now id s).1
  | .schedulePendingJob id atMs => (schedulePendingJob id atMs s).1
  | .rescheduleJob id atMs => (rescheduleJob id atMs s).1
  | .editPayload id payload sv fp => (editPayload id payload sv fp s).1
  | .quarantineRelease fp order => (quarantineRelease c.now order fp s).1
  | .quarantineSweep limit order => quarantineSweep c.now limit order s
  | .evict limit => evict c.now limit s
  | .bulk args cursor order => (bulkBatch c.now order args cursor s).store
  | .upsertRateClass name limit window burst paused =>
    if rateClassOk limit window burst then
      { s with policy := upsertRateClass c.now name limit window burst paused s.policy }
    else s
  | .upsertConcurrencyLimit name cfg =>
    if concurrencyLimitOk name cfg then
      { s with policy := upsertConcurrencyLimit name cfg s.policy }
    else s
  | .setEnqueueLimit queue limit => setEnqueueLimit queue limit s
  | .setQueueWeight queue weight =>
    if weight = 0 then s else { s with policy := setQueueWeight queue weight s.policy }
  | .deleteQueue queue force => { s with policy := deleteQueue queue force s.policy }
  | .setQueuePaused queue paused => { s with policy := setQueuePaused queue paused s.policy }

/-- The store after a run from the empty keyspace. -/
def exec (calls : List Call) : Store := run step Store.init calls

end Headgate.Redis
