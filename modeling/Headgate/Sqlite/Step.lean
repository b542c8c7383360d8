import Headgate.Data.Run
import Headgate.Sqlite.Control
import Headgate.Sqlite.Enqueue

/-!
# Runs of the SQLite store

Every operation is one transaction, so a run of any number of clients is a
sequence of operations, each with the clock value it reads.
-/

namespace Headgate.Sqlite

open Headgate.Core Data
open Sql (AckArgs BulkAction Selector)

/-- The operations of the store and its control plane that write. -/
inductive Op where
  | enqueue (batch : List Envelope) (order : SetOrder String)
  /-- `enqueue_tx` in a transaction of its own that is then committed. -/
  | enqueueTx (batch : List Envelope) (order : SetOrder String)
  | admission (req : AdmitRequest)
  | ack (opts : Options) (ref : LeaseRef) (args : AckArgs)
  | renew (refs : List LeaseRef) (leaseMs : Int)
  | checkpoint (ref : LeaseRef) (cp : Checkpoint)
  | writeJobOutput (ref : LeaseRef) (value : JobResult)
  | writeJobProgress (ref : LeaseRef) (current total : Nat) (message : Option String)
  | reclaimExpired (opts : Options) (limit : Int)
  | promoteDue (limit : Int)
  | evictRetained (limit : Int)
  | quarantineSweep (limit : Int)
  | quarantineRelease (fingerprint : String)
  | operatorRetry (id : String)
  | operatorCancel (id : String)
  | promoteJob (id : String)
  | schedulePendingJob (id : String) (atMs : Int)
  | rescheduleJob (id : String) (atMs : Int)
  | editPayload (id : String) (payload : Bytes) (schemaVersion : Nat) (fingerprint : String)
  | deleteJob (id : String)
  | createOperation (id : String) (action : BulkAction) (selector : Selector) (dryRun : Bool)
  | runPendingOperations (batch : Int)
  | setQueuePaused (queue : String) (paused : Bool)
  | setQueueWeight (queue : String) (weight : Int)
  | setEnqueueLimit (queue : String) (limit : Option Int)
  | upsertRateClass (name : String) (limit window burst : Int) (paused : Bool)
  | upsertConcurrencyLimit (name : String) (cfg : ConcurrencyLimit)
  | deleteQueue (queue : String) (force : Bool) (id : String)

structure Call where
  now : Int
  op : Op

/-- `enqueue_tx`: what the transaction holds when it is committed. -/
def enqueueTx (now : Int) (order : SetOrder String) (batch : List Envelope) (db : Store) :
    Store × Except StoreError Unit :=
  match validateEnqueue batch with
  | .error err => (db, .error err)
  | .ok () => enqueueOn now order batch db

/-- One operation. -/
def step (db : Store) (c : Call) : Store :=
  match c.op with
  | .enqueue batch order => (enqueue c.now order batch db).1
  | .enqueueTx batch order => (enqueueTx c.now order batch db).1
  | .admission req => (admitCall c.now req db).1
  | .ack opts ref args => (ack opts c.now ref args db).1
  | .renew refs leaseMs => renew c.now leaseMs refs db
  | .checkpoint ref cp => checkpoint ref cp db
  | .writeJobOutput ref value => writeJobOutput c.now ref value db
  | .writeJobProgress ref current total message =>
    writeJobProgress c.now ref current total message db
  | .reclaimExpired opts limit => reclaimExpired opts c.now limit db
  | .promoteDue limit => promoteDue c.now limit db
  | .evictRetained limit => evictRetained c.now limit db
  | .quarantineSweep limit => quarantineSweep c.now limit db
  | .quarantineRelease fp => quarantineRelease c.now fp db
  | .operatorRetry id => operatorRetry c.now id db
  | .operatorCancel id => operatorCancel c.now id db
  | .promoteJob id => promoteJob c.now id db
  | .schedulePendingJob id atMs => schedulePendingJob id atMs db
  | .rescheduleJob id atMs => rescheduleJob id atMs db
  | .editPayload id payload sv fp => editPayload id payload sv fp db
  | .deleteJob id => deleteJob id db
  | .createOperation id action selector dryRun =>
    createOperation c.now id action selector dryRun db
  | .runPendingOperations batch => runPendingOperations c.now batch db
  | .setQueuePaused queue paused => setQueuePaused queue paused db
  | .setQueueWeight queue weight => if weight ≤ 0 then db else setQueueWeight queue weight db
  | .setEnqueueLimit queue limit => setEnqueueLimit queue limit db
  | .upsertRateClass name limit window burst paused =>
    if 1 ≤ window ∧ 0 ≤ limit ∧ 1 ≤ burst then
      upsertRateClass c.now name limit window burst paused db
    else db
  | .upsertConcurrencyLimit name cfg =>
    if name ≠ "" ∧ cfg.queue ≠ "" ∧ 1 ≤ cfg.maxConcurrent then
      upsertConcurrencyLimit name cfg db
    else db
  | .deleteQueue queue force id => deleteQueue c.now queue force id db

/-- The database after a run from the empty one. -/
def exec (calls : List Call) : Store := run step Store.init calls

end Headgate.Sqlite
