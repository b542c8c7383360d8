import Headgate.Data.Run
import Headgate.Postgres.Control

/-!
# Runs of the Postgres store

The calls of the Rust adapter, one after another, each with the clock value it
reads.
-/

namespace Headgate.Postgres

open Headgate.Core Data
open Sql (AckArgs BulkAction Selector postgresRust)

/-- The operations that write jobs, and those that decide about an enqueue. -/
inductive Op where
  | enqueue (batch : List Envelope) (order : SetOrder String)
  /-- `enqueue_tx` in a transaction of its own that is then committed. -/
  | enqueueTx (batch : List Envelope) (order : SetOrder String)
  /-- An admission; which jobs the gate picks is left open. -/
  | admission (req : AdmitRequest) (leaseMs : Int) (changes : List (String × GateChange))
  | ack (opts : Options) (jitter : Int) (ref : LeaseRef) (args : AckArgs)
  | renew (refs : List LeaseRef) (leaseMs : Int)
  | checkpoint (ref : LeaseRef) (cp : Checkpoint)
  | writeJobOutput (ref : LeaseRef) (value : JobResult)
  | writeJobProgress (ref : LeaseRef) (current total : Nat) (message : Option String)
  | reclaimExpired (opts : Options) (limit : Int)
  | promoteDue (limit : Int)
  | evictRetained (limit : Int) (order : SetOrder String)
  | quarantineSweep (limit : Int) (order : SetOrder String)
  | quarantineRelease (fingerprint : String)
  | operatorRetry (id : String)
  | operatorCancel (id : String)
  | promoteJob (id : String)
  | schedulePendingJob (id : String) (atMs : Int)
  | rescheduleJob (id : String) (atMs : Int)
  | editPayload (id : String) (payload : Bytes) (schemaVersion : Nat) (fingerprint : String)
  | deleteJob (id : String)
  | setEnqueueLimit (queue : String) (limit : Option Int)
  | createOperation (id : String) (action : BulkAction) (selector : Selector) (dryRun : Bool)
  | runPendingOperations (batch : Int)
  | deleteQueue (queue : String) (force : Bool) (id : String)

structure Call where
  now : Int
  op : Op

/-- One operation. -/
def step (db : Store) (c : Call) : Store :=
  match c.op with
  | .enqueue batch order =>
    { db with toDb := (Sql.enqueue postgresRust c.now order batch db.toDb).1 }
  | .enqueueTx batch order =>
    { db with toDb := (Sql.enqueueTx postgresRust c.now order batch db.toDb).1 }
  | .admission req leaseMs changes => db.run (admitJobs c.now leaseMs req changes db.jobs)
  | .ack opts jitter ref args => (ack opts c.now jitter ref args db).1
  | .renew refs leaseMs => renew c.now leaseMs refs db
  | .checkpoint ref cp => checkpoint ref cp db
  | .writeJobOutput ref value => writeJobOutput c.now ref value db
  | .writeJobProgress ref current total message =>
    writeJobProgress c.now ref current total message db
  | .reclaimExpired opts limit => reclaimExpired opts c.now limit db
  | .promoteDue limit => promoteDue c.now limit db
  | .evictRetained limit order => evictRetained order c.now limit db
  | .quarantineSweep limit order => quarantineSweep order c.now limit db
  | .quarantineRelease fp => quarantineRelease c.now fp db
  | .operatorRetry id => operatorRetry c.now id db
  | .operatorCancel id => operatorCancel c.now id db
  | .promoteJob id => promoteJob c.now id db
  | .schedulePendingJob id atMs => schedulePendingJob id atMs db
  | .rescheduleJob id atMs => rescheduleJob id atMs db
  | .editPayload id payload sv fp => editPayload id payload sv fp db
  | .deleteJob id => deleteJob id db
  | .setEnqueueLimit queue limit => setEnqueueLimit queue limit db
  | .createOperation id action selector dryRun =>
    createOperation c.now id action selector dryRun db
  | .runPendingOperations batch => runPendingOperations c.now batch db
  | .deleteQueue queue force id => deleteQueue c.now queue force id db

/-- The database after a run from the empty one. -/
def exec (calls : List Call) : Store := run step Store.init calls

end Headgate.Postgres
