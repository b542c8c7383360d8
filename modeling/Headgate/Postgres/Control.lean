import Headgate.Sql.Adapters

/-!
# Leases, sweeps and operators on Postgres

Every call is one statement on the job table, apart from an ack that corrects
its charge and the loop over bulk operations.  A statement that would break a
unique index fails and changes nothing.  `ORDER BY id` is the order of insertion,
which is the order of the table; a `LIMIT` without an order is a parameter.

Left out: rate buckets, ceilings and everything else that decides which jobs the
gate picks (`Gate` leaves the choice open), and the tables that only the gate, the
console or the scheduler read.  Clearing a lease also clears its claim time.
-/

namespace Headgate.Postgres

open Headgate.Core Data
open Sql (AckArgs BulkAction Db Job QuarantineEntry Selector bulkActionStates countCrash
  validateAck)

/-! ## Section 1: The store -/

inductive OperationStatus where
  | pending
  | running
  | completed
  | failed
  deriving DecidableEq, Repr

structure Operation where
  action : BulkAction
  selector : Selector
  status : OperationStatus
  affected : Nat := 0
  createdAtMs : Int
  deriving DecidableEq, Repr

structure Store extends Db where
  operations : Table String Operation

def Store.init : Store where
  jobs := .empty
  enqueuePolicy := fun _ => none
  entered := fun _ => 0
  exited := fun _ => 0
  quarantine := .empty
  operations := .empty

structure Options where
  crashLimit : Nat := 3
  retryBaseMs : Int := 1000
  retryCapMs : Int := 3_600_000
  deriving DecidableEq, Repr

/-- A statement on the job table, outside of any transaction. -/
def Store.run (db : Store) (t : Table String Job) : Store :=
  match db.write t with
  | some db' => { db with toDb := db' }
  | none => db

/-! ## Section 2: Calls under a lease -/

/-- What the gate does to one job. -/
inductive GateChange where
  /-- Claimed; `charged` if its rate class is configured. -/
  | claim (charged : Bool)
  | displace
  | discard
  | cancelIncoming
  deriving DecidableEq, Repr

/-- The states a change of the gate starts from. -/
def GateChange.starts : GateChange → State
  | .displace => .running
  | _ => .available

def GateChange.apply (now leaseMs : Int) (req : AdmitRequest) (j : Job) : GateChange → Job
  | .claim charged => { j with
      state := .running
      lease := some ⟨req.leaseId, now + leaseMs, now, req.worker⟩
      fence := j.fence + 1
      rateCharge := if charged then j.weight else 0 }
  | .displace => { j with
      state := .cancelled, finalizedAtMs := some now, lease := none, rateCharge := 0
      fence := j.fence + 1 }
  | .discard => { j with
      state := .archived, finalizedAtMs := some now, lease := none, rateCharge := 0 }
  | .cancelIncoming => { j with
      state := .cancelled, finalizedAtMs := some now, lease := none, rateCharge := 0 }

/-- The writes of `admit.sql` and `admit_direct.sql`, for any choice of jobs. -/
def admitJobs (now leaseMs : Int) (req : AdmitRequest) (changes : List (String × GateChange))
    (t : Table String Job) : Table String Job :=
  changes.foldl (fun t c => t.updateAt c.1 (fun j => j.state = c.2.starts)
    fun j => c.2.apply now leaseMs req j) t

/-- Leave running. -/
def released (a : AckArgs) (j : Job) : Job :=
  { j with lease := none, rateCharge := if a.actualWeight.isSome then 0 else j.rateCharge }

/-- A timeline entry; `attempt` is not written by the terminal outcomes. -/
def entry (now : Int) (a : AckArgs) (outcome : String) (attempt : Nat) : Sql.AttemptEntry :=
  ⟨now, outcome, attempt, 0, a.err, a.logs⟩

/-- The shape of the terminal outcomes. -/
def ackTerminal (now : Int) (a : AckArgs) (to_ : State) (outcome : String) (j : Job) : Job :=
  released a { j with
    state := to_, finalizedAtMs := some now
    errors := if a.err.isNone && a.logs.isEmpty then j.errors
      else j.errors ++ [entry now a outcome 0] }

/-- The row after an outcome; `none` deletes it.  `jitter` is the random part of a backoff. -/
def ackRow (opts : Options) (now jitter : Int) (a : AckArgs) (j : Job) : Option Job :=
  match a.outcome with
  | .success =>
    if j.retentionMs = 0 then none
    else some (released a { j with
      state := .completed, finalizedAtMs := some now, result := a.result
      errors := if a.logs.isEmpty then j.errors
        else j.errors ++ [{ entry now a "success" j.attempt with error := none }] })
  | .retry =>
    let again : Bool := (j.attempt + 1 : Int) < j.maxAttempts
    some (released a { j with
      attempt := j.attempt + 1
      state := if again then .retryable else .archived
      scheduledAtMs :=
        if again then now + (a.delayMs.getD
          (min opts.retryCapMs (opts.retryBaseMs * 2 ^ min j.attempt 20) + jitter))
        else j.scheduledAtMs
      finalizedAtMs := if again then none else some now
      errors := (if j.errors.length ≥ 50 then j.errors.drop 1 else j.errors)
        ++ [entry now a "retry" (j.attempt + 1)] })
  | .skip => some (ackTerminal now a .archived "archived" j)
  | .undecodable => some (ackTerminal now a .undecodable "undecodable" j)
  | .revoke => none
  | .snooze =>
    some (released a { j with state := .scheduled, scheduledAtMs := now + a.delayMs.getD 0 })
  | .rateLimited => some (released a { j with state := .available })
  | .leaseLost => some j

/-- The write of an outcome to the job table. -/
def ackJobs (opts : Options) (now jitter : Int) (ref : LeaseRef) (a : AckArgs) (j : Job)
    (jobs : Table String Job) : Table String Job :=
  match ackRow opts now jitter a j with
  | none => jobs.delete fun id _ => id = ref.jobId
  | some row => jobs.updateAt ref.jobId (fun _ => true) fun _ => row

/-- `ack_on`. -/
def ack (opts : Options) (now jitter : Int) (ref : LeaseRef) (a : AckArgs) (db : Store) :
    Store × Except StoreError Unit :=
  match validateAck a with
  | .error e => (db, .error e)
  | .ok () =>
    match (db.jobs.get ref.jobId).filter fun j => j.heldBy ref with
    | none => (db, .error (.leaseRejected ref.jobId))
    | some j => (db.run (ackJobs opts now jitter ref a j db.jobs), .ok ())

/-- A write to a row under its lease. -/
def fencedWrite (ref : LeaseRef) (f : Job → Job) (db : Store) : Store :=
  db.run (db.jobs.updateAt ref.jobId (fun j => j.heldBy ref) f)

/-- `renew`: one statement over all the references. -/
def renew (now leaseMs : Int) (refs : List LeaseRef) (db : Store) : Store :=
  if leaseMs ≤ 0 then db
  else db.run (db.jobs.update (fun id j => refs.any fun r => r.jobId = id && j.heldBy r)
    fun _ j => { j with lease := j.lease.map fun l => { l with expiresAtMs := now + leaseMs } })

def checkpoint (ref : LeaseRef) (cp : Checkpoint) (db : Store) : Store :=
  fencedWrite ref (fun j => { j with checkpoint := some cp }) db

def writeJobOutput (now : Int) (ref : LeaseRef) (value : JobResult) (db : Store) : Store :=
  fencedWrite ref (fun j => { j with
    output := some ⟨value.schemaVersion, value.bytes, j.fence, now⟩ }) db

def writeJobProgress (now : Int) (ref : LeaseRef) (current total : Nat) (message : Option String)
    (db : Store) : Store :=
  fencedWrite ref (fun j => { j with
    progress := some ⟨current, total, message, j.fence, now⟩ }) db

/-! ## Section 3: Sweeps -/

/-- The first ids of a query; a negative limit is an error and finds nothing. -/
def firstIds (limit : Int) (rows : List (String × Job)) : List String :=
  (rows.take limit.toNat).map Prod.fst

/-- The row of a job whose lease ran out. -/
def crashedRow (opts : Options) (now : Int) (j : Job) : Job :=
  let crash := j.crashAttempt + 1
  let quarantined := opts.crashLimit ≤ crash
  { j with
    crashAttempt := crash
    state := if quarantined then .quarantined else .retryable
    lease := none
    scheduledAtMs := if quarantined then j.scheduledAtMs
      else now + min opts.retryCapMs (opts.retryBaseMs * 2 ^ min j.crashAttempt 20)
    finalizedAtMs := if quarantined then some now else none
    errors := j.errors ++ [⟨now, "lease_lost", 0, crash, some "lease expired without ack", []⟩]
    checkpoint := j.checkpoint.map countCrash }

def expiredIds (now limit : Int) (db : Store) : List String :=
  firstIds limit (db.jobs.select fun _ j =>
    j.state = .running && j.lease.any fun l => l.expiresAtMs < now)

/-- The quarantine entry of a fingerprint; an older entry keeps the larger count. -/
def quarantineFingerprint (now : Int) (t : Table String QuarantineEntry) (fp : String)
    (crash : Nat) : Table String QuarantineEntry :=
  (t.updateAt fp (fun _ => true) fun q => { q with crashCount := max q.crashCount crash }).insert fp
    ⟨crash, now⟩

/-- The entries a reclaim writes: one of the crashed jobs counts for each fingerprint. -/
def quarantineCrashed (opts : Options) (now : Int) (rows : List (String × Job))
    (t : Table String QuarantineEntry) : Table String QuarantineEntry :=
  let crashed := rows.filter fun e => opts.crashLimit ≤ e.2.crashAttempt + 1
  (crashed.map fun e => e.2.fingerprint).dedup.foldl (fun t fp =>
    match crashed.find? fun e => e.2.fingerprint = fp with
    | some e => quarantineFingerprint now t fp (e.2.crashAttempt + 1)
    | none => t) t

/-- `reclaim_expired`. -/
def reclaimExpired (opts : Options) (now limit : Int) (db : Store) : Store :=
  let ids := expiredIds now limit db
  match db.write (db.jobs.update (fun id _ => ids.contains id) fun _ => crashedRow opts now) with
  | some db' =>
    let rows := db.jobs.select fun id _ => ids.contains id
    { db with toDb := { db' with quarantine := quarantineCrashed opts now rows db.quarantine } }
  | none => db

/-- The jobs whose time has come, the earliest first. -/
def dueIds (now limit : Int) (db : Store) : List String :=
  firstIds limit (orderBy (fun e => e.2.scheduledAtMs) (db.jobs.select fun _ j =>
    [State.scheduled, .retryable].contains j.state && j.scheduledAtMs ≤ now))

/-- `promote_due`. -/
def promoteDue (now limit : Int) (db : Store) : Store :=
  db.run (db.jobs.update (fun id _ => (dueIds now limit db).contains id)
    fun _ j => { j with state := .available })

/-- A `LIMIT` without an order. -/
def someIds (order : SetOrder String) (limit : Int) (rows : List (String × Job)) : List String :=
  (order.list (rows.map Prod.fst).toFinset).take limit.toNat

/-- The finished jobs whose retention has ended, at most `limit` of them. -/
def evictIds (order : SetOrder String) (now limit : Int) (db : Store) : List String :=
  someIds order limit (db.jobs.select fun _ j =>
    [State.completed, .archived, .cancelled, .undecodable].contains j.state
      && j.retentionMs > 0 && j.finalizedAtMs.any fun t => t + j.retentionMs ≤ now)

/-- `evict_retained`. -/
def evictRetained (order : SetOrder String) (now limit : Int) (db : Store) : Store :=
  db.run (db.jobs.delete fun id _ => (evictIds order now limit db).contains id)

/-- `quarantine_sweep`. -/
def quarantineSweep (order : SetOrder String) (now limit : Int) (db : Store) : Store :=
  let ids := someIds order limit (db.jobs.select fun _ j =>
    [State.pending, .available, .scheduled, .retryable].contains j.state
      && (db.quarantine.get j.fingerprint).isSome)
  db.run (db.jobs.update (fun id _ => ids.contains id)
    fun _ j => { j with state := .quarantined, finalizedAtMs := some now })

/-! ## Section 4: Operators -/

/-- The row of a finished job that may run again. -/
def reopenedRow (now : Int) (j : Job) : Job :=
  { j with state := .available, scheduledAtMs := now, finalizedAtMs := none }

def retries (j : Job) : Bool := [State.archived, .cancelled, .undecodable].contains j.state

def operatorRetry (now : Int) (id : String) (db : Store) : Store :=
  db.run (db.jobs.updateAt id retries (reopenedRow now))

/-- The row of a cancelled job. -/
def cancelledRow (now : Int) (j : Job) : Job :=
  { j with state := .cancelled, lease := none, finalizedAtMs := some now }

def operatorCancel (now : Int) (id : String) (db : Store) : Store :=
  db.run (db.jobs.updateAt id (fun j => j.state.isUnfinished) (cancelledRow now))

def promoteJob (now : Int) (id : String) (db : Store) : Store :=
  db.run (db.jobs.updateAt id (fun j => j.state = .pending)
    fun j => { j with state := .available, scheduledAtMs := now })

def schedulePendingJob (id : String) (atMs : Int) (db : Store) : Store :=
  if atMs ≤ 0 then db
  else db.run (db.jobs.updateAt id (fun j => j.state = .pending)
    fun j => { j with state := .scheduled, scheduledAtMs := atMs })

def rescheduleJob (id : String) (atMs : Int) (db : Store) : Store :=
  db.run (db.jobs.updateAt id (fun j => [State.scheduled, .retryable].contains j.state)
    fun j => { j with scheduledAtMs := atMs })

def editPayload (id : String) (payload : Bytes) (schemaVersion : Nat) (fingerprint : String)
    (db : Store) : Store :=
  db.run (db.jobs.updateAt id (fun j => j.state ≠ .running) fun j => { j with
    payload := payload, schemaVersion := Sql.asI32 schemaVersion, fingerprint := fingerprint })

def deleteJob (id : String) (db : Store) : Store :=
  db.run (db.jobs.delete fun x j => x = id && j.state ≠ .running)

def releases (fp : String) (_ : String) (j : Job) : Bool :=
  j.fingerprint = fp && j.state = .quarantined

/-- `quarantine_release`: one statement for the jobs and the entry. -/
def quarantineRelease (now : Int) (fp : String) (db : Store) : Store :=
  match db.write (db.jobs.update (releases fp) fun _ => reopenedRow now) with
  | some db' =>
    { db with toDb := { db' with quarantine := db.quarantine.delete fun f _ => f = fp } }
  | none => db

def setEnqueueLimit (queue : String) (limit : Option Int) (db : Store) : Store :=
  { db with enqueuePolicy := Function.update db.enqueuePolicy queue limit }

/-! ## Section 5: Bulk operations -/

/-- `create_operation`; an id already taken fails, a dry run is complete at once. -/
def createOperation (now : Int) (id : String) (action : BulkAction) (selector : Selector)
    (dryRun : Bool) (db : Store) : Store :=
  if selector.nonempty then
    { db with
      operations := db.operations.insert id {
        action := action, selector := selector, createdAtMs := now
        status := if dryRun then .completed else .pending } }
  else db

/-- `selector_where`. -/
def selected (now : Int) (op : Operation) (j : Job) : Bool :=
  (bulkActionStates op.action).contains j.state
    && op.selector.queue.all (· = j.queue) && op.selector.state.all (· = j.state)
    && op.selector.kind.all (· = j.kind) && op.selector.partitionKey.all (· = j.partitionKey)
    && op.selector.olderThanMs.all fun age => j.enqueuedAtMs < now - age

def bulkIds (now batch : Int) (op : Operation) (t : Table String Job) : List String :=
  firstIds batch (t.select fun _ j => selected now op j)

/-- The statement of a bulk action. -/
def bulkMutation (now : Int) (action : BulkAction) (ids : List String) (jobs : Table String Job) :
    Table String Job :=
  match action with
  | .retry => jobs.update (fun id _ => ids.contains id) fun _ => reopenedRow now
  | .cancel => jobs.update (fun id _ => ids.contains id) fun _ => cancelledRow now
  | .delete => jobs.delete fun id _ => ids.contains id

/-- The statement of one round, which a negative limit fails. -/
def bulkWrite (now batch : Int) (op : Operation) (db : Store) : Option Db :=
  if batch < 0 then none
  else db.write (bulkMutation now op.action (bulkIds now batch op db.jobs) db.jobs)

/-- One round over an operation; a failed statement fails the operation. -/
def runOperation (now batch : Int) (db : Store) (e : String × Operation) : Store :=
  let ids := bulkIds now batch e.2 db.jobs
  match bulkWrite now batch e.2 db with
  | none =>
    { db with
      operations := db.operations.updateAt e.1 (fun _ => true) fun o => { o with status := .failed } }
  | some db' =>
    { db with
      toDb := db'
      operations := db.operations.updateAt e.1 (fun _ => true) fun o => { o with
        affected := o.affected + ids.length
        status := if (ids.length : Int) < batch then .completed else .running } }

/-- The five oldest operations that are not over. -/
def openOperations (db : Store) : List (String × Operation) :=
  (orderBy (fun e => e.2.createdAtMs) (db.operations.select fun _ o =>
    o.status = .pending || o.status = .running)).take 5

/-- `run_pending_operations`: a batch of each open operation. -/
def runPendingOperations (now batch : Int) (db : Store) : Store :=
  (openOperations db).foldl (runOperation now batch) db

/-- `delete_queue`; `force` files a delete operation and closes the queue. -/
def deleteQueue (now : Int) (queue : String) (force : Bool) (id : String) (db : Store) : Store :=
  if db.entered queue - db.exited queue = 0 then
    { db with enqueuePolicy := Function.update db.enqueuePolicy queue none }
  else if force then
    createOperation now id .delete { queue := some queue } false
      { db with enqueuePolicy := Function.update db.enqueuePolicy queue (some 0) }
  else db

end Headgate.Postgres
