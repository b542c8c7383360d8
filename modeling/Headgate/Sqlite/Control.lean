import Headgate.Sqlite.Admit

/-!
# Leases, sweeps and operators

The remaining statements of `SqliteStore`.  Where the source reads the clock in
several statements of one call, the model reads it once.
-/

namespace Headgate.Sqlite

open Headgate.Core Data
open Sql (AckArgs validateAck countCrash BulkAction Selector bulkActionStates)

/-! ## Section 1: Calls under a lease -/

def Job.heldBy (j : Job) (ref : LeaseRef) : Bool := j.toJob.heldBy ref

/-- Refill, then correct the charge of an attempt by its actual weight. -/
def reconcileActualWeight (now : Int) (j : Job) (actual : Nat) (t : Table String Bucket) :
    Table String Bucket :=
  if j.rateCharge = 0 then t
  else t.updateAt j.rateClass (fun _ => true) fun b => { b with
    tokens := min b.burst
      (min b.burst (b.tokens + max 0 (now - b.refilled) * b.limit / b.window)
        + j.rateCharge - actual)
    refilled := now }

/-- Leave running: the lease is cleared and a corrected charge is forgotten. -/
def released (a : AckArgs) (j : Job) : Job :=
  { j with lease := none, rateCharge := if a.actualWeight.isSome then 0 else j.rateCharge }

/-- A timeline entry for this attempt, if one is recorded. -/
def recordAttempt (now : Int) (a : AckArgs) (record : Bool) (attempt : Nat) (j : Job) : Job :=
  if record then
    { j with
      errors := Sql.appendAttempt j.errors now attempt 0 (Sql.outcomeName a.outcome) a.err a.logs }
  else j

def finished (now : Int) (to_ : State) (j : Job) : Job :=
  { j with state := to_, finalizedAtMs := some now }

/-- Waiting again under a due time. -/
def requeued (to_ : State) (scheduledAt : Int) (j : Job) : Job :=
  { j with state := to_, scheduledAtMs := scheduledAt, finalizedAtMs := none }

/-- The row after an outcome; `none` deletes it. -/
def ackRow (opts : Options) (now : Int) (a : AckArgs) (j : Job) : Option Job :=
  match a.outcome with
  | .success =>
    if j.retentionMs = 0 then none
    else some (released a (recordAttempt now a (!a.logs.isEmpty) j.attempt
      (finished now .completed { j with result := a.result <|> j.result })))
  | .retry =>
    let attempt := j.attempt + 1
    let j := recordAttempt now a true attempt { j with attempt := attempt }
    if attempt < j.maxAttempts then
      let delay := match a.delayMs.filter (· > 0) with
        | some d => d
        | none => retryDelay opts attempt
      some (released a (requeued .retryable (now + delay) j))
    else some (released a (finished now .archived j))
  | .skip =>
    some (released a (recordAttempt now a (a.err.isSome || !a.logs.isEmpty) j.attempt
      (finished now .archived j)))
  | .revoke => none
  | .snooze => some (released a (requeued .scheduled (now + a.delayMs.getD 0) j))
  | .undecodable => some (released a (recordAttempt now a true j.attempt
      (finished now .undecodable j)))
  | .rateLimited => some (released a (requeued .available j.scheduledAtMs j))
  | .leaseLost => some j

/-- `ack_attempt_with_actual_weight`, `ack_success_with_result` and the completion inside a
caller's transaction. -/
def ack (opts : Options) (now : Int) (ref : LeaseRef) (a : AckArgs) (db : Store) :
    Store × Except StoreError Unit :=
  match validateAck a with
  | .error e => (db, .error e)
  | .ok () =>
    match (db.jobs.get ref.jobId).filter fun j => j.heldBy ref with
    | none => (db, .error (.leaseRejected ref.jobId))
    | some j =>
      let buckets := match a.actualWeight with
        | some w => reconcileActualWeight now j w db.buckets
        | none => db.buckets
      let jobs := match ackRow opts now a j with
        | none => db.jobs.delete fun id _ => id = ref.jobId
        | some row => db.jobs.updateAt ref.jobId (fun _ => true) fun _ => row
      ({ db with jobs := jobs, buckets := buckets }, .ok ())

/-- A write to a row under its lease. -/
def fencedWrite (ref : LeaseRef) (f : Job → Job) (db : Store) : Store :=
  (db.updateJob ref.jobId (fun j => j.heldBy ref) f).1

def renewOne (now leaseMs : Int) (db : Store) (ref : LeaseRef) : Store :=
  fencedWrite ref
    (fun j => { j with lease := j.lease.map fun l => { l with expiresAtMs := now + leaseMs } }) db

def renew (now leaseMs : Int) (refs : List LeaseRef) (db : Store) : Store :=
  if leaseMs < 1 then db else refs.foldl (renewOne now leaseMs) db

def checkpoint (ref : LeaseRef) (cp : Checkpoint) (db : Store) : Store :=
  fencedWrite ref (fun j => { j with checkpoint := some cp }) db

def writeJobOutput (now : Int) (ref : LeaseRef) (value : JobResult) (db : Store) : Store :=
  fencedWrite ref (fun j => { j with
    output := some ⟨value.schemaVersion, value.bytes, j.fence, now⟩ }) db

def writeJobProgress (now : Int) (ref : LeaseRef) (current total : Nat) (message : Option String)
    (db : Store) : Store :=
  fencedWrite ref (fun j => { j with
    progress := some ⟨current, total, message, j.fence, now⟩ }) db

/-! ## Section 2: Sweeps -/

/-- The row of a job whose lease ran out. -/
def crashedRow (opts : Options) (now : Int) (j : Job) : Job :=
  let crash := j.crashAttempt + 1
  let quarantined := opts.crashLimit ≤ crash
  { j with
    state := if quarantined then .quarantined else .retryable
    crashAttempt := crash
    scheduledAtMs := if quarantined then j.scheduledAtMs else now + retryDelay opts crash
    finalizedAtMs := if quarantined then some now else none
    errors := Sql.appendAttempt j.errors now j.attempt crash "lease_lost"
      (some "lease expired without ack") []
    checkpoint := some (countCrash (j.checkpoint.getD {}))
    lease := none }

def quarantineFingerprint (now : Int) (fp : String) (crash : Nat)
    (t : Table String QuarantineEntry) : Table String QuarantineEntry :=
  (t.updateAt fp (fun _ => true) fun e => { e with crashCount := max e.crashCount crash }).insert fp
    ⟨crash, now⟩

def reclaimOne (opts : Options) (now : Int) (db : Store) (e : String × Job) : Store :=
  { db with
    jobs := db.jobs.updateAt e.1 (fun j => j.state = .running) (crashedRow opts now)
    quarantine :=
      if opts.crashLimit ≤ e.2.crashAttempt + 1 then
        quarantineFingerprint now e.2.fingerprint (e.2.crashAttempt + 1) db.quarantine
      else db.quarantine }

def expiresAt (j : Job) : Int := (j.lease.map Lease.expiresAtMs).getD 0

/-- `reclaim_expired`. -/
def reclaimExpired (opts : Options) (now limit : Int) (db : Store) : Store :=
  if limit ≤ 0 then db
  else
    let victims := db.jobs.select fun _ j =>
      j.state = .running && j.lease.any fun l => l.expiresAtMs ≤ now
    ((orderBy (fun e : String × Job => toLex (expiresAt e.2, e.1)) victims).take limit.toNat).foldl
      (reclaimOne opts now) db

/-- The first `limit` ids of a query in its order. -/
def firstIds {κ : Type} [LinearOrder κ] (key : String × Job → κ) (limit : Int)
    (rows : List (String × Job)) : List String :=
  ((orderBy key rows).take limit.toNat).map Prod.fst

/-- `promote_due`. -/
def promoteDue (now limit : Int) (db : Store) : Store :=
  if limit ≤ 0 then db
  else
    let ids := firstIds (fun e => toLex (e.2.scheduledAtMs, e.1)) limit
      (db.jobs.select fun _ j =>
        [State.scheduled, .retryable].contains j.state && j.scheduledAtMs ≤ now)
    { db with
      jobs := db.jobs.update (fun id _ => ids.contains id)
        fun _ j => { j with state := .available } }

/-- The finished jobs whose retention has ended, the oldest `limit` of them. -/
def evictIds (now limit : Int) (db : Store) : List String :=
  firstIds (fun e => toLex (e.2.finalizedAtMs.getD 0, e.1)) limit
    (db.jobs.select fun _ j =>
      [State.completed, .archived, .cancelled, .undecodable].contains j.state
        && j.retentionMs > 0 && j.finalizedAtMs.any fun t => t + j.retentionMs ≤ now)

/-- `evict_retained`. -/
def evictRetained (now limit : Int) (db : Store) : Store :=
  if limit ≤ 0 then db
  else { db with jobs := db.jobs.delete fun id _ => (evictIds now limit db).contains id }

/-- `quarantine_sweep`. -/
def quarantineSweep (now limit : Int) (db : Store) : Store :=
  if limit ≤ 0 then db
  else
    let ids := firstIds (fun e => e.1) limit
      (db.jobs.select fun _ j =>
        [State.pending, .scheduled, .available, .retryable].contains j.state
          && (db.quarantine.get j.fingerprint).isSome)
    { db with
      jobs := db.jobs.update (fun id _ => ids.contains id)
        fun _ j => { j with state := .quarantined, finalizedAtMs := some now } }

/-! ## Section 3: Operators -/

/-- `simple_transition`. -/
def simpleTransition (now : Int) (id : String) (from_ : List State) (to_ : State) (db : Store) :
    Store :=
  (db.updateJob id (fun j => from_.contains j.state) fun j => { j with
    state := to_
    scheduledAtMs := if to_ = .available then now else j.scheduledAtMs
    finalizedAtMs := if to_ = .cancelled then some now else none
    lease := none }).1

def operatorRetry (now : Int) (id : String) (db : Store) : Store :=
  simpleTransition now id [.archived, .cancelled, .undecodable] .available db

def operatorCancel (now : Int) (id : String) (db : Store) : Store :=
  simpleTransition now id [.pending, .scheduled, .available, .running, .retryable] .cancelled db

def promoteJob (now : Int) (id : String) (db : Store) : Store :=
  simpleTransition now id [.pending] .available db

def schedulePendingJob (id : String) (atMs : Int) (db : Store) : Store :=
  (db.updateJob id (fun j => j.state = .pending)
    fun j => { j with state := .scheduled, scheduledAtMs := atMs }).1

def rescheduleJob (id : String) (atMs : Int) (db : Store) : Store :=
  (db.updateJob id (fun j => [State.scheduled, .retryable].contains j.state)
    fun j => { j with scheduledAtMs := atMs }).1

def editPayload (id : String) (payload : Bytes) (schemaVersion : Nat) (fingerprint : String)
    (db : Store) : Store :=
  if schemaVersionOk schemaVersion then
    (db.updateJob id (fun j => j.state ≠ .running) fun j => { j with
      payload := payload, schemaVersion := schemaVersion, fingerprint := fingerprint }).1
  else db

def deleteJob (id : String) (db : Store) : Store :=
  { db with jobs := db.jobs.delete fun x j => x = id && j.state ≠ .running }

/-- `quarantine_release`: the unique keys of the released jobs are not looked at. -/
def quarantineRelease (now : Int) (fp : String) (db : Store) : Store :=
  { db with
    jobs := db.jobs.update (fun _ j => j.fingerprint = fp && j.state = .quarantined)
      fun _ j => { j with state := .available, scheduledAtMs := now, finalizedAtMs := none }
    quarantine := db.quarantine.delete fun f _ => f = fp }

/-- `create_operation`; an id already taken fails. -/
def createOperation (now : Int) (id : String) (action : BulkAction) (selector : Selector)
    (dryRun : Bool) (db : Store) : Store :=
  if id = "" ∨ ¬ selector.nonempty then db
  else
    { db with
      operations := db.operations.insert id
        { action := action, selector := selector, dryRun := dryRun, createdAtMs := now } }

/-- The `WHERE` clause of a bulk operation. -/
def selected (op : Operation) (j : Job) : Bool :=
  (bulkActionStates op.action).contains j.state
    && op.selector.queue.all (· = j.queue) && op.selector.state.all (· = j.state)
    && op.selector.kind.all (· = j.kind) && op.selector.partitionKey.all (· = j.partitionKey)
    && op.selector.olderThanMs.all (j.enqueuedAtMs < ·)

/-- The statement of a bulk action over the selected ids. -/
def bulkMutation (now : Int) (action : BulkAction) (ids : List String) (jobs : Table String Job) :
    Table String Job :=
  match action with
  | .delete => jobs.delete fun id _ => ids.contains id
  | .cancel => jobs.update (fun id _ => ids.contains id) fun _ j =>
      { j with state := .cancelled, finalizedAtMs := some now, lease := none }
  | .retry => jobs.update (fun id _ => ids.contains id) fun _ j =>
      { j with state := .available, scheduledAtMs := now, finalizedAtMs := none }

/-- The ids of the next batch of an operation. -/
def bulkIds (batch : Int) (op : Operation) (db : Store) : List String :=
  firstIds (fun e => e.1) batch (db.jobs.select fun _ j => selected op j)

/-- The oldest operation that is not completed. -/
def nextOperation (db : Store) : Option (String × Operation) :=
  (orderBy (fun e : String × Operation => toLex (e.2.createdAtMs, e.1))
    (db.operations.select fun _ op => !op.completed)).head?

/-- `run_pending_operations`. -/
def runPendingOperations (now batch : Int) (db : Store) : Store :=
  if batch ≤ 0 then db
  else match nextOperation db with
    | none => db
    | some (id, op) =>
      let ids := bulkIds batch op db
      { db with
        jobs := if op.dryRun then db.jobs else bulkMutation now op.action ids db.jobs
        operations := db.operations.updateAt id (fun _ => true) fun o => { o with
          affected := o.affected + ids.length
          completed := (ids.length : Int) < batch || op.dryRun } }

/-! ## Section 4: Policy -/

def setQueuePaused (queue : String) (paused : Bool) (db : Store) : Store :=
  { db with
    queueStates := (db.queueStates.insert queue {}).updateAt queue (fun _ => true)
      fun st => { st with paused := paused } }

def setQueueWeight (queue : String) (weight : Int) (db : Store) : Store :=
  { db with
    queueStates :=
      if (db.queueStates.get queue).isSome then
        db.queueStates.updateAt queue (fun _ => true) fun st => { st with
          dispatchCount := st.dispatchCount * weight / st.weight, weight := weight }
      else db.queueStates.insert queue { weight := weight } }

def setEnqueueLimit (queue : String) (limit : Option Int) (db : Store) : Store :=
  { db with
    enqueuePolicy := (db.enqueuePolicy.insert queue limit).updateAt queue (fun _ => true)
      fun _ => limit }

def upsertRateClass (now : Int) (name : String) (limit window burst : Int) (paused : Bool)
    (db : Store) : Store :=
  { db with
    buckets :=
      if (db.buckets.get name).isSome then
        db.buckets.updateAt name (fun _ => true) fun b => {
          tokens := if paused then 0 else min b.tokens burst
          burst := burst, limit := limit, window := window, refilled := now, paused := paused }
      else db.buckets.insert name {
        tokens := if paused then 0 else burst
        burst := burst, limit := limit, window := window, refilled := now, paused := paused } }

/-- `upsert_concurrency_limit`; a queue that another limit already names fails. -/
def upsertConcurrencyLimit (name : String) (cfg : ConcurrencyLimit) (db : Store) : Store :=
  if (db.limits.select fun n l => n ≠ name && l.queue = cfg.queue).isEmpty then
    { db with limits := (db.limits.insert name cfg).updateAt name (fun _ => true) fun _ => cfg }
  else db

/-- `delete_queue`; `force` files a delete operation under the generated `id`. -/
def deleteQueue (now : Int) (queue : String) (force : Bool) (id : String) (db : Store) : Store :=
  if (db.jobs.select fun _ j => j.queue = queue).isEmpty then
    { db with
      queueStates := db.queueStates.delete fun q _ => q = queue
      enqueuePolicy := db.enqueuePolicy.delete fun q _ => q = queue }
  else if force then
    { db with
      operations := db.operations.insert id
        { action := .delete, selector := { queue := some queue }, dryRun := false
          createdAtMs := now } }
  else db

end Headgate.Sqlite
