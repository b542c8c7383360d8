import Headgate.Postgres.Step

/-!
# The tables Postgres maintains beside the jobs

`headgate_inflight` counts the running rows of each partition, so that the gate need
not; `headgate_active_partition` names the partitions with available rows.  No
trigger keeps them: every statement that moves a row carries its own part of the
bookkeeping in a further `WITH` clause.  This module adds these clauses, statement by
statement, to the calls of the store.

Each call is one transaction here, apart from `promote_due`, whose two clean-ups
commit on their own.  Transactions follow one another; what two of them see of each
other while both are open is not modelled.
-/

namespace Headgate.Postgres

open Headgate.Core Data
open Sql (AckArgs BulkAction Db Job Part classifyIds postgresRust validateAck)

/-! ## Section 1: Partitions -/

/-- The partition of a row. -/
def part (j : Job) : Part := (j.queue, j.partitionKey)

/-- A row of `headgate_inflight`. -/
structure Inflight where
  n : Int := 0
  reconciledAtMs : Int := 0
  deriving DecidableEq, Repr

/-- The store with the two maintained tables. -/
structure Maintained extends Store where
  inflight : Table Part Inflight
  active : Finset Part

def Maintained.init : Maintained where
  toStore := Store.init
  inflight := .empty
  active := ∅

/-! ## Section 2: The clauses -/

/-- `inflight_dec_sql`: one update for each partition among the rows of `src`. -/
def inflightDec (src : List Part) (t : Table Part Inflight) : Table Part Inflight :=
  t.update (fun p _ => src.contains p) fun p r => { r with n := max 0 (r.n - src.count p) }

/-- `inflight_defaults`: a zero row for each new partition. -/
def inflightDefaults (ins : List Part) (t : Table Part Inflight) : Table Part Inflight :=
  t.insertRows (ins.dedup.map fun p => (p, {}))

/-- `infl` of `admit.sql`: one upsert with the net change of each partition.
`admit_direct.sql` displaces nothing and does not clamp. -/
def inflightNet (claimed displaced : List Part) (t : Table Part Inflight) : Table Part Inflight :=
  let delta (p : Part) : Int := claimed.count p - displaced.count p
  let changed := (claimed ++ displaced).dedup
  (t.update (fun p _ => changed.contains p) fun p r =>
      { r with n := max 0 (r.n + delta p) }).insertRows
    (changed.map fun p => (p, { n := max 0 (delta p) }))

/-- The partitions of the rows that a statement selects. -/
def parts (t : Table String Job) (p : String → Job → Bool) : List Part :=
  (t.select p).map fun e => part e.2

def GateChange.isClaim : GateChange → Bool
  | .claim _ => true
  | _ => false

/-- Is there an available row in the partition? -/
def hasAvailable (t : Table String Job) (p : Part) : Bool :=
  t.count (fun _ j => part j = p && j.state = .available) ≠ 0

namespace Maintained

/-- A statement and its clauses; one that breaks an index writes none of it. -/
def run (s : Maintained) (t : Table String Job) (inflight : Table Part Inflight)
    (active : Finset Part) : Maintained :=
  match s.write t with
  | some db' => { s with toDb := db', inflight := inflight, active := active }
  | none => s

/-! ## Section 3: Enqueue -/

/-- The clauses of the insert: a counter for each partition, and those with an available row are
listed. -/
def listInserted (now : Int) (fresh : List Envelope) (s : Maintained) : Maintained :=
  let rows := fresh.map (postgresRust.dialect.newJob now)
  { s with
    inflight := inflightDefaults (rows.map part) s.inflight
    active := s.active ∪ ((rows.filter fun j => j.state = .available).map part).toFinset }

/-- After a debounce the holder's partition may have no available row left. -/
def delistDebounced (holder : String) (s : Maintained) : Maintained :=
  { s with
    active := s.active.filter fun p =>
      ¬ ((s.jobs.get holder).any (fun j => part j = p) && !hasAvailable s.jobs p) }

/-- What `enqueue_on` does to the maintained tables, by its verdict; `s` has its jobs. -/
def afterEnqueue (now : Int) (batch : List Envelope) (before : Db)
    (verdict : Except StoreError Unit) (s : Maintained) : Maintained :=
  match verdict, classifyIds before (batch.map scopeKey) with
  | .ok (), .ok fresh => s.listInserted now fresh
  | .error (.duplicate holder true), .ok (incoming :: _) =>
    if incoming.uniqueDebounceMs > 0 then s.delistDebounced holder else s
  | _, _ => s

def enqueue (now : Int) (order : SetOrder String) (batch : List Envelope) (s : Maintained) :
    Maintained :=
  let r := Sql.enqueue postgresRust now order batch s.toDb
  { s with toDb := r.1 }.afterEnqueue now batch s.toDb r.2

def enqueueTx (now : Int) (order : SetOrder String) (batch : List Envelope) (s : Maintained) :
    Maintained :=
  let r := Sql.enqueueTx postgresRust now order batch s.toDb
  { s with toDb := r.1 }.afterEnqueue now batch s.toDb r.2

/-! ## Section 4: Calls under a lease -/

/-- The partitions of the rows that one kind of change of the gate reaches. -/
def gateParts (now leaseMs : Int) (req : AdmitRequest) (kind : GateChange → Bool) :
    List (String × GateChange) → Table String Job → List Part
  | [], _ => []
  | c :: rest, t =>
    let row := (t.get c.1).filter fun j => j.state = c.2.starts && kind c.2
    (row.map part).toList ++ gateParts now leaseMs req kind rest
      (t.updateAt c.1 (fun j => j.state = c.2.starts) fun j => c.2.apply now leaseMs req j)

/-- `admit.sql` and `admit_direct.sql`. -/
def admission (now leaseMs : Int) (req : AdmitRequest) (changes : List (String × GateChange))
    (s : Maintained) : Maintained :=
  s.run (admitJobs now leaseMs req changes s.jobs)
    (inflightNet (gateParts now leaseMs req GateChange.isClaim changes s.jobs)
      (gateParts now leaseMs req (· = .displace) changes s.jobs) s.inflight)
    s.active

/-- `ack_on`: every outcome leaves running; a rate-limited job is available again. -/
def ack (opts : Options) (now jitter : Int) (ref : LeaseRef) (a : AckArgs) (s : Maintained) :
    Maintained :=
  match validateAck a with
  | .error _ => s
  | .ok () =>
    match (s.jobs.get ref.jobId).filter fun j => j.heldBy ref with
    | none => s
    | some j =>
      s.run (ackJobs opts now jitter ref a j s.jobs) (inflightDec [part j] s.inflight)
        (if a.outcome = .rateLimited then insert (part j) s.active else s.active)

/-! ## Section 5: Sweeps -/

/-- `reclaim_expired`. -/
def reclaimExpired (opts : Options) (now limit : Int) (s : Maintained) : Maintained :=
  let ids := expiredIds now limit s.toStore
  match s.write (s.jobs.update (fun id _ => ids.contains id) fun _ =>
      Postgres.crashedRow opts now) with
  | some db' =>
    let rows := s.jobs.select fun id _ => ids.contains id
    { s with
      toDb := { db' with quarantine := quarantineCrashed opts now rows s.quarantine }
      inflight := inflightDec (rows.map fun e => part e.2) s.inflight }
  | none => s

/-- The statement of `promote_due`. -/
def promoteDue (now limit : Int) (s : Maintained) : Maintained :=
  let ids := dueIds now limit s.toStore
  s.run (s.jobs.update (fun id _ => ids.contains id) fun _ j => { j with state := .available })
    s.inflight (s.active ∪ (parts s.jobs fun id _ => ids.contains id).toFinset)

/-- `prune_active_partitions`; the order of the texts is the server's. -/
def pruneActivePartitions (order : SetOrder Part) (limit : Int) (s : Maintained) : Maintained :=
  let locked := (order.list s.active).take limit.toNat
  { s with active := s.active.filter fun p => ¬ (locked.contains p && !hasAvailable s.jobs p) }

/-- `reconcile_inflight`: the rows checked longest ago, ties in any order. -/
def reconcileInflight (order : SetOrder Part) (now limit : Int) (s : Maintained) : Maintained :=
  let checkedAt (p : Part) : Int := ((s.inflight.get p).map Inflight.reconciledAtMs).getD 0
  let due := (orderBy checkedAt
    (order.list (s.inflight.entries.map Prod.fst).toFinset)).take limit.toNat
  { s with
    inflight := s.inflight.update (fun p _ => due.contains p) fun p _ =>
      { n := s.jobs.count fun _ j => j.state = .running && part j = p, reconciledAtMs := now } }

/-- `quarantine_release`. -/
def quarantineRelease (now : Int) (fp : String) (s : Maintained) : Maintained :=
  match s.write (s.jobs.update (releases fp) fun _ => reopenedRow now) with
  | some db' =>
    { s with
      toDb := { db' with quarantine := s.quarantine.delete fun f _ => f = fp }
      active := s.active ∪ (parts s.jobs (releases fp)).toFinset }
  | none => s

/-! ## Section 6: Operators -/

def operatorRetry (now : Int) (id : String) (s : Maintained) : Maintained :=
  s.run (s.jobs.updateAt id retries (reopenedRow now)) s.inflight
    (s.active ∪ (parts s.jobs fun x j => x = id && retries j).toFinset)

/-- `operator_cancel`: whether the row ran is read before it is cancelled. -/
def operatorCancel (now : Int) (id : String) (s : Maintained) : Maintained :=
  s.run (s.jobs.updateAt id (fun j => j.state.isUnfinished) (cancelledRow now))
    (inflightDec (parts s.jobs fun x j =>
      (x = id && j.state.isUnfinished) && j.state = .running) s.inflight)
    s.active

def promoteJob (now : Int) (id : String) (s : Maintained) : Maintained :=
  s.run (s.jobs.updateAt id (fun j => j.state = .pending)
      fun j => { j with state := .available, scheduledAtMs := now })
    s.inflight (s.active ∪ (parts s.jobs fun x j => x = id && j.state = .pending).toFinset)

/-- The clauses of a bulk statement on the picked rows. -/
def bulkClauses (action : BulkAction) (ids : List String) (s : Maintained) :
    Table Part Inflight × Finset Part :=
  match action with
  | .retry => (s.inflight, s.active ∪ (parts s.jobs fun id _ => ids.contains id).toFinset)
  | .cancel =>
    (inflightDec (parts s.jobs fun id j => ids.contains id && j.state = .running) s.inflight,
      s.active)
  | .delete => (s.inflight, s.active)

/-- One round over an operation. -/
def runOperation (now batch : Int) (s : Maintained) (e : String × Operation) : Maintained :=
  let ids := bulkIds now batch e.2 s.jobs
  match bulkWrite now batch e.2 s.toStore with
  | none => { s with toStore := Postgres.runOperation now batch s.toStore e }
  | some _ =>
    { s with
      toStore := Postgres.runOperation now batch s.toStore e
      inflight := (s.bulkClauses e.2.action ids).1
      active := (s.bulkClauses e.2.action ids).2 }

def runPendingOperations (now batch : Int) (s : Maintained) : Maintained :=
  (openOperations s.toStore).foldl (runOperation now batch) s

end Maintained

/-! ## Section 7: Runs -/

/-- What commits: a call, or a clean-up that follows `promote_due`. -/
inductive Commit where
  | call (c : Call)
  | pruneActivePartitions (order : SetOrder Part) (limit : Int)
  | reconcileInflight (order : SetOrder Part) (now limit : Int)

/-- One transaction. -/
def Maintained.step (s : Maintained) : Commit → Maintained
  | .call c =>
    match c.op with
    | .enqueue batch order => s.enqueue c.now order batch
    | .enqueueTx batch order => s.enqueueTx c.now order batch
    | .admission req leaseMs changes => s.admission c.now leaseMs req changes
    | .ack opts jitter ref args => s.ack opts c.now jitter ref args
    | .reclaimExpired opts limit => s.reclaimExpired opts c.now limit
    | .promoteDue limit => s.promoteDue c.now limit
    | .quarantineRelease fp => s.quarantineRelease c.now fp
    | .operatorRetry id => s.operatorRetry c.now id
    | .operatorCancel id => s.operatorCancel c.now id
    | .promoteJob id => s.promoteJob c.now id
    | .runPendingOperations batch => s.runPendingOperations c.now batch
    -- the statements of the other calls have no such clause
    | _ => { s with toStore := Postgres.step s.toStore c }
  | .pruneActivePartitions order limit => s.pruneActivePartitions order limit
  | .reconcileInflight order now limit => s.reconcileInflight order now limit

/-- The database after a run from the empty one. -/
def Maintained.exec (commits : List Commit) : Maintained :=
  Headgate.Data.run Maintained.step Maintained.init commits

end Headgate.Postgres
