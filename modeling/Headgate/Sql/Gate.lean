import Headgate.Data.Ordered
import Headgate.Sql.Enqueue

/-!
# The admission gate of Postgres and MySQL

`admit.sql` is one statement, `admit_tx` a transaction around `eligible.sql`;
both draw candidates for each partition, rank them, apply the policies, choose
between the queues by weight, and settle the decisions against the counters.
The queries that the two share are here, with their few differences as
parameters.

A row's serial id is its place in the job table: rows are only ever appended.
One call reads the clock once and sees one snapshot, so no row is locked by
anyone else and the re-check of a row's state always succeeds.
-/

namespace Headgate.Sql

open Headgate.Core Data

/-! ## Section 1: Tables -/

/-- A row of `headgate_rate_bucket`. -/
structure Bucket where
  tokens : Int
  burst : Int
  limitPerWindow : Int
  windowMs : Int
  refilledAtMs : Int
  deriving DecidableEq, Repr

/-- A row of `headgate_queue_state`; the weight is checked to be positive. -/
structure QueueState where
  paused : Bool := false
  weight : Nat := 1
  weight_pos : 0 < weight := by decide
  dispatchCount : Nat := 0
  deriving DecidableEq

/-- A row of `headgate_concurrency_limit`. -/
structure ConcurrencyLimit where
  maxConcurrent : Nat
  onSaturated : SaturationStrategy
  deriving DecidableEq, Repr

/-- How a database orders texts: by sort keys, different ones for different texts. -/
structure TextOrder where
  sortKey : String → String
  injective : Function.Injective sortKey

/-- The collation `C` compares code points. -/
def TextOrder.codePoints : TextOrder := ⟨id, Function.injective_id⟩

/-- The tables the gate reads and writes. -/
structure GateDb where
  /-- The collation the database was made with. -/
  texts : TextOrder := .codePoints
  jobs : Table String Job
  buckets : Table String Bucket
  quarantine : Table String QuarantineEntry
  /-- Keyed by the queue, which is unique. -/
  limits : Table String ConcurrencyLimit
  activePartitions : Table Part Unit
  queueStates : String → Option QueueState
  deficits : Part → Option Int
  inflight : Part → Option Int

/-- Where the two engines differ. -/
structure GateDialect where
  /-- An unnamed worker draws no pinned jobs; without the guard it draws the unpinned ones twice. -/
  guardsWorker : Bool
  /-- Claims without a rate class spend from a bucket with the empty name. -/
  unnamedSpends : Bool
  /-- Claims without a rate class carry a charge for a bucket with the empty name. -/
  unnamedCharges : Bool

/-- The tokens of a bucket after its lazy refill. -/
def Bucket.avail (now : Int) (b : Bucket) : Int :=
  min b.burst (b.tokens + ((now - b.refilledAtMs) * b.limitPerWindow).tdiv b.windowMs)

/-! ## Section 2: The draw -/

/-- A drawn row. -/
structure Candidate where
  id : Nat
  ulid : String
  /-- Which of the two route streams drew it. -/
  stream : Nat
  rankPart : Nat := 0
  queue : String
  partitionKey : String
  rateClass : String
  weight : Int
  fingerprint : String
  priority : Int
  scheduledAtMs : Int
  deriving DecidableEq, Repr

namespace Candidate

def part (c : Candidate) : Part := (c.queue, c.partitionKey)

/-- `ORDER BY priority DESC, scheduled_at_ms, id`. -/
def key (c : Candidate) : Int ×ₗ Int ×ₗ Nat ×ₗ Nat :=
  toLex (-c.priority, toLex (c.scheduledAtMs, toLex (c.id, c.stream)))

end Candidate

section Gate
variable (d : GateDialect) (now : Int) (req : AdmitRequest) (db : GateDb)

def paused (queue : String) : Bool := ((db.queueStates queue).map QueueState.paused).getD false

/-- `active_parts`: a bounded number of partitions for each requested queue that is not paused. -/
def activeParts (overfetch : Int) : List Part :=
  (normalizeQueues req.queues).flatMap fun queue =>
    if paused db queue then []
    else (first (fun e : Part × Unit => db.texts.sortKey e.1.2) (req.capacity * overfetch).toNat
      (db.activePartitions.select fun p _ => p.1 = queue)).map Prod.fst

/-- The available rows of a partition on one route, unordered. -/
def routeRows (p : Part) (stream : Nat) (sticky : String) : List Candidate :=
  db.jobs.entries.zipIdx.filterMap fun row =>
    let j := row.1.2
    if j.state = .available ∧ j.queue = p.1 ∧ j.partitionKey = p.2 ∧ j.stickyWorker = sticky
        -- a job with a priority is drawn before its time
        ∧ (j.scheduledAtMs ≤ now ∨ j.priority > 0) then
      some {
        id := row.2, ulid := row.1.1, stream := stream
        queue := j.queue, partitionKey := j.partitionKey, rateClass := j.rateClass
        weight := j.weight, fingerprint := j.fingerprint
        priority := j.priority, scheduledAtMs := j.scheduledAtMs }
    else none

/-- The rows pinned to the calling worker. -/
def pinnedRows (p : Part) : List Candidate :=
  if d.guardsWorker ∧ req.worker = "" then [] else routeRows now db p 1 req.worker

/-- `row_number()` over rows that are already in order. -/
def numbered (l : List Candidate) : List Candidate :=
  l.zipIdx.map fun e => { e.1 with rankPart := e.2 + 1 }

/-- The draw of one partition: two bounded streams, merged and bounded again. -/
def drawPart (lim : Int) (p : Part) : List Candidate :=
  numbered (first Candidate.key lim.toNat
    (first Candidate.key lim.toNat (routeRows now db p 0 "")
      ++ first Candidate.key lim.toNat (pinnedRows d now req db p)))

/-! ## Section 3: The policies -/

/-- What the gate decides about a row. -/
inductive Action where
  | claim
  | cancelRunning
  | discard
  | cancelIncoming
  deriving DecidableEq, Repr

structure Decision where
  cand : Candidate
  action : Action
  deriving DecidableEq, Repr

def Decision.key (e : Decision) : Int ×ₗ Int ×ₗ Nat ×ₗ Nat := e.cand.key

/-- `ranked.cost_class`: the weights of the class up to the row, over all candidates. -/
def costClass (cands : List Candidate) (c : Candidate) : Int :=
  runningSum Candidate.rateClass Candidate.key Candidate.weight cands c

/-- What a partition may take: its carried deficit and one quantum. -/
def fairShare (p : Part) : Int := (db.deficits p).getD 0 + req.quantum

/-- The budget clause: a class nobody configured lets everything through. -/
def hasBudget (cands : List Candidate) (c : Candidate) : Bool :=
  c.rateClass = "" || match db.buckets.get c.rateClass with
    | none => true
    | some b => costClass cands c ≤ b.avail now

/-- The `WHERE` clause of `policy_ready`. -/
def policyReady (cands : List Candidate) (c : Candidate) : Bool :=
  (db.quarantine.get c.fingerprint).isNone && hasBudget now db cands c
    && c.rankPart ≤ fairShare req db c.part

/-- `elig_policy`: what happens to the row of the given rank at the ceiling; a row that stays
queued is left out. -/
def saturationAction (limit : Option ConcurrencyLimit) (inflight : Int) (rank : Nat) :
    Option Action :=
  match limit with
  | none => some .claim
  | some l =>
    if l.onSaturated = .cancelRunning ∧ rank ≤ l.maxConcurrent then some .cancelRunning
    else if inflight + rank ≤ l.maxConcurrent then some .claim
    else match l.onSaturated with
      | .discard => some .discard
      | .cancelIncoming => some .cancelIncoming
      | _ => none

/-- The ceiling only counts rows that survived the clauses before it. -/
def ceilingDecision (ready : List Candidate) (c : Candidate) : Option Decision :=
  (saturationAction (db.limits.get c.queue) ((db.inflight c.part).getD 0)
    (rowNumber Candidate.part Candidate.key ready c)).map (Decision.mk c)

def eligPolicy (cands : List Candidate) : List Decision :=
  let ready := cands.filter (policyReady now req db cands)
  ready.filterMap (ceilingDecision db ready)

def eligFree (cands : List Candidate) : List Decision :=
  cands.map fun c => ⟨c, .claim⟩

/-! ## Section 4: Between the queues -/

def queueState (queue : String) : QueueState := (db.queueStates queue).getD {}

/-- The virtual position of a row: how often its queue will have been served, by weight. -/
def servedKey (pool : List Decision) (e : Decision) : ℚ ×ₗ String ×ₗ Nat :=
  let st := queueState db e.cand.queue
  let rank := rowNumber (fun e : Decision => e.cand.queue) Decision.key pool e
  toLex (((st.dispatchCount + rank - 1 : Nat) : ℚ) / st.weight,
    toLex (db.texts.sortKey e.cand.queue, rank))

/-- `eligible`: the first rows by virtual position, as many as the caller can take. -/
def eligible (pool : List Decision) : List Decision :=
  first (servedKey db pool) req.capacity pool

/-! ## Section 5: Settling the decisions -/

/-- The selected rows, read again under their locks. -/
def locked (chosen : List Decision) : List Decision :=
  chosen.filter fun e => (db.jobs.get e.cand.ulid).any fun j => j.state = .available

variable (held : List Decision) (p : Part)

/-- The selected rows of a partition that replace running ones. -/
def replaceSelected : List Decision :=
  held.filter fun e => e.action = .cancelRunning ∧ e.cand.part = p

def replaceParts : List Part :=
  ((held.filter fun e => e.action = .cancelRunning).map fun e => e.cand.part).dedup

def claimedAt (j : Job) : Int := (j.lease.map Lease.claimedAtMs).getD 0

def inPart (j : Job) : Bool := j.queue = p.1 && j.partitionKey = p.2

/-- The running rows of a partition, those claimed first in front. -/
def runningRows : List ((String × Job) × Nat) :=
  orderBy (fun row => toLex (claimedAt row.1.2, row.2))
    (db.jobs.entries.zipIdx.filter fun row => row.1.2.state = .running && inPart p row.1.2)

/-- `victim_need`: the running rows that are too many once the selected ones are in. -/
def victimNeed : Int :=
  match db.limits.get p.1 with
  | none => 0
  | some l => max 0 ((db.inflight p).getD 0 + (replaceSelected held p).length - l.maxConcurrent)

def victims : List String :=
  ((runningRows db p).take (victimNeed db held p).toNat).map fun row => row.1.1

/-- `replacement_capacity`: the room the victims really left. -/
def replacementCapacity : Int :=
  match db.limits.get p.1 with
  | none => 0
  | some l => max 0 (l.maxConcurrent - (db.inflight p).getD 0 + (victims db held p).length)

/-- The replacements that fit, best first. -/
def replacements : List String :=
  (((orderBy Decision.key (replaceSelected held p)).map fun e => e.cand.ulid).dedup).take
    (replacementCapacity db held p).toNat

/-- `claimable`. -/
def claimIds : List String :=
  ((held.filter fun e => e.action = .claim).map fun e => e.cand.ulid)
    ++ (replaceParts held).flatMap (replacements db held)

def victimIds : List String :=
  (replaceParts held).flatMap (victims db held)

/-- The selected rows that end without a claim. -/
def terminalDecisions : List Decision :=
  held.filter fun e => e.action = .discard ∨ e.action = .cancelIncoming

def terminalIds (action : Action) (held : List Decision) : List String :=
  (held.filter fun e => e.action = action).map fun e => e.cand.ulid

/-- A claim is charged if its class had a bucket when it was admitted. -/
def chargeFor (j : Job) : Int :=
  if (db.buckets.get j.rateClass).isSome ∧ (d.unnamedCharges ∨ j.rateClass ≠ "") then j.weight
  else 0

def claimedRow (j : Job) : Job :=
  { j with
    state := .running
    lease := some ⟨req.leaseId, now + req.leaseMs, now, req.worker⟩
    fence := j.fence + 1
    rateCharge := chargeFor d db j }

def displacedRow (j : Job) : Job :=
  { j with
    state := .cancelled, finalizedAtMs := some now, lease := none, rateCharge := 0
    fence := j.fence + 1 }

def terminalRow (to_ : State) (j : Job) : Job :=
  { j with state := to_, finalizedAtMs := some now, lease := none, rateCharge := 0 }

/-- The writes to the job table. -/
def settleJobs : Table String Job :=
  let displaced := db.jobs.update
    (fun ulid j => (victimIds db held).contains ulid && j.state = .running)
    fun _ => displacedRow now
  let discarded := displaced.update
    (fun ulid j => (terminalIds .discard held).contains ulid && j.state = .available)
    fun _ => terminalRow now .archived
  let cancelled := discarded.update
    (fun ulid j => (terminalIds .cancelIncoming held).contains ulid && j.state = .available)
    fun _ => terminalRow now .cancelled
  cancelled.update (fun ulid j => (claimIds db held).contains ulid && j.state = .available)
    fun _ => claimedRow d now req db

/-- The rows this call claims, as they were. -/
def claimedRows : List (String × Job) :=
  db.jobs.select fun ulid j => (claimIds db held).contains ulid && j.state = .available

def claimedIn : Nat :=
  ((claimedRows db held).filter fun e => inPart p e.2).length

/-- The claims and terminal decisions of a partition. -/
def decisionsIn : Nat :=
  claimedIn db held p + ((terminalDecisions held).filter fun e => e.cand.part = p).length

def decisionsOf (queue : String) : Nat :=
  ((claimedRows db held).filter fun e => e.2.queue = queue).length
    + ((terminalDecisions held).filter fun e => e.cand.queue = queue).length

/-- What the claims of a class cost. -/
def spentBy (cls : String) : Int :=
  if cls = "" ∧ d.unnamedSpends = false then 0
  else (((claimedRows db held).filter fun e => e.2.rateClass = cls).map fun e => e.2.weight).sum

/-- `spend`: refill and spend in one write. -/
def settleBuckets : Table String Bucket :=
  db.buckets.update (fun _ _ => true) fun name b =>
    { b with tokens := b.avail now - spentBy d db held name, refilledAtMs := now }

/-- The deficit that `charge` stores: an inserted credit, merged into the row that is there. -/
def chargedDeficit (stored : Option Int) (decisions : Nat) : Int :=
  let credit := max 0 (req.quantum - decisions)
  match stored with
  | none => credit
  | some deficit => min (req.quantum * 4) (deficit + credit)

def settleDeficits (seen : List Part) (held : List Decision) (p : Part) : Option Int :=
  if p ∈ seen then some (chargedDeficit req (db.deficits p) (decisionsIn db held p))
  else db.deficits p

/-- `infl`: claims less displaced rows. -/
def settleInflight : Option Int :=
  let displaced := if p ∈ replaceParts held then (victims db held p).length else 0
  if claimedIn db held p = 0 ∧ displaced = 0 then db.inflight p
  else
    let delta : Int := claimedIn db held p - displaced
    some (max 0 ((db.inflight p).getD 0 + delta))

/-- `queue_charge`: only queues with a decision advance. -/
def settleQueues (queue : String) : Option QueueState :=
  if decisionsOf db held queue = 0 then db.queueStates queue
  else
    let st := queueState db queue
    some { st with dispatchCount := st.dispatchCount + decisionsOf db held queue }

/-- Everything the gate writes, and the rows it claims.  `seen` are the partitions that had a
candidate; a closed gate has selected rows but may not lock, spend or charge. -/
def settle (isOpen : Bool) (seen : List Part) (chosen : List Decision) :
    GateDb × List (String × Job) :=
  let held := if isOpen then locked db chosen else []
  ({ db with
      jobs := settleJobs d now req db held
      buckets := if isOpen then settleBuckets d now db held else db.buckets
      deficits := if isOpen then settleDeficits req db seen held else db.deficits
      inflight := settleInflight db held
      queueStates := settleQueues db held },
    (claimedRows db held).map fun e => (e.1, claimedRow d now req db e.2))

end Gate

end Headgate.Sql
