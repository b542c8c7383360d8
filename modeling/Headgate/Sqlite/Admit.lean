import Headgate.Sqlite.Store

/-!
# `SqliteStore::admit`

One transaction: jobs past their deadline are cancelled, the candidates are
drawn by one query, and a loop decides them one at a time, from the queue that
has been dispatched least for its weight.  Rate classes, ceilings and dispatch
counts live in local maps during the loop and are written back at the end.
-/

namespace Headgate.Sqlite

open Headgate.Core Data

/-! ## Section 1: The draw -/

/-- Available jobs whose deadline has passed are cancelled. -/
def expireDeadlines (now : Int) (jobs : Table String Job) : Table String Job :=
  jobs.update (fun _ j => j.state = .available && j.deadlineMs > 0 && j.deadlineMs ≤ now)
    fun _ j => { j with state := .cancelled, finalizedAtMs := some now }

/-- Every requested queue has a row. -/
def ensureQueues (queues : List String) (t : Table String QueueState) : Table String QueueState :=
  queues.foldl (fun t queue => t.insert queue {}) t

/-- The refill of one bucket, in saturating arithmetic. -/
def refillBucket (now : Int) (b : Bucket) : Bucket :=
  let elapsed := saturate (now - b.refilled)
  let tokens :=
    if elapsed > 0 ∧ b.limit > 0 then
      min b.burst (saturate (b.tokens + saturate (elapsed * b.limit) / b.window))
    else b.tokens
  { b with tokens := tokens, refilled := now }

/-- The `WHERE` clause of the draw. -/
def eligible (req : AdmitRequest) (queues : List String) (db : Store) (j : Job) : Bool :=
  j.state = .available && queues.contains j.queue
    && (j.stickyWorker = "" || j.stickyWorker = req.worker)
    && (db.quarantine.get j.fingerprint).isNone

/-- `ORDER BY priority DESC, scheduled_at_ms, id`. -/
def drawKey (e : String × Job) : Int ×ₗ Int ×ₗ String :=
  toLex (-e.2.priority, toLex (e.2.scheduledAtMs, e.1))

/-- `ROW_NUMBER()` within the queue and partition. -/
def rowNumber (rows : List (String × Job)) (e : String × Job) : Nat :=
  (rows.filter fun r => r.2.queue = e.2.queue && r.2.partitionKey = e.2.partitionKey
    && drawKey r < drawKey e).length + 1

/-- The order of the draw: by round of `quantum` rows, then by row number. -/
def roundKey (quantum : Int) (rows : List (String × Job)) (e : String × Job) :
    Int ×ₗ Nat ×ₗ (Int ×ₗ Int ×ₗ String) :=
  toLex ((rowNumber rows e - 1 : Int) / quantum, toLex (rowNumber rows e, drawKey e))

/-- The candidates, over all requested queues, paused or not. -/
def drawCandidates (req : AdmitRequest) (queues : List String) (db : Store) :
    List (String × Job) :=
  let rows := db.jobs.select fun _ j => eligible req queues db j
  let kept := rows.filter fun e => rowNumber rows e ≤ req.capacity
  (orderBy (roundKey (max 1 req.quantum) rows) kept).take (req.capacity * queues.length * 4)

/-! ## Section 2: The loop -/

/-- The local state of the loop. -/
structure Gate where
  jobs : Table String Job
  buckets : Table String Bucket
  dispatch : String → Int
  /-- The undecided candidates of each queue. -/
  waiting : String → List (String × Job)
  /-- Running jobs per queue and partition, counted when first needed. -/
  inflight : String × String → Option Int
  claims : List Claim
  decisions : Nat

/-- The part of the request and the policy that the loop only reads. -/
structure GateArgs where
  now : Int
  leaseMs : Int
  req : AdmitRequest
  /-- The requested queues that are not paused. -/
  queues : List String
  weight : String → Int
  limit : String → Option ConcurrencyLimit

/-- Dispatched less for its weight, or equally and first by name. -/
def servedBefore (a : GateArgs) (g : Gate) (q r : String) : Bool :=
  g.dispatch q * a.weight r < g.dispatch r * a.weight q ||
    (g.dispatch q * a.weight r = g.dispatch r * a.weight q && q < r)

/-- The queue to serve next, among those with candidates left. -/
def chooseQueue (a : GateArgs) (g : Gate) : Option String :=
  a.queues.foldl (fun best q =>
    if (g.waiting q).isEmpty then best
    else match best with
      | none => some q
      | some b => if servedBefore a g q b then some q else some b) none

/-- The rate gate: an unconfigured class lets everything through. -/
def passRate (g : Gate) (j : Job) : Bool :=
  match g.buckets.get j.rateClass with
  | none => true
  | some b => !(b.paused || b.tokens < j.weight)

def runningIn (jobs : Table String Job) (queue part : String) : Nat :=
  jobs.count fun _ j => j.queue = queue && j.partitionKey = part && j.state = .running

def claimedAt (j : Job) : Int := (j.lease.map Lease.claimedAtMs).getD 0

/-- The running job of a partition that was claimed first. -/
def oldestRunning (jobs : Table String Job) (queue part : String) : Option String :=
  ((orderBy (fun e : String × Job => toLex (claimedAt e.2, e.1))
    (jobs.select fun _ j => j.queue = queue && j.partitionKey = part && j.state = .running)).map
      Prod.fst).head?

/-- The row of a running job cancelled to make room. -/
def displacedRow (now : Int) (j : Job) : Job :=
  { j with state := .cancelled, finalizedAtMs := some now, lease := none, fence := j.fence + 1
           rateCharge := 0 }

def countDecision (queue : String) (g : Gate) : Gate :=
  { g with
    dispatch := Function.update g.dispatch queue (g.dispatch queue + 1)
    decisions := g.decisions + 1 }

/-- A candidate that is not admitted ends in the given state. -/
def terminalize (now : Int) (queue id : String) (to_ : State) (g : Gate) : Gate :=
  countDecision queue { g with
    jobs := g.jobs.updateAt id (fun j => j.state = .available)
      fun j => { j with state := to_, finalizedAtMs := some now } }

/-- The ceiling; the flag lets the candidate go on to its claim. -/
def passCeiling (a : GateArgs) (queue id : String) (j : Job) (g : Gate) : Gate × Bool :=
  match a.limit queue with
  | none => (g, true)
  | some l =>
    let part := (queue, j.partitionKey)
    let current := (g.inflight part).getD (runningIn g.jobs queue j.partitionKey)
    let g := { g with inflight := Function.update g.inflight part (some current) }
    if current < l.maxConcurrent then (g, true)
    else match l.onSaturated with
      | .queue => (g, false)
      | .discard => (terminalize a.now queue id .archived g, false)
      | .cancelIncoming => (terminalize a.now queue id .cancelled g, false)
      | .cancelRunning =>
        match oldestRunning g.jobs queue j.partitionKey with
        | none => (g, false)
        | some victim =>
          ({ g with
              jobs := g.jobs.updateAt victim (fun j => j.state = .running) (displacedRow a.now)
              inflight := Function.update g.inflight part (some (current - 1)) }, true)

/-- The envelope `scan_job` reads from a row. -/
def Job.envelope (id : String) (j : Job) : Envelope where
  id := id
  kind := j.kind
  schemaVersion := j.schemaVersion.toNat
  payload := j.payload
  queue := j.queue
  partitionKey := j.partitionKey
  rateClass := j.rateClass
  weight := j.weight.toNat
  fingerprint := j.fingerprint
  priority := j.priority
  attempt := j.attempt
  crashAttempt := j.crashAttempt
  maxAttempts := j.maxAttempts.toNat
  scheduledAtMs := j.scheduledAtMs
  timeoutMs := j.timeoutMs
  deadlineMs := j.deadlineMs
  retentionMs := j.retentionMs
  headers := j.headers
  tags := j.tags
  periodicScheduleId := j.periodicScheduleId
  periodicTickMs := j.periodicTickMs
  stickyWorker := j.stickyWorker

/-- The row a claim writes. -/
def claimedRow (a : GateArgs) (charge : Int) (j : Job) : Job :=
  { j with
    state := .running
    lease := some ⟨a.req.leaseId, a.now + a.leaseMs, a.now, a.req.worker⟩
    fence := j.fence + 1, rateCharge := charge }

def spendTokens (cls : String) (weight : Int) (t : Table String Bucket) : Table String Bucket :=
  t.updateAt cls (fun _ => true) fun b => { b with tokens := b.tokens - weight }

/-- The claim, if the job is still available. -/
def claimJob (a : GateArgs) (queue id : String) (j : Job) (g : Gate) : Gate :=
  if (g.jobs.get id).any fun row => row.state = .available then
    let charge : Int := if (g.buckets.get j.rateClass).isSome then j.weight else 0
    let part := (queue, j.partitionKey)
    countDecision queue { g with
      jobs := g.jobs.updateAt id (fun row => row.state = .available) (claimedRow a charge)
      buckets := spendTokens j.rateClass j.weight g.buckets
      inflight :=
        if (a.limit queue).isSome then
          Function.update g.inflight part (some ((g.inflight part).getD 0 + 1))
        else g.inflight
      claims := g.claims ++ [{
        envelope := j.envelope id, leaseId := a.req.leaseId, fence := j.fence + 1
        expiresAtMs := a.now + a.leaseMs, checkpoint := j.checkpoint.getD {} }] }
  else g

/-- One round: the first candidate of the chosen queue is decided. -/
def considerJob (a : GateArgs) (queue id : String) (j : Job) (g : Gate) : Gate :=
  if passRate g j then
    match passCeiling a queue id j g with
    | (g, true) => claimJob a queue id j g
    | (g, false) => g
  else g

/-- The loop; every round takes one candidate out of its list. -/
def gateLoop (a : GateArgs) : Nat → Gate → Gate
  | 0, g => g
  | fuel + 1, g =>
    if g.decisions < a.req.capacity then
      match chooseQueue a g with
      | none => g
      | some queue =>
        match g.waiting queue with
        | [] => g
        | (id, j) :: rest =>
          gateLoop a fuel (considerJob a queue id j
            { g with waiting := Function.update g.waiting queue rest })
    else g

/-! ## Section 3: The call -/

/-- The limit of a queue. -/
def limitOf (db : Store) (queue : String) : Option ConcurrencyLimit :=
  ((db.limits.select fun _ l => l.queue = queue).map Prod.snd).head?

def queueStateOf (t : Table String QueueState) (queue : String) : QueueState :=
  (t.get queue).getD {}

def gateArgs (now : Int) (req : AdmitRequest) (queues : List String) (db : Store) : GateArgs where
  now := now
  leaseMs := req.leaseMs
  req := req
  queues := queues
  weight := fun q => (queueStateOf db.queueStates q).weight
  limit := limitOf db

def startGate (now : Int) (req : AdmitRequest) (requested queues : List String) (db : Store) :
    Gate where
  jobs := db.jobs
  buckets := db.buckets.update (fun _ _ => true) fun _ => refillBucket now
  dispatch := fun q => (queueStateOf db.queueStates q).dispatchCount
  -- the draw is over the requested queues; only open ones are kept
  waiting := fun q =>
    if queues.contains q then
      (drawCandidates req requested db).filter fun e => e.2.queue = q
    else []
  inflight := fun _ => none
  claims := []
  decisions := 0

/-- The local maps are written back. -/
def writeBack (queues : List String) (db : Store) (g : Gate) : Store :=
  { db with
    jobs := g.jobs
    buckets := g.buckets
    queueStates := db.queueStates.update (fun q _ => queues.contains q)
      fun q st => { st with dispatchCount := g.dispatch q } }

/-- The body of the transaction, for a request with queues and capacity. -/
def admitOn (now : Int) (req : AdmitRequest) (requested : List String) (db : Store) :
    Store × List Claim :=
  let db := { db with
    jobs := expireDeadlines now db.jobs
    queueStates := ensureQueues requested db.queueStates }
  let queues := requested.filter fun q => !(queueStateOf db.queueStates q).paused
  if queues.isEmpty then (db, [])
  else
    let g := startGate now req requested queues db
    let fuel := (queues.map fun q => (g.waiting q).length).sum
    let g := gateLoop (gateArgs now req queues db) fuel g
    (writeBack queues db g, g.claims)

/-- `SqliteStore::admit`. -/
def admitCall (now : Int) (req : AdmitRequest) (db : Store) :
    Store × Except StoreError (List Claim) :=
  let requested := normalizeQueues req.queues
  if req.leaseMs < 1 then (db, .error (.invalid "lease must be >= 1ms"))
  else if requested.isEmpty ∨ req.capacity = 0 then (db, .ok [])
  else
    let r := admitOn now req requested db
    (r.1, .ok r.2)

end Headgate.Sqlite
