import Headgate.Redis.Ops

/-!
# `admit.lua`: the admission gate

The gate draws candidates per partition, then selects among queues by weighted
fairness, one candidate at a time, and claims, terminalizes or holds back each.
The loop state `Selection` carries the script's local tables; the accounting
that the script defers to its end (`runningp`, served counters, token spend,
deficits) stays deferred here.

Deficits, served counters, weights and token counts are Lua numbers.  They are taken
as exact, which doubles are as long as they stay below 2^53; only the product in the
refill of a bucket is rounded (`Bucket.gained`), and numbers that a script writes as
text go through `throughLua`.
-/

namespace Headgate.Redis

open Headgate.Core Data

/-! ## Section 1: Names on the wire -/

/-- The fields of a comma-separated text, empty ones dropped: `gmatch '([^,]+)'`.
`field` holds the characters of the current field, last first. -/
def csvChars : List Char → List Char → List (List Char)
  | [], field => if field.isEmpty then [] else [field.reverse]
  | c :: cs, field =>
    if c = ',' then
      if field.isEmpty then csvChars cs [] else field.reverse :: csvChars cs []
    else csvChars cs (c :: field)

def csvFields (s : String) : List String := (csvChars s.toList []).map String.ofList

/-- `queues.join(",")`. -/
def csvJoin (queues : List String) : String := ",".intercalate queues

/-- The key of the per-partition tables: `queue..'\0'..part`. -/
def tableKey (queue part : String) : String := queue ++ "\x00" ++ part

/-- `string.match(key, '([^%z]*)%z(.*)')`: split at the first NUL. -/
def splitTableKey (key : String) : String × String :=
  let cs := key.toList
  (String.ofList (cs.takeWhile (· ≠ '\x00')), String.ofList ((cs.dropWhile (· ≠ '\x00')).drop 1))

/-! ## Section 2: Drawing candidates -/

/-- A drawn job with the fields `HMGET` read. -/
structure Candidate where
  id : String
  job : Job
  deriving DecidableEq

/-- Priority descending, then due time, then id. -/
def Candidate.before (a b : Candidate) : Bool :=
  if a.job.priority ≠ b.job.priority then a.job.priority > b.job.priority
  else if a.job.scheduledAtMs ≠ b.job.scheduledAtMs then
    a.job.scheduledAtMs < b.job.scheduledAtMs
  else a.id < b.id

def sortCandidates (cs : List Candidate) : List Candidate :=
  cs.insertionSort fun a b => b.before a = false

def deficit (quantum : Int) (queue part : String) (s : Store) : Int :=
  s.policy.deficit queue part + quantum

/-- The job as a candidate for this worker, if it is waiting and not pinned elsewhere. -/
def candidate? (worker id : String) (s : Store) : Option Candidate :=
  match s.job? id with
  | none => none
  | some j =>
    if j.state.isWaiting && (j.stickyWorker = "" || j.stickyWorker = worker) then some ⟨id, j⟩
    else none

/-- The draw of one partition. -/
structure Draw where
  store : Store
  cands : List Candidate
  /-- Table keys of the partitions that had candidates. -/
  seen : List String

/-- The ids one partition offers: the ordinary stream, then the caller's own. -/
def drawIds (now : Int) (req : AdmitRequest) (queue part : String) (s : Store) : List String :=
  let draw := deficit req.quantum queue part s
  let pinned :=
    if req.worker ≠ "" then
      (s.waiting.pending (pendingKey queue part req.worker)).rangeByScore now draw
    else []
  (s.waiting.pending (pendingKey queue part "")).rangeByScore now draw ++ pinned

/-- An ordinary stream with due jobs gets its route token back. -/
def healRoutes (now : Int) (req : AdmitRequest) (queue part : String) (s : Store) : Store :=
  let draw := deficit req.quantum queue part s
  if (s.waiting.pending (pendingKey queue part "")).rangeByScore now draw ≠ [] then
    { s with
      waiting := s.waiting.setRoutes (partKey queue part)
        (insert "*" (s.waiting.routes (partKey queue part))) }
  else s

def drawPart (now : Int) (req : AdmitRequest) (queue : String) (d : Draw) (part : String) : Draw :=
  let got := drawIds now req queue part d.store
  let cands := sortCandidates (got.filterMap fun id => candidate? req.worker id d.store)
  { store := healRoutes now req queue part d.store
    cands := d.cands ++ cands.take (deficit req.quantum queue part d.store).toNat
    seen := if got ≠ [] then d.seen ++ [tableKey queue part] else d.seen }

/-- The partitions of a queue, sorted. -/
def sortedParts (order : SetOrder String) (queue : String) (s : Store) : List String :=
  (order.list (s.waiting.parts queue)).insertionSort (· ≤ ·)

def drawQueue (now : Int) (req : AdmitRequest) (order : SetOrder String) (queue : String)
    (s : Store) : Draw :=
  if queue ∈ s.policy.paused then ⟨s, [], []⟩
  else
    let d := (sortedParts order queue s).foldl (drawPart now req queue) ⟨s, [], []⟩
    { d with cands := sortCandidates d.cands }

/-! ## Section 3: The selection loop's tables -/

/-- The script's local tables.  `cands queue` holds the candidates from the cursor on. -/
structure Selection where
  store : Store
  cands : String → List Candidate
  served : String → Int
  servedDelta : String → Int
  takenClass : String → Int
  configured : String → Bool
  takenPart : String → Int
  selectedIncoming : String → Int
  claimed : List String
  runningAdd : List (String × String × String)
  decided : Nat

/-- Draw every requested queue in turn. -/
def drawAll (now : Int) (req : AdmitRequest) (order : SetOrder String) :
    List String → Store → (String → List Candidate) → List String →
      Store × (String → List Candidate) × List String
  | [], s, cands, seen => (s, cands, seen)
  | q :: rest, s, cands, seen =>
    let d := drawQueue now req order q s
    drawAll now req order rest d.store (Function.update cands q d.cands) (seen ++ d.seen)

/-- The weight of a queue, at least one. -/
def qweight (s : Store) (queue : String) : Int := max 1 ((s.policy.qweights queue).getD 1)

/-- Does `q` come before `chosen` in served-per-weight order, ties by name? -/
def servedBefore (served weight : String → Int) (q chosen : String) : Bool :=
  served q * weight chosen < served chosen * weight q ||
    (served q * weight chosen = served chosen * weight q && q < chosen)

/-- The queue the next decision goes to. -/
def chooseQueue (weight : String → Int) (queues : List String) (l : Selection) : Option String :=
  queues.foldl
    (fun chosen q =>
      if l.cands q = [] then chosen
      else match chosen with
        | none => some q
        | some c => if servedBefore l.served weight q c then some q else some c)
    none

/-! ## Section 4: The gates of one candidate -/

def cost (j : Job) : Int := if (j.weight : Int) < 1 then 1 else j.weight

/-- Refill a bucket lazily. -/
def refill (now : Int) (b : Bucket) : Bucket :=
  let gained := b.gained (now - b.refilled)
  if gained > 0 then { b with tokens := min b.burst (b.tokens + gained), refilled := now } else b

/-- The tokens available now; `none` for an unconfigured class (unlimited). -/
def bucketAvail (now : Int) (name : String) (p : Policy) : Policy × Option Int :=
  match p.rate name with
  | none => (p, none)
  | some b => (p.setRate name (refill now b), some (refill now b).tokens)

def passQuarantine (c : Candidate) (s : Store) : Bool :=
  s.policy.quarantine = ∅ || c.job.fingerprint ∉ s.policy.quarantine

/-- The rate clause, with the refill and the `configured` mark it leaves behind. -/
def passRate (now : Int) (c : Candidate) (l : Selection) : Selection × Bool :=
  let rc := c.job.rateClass
  if rc = "" then (l, true)
  else
    let r := bucketAvail now rc l.store.policy
    match r.2 with
    | none => (l, true)
    | some avail =>
      ({ l with
          store := { l.store with policy := r.1 }
          configured := Function.update l.configured rc true },
        l.takenClass rc + cost c.job ≤ avail)

def passDeficit (req : AdmitRequest) (queue : String) (c : Candidate) (l : Selection) : Bool :=
  let part := c.job.partitionKey
  l.takenPart (tableKey queue part) + 1 ≤ deficit req.quantum queue part l.store

/-- The queue's ceiling; one below 1 counts as none. -/
def concurrencyPolicy (s : Store) (queue : String) : Option ConcurrencyLimit :=
  (s.policy.climitq queue).filter fun cfg => 1 ≤ cfg.maxConcurrent

/-- The row of a displaced job: the fence moves on, so its holder is stale at once. -/
def displacedRow (now : Int) (j : Job) : Job :=
  { j with
    fence := j.fence + 1
    state := .cancelled
    finalizedAtMs := some now
    rateCharge := 0
    lease := none }

/-- Cancel a running job to make room for an incoming one. -/
def displace (now : Int) (id : String) (j : Job) (s : Store) : Store :=
  let s := s.setJob id (displacedRow now j)
  let s := { s with
    running := s.running.drop id j.queue j.partitionKey
    index := ((s.index.moveIdx j.queue .running .cancelled now id).remFpi j.fingerprint id).retain
      now j.retentionMs id
    holders := s.holders.release id j
    policy := s.policy.leaveUnfinished j.queue }
  s.record (.displaced id)

/-- `cancel_oldest_running`: stale entries of the zset are dropped on the way. -/
def cancelOldestRunning (now : Int) (queue part : String) : Nat → Store → Store × Bool
  | 0, s => (s, false)
  | n + 1, s =>
    match (s.running.runningp (partKey queue part)).first with
    | none => (s, false)
    | some id =>
      let purged := { s with running := s.running.purgeRunningp (partKey queue part) id }
      match s.job? id with
      | none => cancelOldestRunning now queue part n purged
      | some j =>
        if j.state = .running ∧ j.queue = queue ∧ j.partitionKey = part then
          (displace now id j s, true)
        else cancelOldestRunning now queue part n purged

/-- What the gate does with a candidate that passed its clauses. -/
inductive Action where
  | claim
  | discard
  | cancelIncoming
  deriving DecidableEq, Repr

/-- The concurrency clause; `none` holds the candidate back. -/
def passCeiling (now : Int) (queue : String) (c : Candidate) (l : Selection) :
    Selection × Option Action :=
  let part := c.job.partitionKey
  match concurrencyPolicy l.store queue with
  | none => (l, some .claim)
  | some cfg =>
    let current := l.store.running.inflight queue part
    match cfg.onSaturated with
    | .cancelRunning =>
      if l.selectedIncoming (tableKey queue part) ≥ cfg.maxConcurrent then (l, none)
      else if current ≥ cfg.maxConcurrent then
        let fuel := (l.store.running.runningp (partKey queue part)).card
        let r := cancelOldestRunning now queue part fuel l.store
        ({ l with store := r.1 }, if r.2 then some .claim else none)
      else (l, some .claim)
    | .discard => (l, some (if current ≥ cfg.maxConcurrent then .discard else .claim))
    | .cancelIncoming => (l, some (if current ≥ cfg.maxConcurrent then .cancelIncoming else .claim))
    | .queue => (l, if current ≥ cfg.maxConcurrent then none else some .claim)

/-! ## Section 5: Decisions -/

def removeWaiting (id queue part sticky : String) (s : Store) : Store :=
  { s with waiting := s.waiting.remove id queue part sticky }

/-- `drop_waiting`: leave the gate's keys and the due-time index. -/
def dropWaiting (id : String) (j : Job) (s : Store) : Store :=
  { s with
    waiting := s.waiting.remove id j.queue j.partitionKey j.stickyWorker
    index := s.index.remSched id }

/-- The row of a terminalized candidate: no lease, no attempt, still visible. -/
def terminalizedRow (now : Int) (to_ : State) (j : Job) : Job :=
  { j with state := to_, finalizedAtMs := some now, rateCharge := 0, lease := none }

/-- Terminalize a saturated candidate; `drop_waiting` comes after `remove_waiting`. -/
def terminalizeIncoming (now : Int) (c : Candidate) (to_ : State) (s : Store) : Store :=
  let j := c.job
  { s with
    jobs := match s.job? c.id with
      | none => s.jobs
      | some cur => s.jobs.insert c.id (terminalizedRow now to_ cur)
    waiting := s.waiting.remove c.id j.queue j.partitionKey j.stickyWorker
    index := (((s.index.remSched c.id).moveIdx j.queue j.state to_ now c.id).remFpi
      j.fingerprint c.id).retain now j.retentionMs c.id
    holders := s.holders.release c.id j
    policy := s.policy.leaveUnfinished j.queue }

/-- Was the candidate's class charged? -/
def isCharged (c : Candidate) (l : Selection) : Bool :=
  c.job.rateClass ≠ "" && l.configured c.job.rateClass

/-- The row of a claimed job: one more fence and a fresh lease. -/
def claimedRow (now : Int) (req : AdmitRequest) (charge : Int) (j : Job) : Job :=
  { j with
    fence := j.fence + 1
    state := .running
    lease := some ⟨req.leaseId, now + req.leaseMs, now, req.worker⟩
    rateCharge := charge }

/-- The events of a claim: the charge, if any, and the claim itself. -/
def claimEvents (now : Int) (req : AdmitRequest) (c : Candidate) (charged : Bool) (fence : Nat) :
    List Event :=
  (if charged then [.charged c.job.rateClass (cost c.job) now] else []) ++
    [.claimed c.id req.leaseId fence]

/-- Write the lease and the running accounts. -/
def claimJob (now : Int) (req : AdmitRequest) (queue : String) (c : Candidate) (charged : Bool)
    (s : Store) : Store :=
  match s.job? c.id with
  | none => s
  | some cur =>
    { s with
      jobs := s.jobs.insert c.id (claimedRow now req (if charged then cost c.job else 0) cur)
      running := s.running.claim c.id queue c.job.partitionKey (now + req.leaseMs)
      index := s.index.moveIdx queue c.job.state .running now c.id
      history := claimEvents now req c charged (cur.fence + 1) ++ s.history }

/-- The tables after a decision on a candidate of `queue`. -/
def countDecision (queue : String) (c : Candidate) (l : Selection) : Selection :=
  let key := tableKey queue c.job.partitionKey
  { l with
    decided := l.decided + 1
    served := Function.update l.served queue (l.served queue + 1)
    servedDelta := Function.update l.servedDelta queue (l.servedDelta queue + 1)
    takenPart := Function.update l.takenPart key (l.takenPart key + 1)
    selectedIncoming :=
      if (concurrencyPolicy l.store queue).map (·.onSaturated) = some .cancelRunning then
        Function.update l.selectedIncoming key (l.selectedIncoming key + 1)
      else l.selectedIncoming }

/-- The tables after a claim. -/
def countClaim (queue : String) (c : Candidate) (l : Selection) : Selection :=
  { l with
    claimed := l.claimed ++ [c.id]
    runningAdd := l.runningAdd ++ [(queue, c.job.partitionKey, c.id)]
    takenClass :=
      if c.job.rateClass ≠ "" then
        Function.update l.takenClass c.job.rateClass (l.takenClass c.job.rateClass + cost c.job)
      else l.takenClass }

/-- Carry out the action on a candidate that is still in its stream. -/
def applyAction (now : Int) (req : AdmitRequest) (queue : String) (c : Candidate) (l : Selection) :
    Action → Selection
  | .claim =>
    countClaim queue c { l with store := claimJob now req queue c (isCharged c l) l.store }
  | .discard => { l with store := terminalizeIncoming now c .archived l.store }
  | .cancelIncoming => { l with store := terminalizeIncoming now c .cancelled l.store }

/-- The last block of the loop body: only a candidate that `ZREM` still found in the
stream of the chosen queue is decided. -/
def decideCandidate (now : Int) (req : AdmitRequest) (queue : String) (c : Candidate)
    (a : Action) (l : Selection) : Selection :=
  let part := c.job.partitionKey
  let sticky := c.job.stickyWorker
  let l' := { l with store := removeWaiting c.id queue part sticky l.store }
  if l.store.waiting.holds c.id queue part sticky then
    countDecision queue c (applyAction now req queue c l' a)
  else l'

/-- The body of the selection loop for a drawn candidate of the chosen queue. -/
def considerCandidate (now : Int) (req : AdmitRequest) (queue : String) (c : Candidate)
    (l : Selection) : Selection :=
  if passQuarantine c l.store then
    match passRate now c l with
    | (l, false) => l
    | (l, true) =>
      if passDeficit req queue c l then
        match passCeiling now queue c l with
        | (l, none) => l
        | (l, some a) => decideCandidate now req queue c a l
      else l
  else l

/-- The selection loop.  Every round consumes a candidate, so the number of candidates
is fuel enough. -/
def selectLoop (now : Int) (req : AdmitRequest) (weight : String → Int) (queues : List String) :
    Nat → Selection → Selection
  | 0, l => l
  | n + 1, l =>
    if l.decided < req.capacity then
      match chooseQueue weight queues l with
      | none => l
      | some q =>
        match l.cands q with
        | [] => l
        | c :: rest =>
          selectLoop now req weight queues n
            (considerCandidate now req q c { l with cands := Function.update l.cands q rest })
    else l

/-! ## Section 6: Deferred accounting -/

/-- Fresh claims become eligible victims only now. -/
def addRunning (now : Int) (adds : List (String × String × String)) (r : Running) : Running :=
  adds.foldl (fun r a => r.addRunningp a.2.2 a.1 a.2.1 now) r

/-- Spend what the call consumed of each configured class. -/
def spend (l : Selection) (p : Policy) : Policy :=
  { p with
    rate := fun rc => (p.rate rc).map fun b =>
      if l.takenClass rc > 0 ∧ l.configured rc = true then
        { b with tokens := b.tokens - l.takenClass rc }
      else b }

/-- Credit a partition that had candidates, less what it used. -/
def chargeDeficit (quantum : Int) (takenPart : String → Int) (p : Policy) (key : String) : Policy :=
  let (queue, part) := splitTableKey key
  let nd := max 0 (min (quantum * 4) (p.deficit queue part + quantum - takenPart key))
  { p with
    deficit := Function.update p.deficit queue (Function.update (p.deficit queue) part nd) }

/-- Everything after the loop. -/
def settle (now : Int) (req : AdmitRequest) (seen : List String) (l : Selection) : Store :=
  let p := { l.store.policy with qserved := fun q => l.store.policy.qserved q + l.servedDelta q }
  { l.store with
    running := addRunning now l.runningAdd l.store.running
    policy := seen.dedup.foldl (chargeDeficit req.quantum l.takenPart) (spend l p) }

/-! ## Section 7: The script and its caller -/

/-- The queues the script works on: split, sorted, without repetition. -/
def scriptQueues (csv : String) : List String :=
  ((csvFields csv).insertionSort (· ≤ ·)).dedup

/-- The tables at the start of the selection loop. -/
def startSelection (s : Store) (cands : String → List Candidate) : Selection where
  store := s
  cands := cands
  served := s.policy.qserved
  servedDelta := fun _ => 0
  takenClass := fun _ => 0
  configured := fun _ => false
  takenPart := fun _ => 0
  selectedIncoming := fun _ => 0
  claimed := []
  runningAdd := []
  decided := 0

/-- The selection of one call, before the deferred accounting. -/
def selection (now : Int) (req : AdmitRequest) (order : SetOrder String) (queues : List String)
    (s : Store) : Selection × List String :=
  let d := drawAll now req order queues s (fun _ => []) []
  let fuel := (queues.map fun q => (d.2.1 q).length).sum
  (selectLoop now req (qweight s) queues fuel (startSelection d.1 d.2.1), d.2.2)

/-- `admit.lua`: the new store and the ids it claimed. -/
def admitScript (now : Int) (req : AdmitRequest) (order : SetOrder String) (csv : String)
    (s : Store) : Store × List String :=
  let l := selection now req order (scriptQueues csv) s
  (settle now req l.2 l.1, l.1.claimed)

/-- The atomic part of `RedisStore::admit`: normalize the request, run the script. -/
def admitCall (now : Int) (req : AdmitRequest) (order : SetOrder String) (s : Store) :
    Store × Except StoreError (List String) :=
  if req.leaseMs < 1 then (s, .error (.invalid "lease must be >= 1ms"))
  else
    let r := admitScript now req order (csvJoin (normalizeQueues req.queues)) s
    (r.1, .ok r.2)

end Headgate.Redis
