import Headgate.Redis.Ops
import Headgate.Core.Validate

/-!
# `enqueue.lua` and `RedisStore::enqueue`

Four passes over the batch: the id pass (replays are skipped, conflicts reject
the batch), the validate pass (quarantine, unique keys, replacement of a
holder), the depth check, and the write pass.  The script is one atomic step;
`now` is the clock it reads.  A command that Redis refuses raises an error out of
the script, and what was written before it stays.
-/

namespace Headgate.Redis

open Headgate.Core Data

/-- The replies of the script. -/
inductive EnqueueReply where
  | ok (written : Nat)
  | dup (existing : String)
  | dupr (existing : String)
  | quar (fingerprint : String)
  | idc (id : String)
  | back (queue : String) (limit current incoming : Int)
  | err (message : String)
  /-- A command was refused. -/
  | raised (message : String)
  deriving DecidableEq, Repr

/-- The arguments `RedisStore::enqueue` sends for one envelope. -/
def prepare (e : Envelope) : Envelope :=
  { scopeKey e with
    schemaVersion := effectiveSchemaVersion e.schemaVersion
    queue := enqueueQueue e
    maxAttempts := effectiveMaxAttempts e.maxAttempts
    weight := effectiveWeight e.weight
    tags := canonicalTags e.tags }

/-- The unique-key argument; empty means none. -/
def keyArg (e : Envelope) : Bytes := e.uniqueKey.getD []

/-! ## Section 1: The id pass -/

/-- The envelopes that are not replays, or the id of a conflict. -/
def idPass (s : Store) : List Envelope → Except EnqueueReply (List Envelope)
  | [] => .ok []
  | e :: rest =>
    if e.id = "" then .error (.err "envelope id must not be empty")
    else match s.job? e.id with
      | none => (idPass s rest).map (e :: ·)
      | some j =>
        if j.kind = e.kind ∧ j.fingerprint = e.fingerprint ∧ j.queue = e.queue then idPass s rest
        else .error (.idc e.id)

/-! ## Section 2: Replacing fields of a holder -/

def State.isMutable : State → Bool
  | .pending | .scheduled | .available | .retryable => true
  | _ => false

/-- Trailing-edge debounce: the holder takes the new content and waits again. -/
def debounceHolder (now : Int) (e : Envelope) (holder : String) (old : State) (s : Store) : Store :=
  match s.job? holder with
  | none => s
  | some j =>
    let due := now + e.uniqueDebounceMs
    let s := s.setJob holder { j with
      schemaVersion := e.schemaVersion, payload := e.payload, fingerprint := e.fingerprint,
      tags := e.tags, state := .scheduled, scheduledAtMs := due }
    { s with
      index := (((((s.index.remTags j.tags holder).addTags e.tags holder).remIdx
        j.queue old holder).remFpi j.fingerprint holder).addFpi e.fingerprint holder).addSched
          due holder |>.addIdx j.queue .scheduled due holder
      waiting := s.waiting.add holder j.queue j.partitionKey j.stickyWorker due }

def replacePayload (e : Envelope) (holder : String) (s : Store) : Store :=
  match s.job? holder with
  | none => s
  | some j =>
    let s := s.setJob holder { j with
      schemaVersion := e.schemaVersion, payload := e.payload, fingerprint := e.fingerprint }
    { s with index := (s.index.remFpi j.fingerprint holder).addFpi e.fingerprint holder }

def replaceScheduledAt (now : Int) (e : Envelope) (holder : String) (s : Store) : Store :=
  match s.job? holder with
  | none => s
  | some j =>
    let sched := if e.scheduledAtMs = 0 then now else e.scheduledAtMs
    let s := s.setJob holder { j with scheduledAtMs := sched }
    { s with
      waiting := s.waiting.add holder j.queue j.partitionKey j.stickyWorker sched
      index := (s.index.addSched sched holder).addIdx j.queue .scheduled sched holder }

def replacePriority (e : Envelope) (holder : String) (s : Store) : Store :=
  match s.job? holder with
  | none => s
  | some j => s.setJob holder { j with priority := e.priority }

def replaceMaxAttempts (e : Envelope) (holder : String) (s : Store) : Store :=
  match s.job? holder with
  | none => s
  | some j => s.setJob holder { j with maxAttempts := e.maxAttempts }

/-- Apply one replacement and set the `changed` flag. -/
def applyWhen (b : Bool) (f : Store → Store) (p : Store × Bool) : Store × Bool :=
  if b then (f p.1, true) else p

/-- The replacement block: the requested fields of a mutable holder. -/
def replaceHolder (now : Int) (e : Envelope) (holder : String) (s : Store) : Store × Bool :=
  match s.job? holder with
  | none => (s, false)
  | some j =>
    if State.isMutable j.state then
      -- the state tested below is the one read before the first write
      applyWhen (e.uniqueReplace / 8 % 2 ≥ 1) (replaceMaxAttempts e holder)
        (applyWhen (e.uniqueReplace / 4 % 2 ≥ 1) (replacePriority e holder)
          (applyWhen (e.uniqueReplace / 2 % 2 ≥ 1 && j.state = .scheduled)
            (replaceScheduledAt now e holder)
            (applyWhen (e.uniqueReplace % 2 ≥ 1) (replacePayload e holder)
              (applyWhen (e.uniqueDebounceMs > 0) (debounceHolder now e holder j.state)
                (s, false)))))
    else (s, false)

/-! ## Section 3: The validate pass -/

/-- The holder of an envelope's key, by its uniqueness mode. -/
def holderOf (s : Store) (now : Int) (e : Envelope) : Option String :=
  if e.uniqueWindowMs > 0 then s.holders.throttledBy (keyArg e) now
  else s.holders.unique (keyArg e)

/-- The verdict on an envelope whose key is held. -/
def onHolder (now : Int) (e : Envelope) (holder : String) (s : Store) : Store × EnqueueReply :=
  if e.uniqueReplace > 0 ∨ e.uniqueDebounceMs > 0 then
    let r := replaceHolder now e holder s
    (r.1, if r.2 then .dupr holder else .dup holder)
  else (s, .dup holder)

/-- The validate pass over the envelopes that are not replays; `seen` maps the keys
of this batch to their ids.  `none` lets the batch through. -/
def validatePass (now : Int) (s : Store) :
    List Envelope → List (Bytes × String) → Store × Option EnqueueReply
  | [], _ => (s, none)
  | e :: rest, seen =>
    if e.fingerprint ≠ "" ∧ e.fingerprint ∈ s.policy.quarantine then
      (s, some (.quar e.fingerprint))
    else if keyArg e ≠ [] then
      match seen.lookup (keyArg e) with
      | some id => (s, some (.dup id))
      | none =>
        match holderOf s now e with
        | some holder =>
          let r := onHolder now e holder s
          (r.1, some r.2)
        | none => validatePass now s rest ((keyArg e, e.id) :: seen)
    else validatePass now s rest seen

/-! ## Section 4: The depth check -/

def demand (fresh : List Envelope) (queue : String) : Int :=
  (fresh.filter fun e => e.queue = queue).length

def demandQueues (fresh : List Envelope) : List String :=
  ((fresh.map Envelope.queue).dedup).insertionSort (· ≤ ·)

/-- The first queue whose limit the batch would exceed. -/
def depthPass (s : Store) (fresh : List Envelope) : List String → Option EnqueueReply
  | [] => none
  | queue :: rest =>
    let h := s.policy.enqueue queue
    match h.limit with
    | none => depthPass s fresh rest
    | some limit =>
      let current := max 0 (h.entered - h.exited)
      let incoming := demand fresh queue
      if current + incoming > limit then some (.back queue limit current incoming)
      else depthPass s fresh rest

/-! ## Section 5: The write pass -/

/-- When the new job becomes due. -/
def dueAt (now : Int) (e : Envelope) : Int :=
  if e.uniqueDebounceMs > 0 then now + e.uniqueDebounceMs
  else if e.scheduledAtMs = 0 then now else e.scheduledAtMs

def initialState (now : Int) (e : Envelope) : State :=
  if e.pending then .pending else if dueAt now e > now then .scheduled else .available

/-- The hash written for a new job. -/
def newJob (now : Int) (e : Envelope) : Job where
  kind := e.kind
  schemaVersion := e.schemaVersion
  payload := e.payload
  queue := e.queue
  partitionKey := e.partitionKey
  rateClass := e.rateClass
  weight := max 1 e.weight
  rateCharge := 0
  fingerprint := e.fingerprint
  priority := e.priority
  attempt := 0
  crashAttempt := 0
  maxAttempts := e.maxAttempts
  enqueuedAtMs := now
  scheduledAtMs := dueAt now e
  timeoutMs := e.timeoutMs
  deadlineMs := e.deadlineMs
  retentionMs := e.retentionMs
  uniqueKey := keyArg e
  uniqueWindowMs := e.uniqueWindowMs
  uniqueStates := e.uniqueStates
  periodicScheduleId := e.periodicScheduleId
  periodicTickMs := e.periodicTickMs
  tags := e.tags
  stickyWorker := e.stickyWorker
  headers := e.headers
  state := initialState now e
  fence := 0
  errors := []
  lease := none
  finalizedAtMs := none
  checkpoint := none
  output := none
  progress := none
  result := none

/-- The longest window that `SET ... PX` takes.  A Lua number reaches Redis as an integer up to
`2 ^ 62`, to which the numbers just above are rounded, and in exponent form beyond. -/
def maxExpiryMs : Int := 2 ^ 62 + 512

/-- The entry of the envelope is refused. -/
def Envelope.raises (e : Envelope) : Bool := keyArg e ≠ [] && maxExpiryMs < e.uniqueWindowMs

/-- The unique-key entry a new job writes. -/
def claimKey (now : Int) (e : Envelope) (u : Holders) : Holders :=
  if keyArg e ≠ [] then
    if e.uniqueWindowMs > 0 then
      if Envelope.raises e then u else u.throttle (keyArg e) e.id (now + e.uniqueWindowMs)
    else u.acquire (keyArg e) e.id
  else u

/-- One round of the write pass. -/
def writeJob (now : Int) (s : Store) (e : Envelope) : Store :=
  let st := initialState now e
  let due := dueAt now e
  let s := s.setJob e.id (newJob now e)
  { s with
    waiting := if st ≠ .pending then
        s.waiting.add e.id e.queue e.partitionKey e.stickyWorker due
      else s.waiting
    holders := claimKey now e s.holders
    index :=
      ((((if st = .scheduled then s.index.addSched due e.id else s.index).addIdx e.queue st due
        e.id).addFpi e.fingerprint e.id).addTags e.tags e.id)
    policy := { s.policy.enterUnfinished e.queue with queues := insert e.queue s.policy.queues } }

/-- The envelopes that the write pass comes to: it ends with the first one that raises. -/
def reached (fresh : List Envelope) : List Envelope :=
  fresh.take (fresh.findIdx Envelope.raises + 1)

/-! ## Section 6: The script and its caller -/

/-- `enqueue.lua`. -/
def enqueueScript (now : Int) (batch : List Envelope) (s : Store) : Store × EnqueueReply :=
  match idPass s batch with
  | .error reply => (s, reply)
  | .ok fresh =>
    match validatePass now s fresh [] with
    | (s', some reply) => (s', reply)
    | (s', none) =>
      match depthPass s' fresh (demandQueues fresh) with
      | some reply => (s', reply)
      | none =>
        ((reached fresh).foldl (writeJob now) s',
          if fresh.any Envelope.raises then .raised "value is not an integer or out of range"
          else .ok fresh.length)

/-- `parse_tagged`. -/
def parseTagged : EnqueueReply → Except StoreError Unit
  | .ok _ => .ok ()
  | .dup id => .error (.duplicate id false)
  | .dupr id => .error (.duplicate id true)
  | .idc id => .error (.idConflict id)
  | .quar fp => .error (.quarantined fp)
  | .back q limit current incoming => .error (.backpressure q limit current incoming)
  | .err m => .error (.invalid m)
  -- an error of the script does not come this far: `map_redis_err`
  | .raised m => .error (.backend m)

/-- `RedisStore::enqueue`. -/
def enqueue (now : Int) (batch : List Envelope) (s : Store) : Store × Except StoreError Unit :=
  if batch.isEmpty then (s, .ok ())
  else match validateEnqueue batch with
    | .error err => (s, .error err)
    | .ok () =>
      let r := enqueueScript now (batch.map prepare) s
      (r.1, parseTagged r.2)

end Headgate.Redis
