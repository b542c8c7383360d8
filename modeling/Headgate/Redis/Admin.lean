import Headgate.Redis.Admit

/-!
# `admin.lua`: operator transitions, policy writes and bulk batches

The single-job operations and the bulk batches share `do_cancel`, `do_retry`
and `do_delete`, as in the script.
-/

namespace Headgate.Redis

open Headgate.Core Data

/-! ## Section 1: The three shared transitions -/

/-- Unfinished to cancelled; cancelling a running job clears its lease. -/
def doCancel (now : Int) (id : String) (j : Job) (s : Store) : Store :=
  let s :=
    if j.state = .running then { s with running := s.running.drop id j.queue j.partitionKey }
    else if j.state ≠ .pending then dropWaiting id j s
    else s
  let s := s.setJob id { j with
    state := .cancelled, finalizedAtMs := some now,
    -- the lease fields are deleted by `drop_lease` only
    lease := if j.state = .running then none else j.lease }
  let s := { s with
    index := ((s.index.moveIdx j.queue j.state .cancelled now id).remFpi j.fingerprint id).retain
      now j.retentionMs id
    policy := s.policy.leaveUnfinished j.queue
    holders := s.holders.release id j }
  s.record (.cancelled id)

/-- The holder of a job's lifecycle key, if it has one. -/
def keyHolder (j : Job) (s : Store) : Option String :=
  if j.hasLifecycleKey then s.holders.unique j.uniqueKey else none

/-- Back to available, unless another job holds the lifecycle key; then its id. -/
def doRetry (now : Int) (id : String) (j : Job) (s : Store) : Store × Option String :=
  if keyHolder j s ≠ none ∧ keyHolder j s ≠ some id then (s, keyHolder j s)
  else
    let s := s.setJob id { j with
      state := .available, scheduledAtMs := now, finalizedAtMs := none }
    ({ s with
        holders := if j.hasLifecycleKey then s.holders.acquire j.uniqueKey id else s.holders
        policy := s.policy.enterUnfinished j.queue
        waiting := s.waiting.add id j.queue j.partitionKey j.stickyWorker now
        index := ((s.index.moveIdx j.queue j.state .available now id).addFpi j.fingerprint id).remRet
          id }, none)

/-- Any state but running: gone. -/
def doDelete (id : String) (j : Job) (s : Store) : Store :=
  let s := if j.state.isWaiting then dropWaiting id j s else s
  let s := s.delJob id
  let s := { s with
    policy := if j.state = State.pending ∨ j.state.isWaiting = true then
        s.policy.leaveUnfinished j.queue
      else s.policy
    index := (((((s.index.remIdx j.queue j.state id).remFpi j.fingerprint id).remQjobs j.fingerprint
      id).remTags j.tags id).remRet id)
    holders := s.holders.release id j }
  s.record (.deleted id)

/-! ## Section 2: Operations on one job -/

/-- The replies of the job operations. -/
inductive AdminReply where
  | ok
  | released (n : Nat)
  | notFound
  | dup (holder : String)
  | err (state : State)
  deriving DecidableEq, Repr

/-- `cancel`. -/
def operatorCancel (now : Int) (id : String) (s : Store) : Store × AdminReply :=
  match s.job? id with
  | none => (s, .notFound)
  | some j => if j.state.isUnfinished then (doCancel now id j s, .ok) else (s, .err j.state)

/-- The states an operator may retry from. -/
def State.isRetriable : State → Bool
  | .archived | .cancelled | .undecodable => true
  | _ => false

/-- `retry`. -/
def operatorRetry (now : Int) (id : String) (s : Store) : Store × AdminReply :=
  match s.job? id with
  | none => (s, .notFound)
  | some j =>
    if State.isRetriable j.state then
      match doRetry now id j s with
      | (s', some holder) => (s', .dup holder)
      | (s', none) => (s', .ok)
    else (s, .err j.state)

/-- `delete`. -/
def deleteJob (id : String) (s : Store) : Store × AdminReply :=
  match s.job? id with
  | none => (s, .notFound)
  | some j => if j.state = .running then (s, .err j.state) else (doDelete id j s, .ok)

/-- Put a pending job on the gate's keys. -/
def activatePending (id : String) (j : Job) (to_ : State) (at_ : Int) (s : Store) : Store :=
  { s.setJob id { j with state := to_, scheduledAtMs := at_ } with
    index := s.index.moveIdx j.queue .pending to_ at_ id
    waiting := s.waiting.add id j.queue j.partitionKey j.stickyWorker at_ }

/-- `promote`. -/
def promoteJob (now : Int) (id : String) (s : Store) : Store × AdminReply :=
  match s.job? id with
  | none => (s, .notFound)
  | some j =>
    if j.state = .pending then (activatePending id j .available now s, .ok) else (s, .err j.state)

/-- `schedule_pending`. -/
def schedulePendingJob (id : String) (at_ : Int) (s : Store) : Store × AdminReply :=
  match s.job? id with
  | none => (s, .notFound)
  | some j =>
    if j.state = .pending ∧ 0 < at_ then
      let s := activatePending id j .scheduled at_ s
      ({ s with index := s.index.addSched at_ id }, .ok)
    else (s, .err j.state)

/-- `reschedule`: the due time of a scheduled or retryable job. -/
def rescheduleJob (id : String) (at_ : Int) (s : Store) : Store × AdminReply :=
  match s.job? id with
  | none => (s, .notFound)
  | some j =>
    if j.state = .scheduled ∨ j.state = .retryable then
      ({ s.setJob id { j with scheduledAtMs := at_ } with
          waiting := s.waiting.add id j.queue j.partitionKey j.stickyWorker at_
          index := (s.index.addSched at_ id).addIdx j.queue j.state at_ id }, .ok)
    else (s, .err j.state)

/-- `edit`: payload and fingerprint move together, and so does the fingerprint index. -/
def editPayload (id : String) (payload : Bytes) (schemaVersion : Nat) (fp : String) (s : Store) :
    Store × AdminReply :=
  match s.job? id with
  | none => (s, .notFound)
  | some j =>
    if j.state = .running then (s, .err j.state)
    else
      let moved :=
        let x := (s.index.remFpi j.fingerprint id).remQjobs j.fingerprint id
        if j.state = .quarantined then x.addQjobs fp id else x.addFpi fp id
      ({ s.setJob id { j with
            payload := payload, schemaVersion := schemaVersion, fingerprint := fp } with
          index := if j.fingerprint ≠ fp then moved else s.index }, .ok)

/-! ## Section 3: Quarantine -/

/-- One id of the release worklist. -/
def releaseOne (now : Int) (fp : String) (p : Store × Nat) (id : String) : Store × Nat :=
  let cut (s : Store) : Store := { s with index := s.index.cutQjobs fp id }
  match p.1.job? id with
  | none => (cut p.1, p.2)
  | some j =>
    if j.state = .quarantined then
      let s := p.1.setJob id { j with
        state := .available, scheduledAtMs := now, finalizedAtMs := none }
      (cut { s with
        waiting := s.waiting.add id j.queue j.partitionKey j.stickyWorker now
        index := (s.index.moveIdx j.queue .quarantined .available now id).putFpi fp id
        policy := s.policy.enterUnfinished j.queue }, p.2 + 1)
    else (cut p.1, p.2)

/-- `q_release`. -/
def quarantineRelease (now : Int) (order : SetOrder String) (fp : String) (s : Store) :
    Store × AdminReply :=
  let was := fp ∈ s.policy.quarantine
  let s' := { s with policy := { s.policy with quarantine := s.policy.quarantine.erase fp } }
  let r := (order.list (s.index.qjobs fp)).foldl (releaseOne now fp) (s', 0)
  (r.1, if ¬ was ∧ r.2 = 0 then .notFound else .released r.2)

/-- One member of `fpi:{fp}` for a quarantined fingerprint. -/
def sweepOne (now : Int) (limit : Int) (fp : String) (p : Store × Int) (id : String) :
    Store × Int :=
  if p.2 ≥ limit then p
  else match p.1.job? id with
    | none => p
    | some j =>
      if j.state.isWaiting then
        let s := dropWaiting id j p.1
        let s := s.setJob id { j with state := .quarantined, finalizedAtMs := some now }
        ({ s with
            index := ((s.index.moveIdx j.queue j.state .quarantined now id).cutFpi fp id).putQjobs fp id
            holders := s.holders.release id j
            policy := s.policy.leaveUnfinished j.queue }, p.2 + 1)
      else p

/-- `q_sweep`. -/
def quarantineSweep (now limit : Int) (order : SetOrder String) (s : Store) : Store :=
  ((order.list s.policy.quarantine).foldl
    (fun p fp =>
      if p.2 ≥ limit then p
      else (order.list (p.1.index.fpi fp)).foldl (sweepOne now limit fp) p)
    (s, 0)).1

/-! ## Section 4: Retention -/

/-- The states eviction deletes. -/
def State.isEvictable : State → Bool
  | .completed | .archived | .cancelled | .undecodable => true
  | _ => false

/-- One lapsed member of `ret`. -/
def evictOne (s : Store) (id : String) : Store :=
  let s := match s.job? id with
    | none => s
    | some j =>
      if State.isEvictable j.state then
        let s := s.delJob id
        { s.record (.deleted id) with
          index := (s.index.remIdx j.queue j.state id).remTags j.tags id }
      else s
  { s with index := s.index.remRet id }

/-- `evict`. -/
def evict (now limit : Int) (s : Store) : Store :=
  (s.index.ret.rangeByScore now limit).foldl evictOne s

/-! ## Section 5: Bulk batches -/

inductive BulkAction where
  | retry
  | cancel
  | delete
  deriving DecidableEq, Repr

/-- The selector of a bulk operation; empty texts select everything. -/
structure BulkArgs where
  action : BulkAction
  queue : String := ""
  state : Option State := none
  kind : String := ""
  partitionKey : String := ""
  olderThanMs : Option Int := none
  batch : Int

/-- `bulk_action_states`. -/
def bulkActionStates : BulkAction → List State
  | .retry => [.archived, .cancelled]
  | .cancel => [.scheduled, .available, .running]
  | .delete => [.scheduled, .available, .retryable, .completed, .archived, .cancelled,
      .quarantined, .undecodable]

/-- `op_states`: the action's states, cut down to the requested one. -/
def BulkArgs.states (a : BulkArgs) : List State :=
  (bulkActionStates a.action).filter fun st => a.state = none || a.state = some st

/-- The resume cursor: positions from one, and the offset into the scanned zset. -/
structure BulkCursor where
  qi : Nat := 1
  si : Nat := 1
  off : Nat := 0

/-- The loop variables of one batch. -/
structure BulkRun where
  store : Store
  cursor : BulkCursor
  applied : Int
  budget : Int

/-- Does the job match the selector in the scanned state? -/
def bulkMatches (now : Int) (a : BulkArgs) (st : State) (j : Job) : Bool :=
  j.state = st && (a.kind = "" || j.kind = a.kind) &&
    (a.partitionKey = "" || j.partitionKey = a.partitionKey) &&
    (match a.olderThanMs with
      | none => true
      | some older => j.enqueuedAtMs < now - older)

/-- Apply the action to a matching job; `false` for a retry refused by its key. -/
def bulkApply (now : Int) (a : BulkArgs) (id : String) (j : Job) (s : Store) : Store × Bool :=
  match a.action with
  | .cancel => (doCancel now id j s, true)
  | .retry =>
    match doRetry now id j s with
    | (s', some _) => (s', false)
    | (s', none) => (s', true)
  | .delete => (doDelete id j s, true)

/-- One examined id: a match leaves the zset, anything else moves the offset on. -/
def bulkOne (now : Int) (a : BulkArgs) (st : State) (r : BulkRun) (id : String) : BulkRun :=
  if r.applied ≥ a.batch ∨ r.budget ≤ 0 then r
  else
    let skip := { r with budget := r.budget - 1, cursor := { r.cursor with off := r.cursor.off + 1 } }
    match r.store.job? id with
    | none => skip
    | some j =>
      if bulkMatches now a st j then
        match bulkApply now a id j r.store with
        | (s', true) =>
          { r with store := s', budget := r.budget - 1, applied := r.applied + 1 }
        | (s', false) => { skip with store := s' }
      else skip

/-- The cursor at the start of the next state's zset, or of the next queue's first one. -/
def nextZset (a : BulkArgs) (c : BulkCursor) : BulkCursor :=
  if c.si < a.states.length then ⟨c.qi, c.si + 1, 0⟩ else ⟨c.qi + 1, 1, 0⟩

/-- The scan over queues and states.  A round either consumes budget or moves to the
next zset, so the fuel of `bulkBatch` never runs out first. -/
def bulkLoop (now : Int) (a : BulkArgs) (queues : List String) : Nat → BulkRun → BulkRun
  | 0, r => r
  | n + 1, r =>
    if r.budget > 0 then
      match queues[r.cursor.qi - 1]?, a.states[r.cursor.si - 1]? with
      | some q, some st =>
        let ids := (r.store.index.idx q st).range r.cursor.off a.batch.toNat
        if ids = [] then
          bulkLoop now a queues n { r with cursor := nextZset a r.cursor }
        else
          let r' := ids.foldl (bulkOne now a st) r
          if r'.applied ≥ a.batch then r' else bulkLoop now a queues n r'
      | _, _ => r
    else r

/-- The queues a selector names: its own, or every known queue. -/
def bulkQueues (order : SetOrder String) (a : BulkArgs) (s : Store) : List String :=
  (if a.queue ≠ "" then csvFields a.queue else order.list s.policy.queues).insertionSort (· ≤ ·)

/-- `bulk`: one bounded batch. -/
def bulkBatch (now : Int) (order : SetOrder String) (a : BulkArgs) (cursor : BulkCursor)
    (s : Store) : BulkRun :=
  let queues := bulkQueues order a s
  let fuel := (a.batch * 10).toNat + queues.length * a.states.length + 1
  bulkLoop now a queues fuel ⟨s, cursor, 0, a.batch * 10⟩

/-! ## Section 6: Policy writes -/

/-- `rc_upsert`: pausing is a limit of 0 and an empty bucket. -/
def upsertRateClass (now : Int) (name : String) (limit window burst : Int) (paused : Bool)
    (p : Policy) : Policy :=
  let tokens := match p.rate name with
    | none => if paused then 0 else burst
    | some b => if paused then 0 else if b.tokens > burst then burst else b.tokens
  p.setRate name ⟨tokens, burst, if paused then 0 else limit, window, now⟩

/-- `cl_upsert`: a renamed limit leaves its old queue in the same step. -/
def upsertConcurrencyLimit (name : String) (cfg : ConcurrencyLimit) (p : Policy) : Policy :=
  let climitq := match p.climits name with
    | none => p.climitq
    | some old =>
      if old.queue ≠ cfg.queue then Function.update p.climitq old.queue none else p.climitq
  { p with
    climits := Function.update p.climits name (some cfg)
    climitq := Function.update climitq cfg.queue (some cfg) }

/-- `qlimit`: the first configuration rebases the depth counters from the indexes. -/
def setEnqueueLimit (queue : String) (limit : Option Int) (s : Store) : Store :=
  let c := s.policy.enqueue queue
  let counted : Int := (s.index.idx queue .scheduled).card + (s.index.idx queue .available).card
    + (s.index.idx queue .running).card + (s.index.idx queue .retryable).card
  let c := if c.counted then c else { c with entered := counted, exited := 0, counted := true }
  { s with
    policy := { s.policy.setEnqueue queue { c with limit := limit } with
      queues := insert queue s.policy.queues } }

/-- `qweight`: the queue keeps its virtual service position. -/
def setQueueWeight (queue : String) (weight : Int) (p : Policy) : Policy :=
  let old := (p.qweights queue).getD 1
  { p with
    qserved := Function.update p.qserved queue (p.qserved queue * weight / old)
    qweights := Function.update p.qweights queue (some weight)
    queues := insert queue p.queues }

/-- `queue_delete`: an empty queue goes; a forced delete of another first freezes intake. -/
def deleteQueue (queue : String) (force : Bool) (p : Policy) : Policy :=
  let c := p.enqueue queue
  let depth := max 0 (c.entered - c.exited)
  if depth > 0 ∧ force = false then p
  else if depth = 0 then
    { p.setEnqueue queue {} with
      queues := p.queues.erase queue
      paused := p.paused.erase queue
      qweights := Function.update p.qweights queue none }
  else p.setEnqueue queue { c with limit := some 0 }

/-- `set_queue_paused`. -/
def setQueuePaused (queue : String) (paused : Bool) (p : Policy) : Policy :=
  { p with
    paused := if paused then insert queue p.paused else p.paused.erase queue
    queues := insert queue p.queues }

end Headgate.Redis
