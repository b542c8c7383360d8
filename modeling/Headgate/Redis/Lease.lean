import Headgate.Redis.Ops

/-!
# Scripts guarded by a lease: `ack`, `renew`, `checkpoint`, `output`, `progress`

Each of these compares the job hash with the caller's `(lease_id, fence)` and
does nothing unless the job is running under exactly that lease.
-/

namespace Headgate.Redis

open Headgate.Core Data

/-- The fence check: running, under this lease, with this fence. -/
def Job.heldBy (j : Job) (ref : LeaseRef) : Bool :=
  j.state = .running && j.lease.map Lease.leaseId = some ref.leaseId && j.fence = ref.fence

/-! ## Section 1: Rate reconciliation -/

/-- Refill, then correct the charge of an attempt by its actual weight. -/
def reconcileBucket (now charge actual : Int) (b : Bucket) : Bucket :=
  let gained := b.gained (max 0 (now - b.refilled))
  let avail := min b.burst (b.tokens + gained)
  { b with tokens := min b.burst (avail + charge - actual), refilled := now }

/-- The block for a reported actual weight: correct the bucket the attempt was
charged to, then clear the charge. -/
def reconcile (now : Int) (id : String) (j : Job) (actual : Int) (s : Store) : Store :=
  let s := s.setJob id { j with rateCharge := 0 }
  match s.policy.rate j.rateClass with
  | none => s
  | some b =>
    if j.rateCharge > 0 ∧ j.rateClass ≠ "" then
      { s.record (.reconciled j.rateClass (actual - j.rateCharge) now) with
        policy := s.policy.setRate j.rateClass (reconcileBucket now j.rateCharge actual b) }
    else s

/-! ## Section 2: Acknowledging an attempt -/

/-- The arguments of an ack beside the lease. -/
structure AckArgs where
  outcome : Outcome
  err : String := ""
  /-- Negative asks for the default backoff. -/
  delayMs : Int := -1
  retryBaseMs : Int
  retryCapMs : Int
  logs : Option (List String) := none
  actualWeight : Option Nat := none
  result : Option JobResult := none

/-- `drop_lease` on a store whose row for `id` is `j`. -/
def dropLease (id : String) (j : Job) (s : Store) : Store :=
  { s.setJob id { j with lease := none } with running := s.running.drop id j.queue j.partitionKey }

/-- A timeline entry for this attempt. -/
def attemptEntry (now : Int) (a : AckArgs) (outcome err : String) (attempt : Nat) : AttemptEntry :=
  ⟨now, attempt, outcome, err, a.logs⟩

/-- Leave running for a terminal state and stay visible. -/
def finishKeep (now : Int) (id : String) (j : Job) (to_ : State) (s : Store) : Store :=
  let s := dropLease id { j with state := to_, finalizedAtMs := some now } s
  { s with
    index := ((s.index.moveIdx j.queue .running to_ now id).remFpi j.fingerprint id).retain
      now j.retentionMs id
    holders := s.holders.release id j
    policy := s.policy.leaveUnfinished j.queue }

/-- Leave running and the keyspace. -/
def finishDelete (id : String) (j : Job) (s : Store) : Store :=
  let s := (dropLease id j s).delJob id
  { s with
    index := ((s.index.remIdx j.queue .running id).remTags j.tags id).remFpi j.fingerprint id
    holders := s.holders.release id j
    policy := s.policy.leaveUnfinished j.queue }

/-- Go back to waiting with a due time. -/
def requeue (now : Int) (id : String) (j : Job) (score : Int) (to_ : State) (s : Store) : Store :=
  let s := dropLease id { j with state := to_, scheduledAtMs := score } s
  { s with
    waiting := s.waiting.add id j.queue j.partitionKey j.stickyWorker score
    index := (if score > now then s.index.addSched score id else s.index).moveIdx j.queue
      .running to_ score id }

/-- The success branch: retention 0 deletes, anything else keeps the job completed. -/
def ackSuccess (now : Int) (id : String) (j : Job) (a : AckArgs) (s : Store) : Store :=
  if j.retentionMs = 0 then finishDelete id j s
  else
    let errors := if a.logs.isSome then
        pushEntry j.errors (attemptEntry now a "success" "" j.attempt)
      else j.errors
    let s := finishKeep now id { j with errors := errors, result := a.result <|> j.result }
      .completed s
    { s with index := { s.index with ret := s.index.ret.add (now + j.retentionMs) id } }

/-- The retry branch: backoff while attempts remain, then archived. -/
def ackRetry (now : Int) (id : String) (j : Job) (a : AckArgs) (s : Store) : Store :=
  let attempt := j.attempt + 1
  let j' := { j with
    attempt := attempt, errors := pushEntry j.errors (attemptEntry now a "retry" a.err attempt) }
  if attempt < j.maxAttempts then
    let delay := if a.delayMs < 0 then backoff a.retryBaseMs a.retryCapMs attempt else a.delayMs
    requeue now id j' (now + delay) .retryable s
  else finishKeep now id j' .archived s

/-- The skip and undecodable branches. -/
def ackPark (now : Int) (id : String) (j : Job) (a : AckArgs) (to_ : State) (label : String)
    (s : Store) : Store :=
  let errors := if a.err ≠ "" ∨ a.logs.isSome then
      pushEntry j.errors (attemptEntry now a label a.err j.attempt)
    else j.errors
  finishKeep now id { j with errors := errors } to_ s

/-- The branch of one outcome; `none` is the reply `REJ` for an outcome that is not acked. -/
def ackOutcome (now : Int) (id : String) (j : Job) (a : AckArgs) (s : Store) : Option Store :=
  match a.outcome with
  | .success => some (ackSuccess now id j a s)
  | .retry => some (ackRetry now id j a s)
  | .skip => some (ackPark now id j a .archived "archived" s)
  | .undecodable => some (ackPark now id j a .undecodable "undecodable" s)
  | .revoke => some (finishDelete id j s)
  | .snooze => some (requeue now id j (now + a.delayMs) .scheduled s)
  | .rateLimited => some (requeue now id j (min j.scheduledAtMs now) .available s)
  | .leaseLost => none

/-- `ack.lua`; the flag is the reply `OK`. -/
def ackScript (now : Int) (ref : LeaseRef) (a : AckArgs) (s : Store) : Store × Bool :=
  match s.job? ref.jobId with
  | none => (s, false)
  | some j =>
    if j.heldBy ref then
      -- the correction is written before the outcome is looked at
      let r := match a.actualWeight with
        | none => (s, j)
        | some w => (reconcile now ref.jobId j w s, { j with rateCharge := 0 })
      match ackOutcome now ref.jobId r.2 a r.1 with
      | some s' => (s'.record (.acked ref.jobId ref.leaseId ref.fence), true)
      | none => (r.1, false)
    else (s, false)

/-- `validate_ack_request`. -/
def validateAck (a : AckArgs) : Except StoreError Unit :=
  if a.outcome = .leaseLost then
    .error (.invalid "lease_lost is applied by the reclaimer, not acked")
  else if a.outcome = .snooze ∧ ¬ 0 < a.delayMs then
    .error (.invalid "snooze requires delay_ms > 0")
  else .ok ()

/-- `RedisStore::ack`. -/
def ack (now : Int) (ref : LeaseRef) (a : AckArgs) (s : Store) : Store × Except StoreError Unit :=
  match validateAck a with
  | .error e => (s, .error e)
  | .ok () =>
    let r := ackScript now ref a s
    (r.1, if r.2 then .ok () else .error (.leaseRejected ref.jobId))

/-! ## Section 3: Renewing and reporting -/

/-- One triple of `renew.lua`. -/
def renewOne (now leaseMs : Int) (s : Store) (ref : LeaseRef) : Store :=
  match s.job? ref.jobId with
  | none => s
  | some j =>
    if j.heldBy ref then
      { s.setJob ref.jobId { j with
          lease := j.lease.map fun l => { l with expiresAtMs := now + leaseMs } } with
        running := { s.running with lease := s.running.lease.add (now + leaseMs) ref.jobId } }
    else s

/-- `renew.lua` over the caller's triples. -/
def renew (now leaseMs : Int) (refs : List LeaseRef) (s : Store) : Store :=
  refs.foldl (renewOne now leaseMs) s

/-- A write to the hash under the fence check. -/
def fencedWrite (ref : LeaseRef) (f : Job → Job) (s : Store) : Store :=
  match s.job? ref.jobId with
  | none => s
  | some j => if j.heldBy ref then s.setJob ref.jobId (f j) else s

/-- `checkpoint.lua`: the checkpoint and its cursor are replaced together. -/
def checkpoint (ref : LeaseRef) (cp : Checkpoint) (s : Store) : Store :=
  fencedWrite ref (fun j => { j with checkpoint := some cp }) s

/-- `output.lua`. -/
def output (now : Int) (ref : LeaseRef) (value : JobResult) (s : Store) : Store :=
  fencedWrite ref
    (fun j => { j with
      output := some ⟨value.schemaVersion, value.bytes, ref.fence, now⟩ }) s

/-- `progress.lua`. -/
def progress (now : Int) (ref : LeaseRef) (current total : Nat) (message : Option String)
    (s : Store) : Store :=
  fencedWrite ref (fun j => { j with progress := some ⟨current, total, message, ref.fence, now⟩ }) s

end Headgate.Redis
