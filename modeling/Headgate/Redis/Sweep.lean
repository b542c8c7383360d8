import Headgate.Redis.Ops

/-!
# The sweeps: `reclaim.lua` and `promote.lua`

The reclaimer turns expired leases into crash attempts, quarantining a job at
the crash limit; the promoter keeps the state field of due jobs in step with
the pending streams, which admit by score alone.
-/

namespace Headgate.Redis

open Headgate.Core Data

/-! ## Section 1: Reclaiming expired leases -/

/-- Attribute a crash to the step that was in progress. -/
def attributeCrash (cp : Checkpoint) : Checkpoint :=
  match cp.inProgressStep with
  | none => cp
  | some step =>
    let n := (cp.crashesByStep.lookup step).getD 0
    { cp with
      crashesByStep := (step, n + 1) :: cp.crashesByStep.filter fun kv => kv.1 ≠ step }

/-- The row of a job whose lease ran out, before its next state is chosen. -/
def crashedRow (now : Int) (j : Job) : Job :=
  { j with
    crashAttempt := j.crashAttempt + 1
    lease := none
    errors := pushEntry j.errors
      ⟨now, j.crashAttempt + 1, "lease_lost", "lease expired without ack", none⟩
    checkpoint := j.checkpoint.map attributeCrash }

/-- At the crash limit: quarantined, with the fingerprint registered. -/
def quarantineCrashed (now : Int) (id : String) (j : Job) (s : Store) : Store :=
  let s := s.setJob id { crashedRow now j with state := .quarantined, finalizedAtMs := some now }
  let s := { s with
    running := s.running.drop id j.queue j.partitionKey
    holders := s.holders.release id j
    index := ((s.index.moveIdx j.queue .running .quarantined now id).remFpi j.fingerprint id).addQjobs
      j.fingerprint id
    policy := { s.policy.leaveUnfinished j.queue with
      quarantine := insert j.fingerprint s.policy.quarantine } }
  s.record (.reclaimed id)

/-- Below the crash limit: retryable after a backoff. -/
def retryCrashed (now base cap : Int) (id : String) (j : Job) (s : Store) : Store :=
  let due := now + backoff base cap (j.crashAttempt + 1)
  let s := s.setJob id { crashedRow now j with state := .retryable, scheduledAtMs := due }
  let s := { s with
    running := s.running.drop id j.queue j.partitionKey
    waiting := s.waiting.add id j.queue j.partitionKey j.stickyWorker due
    index := (s.index.addSched due id).moveIdx j.queue .running .retryable due id }
  s.record (.reclaimed id)

/-- One expired id. -/
def reclaimOne (now crashLimit base cap : Int) (s : Store) (id : String) : Store :=
  -- the lease entry of a finished job is a stray
  let stray := { s with running := { s.running with lease := s.running.lease.remove id } }
  match s.job? id with
  | none => stray
  | some j =>
    if j.state = .running then
      if ((j.crashAttempt : Int) + 1) ≥ crashLimit then quarantineCrashed now id j s
      else retryCrashed now base cap id j s
    else stray

/-- `reclaim.lua`. -/
def reclaim (now limit crashLimit base cap : Int) (s : Store) : Store :=
  (s.running.lease.rangeByScore now limit).foldl (reclaimOne now crashLimit base cap) s

/-! ## Section 2: Promoting due jobs -/

/-- One due id: only `scheduled` and `retryable` change. -/
def promoteOne (s : Store) (id : String) : Store :=
  let s := { s with index := s.index.remSched id }
  match s.job? id with
  | none => s
  | some j =>
    if j.state = .scheduled ∨ j.state = .retryable then
      { s.setJob id { j with state := .available } with
        index := s.index.moveIdx j.queue j.state .available j.scheduledAtMs id }
    else s

/-- `promote.lua`. -/
def promote (now limit : Int) (s : Store) : Store :=
  (s.index.sched.rangeByScore now limit).foldl promoteOne s

end Headgate.Redis
