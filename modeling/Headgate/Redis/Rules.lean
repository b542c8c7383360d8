import Headgate.Core.Lifecycle
import Headgate.Redis.Step

/-!
# What a call may do to the lifecycle of a job

`Op.rule` says for each call what it may do to the lifecycle fields of a job, in terms of the
core state machine.
-/

namespace Headgate.Redis

open Headgate.Core

/-! ## Section 1: Lifecycles and rules -/

/-- The fields that decide the lifecycle of a job. -/
structure Lifecycle where
  queue : String
  state : State
  attempt : Nat
  crashAttempt : Nat
  maxAttempts : Nat
  retentionMs : Int
  deriving DecidableEq, Repr

def Job.lifecycle (j : Job) : Lifecycle where
  queue := j.queue
  state := j.state
  attempt := j.attempt
  crashAttempt := j.crashAttempt
  maxAttempts := j.maxAttempts
  retentionMs := j.retentionMs

namespace Lifecycle

def ctx (crashLimit : Int) (k : Lifecycle) : TransitionCtx :=
  ⟨k.attempt, k.maxAttempts, k.crashAttempt, crashLimit.toNat, k.retentionMs⟩

/-- The core transition of an outcome, with the counter that the outcome moves. -/
def afterOutcome (crashLimit : Int) (on : Outcome) (k : Lifecycle) : Option Lifecycle :=
  (transition k.state on (k.ctx crashLimit)).map fun st =>
    { k with
      state := st
      attempt := if on = .retry then k.attempt + 1 else k.attempt
      crashAttempt := if on = .leaseLost then k.crashAttempt + 1 else k.crashAttempt }

/-- The core transition of an event, which moves no counter. -/
def afterEvent (ev : LifecycleEvent) (k : Lifecycle) : Option Lifecycle :=
  (lifecycleTransition k.state ev).map fun st => { k with state := st }

section
variable {k : Lifecycle} {crashLimit : Int} (h : k.state = .running)
include h

theorem afterOutcome_success : k.afterOutcome crashLimit .success =
    if 0 < k.retentionMs then some { k with state := .completed } else none := by
  by_cases hkept : 0 < k.retentionMs
  · simp [afterOutcome, h, transition, ctx, hkept]
  · simp [afterOutcome, h, transition, ctx, hkept]

/-- Archived exactly when the attempts are used up. -/
theorem afterOutcome_retry : k.afterOutcome crashLimit .retry = some { k with
    state := if k.attempt + 1 < k.maxAttempts then .retryable else .archived
    attempt := k.attempt + 1 } := by
  by_cases hleft : k.attempt + 1 < k.maxAttempts
  · simp [afterOutcome, h, transition, ctx, hleft]
  · simp [afterOutcome, h, transition, ctx, hleft]

/-- Quarantined exactly when the crashes reach the limit. -/
theorem afterOutcome_leaseLost : k.afterOutcome crashLimit .leaseLost = some { k with
    state := if crashLimit ≤ k.crashAttempt + 1 then .quarantined else .retryable
    crashAttempt := k.crashAttempt + 1 } := by
  by_cases hlimit : crashLimit ≤ k.crashAttempt + 1
  · have hreached : ¬ k.crashAttempt + 1 < crashLimit.toNat := by omega
    simp [afterOutcome, h, transition, ctx, hlimit, hreached]
  · have hbelow : k.crashAttempt + 1 < crashLimit.toNat := by omega
    simp [afterOutcome, h, transition, ctx, hlimit, hbelow]

/-- The other outcomes move no counter. -/
theorem afterOutcome_of_transition {on : Outcome} (hretry : on ≠ .retry)
    (hlost : on ≠ .leaseLost) : k.afterOutcome crashLimit on =
      (transition .running on (k.ctx crashLimit)).map fun st => { k with state := st } := by
  simp only [afterOutcome, h, if_neg hretry, if_neg hlost]

end

end Lifecycle

/-- The event is valid and has happened. -/
def Fires (ev : LifecycleEvent) (k : Lifecycle) (new : Option Lifecycle) : Prop :=
  ∃ k', new = some k' ∧ k.afterEvent ev = some k'

/-- What a bulk action does to a matching job. -/
def BulkAction.rule : BulkAction → Lifecycle → Option Lifecycle → Prop
  | .cancel, k, new => Fires .operatorCancel k new
  | .retry, k, new => Fires .operatorRetry k new
  | .delete, k, new => k.state ≠ .running ∧ new = none

/-- What a decision of the gate does: a waiting job is claimed, discarded or cancelled, a running
one is displaced. -/
def gateRule (k : Lifecycle) (new : Option Lifecycle) : Prop :=
  (k.state.isWaiting = true ∧ (new = some { k with state := .running } ∨
      new = some { k with state := .archived })) ∨
    ((k.state.isWaiting = true ∨ k.state = .running) ∧ new = some { k with state := .cancelled })

/-- What a call may do to the job under an id. -/
def Op.rule : Op → String → Lifecycle → Option Lifecycle → Prop
  -- the holder of a unique key may be rewritten; debouncing makes it scheduled
  | .enqueue _, _, k, new => ∃ st m, (st = k.state ∨ State.isMutable k.state = true ∧
      st = .scheduled) ∧ new = some { k with state := st, maxAttempts := m }
  | .admission _ _, _, k, new => gateRule k new
  | .ack ref a, id, k, new =>
      id = ref.jobId ∧ k.state = .running ∧ new = k.afterOutcome 0 a.outcome
  | .reclaim _ crashLimit _ _, _, k, new =>
      k.state = .running ∧ new = k.afterOutcome crashLimit .leaseLost
  | .promote _, _, k, new => Fires .scheduleDue k new ∨ Fires .backoffDue k new
  | .operatorCancel x, id, k, new => id = x ∧ Fires .operatorCancel k new
  | .operatorRetry x, id, k, new => id = x ∧ Fires .operatorRetry k new
  | .deleteJob x, id, k, new => id = x ∧ k.state ≠ .running ∧ new = none
  | .promoteJob x, id, k, new => id = x ∧ Fires .operatorPromote k new
  | .schedulePendingJob x _, id, k, new =>
      id = x ∧ k.state = .pending ∧ new = some { k with state := .scheduled }
  | .quarantineRelease _ _, _, k, new => Fires .operatorRelease k new
  | .quarantineSweep _ _, _, k, new =>
      k.state.isWaiting = true ∧ new = some { k with state := .quarantined }
  | .evict _, _, k, new => State.isEvictable k.state = true ∧ new = none
  | .bulk args _ _, _, k, new => args.action.rule k new
  | _, _, _, _ => False

/-! ## Section 2: Kinds of calls -/

/-- A call other than admission and quarantine release. -/
def Op.isPlain : Op → Prop
  | .admission _ _ | .quarantineRelease _ _ => False
  | _ => True

/-- The envelopes a call may write, as the script receives them. -/
def Op.batch : Op → List Envelope
  | .enqueue batch => batch.map prepare
  | _ => []

/-- The calls that set the counters of a queue themselves. -/
def Op.resetsDepth : Op → Prop
  | .setEnqueueLimit _ _ | .deleteQueue _ _ => True
  | _ => False

/-- A call that writes neither a bucket nor a deficit. -/
def Op.isUnmetered : Op → Prop
  | .admission _ _ | .ack _ _ | .upsertRateClass _ _ _ _ _ => False
  | _ => True

/-- A call after which a retried job is due later: its delay is positive, or the backoff is. -/
def Op.isTimely : Op → Prop
  | .ack _ a => a.outcome = .retry →
      0 < a.delayMs ∨ a.delayMs < 0 ∧ 0 < a.retryBaseMs ∧ 0 < a.retryCapMs
  | _ => True

/-- The calls that change the sets of a fingerprint other than by the lifecycle of a job. -/
def Op.movesPrints : Op → Prop
  | .reclaim _ _ _ _ | .evict _ | .editPayload _ _ _ _ => True
  | _ => False

/-- The call gives a job this fingerprint. -/
def Op.edits (fp : String) : Op → Prop
  | .editPayload _ _ _ fp' => fp = fp'
  | _ => False

theorem Op.movesPrints_of_edits {fp : String} {op : Op} (h : op.edits fp) : op.movesPrints := by
  cases op with
  | editPayload => trivial
  | _ => cases h

end Headgate.Redis
