import Headgate.Core.Envelope

/-!
# The core state machine

`transition` is driven by what a worker acknowledges, `lifecycle_transition` by
sweeps and operators.  The backends write the same table out in their own
languages; what they do to a job is compared with these two functions.
-/

namespace Headgate.Core

structure TransitionCtx where
  attempt : Nat
  maxAttempts : Nat
  crashAttempt : Nat
  crashLimit : Nat
  /-- Whether success completes or deletes; 0 is ephemeral. -/
  retentionMs : Int
  deriving DecidableEq, Repr

/-- The state after an outcome; `none` is `State::Deleted`, which is never stored. -/
def transition (from_ : State) (on : Outcome) (ctx : TransitionCtx) : Option State :=
  match from_, on with
  | .running, .success => if ctx.retentionMs > 0 then some .completed else none
  | .running, .skip => some .archived
  | .running, .revoke => none
  | .running, .snooze => some .scheduled
  | .running, .undecodable => some .undecodable
  -- the attempt is not counted
  | .running, .rateLimited => some .available
  | .running, .retry =>
    if ctx.attempt + 1 < ctx.maxAttempts then some .retryable else some .archived
  | .running, .leaseLost =>
    if ctx.crashAttempt + 1 < ctx.crashLimit then some .retryable else some .quarantined
  | s, _ => some s

/-- What sweeps and operators do. -/
inductive LifecycleEvent where
  | operatorPromote
  | scheduleDue
  | admitted
  | backoffDue
  | checkpointStale
  | operatorRetry
  | operatorRelease
  | operatorCancel
  deriving DecidableEq, Repr

/-- The state after an event; `none` says that the event is not valid in the state. -/
def lifecycleTransition : State → LifecycleEvent → Option State
  | .pending, .operatorPromote => some .available
  | .scheduled, .scheduleDue => some .available
  | .available, .admitted => some .running
  | .retryable, .backoffDue => some .available
  | .running, .checkpointStale => some .undecodable
  | .archived, .operatorRetry | .cancelled, .operatorRetry | .undecodable, .operatorRetry =>
    some .available
  | .quarantined, .operatorRelease => some .available
  | .pending, .operatorCancel | .available, .operatorCancel | .scheduled, .operatorCancel
  | .running, .operatorCancel | .retryable, .operatorCancel => some .cancelled
  | _, _ => none

end Headgate.Core
