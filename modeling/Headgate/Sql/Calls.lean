import Headgate.Sql.Job

/-!
# What the calls of the SQL stores share

Arguments and small decisions that the adapters make alike.
-/

namespace Headgate.Sql

open Headgate.Core

/-! ## Section 1: Enqueue -/

/-- Is this bit of the replacement mask set? -/
def replaces (e : Envelope) (bit : Nat) : Bool := e.uniqueReplace.testBit bit

/-- Is the transaction of a plain enqueue committed? -/
def commits : Except StoreError Unit → Bool
  | .ok () => true
  | .error (.duplicate _ replaced) => replaced
  | .error _ => false

/-- The throttle window an envelope opens: its id, its key and the end. -/
def opening (ends : Int) (e : Envelope) : Option (String × Bytes × Int) :=
  if e.uniqueWindowMs > 0 then
    (effectiveUniqueKey e).map fun k => (e.id, k, ends)
  else none

theorem opening_eq_some {ends : Int} {e : Envelope} {id : String} {k : Bytes} {u : Int} :
    opening ends e = some (id, k, u) ↔ e.id = id ∧ effectiveUniqueKey e = some k ∧
      0 < e.uniqueWindowMs ∧ ends = u := by
  unfold opening
  split
  · rename_i hpos
    simp only [Option.map_eq_some_iff, Prod.mk.injEq]
    constructor
    · rintro ⟨k', hk, rfl, rfl, rfl⟩
      exact ⟨rfl, hk, hpos, rfl⟩
    · rintro ⟨rfl, hk, -, rfl⟩
      exact ⟨k, hk, rfl, rfl, rfl⟩
  · rename_i hpos
    simp only [reduceCtorEq, false_iff]
    exact fun h => hpos h.2.2.1

/-! ## Section 2: Leases -/

/-- The arguments of an ack beside the lease. -/
structure AckArgs where
  outcome : Outcome
  err : Option String := none
  delayMs : Option Int := none
  logs : List String := []
  actualWeight : Option Nat := none
  result : Option JobResult := none

def validateAck (a : AckArgs) : Except StoreError Unit :=
  if a.outcome = .leaseLost then
    .error (.invalid "lease_lost is applied by the reclaimer, not acked")
  else if a.outcome = .snooze ∧ ¬ (a.delayMs.any fun d => d > 0) then
    .error (.invalid "snooze requires delay_ms > 0")
  else .ok ()

/-- The crash counter of the step a checkpoint has in progress. -/
def countCrash (cp : Checkpoint) : Checkpoint :=
  match cp.inProgressStep with
  | none => cp
  | some step =>
    if cp.crashesByStep.any fun e => e.1 = step then
      -- the first entry of that name counts
      let i := cp.crashesByStep.findIdx fun e => e.1 = step
      { cp with crashesByStep := cp.crashesByStep.modify i fun e => (e.1, e.2 + 1) }
    else { cp with crashesByStep := cp.crashesByStep ++ [(step, 1)] }

/-! ## Section 3: Bulk operations -/

/-- The actions of bulk operations. -/
inductive BulkAction where
  | retry
  | cancel
  | delete
  deriving DecidableEq, Repr

/-- The selector of a bulk operation; an absent field selects everything. -/
structure Selector where
  queue : Option String := none
  state : Option State := none
  kind : Option String := none
  partitionKey : Option String := none
  olderThanMs : Option Int := none
  deriving DecidableEq, Repr

/-- `bulk_action_states`. -/
def bulkActionStates : BulkAction → List State
  | .retry => [.archived, .cancelled]
  | .cancel => [.scheduled, .available, .running]
  | .delete => [.scheduled, .available, .retryable, .completed, .archived, .cancelled,
      .quarantined, .undecodable]

def Selector.nonempty (s : Selector) : Bool :=
  s.queue.isSome || s.state.isSome || s.kind.isSome || s.partitionKey.isSome
    || s.olderThanMs.isSome

end Headgate.Sql
