import Headgate.Redis.Meter
import Headgate.Redis.Selection
import Headgate.Redis.Names

/-!
# The deficit ledger

`deficit:{queue}` carries a partition's unused credit from one admission to the
next.  The gate reads it while it draws and selects, and writes it once, at the
end of the call, for the partitions that had something to draw.
-/

namespace Headgate.Redis

open Headgate.Core Data

/-! ## Section 1: One call -/

/-- Charging a partition that is not the one asked for leaves its credit alone. -/
theorem chargeDeficit_deficit (quantum : Int) (taken : String → Int) (p : Policy)
    (key queue part : String) :
    (chargeDeficit quantum taken p key).deficit queue part =
      if splitTableKey key = (queue, part) then
        max 0 (min (quantum * 4) (p.deficit queue part + quantum - taken key))
      else p.deficit queue part := by
  cases hkey : splitTableKey key with
  | mk q pt =>
    unfold chargeDeficit
    rw [hkey]
    by_cases hq : queue = q
    · subst hq
      by_cases hp : part = pt
      · subst hp
        simp
      · simp [hp, Ne.symm hp]
    · simp [hq, Ne.symm hq]

/-- The credit after the charges of a call. -/
theorem settle_deficit (now : Int) (req : AdmitRequest) (seen : List String) (l : Selection) :
    (settle now req seen l).policy.deficit =
      (seen.dedup.foldl (chargeDeficit req.quantum l.takenPart) l.store.policy).deficit := by
  -- spending and served counters come first, and charging reads neither
  have hframe : ∀ (keys : List String) (p p' : Policy), p.deficit = p'.deficit →
      (keys.foldl (chargeDeficit req.quantum l.takenPart) p).deficit =
        (keys.foldl (chargeDeficit req.quantum l.takenPart) p').deficit := by
    intro keys
    induction keys with
    | nil => exact fun p p' h => h
    | cons key keys ih =>
      intro p p' h
      apply ih
      funext queue part
      rw [chargeDeficit_deficit, chargeDeficit_deficit, h]
  exact hframe seen.dedup _ _ rfl

/-! ## Section 2: Credit is never negative -/

/-- No partition owes credit. -/
def CreditOk (s : Store) : Prop := ∀ queue part, 0 ≤ s.policy.deficit queue part

private theorem creditOk_charges (quantum : Int) (taken : String → Int) (keys : List String)
    (p : Policy) (h : ∀ queue part, 0 ≤ p.deficit queue part) (queue part : String) :
    0 ≤ (keys.foldl (chargeDeficit quantum taken) p).deficit queue part := by
  induction keys generalizing p with
  | nil => exact h queue part
  | cons key keys ih =>
    apply ih
    intro queue part
    rw [chargeDeficit_deficit]
    split
    · exact le_max_left 0 _
    · exact h queue part

theorem admitCall_creditOk (now : Int) (req : AdmitRequest) (order : SetOrder String) (s : Store)
    (h : CreditOk s) : CreditOk (admitCall now req order s).1 := by
  unfold admitCall
  split
  · exact h
  · intro queue part
    have hrules := selection_rules now req order
      (scriptQueues (csvJoin (normalizeQueues req.queues))) s
    show 0 ≤ (settle now req _ _).policy.deficit queue part
    rw [settle_deficit]
    apply creditOk_charges
    rw [hrules.deficit]
    exact h

/-- The correction of an ack and its outcome leave the ledger alone. -/
theorem ack_deficit (now : Int) (ref : LeaseRef) (a : AckArgs) (s : Store) :
    (ack now ref a s).1.policy.deficit = s.policy.deficit := by
  rcases ack_class now ref a s with hun | ⟨rc, b, charge, actual, -, hdeficit, -⟩
  · exact hun.deficit
  · exact hdeficit

theorem step_creditOk (s : Store) (c : Call) (h : CreditOk s) : CreditOk (step s c) := by
  by_cases hmeter : c.op.isUnmetered
  · unfold CreditOk
    rw [(step_unmetered s c hmeter).deficit]
    exact h
  · obtain ⟨now, op⟩ := c
    cases op with
    | admission req order => exact admitCall_creditOk now req order s h
    | ack ref args =>
      show ∀ queue part, 0 ≤ (ack now ref args s).1.policy.deficit queue part
      rw [ack_deficit]
      exact h
    | upsertRateClass =>
      simp only [step]
      split
      · exact h
      · exact h
    | _ => exact absurd trivial hmeter

theorem exec_creditOk (calls : List Call) : CreditOk (exec calls) :=
  run_invariant CreditOk (P := fun _ _ => True) (fun s c _ => step_creditOk s c)
    (fun _ _ => le_refl 0) (EachStep.trivial calls Store.init)

end Headgate.Redis
