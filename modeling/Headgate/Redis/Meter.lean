import Headgate.Redis.Admission

/-!
# Which scripts touch the meters

A rate class is metered by its bucket, a partition by its deficit.  Only
admission, the weight correction of an ack and the operator's `rc_upsert` write
either.  `Unmetered` is the frame all other scripts keep: buckets, deficits and
the rate events of the history stay as they are.
-/

namespace Headgate.Redis

open Headgate.Core Data

/-! ## Section 1: The frame -/

/-- The charges and corrections of a history, newest first. -/
def rateEvents (h : List Event) : List Event := h.filter fun e => e.job = none

/-- Buckets, deficits and rate events are the same in both stores. -/
structure Unmetered (s s' : Store) : Prop where
  rate : s'.policy.rate = s.policy.rate
  deficit : s'.policy.deficit = s.policy.deficit
  events : rateEvents s'.history = rateEvents s.history

namespace Unmetered

theorem refl (s : Store) : Unmetered s s := ⟨rfl, rfl, rfl⟩

theorem trans {s t u : Store} (h : Unmetered s t) (h' : Unmetered t u) : Unmetered s u :=
  ⟨h'.rate.trans h.rate, h'.deficit.trans h.deficit, h'.events.trans h.events⟩

end Unmetered

/-! ## Section 2: The writes of a plain call -/

section
variable {op : Op} {now : Int} {s t : Store}

/-- An event that ends a claim is no rate event. -/
private theorem rateEvents_ends {e : Event} {id : String} {j : Job} (h : e.ends id j)
    (history : List Event) : rateEvents (e :: history) = rateEvents history := by
  cases e with
  | claimed | charged | reconciled => exact h.elim
  | acked | reclaimed | cancelled | displaced | deleted => rfl

/-- An outcome moves the job; what it was charged has been settled before. -/
theorem ackOutcome_unmetered {now : Int} {id : String} {j : Job} {a : AckArgs} {s s' : Store}
    (h : ackOutcome now id j a s = some s') : Unmetered s s' := by
  unfold ackOutcome at h
  split at h
  · cases h
    unfold ackSuccess
    split <;> exact ⟨rfl, rfl, rfl⟩
  · cases h
    unfold ackRetry
    dsimp only
    split <;> exact ⟨rfl, rfl, rfl⟩
  · cases h
    exact ⟨rfl, rfl, rfl⟩
  · cases h
    exact ⟨rfl, rfl, rfl⟩
  · cases h
    exact ⟨rfl, rfl, rfl⟩
  · cases h
    exact ⟨rfl, rfl, rfl⟩
  · cases h
    exact ⟨rfl, rfl, rfl⟩
  · cases h

private theorem doCancel_unmetered (now : Int) (id : String) (j : Job) (s : Store) :
    Unmetered s (doCancel now id j s) := by
  unfold doCancel
  split
  · exact ⟨rfl, rfl, rfl⟩
  · split <;> exact ⟨rfl, rfl, rfl⟩

private theorem doDelete_unmetered (id : String) (j : Job) (s : Store) :
    Unmetered s (doDelete id j s) := by
  unfold doDelete
  split <;> split <;> exact ⟨rfl, rfl, rfl⟩

theorem Write.unmetered (w : Write op now s t) (h : op.isUnmetered) : Unmetered s t := by
  cases w with
  | debounce e holder j row =>
    unfold debounceHolder
    rw [row]
    exact ⟨rfl, rfl, rfl⟩
  | payload e holder j row =>
    unfold replacePayload
    rw [row]
    exact ⟨rfl, rfl, rfl⟩
  | due e holder j row =>
    unfold replaceScheduledAt
    rw [row]
    exact ⟨rfl, rfl, rfl⟩
  | reconcile id j actual row running metered => exact absurd h metered
  | finishKeep id j attempt errors result to_ e row running terminal out ends
  | requeue id j attempt errors score to_ e row running waiting ends =>
    exact ⟨rfl, rfl, rateEvents_ends ends s.history⟩
  | finishDelete id j e row running ends => exact ⟨rfl, rfl, rateEvents_ends ends s.history⟩
  | renew ref j leaseMs row held =>
    unfold renewOne
    rw [row]
    dsimp only
    rw [if_pos held]
    exact ⟨rfl, rfl, rfl⟩
  | sweep limit fp id j n row waiting =>
    unfold sweepOne
    split
    · exact .refl s
    · rw [row]
      dsimp only
      rw [if_pos waiting]
      exact ⟨rfl, rfl, rfl⟩
  | cancel id j => exact doCancel_unmetered now id j s
  | retry =>
    unfold doRetry
    split <;> exact ⟨rfl, rfl, rfl⟩
  | delete id j => exact doDelete_unmetered id j s
  | edit id j payload sv fp row idle =>
    unfold editPayload
    rw [row]
    dsimp only
    rw [if_neg idle]
    exact ⟨rfl, rfl, rfl⟩
  | policy p quarantine deficit depth rate => exact ⟨rate h, deficit, rfl⟩
  -- the other writes are to a row and its keys
  | _ => exact ⟨rfl, rfl, rfl⟩

end

/-! ## Section 3: Every call -/

private theorem quarantineRelease_unmetered (now : Int) (order : SetOrder String) (fp : String)
    (s : Store) : Unmetered s (quarantineRelease now order fp s).1 := by
  have hstart : Unmetered s
      { s with policy := { s.policy with quarantine := s.policy.quarantine.erase fp } } :=
    ⟨rfl, rfl, rfl⟩
  refine hstart.trans (lift_foldl .refl (fun _ _ _ => .trans) Prod.fst (f := releaseOne now fp)
    (fun p id => ?_) _ (_, 0))
  unfold releaseOne
  split
  · exact ⟨rfl, rfl, rfl⟩
  · split <;> exact ⟨rfl, rfl, rfl⟩

theorem step_unmetered (s : Store) (c : Call) (h : c.op.isUnmetered) : Unmetered s (step s c) := by
  by_cases hplain : c.op.isPlain
  · exact lift_writes (step_writes s c hplain) (fun _ => .refl _) (fun _ _ _ => .trans)
      fun _ _ w => w.unmetered h
  · obtain ⟨now, op⟩ := c
    cases op with
    | admission => exact h.elim
    | quarantineRelease fp order => exact quarantineRelease_unmetered now order fp s
    | _ => exact absurd trivial hplain

/-! ## Section 4: Acks -/

/-- Nothing is metered, or one class is refilled and corrected. -/
def Corrects (now : Int) (s t : Store) : Prop :=
  Unmetered s t ∨ ∃ rc b charge actual, s.policy.rate rc = some b ∧
    t.policy.deficit = s.policy.deficit ∧
    t.policy.rate = Function.update s.policy.rate rc (some (reconcileBucket now charge actual b)) ∧
    rateEvents t.history = .reconciled rc (actual - charge) now :: rateEvents s.history

/-- What comes after a correction meters nothing. -/
theorem Corrects.unmetered {now : Int} {s t u : Store} (h : Corrects now s t) (hu : Unmetered t u) :
    Corrects now s u := by
  rcases h with hst | ⟨rc, b, charge, actual, hb, hdeficit, hrate, hevents⟩
  · exact .inl (hst.trans hu)
  · exact .inr ⟨rc, b, charge, actual, hb, hu.deficit.trans hdeficit, hu.rate.trans hrate,
      hu.events.trans hevents⟩

theorem reconcile_class (now : Int) (id : String) (j : Job) (w : Int) (s : Store) :
    Corrects now s (reconcile now id j w s) := by
  unfold reconcile
  dsimp only
  split
  · exact .inl ⟨rfl, rfl, rfl⟩
  · rename_i b hb
    split
    · exact .inr ⟨j.rateClass, b, j.rateCharge, w, hb, rfl, rfl, rfl⟩
    · exact .inl ⟨rfl, rfl, rfl⟩

/-- **One ack** corrects one class at most. -/
theorem ack_class (now : Int) (ref : LeaseRef) (a : AckArgs) (s : Store) :
    Corrects now s (ack now ref a s).1 := by
  unfold ack
  split
  · exact .inl (.refl s)
  · unfold ackScript
    split
    · exact .inl (.refl s)
    · rename_i j _
      split
      · cases a.actualWeight with
        | none =>
          dsimp only
          split
          · rename_i s' hout
            exact .inl ((ackOutcome_unmetered hout).trans ⟨rfl, rfl, rfl⟩)
          · exact .inl (.refl s)
        | some w =>
          dsimp only
          split
          · rename_i s' hout
            exact (reconcile_class now ref.jobId j w s).unmetered
              ((ackOutcome_unmetered hout).trans ⟨rfl, rfl, rfl⟩)
          · exact reconcile_class now ref.jobId j w s
      · exact .inl (.refl s)

end Headgate.Redis
