import Headgate.Data.Refill
import Headgate.Redis.Meter
import Headgate.Redis.Selection

/-!
# Rate classes over an interval

What leaves a rate class is recorded in the history: the charges of admissions
and the corrections of acks.  This module says what one call does to a class's
bucket and to these records (Sections 1 to 3), and carries the books of an
interval (`Rate.Within`) through every run (Section 4).
-/

namespace Headgate.Redis

open Headgate.Core Data

variable {s : Store} {req : AdmitRequest} {d now t : Int} {rc : String} {b b' : Bucket}

/-! ## Section 1: What has left a class -/

/-- What one event takes out of a class. -/
def Event.net (rc : String) : Event → Int
  | .charged name cost _ => if name = rc then cost else 0
  | .reconciled name debit _ => if name = rc then debit else 0
  | _ => 0

/-- Charges plus debits minus refunds of a class. -/
def netCharged (rc : String) (h : List Event) : Int := (h.map (Event.net rc)).sum

@[simp] theorem netCharged_nil (rc : String) : netCharged rc [] = 0 := rfl

@[simp] theorem netCharged_cons (rc : String) (e : Event) (h : List Event) :
    netCharged rc (e :: h) = e.net rc + netCharged rc h := by
  simp [netCharged]

@[simp] theorem netCharged_append (rc : String) (h h' : List Event) :
    netCharged rc (h ++ h') = netCharged rc h + netCharged rc h' := by
  simp [netCharged]

/-- Only rate events count. -/
theorem netCharged_rateEvents (rc : String) (h : List Event) :
    netCharged rc (rateEvents h) = netCharged rc h := by
  -- an event about a job charges nothing, so leaving it out does not change the sum
  have hjob : ∀ e : Event, e.job ≠ none → e.net rc = 0 := by
    intro e he
    cases e with
    | charged | reconciled => exact absurd rfl he
    | _ => rfl
  induction h with
  | nil => rfl
  | cons e h ih =>
    by_cases he : e.job = none
    · have hcons : rateEvents (e :: h) = e :: rateEvents h := by simp [rateEvents, he]
      rw [hcons, netCharged_cons, netCharged_cons, ih]
    · have hcons : rateEvents (e :: h) = rateEvents h := by simp [rateEvents, he]
      rw [hcons, netCharged_cons, ih, hjob e he, zero_add]

theorem Unmetered.netCharged {s' : Store} (h : Unmetered s s') (rc : String) :
    netCharged rc s'.history = netCharged rc s.history := by
  rw [← netCharged_rateEvents, h.events, netCharged_rateEvents]

/-! ## Section 2: Admission -/

/-- Making room meters nothing. -/
theorem RoomWrites.unmetered {s s' : Store} {now : Int} (h : RoomWrites now s s') :
    Unmetered s s' := by
  induction h with
  | refl => exact .refl s
  | tail _ w ih =>
    refine ih.trans ?_
    cases w with
    | purge | displace => exact ⟨rfl, rfl, rfl⟩

theorem passCeiling_unmetered (now : Int) (queue : String) (c : Candidate) (l : Selection) :
    Unmetered l.store (passCeiling now queue c l).1.store ∧
      (passCeiling now queue c l).1.configured = l.configured ∧
      (passCeiling now queue c l).1.takenClass = l.takenClass := by
  obtain ⟨t, hroom, heq⟩ := passCeiling_eq now queue c l
  rw [heq]
  exact ⟨hroom.unmetered, rfl, rfl⟩

/-- A bucket that was refilled just now gains nothing, whatever was taken from it. -/
theorem refill_spent (now : Int) (b : Bucket) (t : Int) :
    refill now { refill now b with tokens := t } = { refill now b with tokens := t } := by
  unfold refill
  by_cases hgain : b.gained (now - b.refilled) > 0
  · simp [hgain]
  · simp only [hgain, if_false]
    exact if_neg hgain

theorem refill_refill (now : Int) (b : Bucket) : refill now (refill now b) = refill now b :=
  refill_spent now b (refill now b).tokens

/-- The books of one class during a selection that began in `s` with bucket `b`. -/
structure ClassBooks (now : Int) (s : Store) (rc : String) (b : Bucket) (l : Selection) : Prop where
  -- the bucket is refilled when the first candidate of the class is looked at
  bucket : l.store.policy.rate rc = some (if l.configured rc then refill now b else b)
  idle : l.configured rc = false → l.takenClass rc = 0
  nonneg : 0 ≤ l.takenClass rc
  fits : l.takenClass rc ≤ max 0 (refill now b).tokens
  events : netCharged rc l.store.history = netCharged rc s.history + l.takenClass rc

section
variable {l : Selection} {c : Candidate}

/-- The books of a class follow its bucket, mark, count and events alone. -/
theorem ClassBooks.keep {l' : Selection} (h : ClassBooks now s rc b l)
    (hrate : l'.store.policy.rate rc = l.store.policy.rate rc)
    (hconf : l'.configured rc = l.configured rc) (htaken : l'.takenClass rc = l.takenClass rc)
    (hnet : netCharged rc l'.store.history = netCharged rc l.store.history) :
    ClassBooks now s rc b l' := by
  refine ⟨?_, ?_, ?_, ?_, ?_⟩
  · rw [hrate, hconf]
    exact h.bucket
  · rw [hconf, htaken]
    exact h.idle
  · rw [htaken]
    exact h.nonneg
  · rw [htaken]
    exact h.fits
  · rw [hnet, htaken]
    exact h.events

/-- The rate clause refills the candidate's class and marks it. -/
theorem ClassBooks.passRate (h : ClassBooks now s rc b l) :
    ClassBooks now s rc b (passRate now c l).1 ∧
      ((Redis.passRate now c l).2 = true → c.job.rateClass = rc → rc ≠ "" →
        (Redis.passRate now c l).1.configured rc = true ∧
          l.takenClass rc + cost c.job ≤ (refill now b).tokens) := by
  unfold Redis.passRate bucketAvail
  by_cases hempty : c.job.rateClass = ""
  · rw [if_pos hempty]
    exact ⟨h, fun _ hclass hne => absurd (hclass.symm.trans hempty) hne⟩
  · rw [if_neg hempty]
    by_cases hclass : c.job.rateClass = rc
    · -- the class itself: its bucket is refilled, once
      rw [hclass, h.bucket]
      dsimp only
      have hrefill : refill now (if l.configured rc then refill now b else b) = refill now b := by
        split
        · exact refill_refill now b
        · rfl
      rw [hrefill]
      refine ⟨⟨?_, ?_, h.nonneg, h.fits, h.events⟩, fun hpass _ _ => ⟨?_, ?_⟩⟩
      · simp [Policy.setRate]
      · simp
      · simp
      · simpa using hpass
    · cases hrate : l.store.policy.rate c.job.rateClass with
      | none => exact ⟨h, fun _ hc => absurd hc hclass⟩
      | some =>
        have hother : rc ≠ c.job.rateClass := Ne.symm hclass
        exact ⟨h.keep (Function.update_of_ne hother _ _) (Function.update_of_ne hother _ _) rfl rfl,
          fun _ hc => absurd hc hclass⟩

/-- The clauses keep the books; a candidate that passes them fits into its class. -/
theorem ClassBooks.gateVerdict (h : ClassBooks now s rc b l) (req : AdmitRequest) (queue : String)
    (c : Candidate) :
    ClassBooks now s rc b (gateVerdict now req queue c l).1 ∧
      ((Redis.gateVerdict now req queue c l).2 ≠ none → c.job.rateClass = rc → rc ≠ "" →
        (Redis.gateVerdict now req queue c l).1.configured rc = true ∧
          l.takenClass rc + cost c.job ≤ (refill now b).tokens) := by
  obtain ⟨hbooks, hpass⟩ := h.passRate (c := c)
  rcases gateVerdict_cases now req queue c l with ⟨-, heq⟩ | ⟨-, heq⟩ | ⟨hrate, -, heq⟩
  · rw [heq]
    exact ⟨h, fun hne => absurd rfl hne⟩
  · rw [heq]
    exact ⟨hbooks, fun hne => absurd rfl hne⟩
  · rw [heq]
    obtain ⟨hstore, hconf, htaken⟩ := passCeiling_unmetered now queue c (Redis.passRate now c l).1
    refine ⟨hbooks.keep (congrFun hstore.rate rc) (congrFun hconf rc) (congrFun htaken rc)
      (hstore.netCharged rc), fun _ hclass hne => ?_⟩
    rw [hconf]
    exact hpass hrate hclass hne

theorem cost_pos (j : Job) : 0 < cost j := by
  unfold cost
  split <;> omega

/-- A claim books its cost; other decisions book nothing. -/
theorem ClassBooks.decided {queue : String} {a : Action} (h : ClassBooks now s rc b l)
    (hrow : l.store.job? c.id = some c.job) (hqueue : queue = c.job.queue)
    (hfits : c.job.rateClass = rc → rc ≠ "" →
      l.configured rc = true ∧ l.takenClass rc + cost c.job ≤ (refill now b).tokens) :
    ClassBooks now s rc b (decidedRound now req queue c a l) := by
  have hcost := cost_pos c.job
  cases a with
  | discard | cancelIncoming => exact h.keep rfl rfl rfl rfl
  | claim =>
    have hrate : (decidedRound now req queue c .claim l).store.policy.rate = l.store.policy.rate := by
      rw [decidedRound_claim_policy]
    have hhistory : (decidedRound now req queue c .claim l).store.history =
        claimEvents now req c (isCharged c l) (c.job.fence + 1) ++ l.store.history := by
      rw [hqueue]
      exact (claimJob_effect now req _ hrow).history
    have htaken : (decidedRound now req queue c .claim l).takenClass =
        if c.job.rateClass ≠ "" then
          Function.update l.takenClass c.job.rateClass (l.takenClass c.job.rateClass + cost c.job)
        else l.takenClass := rfl
    have hnet : netCharged rc (claimEvents now req c (isCharged c l) (c.job.fence + 1)) =
        if isCharged c l = true ∧ c.job.rateClass = rc then cost c.job else 0 := by
      unfold claimEvents
      cases hcharged : isCharged c l with
      | false | true => simp [Event.net]
    -- only a claim in this class is charged to it
    by_cases hmine : c.job.rateClass = rc ∧ rc ≠ ""
    · obtain ⟨hclass, hne⟩ := hmine
      obtain ⟨hconf, hle⟩ := hfits hclass hne
      have hcharged : isCharged c l = true := by
        unfold isCharged
        rw [hclass, hconf]
        simpa using hne
      have hnew : (decidedRound now req queue c .claim l).takenClass rc =
          l.takenClass rc + cost c.job := by
        rw [htaken, hclass, if_pos hne, Function.update_self]
      have hnonneg := h.nonneg
      refine ⟨?_, ?_, ?_, ?_, ?_⟩
      · rw [hrate]
        exact h.bucket
      · exact fun hnot => absurd (hconf.symm.trans hnot) (by decide)
      · omega
      · omega
      · rw [hhistory, netCharged_append, hnet, if_pos ⟨hcharged, hclass⟩, h.events, hnew]
        omega
    · have hsame : (decidedRound now req queue c .claim l).takenClass rc = l.takenClass rc := by
        rw [htaken]
        split
        · rename_i hne
          rw [Function.update_of_ne]
          rintro rfl
          exact hmine ⟨rfl, hne⟩
        · rfl
      -- a job of another class, or of none, leaves no charge under this name
      have hzero : ¬ (isCharged c l = true ∧ c.job.rateClass = rc) := by
        rintro ⟨hcharged, hclass⟩
        unfold isCharged at hcharged
        rw [Bool.and_eq_true, decide_eq_true_eq, hclass] at hcharged
        exact hmine ⟨hclass, hcharged.1⟩
      refine h.keep (congrFun hrate rc) rfl hsame ?_
      rw [hhistory, netCharged_append, hnet, if_neg hzero, zero_add]

/-- The books before the first round. -/
theorem ClassBooks.start {cands : String → List Candidate} {routes : String → Finset String}
    (hb : s.policy.rate rc = some b) :
    ClassBooks now s rc b (startSelection (s.withRoutes routes) cands) :=
  ⟨hb, fun _ => rfl, le_refl 0, le_max_left 0 _, (add_zero _).symm⟩

/-- What a round preserves. -/
theorem ClassBooks.round {q : String} {rest : List Candidate} (h : ClassBooks now s rc b l)
    (hok : SelectionOk l) (hc : l.cands q = c :: rest) :
    ClassBooks now s rc b
      (considerCandidate now req q c (l.pop q rest)) := by
  have hstart : ClassBooks now s rc b (l.pop q rest) := h.keep rfl rfl rfl rfl
  have hclauses := gateVerdict_clause now req q c (l.pop q rest)
  obtain ⟨hbooks, hfits⟩ := hstart.gateVerdict req q c
  rcases considerCandidate_cases now req q c (l.pop q rest) with
    ⟨-, heq⟩ | ⟨a, -, -, heq⟩ | ⟨a, hsome, hholds, heq⟩
  · rw [heq]
    exact hbooks
  · rw [heq]
    exact hbooks.keep rfl rfl rfl rfl
  · rw [heq]
    obtain ⟨hrow, -, hqueue⟩ := decided_row now req
      (l := l.pop q rest) hok.entries (hok.head hc) hholds
    apply hbooks.decided hrow hqueue
    -- the clauses have not yet counted the job, so its room is still there
    intro hclass hne
    rw [hclauses.tables.takenClass]
    exact hfits (by rw [hsome]; exact Option.some_ne_none a) hclass hne

end

theorem decidedRound_rate (now : Int) (req : AdmitRequest) (queue : String) (c : Candidate)
    (a : Action) (l : Selection) :
    (decidedRound now req queue c a l).store.policy.rate = l.store.policy.rate := by
  cases a with
  | claim => rw [decidedRound_claim_policy]
  | discard | cancelIncoming => rfl

/-- A round configures no class. -/
theorem considerCandidate_rate_none {queue : String} {c : Candidate} {l : Selection}
    (h : l.store.policy.rate rc = none) :
    (considerCandidate now req queue c l).store.policy.rate rc = none := by
  have hverdict : (gateVerdict now req queue c l).1.store.policy.rate rc = none := by
    obtain ⟨rate, configured, t, hlook, hroom, heq⟩ := gateVerdict_eq now req queue c l
    rw [heq]
    show t.policy.rate rc = none
    rw [hroom.unmetered.rate]
    exact (hlook rc).1 h
  rcases considerCandidate_cases now req queue c l with ⟨-, heq⟩ | ⟨a, -, -, heq⟩ | ⟨a, -, -, heq⟩
  · rw [heq]
    exact hverdict
  · rw [heq]
    exact hverdict
  · rw [heq, decidedRound_rate]
    exact hverdict

/-- The deficit charges write no bucket. -/
theorem settle_rate (now : Int) (req : AdmitRequest) (seen : List String) (l : Selection)
    (rc : String) :
    (settle now req seen l).policy.rate rc = (spend l l.store.policy).rate rc := by
  obtain ⟨deficit, hpolicy⟩ := settle_policy now req seen l
  rw [hpolicy]
  rfl

/-- The books at the end of a selection. -/
theorem selection_books (now : Int) (req : AdmitRequest) (order : SetOrder String)
    (hentries : EntriesOk s) (hb : s.policy.rate rc = some b) (queues : List String) :
    ClassBooks now s rc b (selection now req order queues s).1 := by
  refine selection_induct (P := ClassBooks now s rc b) hentries (fun _ => .start hb) ?_
  intro l q c rest hok hl _ _ hc
  exact hl.round hok hc

/-- The bucket of a class that was looked at, after the call has paid. -/
theorem ClassBooks.settled {l : Selection} (h : ClassBooks now s rc b l)
    (hconf : l.configured rc = true) (req : AdmitRequest) (seen : List String) :
    (settle now req seen l).policy.rate rc =
      some { refill now b with tokens := (refill now b).tokens - l.takenClass rc } := by
  rw [settle_rate]
  unfold spend
  dsimp only
  rw [h.bucket, Option.map_some, hconf]
  by_cases htaken : l.takenClass rc > 0
  · simp [htaken]
  · have hzero : l.takenClass rc = 0 := le_antisymm (not_lt.mp htaken) h.nonneg
    simp [hzero]

/-- **One admission, one class.**  It takes out `n` tokens, at most those available at its
start, and refills the bucket first if it takes any. -/
theorem admitCall_class (now : Int) (req : AdmitRequest) (order : SetOrder String)
    (hentries : EntriesOk s) (hb : s.policy.rate rc = some b) :
    ∃ n, 0 ≤ n ∧ n ≤ max 0 (refill now b).tokens ∧
      netCharged rc (admitCall now req order s).1.history = netCharged rc s.history + n ∧
      ((admitCall now req order s).1.policy.rate rc =
          some { refill now b with tokens := (refill now b).tokens - n } ∨
        n = 0 ∧ (admitCall now req order s).1.policy.rate rc = some b) := by
  by_cases hlease : req.leaseMs < 1
  · rw [admitCall_refused hlease]
    exact ⟨0, le_refl 0, le_max_left 0 _, by simp, .inr ⟨rfl, hb⟩⟩
  · rw [admitCall_eq (not_lt.mp hlease)]
    have hbooks := selection_books now req order hentries hb (requestQueues req)
    generalize selection now req order (requestQueues req) s = sel at hbooks ⊢
    refine ⟨sel.1.takenClass rc, hbooks.nonneg, hbooks.fits, hbooks.events, ?_⟩
    -- a class that no candidate asked for keeps its stored bucket, without a refill
    cases hconf : sel.1.configured rc with
    | true => exact .inl (hbooks.settled hconf req sel.2)
    | false =>
      refine .inr ⟨hbooks.idle hconf, ?_⟩
      rw [settle_rate]
      unfold spend
      dsimp only
      rw [hbooks.bucket, Option.map_some]
      simp [hconf]

theorem admitCall_rate_none {order : SetOrder String} (h : s.policy.rate rc = none) :
    (admitCall now req order s).1.policy.rate rc = none := by
  by_cases hlease : req.leaseMs < 1
  · rw [admitCall_refused hlease]
    exact h
  · have hloop : (selection now req order (requestQueues req) s).1.store.policy.rate rc = none := by
      obtain ⟨routes, -, hsel⟩ := selection_eq now req order (requestQueues req) s
      rw [hsel]
      apply selectLoop_induct (P := fun l => l.store.policy.rate rc = none)
      · intro l q c rest hl _ _ _
        exact considerCandidate_rate_none hl
      · exact h
    rw [admitCall_eq (not_lt.mp hlease)]
    rw [settle_rate]
    unfold spend
    dsimp only
    rw [hloop]
    rfl

/-! ## Section 3: One class, one call -/

/-- Is this the operator's configuration of the class? -/
def Op.configures (rc : String) : Op → Bool
  | .upsertRateClass name _ _ _ _ => name = rc
  | _ => false

/-- What a call other than a configuration does to a bucket, and what it takes out. -/
inductive ClassStep (now : Int) (b : Bucket) : Bucket → Int → Prop where
  | keep : ClassStep now b b 0
  /-- An admission: refill, then spend what was available at most. -/
  | spend (n : Int) (nonneg : 0 ≤ n) (fits : n ≤ max 0 (refill now b).tokens) :
      ClassStep now b { refill now b with tokens := (refill now b).tokens - n } n
  /-- An ack: refill, then correct the charge of the attempt. -/
  | correct (charge actual : Int) :
      ClassStep now b (reconcileBucket now charge actual b) (actual - charge)

theorem step_class {c : Call} (hentries : EntriesOk s) (hop : c.op.configures rc = false)
    (hb : s.policy.rate rc = some b) :
    ∃ b' d, ClassStep c.now b b' d ∧ (step s c).policy.rate rc = some b' ∧
      netCharged rc (step s c).history = netCharged rc s.history + d := by
  have hkeep : ∀ {t : Store}, Unmetered s t → ∃ b' d, ClassStep c.now b b' d ∧
      t.policy.rate rc = some b' ∧ netCharged rc t.history = netCharged rc s.history + d := by
    intro t ht
    refine ⟨b, 0, .keep, ?_, ?_⟩
    · rw [ht.rate]
      exact hb
    · rw [ht.netCharged, add_zero]
  -- admissions, acknowledgements and new limits are all that can touch a bucket
  by_cases hmeter : c.op.isUnmetered
  · exact hkeep (step_unmetered s c hmeter)
  · obtain ⟨now, op⟩ := c
    cases op with
    | admission req order =>
      obtain ⟨n, hnonneg, hfits, hnet, hspent | ⟨rfl, hsame⟩⟩ :=
        admitCall_class now req order hentries hb
      · exact ⟨_, n, .spend n hnonneg hfits, hspent, hnet⟩
      · exact ⟨b, 0, .keep, hsame, hnet⟩
    | ack ref args =>
      rcases ack_class now ref args s with hun | ⟨name, b', charge, actual, hb', -, hrate, hevents⟩
      · exact hkeep hun
      · have hnet : netCharged rc (ack now ref args s).1.history =
            (if name = rc then actual - charge else 0) + netCharged rc s.history := by
          rw [← netCharged_rateEvents, hevents, netCharged_cons, netCharged_rateEvents]
          rfl
        by_cases hname : name = rc
        · subst hname
          rw [hb] at hb'
          cases hb'
          refine ⟨_, actual - charge, .correct charge actual, ?_, ?_⟩
          · show (ack now ref args s).1.policy.rate name = _
            rw [hrate, Function.update_self]
          · show netCharged name (ack now ref args s).1.history = _
            rw [hnet, if_pos rfl, add_comm]
        · refine ⟨b, 0, .keep, ?_, ?_⟩
          · show (ack now ref args s).1.policy.rate rc = _
            rw [hrate, Function.update_of_ne (Ne.symm hname)]
            exact hb
          · show netCharged rc (ack now ref args s).1.history = _
            rw [hnet, if_neg hname, zero_add, add_zero]
    | upsertRateClass name =>
      have hname : name ≠ rc := by simpa [Op.configures] using hop
      simp only [step]
      split
      · refine ⟨b, 0, .keep, ?_, (add_zero _).symm⟩
        simpa [upsertRateClass, Policy.setRate, Ne.symm hname] using hb
      · exact hkeep (.refl s)
    | _ => exact absurd trivial hmeter

/-- A bucket as the operator may configure it, last refilled by `t` at the latest. -/
structure BucketOk (t : Int) (b : Bucket) : Prop where
  window : 1 ≤ b.window
  limit : 0 ≤ b.limit
  tokens : b.tokens ≤ b.burst
  refilled : b.refilled ≤ t

theorem refill_ok (h : BucketOk t b) (hnow : now ≤ t) :
    BucketOk t (refill now b) := by
  unfold refill
  dsimp only
  split
  · exact ⟨h.window, h.limit, min_le_left _ _, hnow⟩
  · exact h

theorem ClassStep.ok (h : ClassStep now b b' d) (hb : BucketOk t b) (hnow : now ≤ t) :
    BucketOk t b' := by
  cases h with
  | keep => exact hb
  | spend =>
    have hrefill := refill_ok hb hnow
    refine ⟨hrefill.window, hrefill.limit, ?_, hrefill.refilled⟩
    have htokens := hrefill.tokens
    dsimp only
    omega
  | correct => exact ⟨hb.window, hb.limit, min_le_left _ _, hnow⟩

/-- A call leaves the configuration alone. -/
theorem ClassStep.config (h : ClassStep now b b' d) :
    b'.burst = b.burst ∧ b'.limit = b.limit ∧ b'.window = b.window := by
  have hrefill : (refill now b).burst = b.burst ∧ (refill now b).limit = b.limit ∧
      (refill now b).window = b.window := by
    unfold refill
    dsimp only
    split
    · exact ⟨rfl, rfl, rfl⟩
    · exact ⟨rfl, rfl, rfl⟩
  cases h with
  | keep | correct => exact ⟨rfl, rfl, rfl⟩
  | spend => exact hrefill

/-- The refill rate of a well-formed bucket. -/
def Bucket.rate (b : Bucket) {t : Int} (h : BucketOk t b) : Rate where
  burst := b.burst
  limit := b.limit
  window := b.window
  window_pos := h.window
  limit_nonneg := h.limit

/-- A call keeps the books of an interval that has begun. -/
theorem ClassStep.within {start net : Int} {r : Rate} (h : ClassStep now b b' d)
    (hr : r.burst = b.burst ∧ r.limit = b.limit ∧ r.window = b.window)
    (hwithin : r.Within start net b.tokens b.refilled) (hstart : start ≤ now)
    (hmark : b.refilled ≤ now) (hexact : b.Exact (now - b.refilled)) :
    r.Within start (net + d) b'.tokens b'.refilled := by
  have hgain : b.gained (now - b.refilled) = r.gain (now - b.refilled) := by
    rw [Bucket.gained_eq (hr.2.2 ▸ r.window_pos) hexact, Rate.gain, hr.2.1, hr.2.2]
  -- the gain is credited, up to the burst, and the mark moves to `now`
  have hcredit : r.Within start net (min b.burst (b.tokens + r.gain (now - b.refilled))) now :=
    hwithin.credit hstart (by rw [hr.1]; exact min_le_left _ _) (min_le_right _ _)
  cases h with
  | keep =>
    rw [add_zero]
    exact hwithin
  | spend =>
    unfold refill
    dsimp only
    rw [hgain]
    split
    · apply hcredit.book hstart
      dsimp only
      omega
    · rename_i hnone
      exact hwithin.spend hstart (not_lt.mp hnone)
  | correct charge actual =>
    have hpast : max 0 (now - b.refilled) = now - b.refilled := max_eq_right (by omega)
    unfold reconcileBucket
    dsimp only
    rw [hpast, hgain]
    apply hcredit.book hstart
    have hcap := min_le_right b.burst
      (min b.burst (b.tokens + r.gain (now - b.refilled)) + charge - actual)
    omega

/-! ## Section 4: Runs -/

/-- Every bucket is well formed. -/
def BucketsOk (t : Int) (s : Store) : Prop :=
  ∀ rc b, s.policy.rate rc = some b → BucketOk t b

/-- A call by time `t` keeps all buckets well formed. -/
theorem step_bucketsOk {c : Call} (hentries : EntriesOk s) (h : BucketsOk t s) (hnow : c.now ≤ t) :
    BucketsOk t (step s c) := by
  intro rc b' hb'
  cases hop : c.op.configures rc with
  | false =>
    cases hb : s.policy.rate rc with
    | some b =>
      obtain ⟨b'', d, hclass, hrate, -⟩ := step_class hentries hop hb
      rw [hb'] at hrate
      cases hrate
      exact hclass.ok (h rc b hb) hnow
    | none =>
      -- a class nobody configures stays without bucket
      exfalso
      obtain ⟨now, op⟩ := c
      have hnone : (step s ⟨now, op⟩).policy.rate rc = none := by
        by_cases hmeter : op.isUnmetered
        · rw [(step_unmetered s ⟨now, op⟩ hmeter).rate]
          exact hb
        · cases op with
          | admission => exact admitCall_rate_none hb
          | ack ref args =>
            show (ack now ref args s).1.policy.rate rc = none
            rcases ack_class now ref args s with hun | ⟨name, b, charge, actual, hname, -, hrate, -⟩
            · rw [hun.rate]
              exact hb
            · rw [hrate, Function.update_of_ne]
              · exact hb
              · rintro rfl
                rw [hb] at hname
                cases hname
          | upsertRateClass name =>
            have hname : name ≠ rc := by simpa [Op.configures] using hop
            simp only [step]
            split
            · simpa [upsertRateClass, Policy.setRate, Ne.symm hname] using hb
            · exact hb
          | _ => exact absurd trivial hmeter
      rw [hnone] at hb'
      cases hb'
  | true =>
    obtain ⟨now, op⟩ := c
    cases op with
    | upsertRateClass name limit window burst =>
      simp only [step] at hb'
      split at hb'
      · rename_i hvalid
        have hname : name = rc := by simpa [Op.configures] using hop
        subst hname
        have hranges : (1 ≤ window ∧ 0 ≤ limit) ∧ 1 ≤ burst := by simpa [rateClassOk] using hvalid
        simp only [upsertRateClass, Policy.setRate, Function.update_self, Option.some.injEq] at hb'
        rw [← hb']
        refine ⟨hranges.1.1, ?_, ?_, hnow⟩
        · dsimp only
          split
          · exact le_refl 0
          · exact hranges.1.2
        · dsimp only
          split
          · split <;> omega
          · split
            · omega
            · split <;> omega
      · exact h rc b' hb'
    | _ => cases hop

theorem exec_bucketsOk {calls : List Call} (h : ∀ c ∈ calls, c.now ≤ t) :
    BucketsOk t (exec calls) := by
  refine exec_invariant (fun rc b hb => ?_) (fun calls c hnow hs => ?_) (.of_forall h _)
  · cases hb
  · exact step_bucketsOk (exec_entriesOk calls) hs hnow

/-- The books of an interval along a run inside it. -/
theorem run_within {start stop net₀ : Int} {r : Rate} {calls : List Call} (hentries : EntriesOk s)
    (hb : s.policy.rate rc = some b)
    (hr : r.burst = b.burst ∧ r.limit = b.limit ∧ r.window = b.window)
    (hwithin : r.Within start (netCharged rc s.history - net₀) b.tokens b.refilled)
    (hmark : b.refilled ≤ stop) (hexact : b.Exact (stop - b.refilled))
    (hpast : ∀ c ∈ calls, b.refilled ≤ c.now)
    (hclock : calls.Pairwise fun c c' => c.now ≤ c'.now)
    (hinside : ∀ c ∈ calls, start ≤ c.now ∧ c.now ≤ stop)
    (hfixed : ∀ c ∈ calls, c.op.configures rc = false) :
    ∃ b', (run step s calls).policy.rate rc = some b' ∧
      (r.burst = b'.burst ∧ r.limit = b'.limit ∧ r.window = b'.window) ∧
      r.Within start (netCharged rc (run step s calls).history - net₀) b'.tokens b'.refilled ∧
      b'.refilled ≤ stop := by
  induction calls generalizing s b with
  | nil => exact ⟨b, hb, hr, hwithin, hmark⟩
  | cons c calls ih =>
    have hmem : c ∈ c :: calls := List.mem_cons_self
    obtain ⟨b', d, hclass, hb', hnet⟩ := step_class hentries (hfixed c hmem) hb
    have hconfig := hclass.config
    -- the mark stays or moves to the clock of the call
    have hmark' : b.refilled ≤ b'.refilled ∧ b'.refilled ≤ c.now := by
      have hlate := hpast c hmem
      cases hclass with
      | keep => exact ⟨le_refl _, hlate⟩
      | spend =>
        unfold refill
        dsimp only
        split
        · exact ⟨hlate, le_refl _⟩
        · exact ⟨le_refl _, hlate⟩
      | correct => exact ⟨hlate, le_refl _⟩
    have hlimit : 0 ≤ b.limit := hr.2.1 ▸ r.limit_nonneg
    have hshorter : ∀ {elapsed : Int}, elapsed ≤ stop - b.refilled → b.Exact elapsed := by
      intro elapsed hle
      exact ⟨lt_of_le_of_lt (mul_le_mul_of_nonneg_right hle hlimit) hexact.1, hexact.2⟩
    rw [List.pairwise_cons] at hclock
    apply ih (step_entriesOk s c hentries) hb'
    · rw [hconfig.1, hconfig.2.1, hconfig.2.2]
      exact hr
    · have hstep := hclass.within hr hwithin (hinside c hmem).1 (hpast c hmem)
        (hshorter (sub_le_sub_right (hinside c hmem).2 _))
      rw [hnet]
      have hsum : netCharged rc s.history + d - net₀ = netCharged rc s.history - net₀ + d := by ring
      rw [hsum]
      exact hstep
    · exact le_trans hmark'.2 (hinside c hmem).2
    · have hexact' := hshorter (sub_le_sub_left hmark'.1 stop)
      rwa [Bucket.Exact, ← hconfig.2.1, ← hconfig.2.2] at hexact'
    · exact fun c' hc' => le_trans hmark'.2 (hclock.1 c' hc')
    · exact hclock.2
    · exact fun c' hc' => hinside c' (List.mem_cons_of_mem _ hc')
    · exact fun c' hc' => hfixed c' (List.mem_cons_of_mem _ hc')

/-- A class of one token a second with a burst of five, and two jobs of it. -/
def oneASecond : List Call :=
  [⟨0, .upsertRateClass "r" 1 1000 5 false⟩,
    ⟨0, .enqueue [{ id := "a", kind := "k", queue := "q", rateClass := "r", weight := 5 }]⟩,
    ⟨0, .enqueue [{ id := "b", kind := "k", queue := "q", rateClass := "r", weight := 1 }]⟩]

/-- Admissions one millisecond apart, around the instant the sixth token is gained. -/
def aroundTheSecond : List Call :=
  [⟨999, .admission ⟨"w", "L1", ["q"], 2, 10, 2⟩ .increasing⟩,
    ⟨1000, .admission ⟨"w", "L2", ["q"], 2, 10, 2⟩ .increasing⟩]

/-- The attempt turns out to weigh twenty. -/
def heavyAttempt : List Call :=
  [⟨0, .admission ⟨"w", "L1", ["q"], 1, 10, 1⟩ .increasing⟩,
    ⟨0, .ack ⟨"a", "L1", 1⟩
      { outcome := .success, retryBaseMs := 1, retryCapMs := 1, actualWeight := some 20 }⟩]

end Headgate.Redis
