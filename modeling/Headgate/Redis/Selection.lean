import Headgate.Data.Fair
import Headgate.Redis.Admission

/-!
# The selection loop, round by round

A round takes one candidate of the chosen queue through the policy clauses
(`gateVerdict`) and, if one of them does not hold it back, decides it.  The
clauses write to the store only: refilled buckets and displaced jobs.  The
script's tables change in the decision alone.
-/

namespace Headgate.Redis

open Headgate.Core Data Relation

variable {p p' : Policy} {c : Candidate} {l : Selection} {q : String} {queues : List String}
  {now : Int} {req : AdmitRequest} {order : SetOrder String} {s : Store}

section
variable (now : Int) (req : AdmitRequest) (queue : String) (c : Candidate) (l : Selection)

/-- A claim leaves the policy alone. -/
theorem decidedRound_claim_policy :
    (decidedRound now req queue c .claim l).store.policy = l.store.policy := by
  show (claimJob now req queue c _
    (removeWaiting c.id queue c.job.partitionKey c.job.stickyWorker l.store)).policy = _
  unfold claimJob
  split
  · rfl
  · rfl

/-- A decision writes depth counters at most. -/
theorem decidedRound_rules (a : Action) (l : Selection) :
    l.store.policy.SameRules (decidedRound now req queue c a l).store.policy := by
  cases a with
  | claim =>
    rw [decidedRound_claim_policy]
    exact .refl _
  | discard | cancelIncoming => exact ⟨_, _, rfl⟩

theorem considerCandidate_rules :
    l.store.policy.SameRules (considerCandidate now req queue c l).store.policy := by
  have hclauses := (gateVerdict_clause now req queue c l).rules
  rcases considerCandidate_cases now req queue c l with ⟨-, heq⟩ | ⟨a, -, -, heq⟩ | ⟨a, -, -, heq⟩
  · rw [heq]
    exact hclauses
  · rw [heq]
    exact hclauses
  · rw [heq]
    exact hclauses.trans (decidedRound_rules now req queue c a _)

end

/-! ## Section 3: The loop runs to the end -/

section
variable {weight : String → Int}

theorem chooseQueue_eq : chooseQueue weight queues l =
    queues.foldl (prefer (fun q => l.cands q = []) (servedBefore l.served weight)) none := by
  unfold chooseQueue
  congr
  funext chosen q
  cases chosen with
  | none | some => rfl

/-- Some queue is chosen as long as one has candidates. -/
theorem chooseQueue_eq_none :
    chooseQueue weight queues l = none ↔ ∀ q ∈ queues, l.cands q = [] := by
  rw [chooseQueue_eq, foldl_prefer_eq_none]
  simp

/-- The chosen queue is a requested one and has a candidate. -/
theorem chooseQueue_mem (h : chooseQueue weight queues l = some q) :
    q ∈ queues ∧ l.cands q ≠ [] := by
  rw [chooseQueue_eq] at h
  rcases (foldl_prefer_eq_some (r := fun _ _ => True) (by simp) (by simp) (by simp) (by simp) h).1
    with hnone | hmem
  · cases hnone
  · exact hmem

end

/-- The candidates not met yet. -/
def remaining (queues : List String) (l : Selection) : Nat :=
  (queues.map fun q => (l.cands q).length).sum

theorem remaining_round (hnodup : queues.Nodup) {rest : List Candidate} (hq : q ∈ queues)
    (hc : l.cands q = c :: rest) :
    remaining queues (l.pop q rest) + 1 = remaining queues l := by
  unfold remaining
  dsimp only
  induction queues with
  | nil => cases hq
  | cons a qs ih =>
    rw [List.nodup_cons] at hnodup
    simp only [List.map_cons, List.sum_cons]
    by_cases ha : a = q
    · subst ha
      -- the other queues keep their lists
      have hrest : (qs.map fun q' => (Function.update l.cands a rest q').length) =
          qs.map fun q' => (l.cands q').length := by
        refine List.map_congr_left fun q' hq' => ?_
        rw [Function.update_of_ne]
        rintro rfl
        exact hnodup.1 hq'
      rw [hrest, Function.update_self, hc, List.length_cons]
      omega
    · have hin : q ∈ qs := (List.mem_cons.mp hq).resolve_left (Ne.symm ha)
      have hsum := ih hnodup.2 hin
      rw [Function.update_of_ne ha]
      omega

section
variable (now : Int) (req : AdmitRequest) (weight : String → Int)

/-- **The loop runs to the end**: it stops at the capacity or without candidates. -/
theorem selectLoop_exhausts (hnodup : queues.Nodup) (fuel : Nat) (l : Selection)
    (hfuel : remaining queues l ≤ fuel) :
    req.capacity ≤ (selectLoop now req weight queues fuel l).decided ∨
      ∀ q ∈ queues, (selectLoop now req weight queues fuel l).cands q = [] := by
  induction fuel generalizing l with
  | zero =>
    right
    intro q hq
    have hzero : remaining queues l = 0 := Nat.le_zero.mp hfuel
    unfold remaining at hzero
    rw [List.sum_eq_zero_iff] at hzero
    exact List.length_eq_zero_iff.mp (hzero _ (List.mem_map_of_mem hq))
  | succ n ih =>
    unfold selectLoop
    split
    · split
      · rename_i hnone
        exact .inr (chooseQueue_eq_none.mp hnone)
      · rename_i q hq
        obtain ⟨hmem, hne⟩ := chooseQueue_mem hq
        split
        · rename_i hnil
          exact absurd hnil hne
        · rename_i c rest hc
          refine ih (considerCandidate now req q c (l.pop q rest)) ?_
          have hround := remaining_round hnodup hmem hc
          have hcands : remaining queues (considerCandidate now req q c (l.pop q rest)) =
              remaining queues (l.pop q rest) := by
            unfold remaining
            rw [considerCandidate_cands]
          omega
    · rename_i hcap
      exact .inl (Nat.le_of_not_lt hcap)

theorem selectLoop_rules (queues : List String) (fuel : Nat) (l : Selection) :
    l.store.policy.SameRules (selectLoop now req weight queues fuel l).store.policy := by
  apply selectLoop_induct (P := fun l' => l.store.policy.SameRules l'.store.policy)
  · intro l' q c rest hl' _ _ _
    exact hl'.trans (considerCandidate_rules now req q c (l'.pop q rest))
  · exact .refl _

/-- A call's selection changes neither ceilings nor quarantine nor deficits. -/
theorem selection_rules (order : SetOrder String) (queues : List String) (s : Store) :
    s.policy.SameRules (selection now req order queues s).1.store.policy := by
  obtain ⟨routes, -, hsel⟩ := selection_eq now req order queues s
  rw [hsel]
  exact selectLoop_rules now req (qweight s) queues _ (startSelection (s.withRoutes routes) _)

end

/-! ## Section 4: The call -/

/-- **Selection rule.**  What holds of the drawn lists and is kept by every round holds at the
end of a call's selection. -/
theorem selection_induct {P : Selection → Prop} (hentries : EntriesOk s)
    (hstart : ∀ routes, P (startSelection (s.withRoutes routes)
      (drawnCands now req order queues s)))
    (hround : ∀ l q c rest, SelectionOk l → P l → l.decided < req.capacity →
      chooseQueue (qweight s) queues l = some q → l.cands q = c :: rest →
      P (considerCandidate now req q c (l.pop q rest))) :
    P (selection now req order queues s).1 := by
  obtain ⟨routes, -, hsel⟩ := selection_eq now req order queues s
  rw [hsel]
  refine (selectLoop_induct (P := fun l => SelectionOk l ∧ P l) ?_ _ _
    ⟨startSelection_ok hentries, hstart routes⟩).2
  intro l q c rest hl hroom hchoose hc
  exact ⟨(hl.1.round now req hc).1, hround l q c rest hl.1 hl.2 hroom hchoose hc⟩

/-- A call's selection runs to the end. -/
theorem selection_exhausts (now : Int) (req : AdmitRequest) (order : SetOrder String)
    (hnodup : queues.Nodup) (s : Store) :
    req.capacity ≤ (selection now req order queues s).1.decided ∨
      ∀ q ∈ queues, (selection now req order queues s).1.cands q = [] := by
  obtain ⟨routes, -, hsel⟩ := selection_eq now req order queues s
  rw [hsel]
  exact selectLoop_exhausts now req (qweight s) hnodup _ _ le_rfl

/-- The queues a request makes the script work on. -/
def requestQueues (req : AdmitRequest) : List String :=
  scriptQueues (csvJoin (normalizeQueues req.queues))

theorem requestQueues_nodup (req : AdmitRequest) : (requestQueues req).Nodup := List.nodup_dedup _

theorem admitCall_refused (h : req.leaseMs < 1) :
    admitCall now req order s = (s, .error (.invalid "lease must be >= 1ms")) := by
  unfold admitCall
  rw [if_pos h]

theorem admitCall_eq (h : 1 ≤ req.leaseMs) :
    admitCall now req order s =
      (settle now req (selection now req order (requestQueues req) s).2
        (selection now req order (requestQueues req) s).1,
      .ok (selection now req order (requestQueues req) s).1.claimed) := by
  have hlease : ¬ req.leaseMs < 1 := by omega
  unfold admitCall admitScript requestQueues
  rw [if_neg hlease]

/-! ## Section 5: The writes of a call -/

/-- One write of an admission. -/
inductive GateWrite (now : Int) (s t : Store) : Prop where
  /-- Buckets, shares, routes and registrations. -/
  | side (jobs : t.jobs = s.jobs) (index : t.index = s.index)
      (enqueue : t.policy.enqueue = s.policy.enqueue)
      (quarantine : t.policy.quarantine = s.policy.quarantine)
  | claim (id : String) (j : Job) (req : AdmitRequest) (charge : Int) (row : s.job? id = some j)
      (waiting : j.state.isWaiting = true)
      (jobs : t.jobs = s.jobs.insert id (claimedRow now req charge j))
      (index : t.index = s.index.moveIdx j.queue j.state .running now id)
      (policy : t.policy = s.policy)
  /-- A waiting candidate is turned away, or a running job is displaced by one. -/
  | finish (id : String) (j : Job) (fence : Nat) (to_ : State) (x : Index)
      (row : s.job? id = some j) (live : j.state.isWaiting = true ∨ j.state = .running)
      (rule : gateRule j.lifecycle (some { j.lifecycle with state := to_ }))
      (out : to_ = .archived ∨ to_ = .cancelled)
      (jobs : t.jobs = s.jobs.insert id { j with
        fence := fence, state := to_, finalizedAtMs := some now, rateCharge := 0, lease := none })
      (sched : x = s.index ∨ x = s.index.remSched id)
      (index : t.index = ((x.moveIdx j.queue j.state to_ now id).remFpi j.fingerprint id).retain
        now j.retentionMs id)
      (policy : t.policy = s.policy.leaveUnfinished j.queue)

def GateWrites (now : Int) : Store → Store → Prop := ReflTransGen (GateWrite now)

theorem GateWrites.side {t : Store} (jobs : t.jobs = s.jobs) (index : t.index = s.index)
    (enqueue : t.policy.enqueue = s.policy.enqueue)
    (quarantine : t.policy.quarantine = s.policy.quarantine) : GateWrites now s t :=
  .single (.side jobs index enqueue quarantine)

section
variable (now : Int) (req : AdmitRequest) (queue : String)

/-- The clauses write a bucket or displace a running job. -/
private theorem gateVerdict_writes (c : Candidate) (l : Selection) :
    GateWrites now l.store (gateVerdict now req queue c l).1.store := by
  obtain ⟨rate, configured, t, -, hroom, heq⟩ := gateVerdict_eq now req queue c l
  rw [heq]
  have hrate : GateWrites now l.store (l.refilled rate configured).store := .side rfl rfl rfl rfl
  refine .trans hrate (.mono ?_ _ _ hroom)
  intro s t w
  cases w with
  | purge => exact .side rfl rfl rfl rfl
  | displace id j row running =>
    refine .finish id j (j.fence + 1) .cancelled s.index row (.inr running)
      (.inr ⟨.inr running, rfl⟩) (.inr rfl) rfl (.inl rfl) ?_ rfl
    rw [running]
    rfl

/-- A decision on a candidate that still has its row. -/
private theorem decidedRound_write (a : Action) (row : l.store.job? c.id = some c.job)
    (hwaiting : c.job.state.isWaiting = true) :
    GateWrite now l.store (decidedRound now req c.job.queue c a l).store := by
  have hrow : (removeWaiting c.id c.job.queue c.job.partitionKey c.job.stickyWorker
      l.store).job? c.id = some c.job := row
  have hend : ∀ to_, gateRule c.job.lifecycle (some { c.job.lifecycle with state := to_ }) →
      to_ = .archived ∨ to_ = .cancelled → GateWrite now l.store (terminalizeIncoming now c to_
        (removeWaiting c.id c.job.queue c.job.partitionKey c.job.stickyWorker l.store)) := by
    intro to_ rule out
    unfold terminalizeIncoming
    rw [hrow]
    exact .finish c.id c.job c.job.fence to_ (l.store.index.remSched c.id) row (.inl hwaiting) rule
      out rfl (.inr rfl) rfl rfl
  cases a with
  | claim =>
    show GateWrite now l.store (claimJob now req c.job.queue c _
      (removeWaiting c.id c.job.queue c.job.partitionKey c.job.stickyWorker l.store))
    unfold claimJob
    rw [hrow]
    exact .claim c.id c.job req _ row hwaiting rfl rfl rfl
  | discard => exact hend .archived (.inl ⟨hwaiting, .inr rfl⟩) (.inl rfl)
  | cancelIncoming => exact hend .cancelled (.inr ⟨.inl hwaiting, rfl⟩) (.inr rfl)

private theorem considerCandidate_writes (hentries : EntriesOk l.store) (hsnap : Snapshot l.store c)
    :
    GateWrites now l.store (considerCandidate now req queue c l).store := by
  have hverdict := gateVerdict_writes now req queue c l
  rcases considerCandidate_cases now req queue c l with ⟨-, heq⟩ | ⟨a, -, -, heq⟩ | ⟨a, -, hin, heq⟩
  · rw [heq]
    exact hverdict
  · rw [heq]
    exact .tail hverdict (.side rfl rfl rfl rfl)
  · obtain ⟨row, hwaiting, rfl⟩ := decided_row now req hentries hsnap hin
    rw [heq]
    exact .tail hverdict (decidedRound_write now req a row hwaiting)

/-- The deferred accounting of a call: service, buckets, and the credit that was used. -/
theorem settle_policy (seen : List String) (l : Selection) :
    ∃ deficit, (settle now req seen l).policy = { spend l { l.store.policy with
      qserved := fun q => l.store.policy.qserved q + l.servedDelta q } with deficit := deficit } := by
  have hcharge : ∀ (keys : List String) (p : Policy), ∃ deficit,
      keys.foldl (chargeDeficit req.quantum l.takenPart) p = { p with deficit := deficit } := by
    intro keys
    induction keys with
    | nil => exact fun p => ⟨p.deficit, rfl⟩
    | cons key keys ih =>
      intro p
      obtain ⟨deficit, hkeys⟩ := ih (chargeDeficit req.quantum l.takenPart p key)
      exact ⟨deficit, hkeys⟩
  exact hcharge _ _

/-- The end of a call writes shares and registrations. -/
private theorem settle_write (seen : List String) (l : Selection) :
    GateWrite now l.store (settle now req seen l) := by
  obtain ⟨deficit, hpolicy⟩ := settle_policy now req seen l
  refine .side rfl rfl ?_ ?_
  · rw [hpolicy]
    rfl
  · rw [hpolicy]
    rfl

/-- **The cut of an admission.** -/
theorem admitCall_writes (order : SetOrder String) (hentries : EntriesOk s) :
    GateWrites now s (admitCall now req order s).1 := by
  by_cases hlease : 1 ≤ req.leaseMs
  · rw [admitCall_eq hlease]
    have hloop : GateWrites now s (selection now req order (requestQueues req) s).1.store := by
      apply selection_induct (P := fun l => GateWrites now s l.store) hentries
      · exact fun routes => .side rfl rfl rfl rfl
      · intro l q c rest hok hwrites _ _ hc
        exact .trans hwrites (considerCandidate_writes now req q
          (l := l.pop q rest) hok.entries (hok.head hc))
    exact .tail hloop (settle_write now req _ _)
  · rw [admitCall_refused (by omega)]
    exact .refl

end

end Headgate.Redis
