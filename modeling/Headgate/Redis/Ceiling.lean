import Headgate.Redis.Standing

/-!
# The concurrency ceiling of an admission

The gate consults the counter of a partition, which moves as it claims and
displaces, but finds its victims through the partition's zset, which it does not
write before the selection is over.  Two layers follow from this.

The counter alone bounds what an admission leaves running, whatever the zset
says: a claim needs room, or a displaced job of the same partition.  Which jobs
are displaced, and how many, takes the zset and the streams at their word
(`ListedOk`, `Standing`): then every displaced job pays for one claim, the gate
starts to displace when the free places are gone, and it takes the longest
running first.
-/

namespace Headgate.Redis

open Headgate.Core Data Relation

variable {s : Store} {id part queue x : String} {cfg : ConcurrencyLimit}

/-! ## Section 1: The bound -/

/-- Making room frees one place of the partition, or none at all. -/
theorem cancelOldestRunning_inflight (now : Int) (queue part : String) (fuel : Nat) (s : Store) :
    (cancelOldestRunning now queue part fuel s).1.running.inflight =
      bif (cancelOldestRunning now queue part fuel s).2 then
        (s.running.decInflight queue part).inflight
      else s.running.inflight := by
  induction fuel generalizing s with
  | zero => rfl
  | succ n ih =>
    unfold cancelOldestRunning
    cases (s.running.runningp (partKey queue part)).first with
    | none => rfl
    | some id =>
      -- an entry that is skipped leaves the counters alone
      have hskip := ih { s with running := s.running.purgeRunningp (partKey queue part) id }
      dsimp only
      cases s.job? id with
      | none => exact hskip
      | some j =>
        dsimp only
        by_cases hown : j.state = .running ∧ j.queue = queue ∧ j.partitionKey = part
        · rw [if_pos hown, ← hown.2.1, ← hown.2.2]
          rfl
        · rw [if_neg hown]
          exact hskip

theorem decInflight_le (r : Running) (queue part q p : String)
    (hpos : q = queue ∧ p = part → 0 ≤ r.inflight queue part) :
    (r.decInflight queue part).inflight q p ≤ r.inflight q p := by
  rw [Running.inflight_dec]
  by_cases hqp : q = queue ∧ p = part
  · have h := hpos hqp
    rw [if_pos hqp, hqp.1, hqp.2]
    split <;> omega
  · rw [if_neg hqp]

/-- A limit below one counts as none. -/
theorem concurrencyPolicy_pos (limit : concurrencyPolicy s queue = some cfg) :
    1 ≤ cfg.maxConcurrent := by
  simpa using (Option.mem_filter_iff.mp limit).2

/-- A verdict adds nothing to a counter, and a claim it lets through has a place. -/
structure KeepsRoom (queue part : String) (l : Selection) (v : Selection × Option Action) :
    Prop where
  le : ∀ q p, v.1.store.running.inflight q p ≤ l.store.running.inflight q p
  place : ∀ cfg, concurrencyPolicy l.store queue = some cfg → v.2 = some .claim →
    v.1.store.running.inflight queue part + 1 ≤
      max cfg.maxConcurrent (l.store.running.inflight queue part)

/-- The counters stay and a claim that is let through has a place, or a running job makes room. -/
inductive Passage (limit : Option ConcurrencyLimit) (r : Running) (queue part : String)
    (v : Selection × Option Action) : Prop where
  | plain (same : v.1.store.running.inflight = r.inflight)
      (place : v.2 = some .claim → ∀ cfg, limit = some cfg →
        r.inflight queue part < cfg.maxConcurrent)
  | displaced (cfg : ConcurrencyLimit) (limited : limit = some cfg)
      (strategy : cfg.onSaturated = .cancelRunning)
      (full : cfg.maxConcurrent ≤ r.inflight queue part)
      (less : v.1.store.running.inflight = (r.decInflight queue part).inflight)

section
variable (now : Int) (req : AdmitRequest) (queue : String) (c : Candidate) (l : Selection)

theorem passCeiling_passage : Passage (concurrencyPolicy l.store queue) l.store.running queue
    c.job.partitionKey (passCeiling now queue c l) := by
  unfold passCeiling
  cases hlimit : concurrencyPolicy l.store queue with
  | none => exact .plain rfl fun _ _ hcfg => nomatch hcfg
  | some cfg =>
    have hplain : ∀ a : Option Action,
        (l.store.running.inflight queue c.job.partitionKey ≥ cfg.maxConcurrent →
          a ≠ some .claim) →
        Passage (some cfg) l.store.running queue c.job.partitionKey (l, a) := by
      refine fun a hfull => .plain rfl fun hclaim cfg' hcfg => ?_
      cases hcfg
      exact not_le.mp fun hle => hfull hle hclaim
    dsimp only
    cases hstrategy : cfg.onSaturated with
    -- only this strategy writes; the other three compare the counter with the maximum
    | cancelRunning =>
      dsimp only
      split
      · exact hplain none fun _ => by simp
      · split
        · rename_i hfull
          set r := cancelOldestRunning now queue c.job.partitionKey
            (l.store.running.runningp (partKey queue c.job.partitionKey)).card l.store with hr
          have hcount : r.1.running.inflight = _ := cancelOldestRunning_inflight _ _ _ _ _
          rw [← hr] at hcount
          cases hdone : r.2 with
          | true => exact .displaced cfg rfl hstrategy hfull (by rw [hcount, hdone, cond_true])
          | false => exact .plain (by rw [hcount, hdone, cond_false]) (by simp)
        · rename_i hroom
          exact hplain _ fun hfull => absurd hfull hroom
    | discard | cancelIncoming | queue => exact hplain _ fun hfull => by simp [hfull.le]

theorem gateVerdict_passage : Passage (concurrencyPolicy l.store queue) l.store.running queue
    c.job.partitionKey (gateVerdict now req queue c l) := by
  obtain ⟨pol, hpol⟩ := passRate_store now c l
  have hrunning : (passRate now c l).1.store.running = l.store.running := by rw [hpol]
  have hlimit : concurrencyPolicy (passRate now c l).1.store queue =
      concurrencyPolicy l.store queue := by
    unfold concurrencyPolicy
    rw [(passRate_clause now c l).rules.climitq]
  rcases gateVerdict_cases now req queue c l with ⟨-, heq⟩ | ⟨-, heq⟩ | ⟨-, -, heq⟩
  · rw [heq]
    exact .plain rfl (by simp)
  · rw [heq]
    exact .plain (by rw [hrunning]) (by simp)
  · rw [heq, ← hlimit, ← hrunning]
    exact passCeiling_passage now queue c (passRate now c l).1

theorem gateVerdict_room :
    KeepsRoom queue c.job.partitionKey l (gateVerdict now req queue c l) := by
  cases gateVerdict_passage now req queue c l with
  | plain same place =>
    refine ⟨fun q p => by rw [same], fun cfg hcfg hclaim => ?_⟩
    have hplace := place hclaim cfg hcfg
    rw [same]
    omega
  | displaced cfg limited strategy full less =>
    -- the maximum is positive, so a full partition has a running job to subtract
    have hmax := concurrencyPolicy_pos limited
    refine ⟨fun q p => ?_, fun cfg' hcfg _ => ?_⟩
    · rw [less]
      exact decInflight_le _ _ _ _ _ fun _ => by omega
    · cases limited.symm.trans hcfg
      rw [less, Running.inflight_dec, if_pos ⟨rfl, rfl⟩]
      split <;> omega

end

/-- No partition with a ceiling is above it, unless it was before. -/
def Bounded (s : Store) (l : Selection) : Prop :=
  ∀ queue part cfg, concurrencyPolicy s queue = some cfg →
    l.store.running.inflight queue part ≤ max cfg.maxConcurrent (s.running.inflight queue part)

theorem concurrencyPolicy_rules {t : Store} (h : s.policy.SameRules t.policy) (queue : String) :
    concurrencyPolicy t queue = concurrencyPolicy s queue := by
  unfold concurrencyPolicy
  rw [h.climitq]

theorem Bounded.round {now : Int} {req : AdmitRequest} {c : Candidate} {l : Selection}
    (h : Bounded s l) (hrules : s.policy.SameRules l.store.policy) (hentries : EntriesOk l.store)
    (hsnap : Snapshot l.store c) :
    Bounded s (considerCandidate now req queue c l) := by
  intro q p cfg limit
  have hbefore := h q p cfg limit
  have hroom := gateVerdict_room now req queue c l
  rcases considerCandidate_cases now req queue c l with ⟨-, heq⟩ | ⟨a, -, -, heq⟩ |
    ⟨a, hverdict, hin, heq⟩
  · rw [heq]
    exact (hroom.le q p).trans hbefore
  · rw [heq]
    exact (hroom.le q p).trans hbefore
  · obtain ⟨row, -, hown⟩ := decided_row now req hentries hsnap hin
    rw [heq]
    by_cases ha : a = .claim
    · subst ha
      rw [decidedRound_claim_running now req row hown]
      show (Running.incInflight _ queue c.job.partitionKey).inflight q p ≤ _
      rw [Running.inflight_inc]
      split
      · -- the claim is in this partition, and the ceiling had a place for it
        rename_i hqp
        obtain ⟨rfl, rfl⟩ := hqp
        rw [← concurrencyPolicy_rules hrules] at limit
        have hplace := hroom.place cfg limit hverdict
        omega
      · exact (hroom.le q p).trans hbefore
    · -- a job that is ended while waiting does not touch the counters
      rw [decidedRound_end_running now req ha]
      exact (hroom.le q p).trans hbefore

theorem addRunning_inflight (now : Int) (adds : List (String × String × String)) (r : Running) :
    (addRunning now adds r).inflight = r.inflight := by
  induction adds generalizing r with
  | nil => rfl
  | cons a adds ih => exact ih (r.addRunningp a.2.2 a.1 a.2.1 now)

/-- **The bound.**  An admission leaves no partition above its ceiling that was not above it
before. -/
theorem admitCall_bounded (hentries : EntriesOk s) (hheld : HeldOk s) (now : Int)
    (req : AdmitRequest) (order : SetOrder String) (limit : concurrencyPolicy s queue = some cfg) :
    (((admitCall now req order s).1.runningJobs queue part).card : Int) ≤
      max cfg.maxConcurrent (s.runningJobs queue part).card := by
  have hheld' : HeldOk (admitCall now req order s).1 :=
    (admitCall_step now req order s hentries).moves.preserves (fun _ _ m => m.heldOk) hheld
  rw [← hheld.runningBooks.inflight, ← hheld'.runningBooks.inflight]
  by_cases hlease : req.leaseMs < 1
  · rw [admitCall_refused hlease]
    exact le_max_right _ _
  · rw [admitCall_eq (not_lt.mp hlease)]
    show (addRunning now _ _).inflight queue part ≤ _
    -- listing the claims after the loop leaves the counters as the loop left them
    rw [addRunning_inflight]
    refine (selection_induct (P := fun l => s.policy.SameRules l.store.policy ∧ Bounded s l)
      hentries ?_ ?_).2 queue part cfg limit
    · exact fun routes => ⟨.refl _, fun _ _ _ _ => le_max_right _ _⟩
    · intro l q c rest hok hl _ _ hc
      refine ⟨hl.1.trans (considerCandidate_rules now req q c (l.pop q rest)), ?_⟩
      exact Bounded.round (l := l.pop q rest) hl.2 hl.1
        hok.entries (hok.head hc)

/-! ## Section 2: One round in full -/

/-- The counters after a decision on a candidate. -/
structure Counted (c : Candidate) (l l' : Selection) : Prop where
  decided : l'.decided = l.decided + 1
  takenPart : l'.takenPart = Function.update l.takenPart
    (tableKey c.job.queue c.job.partitionKey)
    (l.takenPart (tableKey c.job.queue c.job.partitionKey) + 1)
  selectedIncoming : l'.selectedIncoming =
    if (concurrencyPolicy l.store c.job.queue).map (·.onSaturated) = some .cancelRunning then
      Function.update l.selectedIncoming (tableKey c.job.queue c.job.partitionKey)
        (l.selectedIncoming (tableKey c.job.queue c.job.partitionKey) + 1)
    else l.selectedIncoming

/-- What a round does to rows, running keys, counters and deferred entries, when its candidate
stands in its stream. -/
inductive Round (now : Int) (req : AdmitRequest) (c : Candidate) (l l' : Selection) : Prop where
  | keeps (jobs : ∀ x, l'.store.job? x = l.store.job? x)
      (running : l'.store.running = l.store.running) (tables : SameTables l l')
  | ends (cfg : ConcurrencyLimit) (limit : concurrencyPolicy l.store c.job.queue = some cfg)
      (strategy : cfg.onSaturated ≠ .cancelRunning)
      (last : ∃ j, l'.store.job? c.id = some j ∧ j.state.isTerminal = true)
      (jobs : ∀ x, x ≠ c.id → l'.store.job? x = l.store.job? x)
      (held : ∀ x, l'.store.held x = l.store.held x)
      (running : l'.store.running = l.store.running) (adds : l'.runningAdd = l.runningAdd)
      (counted : Counted c l l')
  | claims (room : ∀ cfg, concurrencyPolicy l.store c.job.queue = some cfg →
        l.store.running.inflight c.job.queue c.job.partitionKey < cfg.maxConcurrent)
      (charge : Int)
      (jobs : ∀ x, l'.store.job? x =
        if x = c.id then some (claimedRow now req charge c.job) else l.store.job? x)
      (running : l'.store.running =
        l.store.running.claim c.id c.job.queue c.job.partitionKey (now + req.leaseMs))
      (adds : l'.runningAdd = l.runningAdd ++ [(c.job.queue, c.job.partitionKey, c.id)])
      (counted : Counted c l l')
  /-- A running job makes room for the claim. -/
  | replaces (cfg : ConcurrencyLimit) (limit : concurrencyPolicy l.store c.job.queue = some cfg)
      (incoming : l.selectedIncoming (tableKey c.job.queue c.job.partitionKey) < cfg.maxConcurrent)
      (full : cfg.maxConcurrent ≤ l.store.running.inflight c.job.queue c.job.partitionKey)
      (id : String) (j : Job)
      (first : (l.store.running.runningp (partKey c.job.queue c.job.partitionKey)).first = some id)
      (charge : Int)
      (jobs : ∀ x, l'.store.job? x =
        if x = c.id then some (claimedRow now req charge c.job)
        else if x = id then some (displacedRow now j) else l.store.job? x)
      (running : l'.store.running = (l.store.running.drop id c.job.queue c.job.partitionKey).claim
        c.id c.job.queue c.job.partitionKey (now + req.leaseMs))
      (adds : l'.runningAdd = l.runningAdd ++ [(c.job.queue, c.job.partitionKey, c.id)])
      (counted : Counted c l l')

theorem held_of_rows {s' : Store} (h : ∀ x, s'.job? x = s.job? x) (x : String) :
    s'.held x = s.held x := by
  unfold Store.held
  rw [h]

section
variable (now : Int) (req : AdmitRequest) {c : Candidate} {l : Selection}

theorem decidedRound_claim_rows (row : l.store.job? c.id = some c.job) :
    ∃ charge, ∀ x, (decidedRound now req c.job.queue c .claim l).store.job? x =
      if x = c.id then some (claimedRow now req charge c.job) else l.store.job? x :=
  ⟨_, (claimJob_effect now req _ row).rows⟩

theorem decidedRound_counted (a : Action) {l₁ : Selection} (htables : SameTables l l₁)
    (hrules : l.store.policy.SameRules l₁.store.policy) :
    Counted c l (decidedRound now req c.job.queue c a l₁) := by
  have hlimit : concurrencyPolicy (decidedRound now req c.job.queue c a l₁).store c.job.queue =
      concurrencyPolicy l.store c.job.queue :=
    concurrencyPolicy_rules (hrules.trans (decidedRound_rules now req c.job.queue c a l₁)) _
  have hincoming : (decidedRound now req c.job.queue c a l₁).selectedIncoming =
      if (concurrencyPolicy (decidedRound now req c.job.queue c a l₁).store c.job.queue).map
          (·.onSaturated) = some .cancelRunning then
        Function.update l₁.selectedIncoming (tableKey c.job.queue c.job.partitionKey)
          (l₁.selectedIncoming (tableKey c.job.queue c.job.partitionKey) + 1)
      else l₁.selectedIncoming := by
    cases a <;> rfl
  have hdecided := decidedRound_decided now req c.job.queue c l a htables
  refine ⟨hdecided.decided, hdecided.takenPart, ?_⟩
  -- the script reads the policy again when it counts; the call has not changed it
  rw [hincoming, hlimit, htables.selectedIncoming]

/-- A candidate that stands in its stream is held back, ended, or claimed with or without a
victim; no victim is taken in vain. -/
theorem considerCandidate_round (hr : Roster now l.store l.runningAdd)
    (hentries : EntriesOk l.store) (hsnap : Snapshot l.store c) (hq : Without ':' c.job.queue)
    (hstands : l.store.waiting.holds c.id c.job.queue c.job.partitionKey c.job.stickyWorker = true) :
    Round now req c l (considerCandidate now req c.job.queue c l) := by
  obtain ⟨l₁, p, hstore, hrules, htables, hverdict⟩ := gateVerdict_verdict now req
    (hr.ownEntries hq c.job.partitionKey)
  have hjobs : ∀ x, l₁.store.job? x = l.store.job? x := fun x => by
    rw [hstore]
    rfl
  have hrunning : l₁.store.running = l.store.running := by rw [hstore]
  have hlimit : concurrencyPolicy l₁.store c.job.queue = concurrencyPolicy l.store c.job.queue := by
    apply concurrencyPolicy_rules
    rw [hstore]
    exact hrules
  have hclause := gateVerdict_clause now req c.job.queue c l
  obtain ⟨row, waiting, -⟩ := decided_row now req hentries hsnap hstands
  rcases considerCandidate_cases now req c.job.queue c l with ⟨hnone, heq⟩ | ⟨a, -, hnot, -⟩ |
    ⟨a, hsome, -, heq⟩
  · -- held back: a displacing verdict would let the candidate through
    rw [heq]
    rcases hverdict with hv | hverdict
    · rw [hv]
      exact .keeps hjobs hrunning htables
    · rw [hnone] at hverdict
      generalize (gateVerdict now req c.job.queue c l).1 = l₂ at hverdict
      cases hverdict with
      | holds => exact .keeps hjobs hrunning htables
  · rw [hstands] at hnot
    cases hnot
  · rw [heq]
    rcases hverdict with hv | hverdict
    · rw [hv] at hsome
      cases hsome
    · rw [hsome] at hverdict
      generalize (gateVerdict now req c.job.queue c l).1 = l₂ at hverdict row hclause
      have hcounted : Counted c l (decidedRound now req c.job.queue c a l₂) :=
        decidedRound_counted now req a hclause.tables hclause.rules
      -- a claim over the store the ceiling saw
      have hclaim : ∀ (_ : l₂ = l₁), (∀ cfg, concurrencyPolicy l₁.store c.job.queue = some cfg →
          l₁.store.running.inflight c.job.queue c.job.partitionKey < cfg.maxConcurrent) →
          Counted c l (decidedRound now req c.job.queue c .claim l₂) →
          Round now req c l (decidedRound now req c.job.queue c .claim l₂) := by
        rintro rfl room hcounted
        obtain ⟨charge, hrows⟩ := decidedRound_claim_rows now req row
        refine .claims ?_ charge (fun x => ?_) ?_ ?_ hcounted
        · rw [← hlimit, ← hrunning]
          exact room
        · rw [hrows, hjobs]
        · rw [decidedRound_claim_running now req row rfl, hrunning]
        · rw [decidedRound_claim_adds, htables.runningAdd]
      cases hverdict with
      | unlimited limit =>
        exact hclaim rfl (fun cfg hcfg => by rw [limit] at hcfg; cases hcfg) hcounted
      | room cfg limit below =>
        refine hclaim rfl (fun cfg' hcfg => ?_) hcounted
        rw [limit] at hcfg
        cases hcfg
        exact below
      | displaces cfg limit strategy incoming full id j first row' own =>
        obtain ⟨charge, hrows⟩ := decidedRound_claim_rows now req row
        have eff := displace_effect now id j l₁.store
        refine .replaces cfg (hlimit ▸ limit) (htables.selectedIncoming ▸ incoming)
          (hrunning ▸ full) id j (hrunning ▸ first) charge (fun x => ?_) ?_ ?_ hcounted
        · rw [hrows]
          rw [eff.rows, hjobs]
        · rw [decidedRound_claim_running now req row rfl]
          rw [eff.running, hrunning, own.2.1, own.2.2]
        · rw [decidedRound_claim_adds]
          rw [htables.runningAdd]
      | refuses cfg limit strategy full a terminal =>
        obtain ⟨j, hterminal, hrows⟩ : ∃ j, j.state.isTerminal = true ∧ ∀ x,
            (decidedRound now req c.job.queue c a l₁).store.job? x =
              if x = c.id then some j else l₁.store.job? x :=
          decidedRound_end_rows now req terminal row
        refine .ends cfg (hlimit ▸ limit) strategy ⟨j, (hrows c.id).trans (if_pos rfl), hterminal⟩
          (fun x hx => ?_) (fun x => ?_) ?_ ?_ hcounted
        · rw [hrows, if_neg hx, hjobs]
        · rw [decidedRound_end_held now req terminal row waiting, held_of_rows hjobs]
        · rw [decidedRound_end_running now req terminal, hrunning]
        · rw [decidedRound_end_adds now req terminal, htables.runningAdd]

end

/-! ## Section 3: The tally of a partition -/

/-- The jobs of a partition that held a lease before the call and hold none now. -/
def ousted (s : Store) (queue part : String) (l : Selection) : Finset String :=
  (s.runningIn queue part).filter fun x => l.store.held x = none

/-- The claims of the call in a partition. -/
def newcomers (queue part : String) (l : Selection) : Nat :=
  (l.runningAdd.filter fun a => a.1 = queue && a.2.1 = part).length

/-- `v` was claimed no later than `r`, by the order of the zset. -/
def ClaimedBefore (s : Store) (v r : String) : Prop :=
  ∀ h h', s.held v = some h → s.held r = some h' →
    toLex (h.lease.claimedAtMs, v) ≤ toLex (h'.lease.claimedAtMs, r)

/-- What the loop has done to a partition. -/
structure Tally (s : Store) (queue part : String) (l : Selection) : Prop where
  kept : ∀ x h, l.store.held x = some h → x ∉ addedIds l.runningAdd → s.held x = some h
  added : ∀ a ∈ l.runningAdd, ∃ j, s.job? a.2.2 = some j ∧ j.state.isWaiting = true ∧
    j.queue = a.1 ∧ j.partitionKey = a.2.1
  rows : ∀ x j, s.job? x = some j → j.queue = queue → j.partitionKey = part →
    l.store.job? x = some j ∨ x ∈ ousted s queue part l ∨ x ∈ addedIds l.runningAdd
  ended : ∀ x ∈ ousted s queue part l, ∃ j, l.store.job? x = some j ∧ j.state = .cancelled
  earliest : ∀ v ∈ ousted s queue part l, ∀ r ∈ s.runningIn queue part,
    r ∉ ousted s queue part l → ClaimedBefore s v r
  /-- Leases come and go one by one. -/
  count : l.store.running.inflight queue part + (ousted s queue part l).card =
    (s.runningIn queue part).card + newcomers queue part l

/-- Under the ceiling `most`, a lease has gone for every claim that found no free place. -/
def Balanced (s : Store) (queue part : String) (most : Int) (l : Selection) : Prop :=
  ((ousted s queue part l).card : Int) =
    max 0 (newcomers queue part l - max 0 (most - (s.runningIn queue part).card))

section
variable {l l' : Selection}

theorem mem_runningIn :
    x ∈ s.runningIn queue part ↔ ∃ h, s.held x = some h ∧ h.queue = queue ∧ h.part = part :=
  s.runningIn_lists queue part x

theorem mem_ousted :
    x ∈ ousted s queue part l ↔ x ∈ s.runningIn queue part ∧ l.store.held x = none := by
  unfold ousted
  rw [Finset.mem_filter]

/-- Changes to jobs that were not running in the partition oust none of it. -/
theorem ousted_eq (h : ∀ x ∈ s.runningIn queue part, l'.store.held x = l.store.held x) :
    ousted s queue part l' = ousted s queue part l := by
  ext x
  rw [mem_ousted, mem_ousted]
  refine and_congr_right fun hx => ?_
  rw [h x hx]

theorem newcomers_same (adds : l'.runningAdd = l.runningAdd) :
    newcomers queue part l' = newcomers queue part l := by
  unfold newcomers
  rw [adds]

theorem newcomers_append {q p : String} (adds : l'.runningAdd = l.runningAdd ++ [(q, p, id)]) :
    newcomers queue part l' =
      newcomers queue part l + if q = queue ∧ p = part then 1 else 0 := by
  unfold newcomers
  rw [adds, List.filter_append, List.length_append]
  by_cases hqp : q = queue ∧ p = part
  · simp [hqp]
  · rw [if_neg hqp]
    have hnone : ([(q, p, id)].filter fun a => a.1 = queue && a.2.1 = part) = [] := by
      simpa using hqp
    rw [hnone]
    rfl

theorem held_claimedRow (now : Int) (req : AdmitRequest) (charge : Int) (c : Candidate) :
    (claimedRow now req charge c.job).held = some (freshHeld now req c) :=
  Job.held_of_lease rfl rfl

/-- A waiting job held nothing before. -/
theorem not_mem_runningIn {j : Job} (row : s.job? x = some j) (waiting : j.state.isWaiting = true) :
    x ∉ s.runningIn queue part := by
  intro hin
  obtain ⟨h, hh, -⟩ := mem_runningIn.mp hin
  rw [Store.held_eq row, Job.held_of_idle (not_running_of_waiting waiting)] at hh
  cases hh

/-- A job that ran before the call is no claim of the call. -/
theorem Tally.not_added (h : Tally s queue part l) {e : Held} (he : s.held x = some e) :
    x ∉ addedIds l.runningAdd := by
  intro hin
  obtain ⟨a, ha, rfl⟩ := List.mem_map.mp hin
  obtain ⟨j, row, waiting, -⟩ := h.added a ha
  rw [Store.held_eq row, Job.held_of_idle (not_running_of_waiting waiting)] at he
  cases he

end

section
variable {l l' : Selection} {now : Int} {req : AdmitRequest} {c : Candidate}
variable (h : Tally s queue part l)
include h

/-- A round that touches no lease and no row of the partition. -/
theorem Tally.idle (held : ∀ x, l'.store.held x = l.store.held x)
    (rows : ∀ x j, s.job? x = some j → j.queue = queue → j.partitionKey = part →
      l'.store.job? x = l.store.job? x)
    (running : l'.store.running = l.store.running) (adds : l'.runningAdd = l.runningAdd) :
    Tally s queue part l' ∧ ousted s queue part l' = ousted s queue part l := by
  have hout : ousted s queue part l' = ousted s queue part l := ousted_eq fun x _ => held x
  -- every clause speaks of leases, rows and listings, and none of these moved
  refine ⟨⟨fun x e he => ?_, ?_, fun x j row hq hp => ?_, fun x hx => ?_, ?_, ?_⟩, hout⟩
  · rw [held] at he
    rw [adds]
    exact h.kept x e he
  · rw [adds]
    exact h.added
  · rw [rows x j row hq hp, hout, adds]
    exact h.rows x j row hq hp
  · rw [hout] at hx
    obtain ⟨e, he, heq, hep⟩ := mem_runningIn.mp (mem_ousted.mp hx).1
    obtain ⟨j, row, -, hq, hp, -⟩ := Store.held_eq_some.mp he
    rw [rows x j row (hq.trans heq) (hp.trans hep)]
    exact h.ended x hx
  · rw [hout]
    exact h.earliest
  · rw [running, hout, newcomers_same adds]
    exact h.count

/-- A claim ousts nobody by itself. -/
theorem Tally.claims (hc : Fresh s c) {charge : Int}
    (jobs : ∀ x, l'.store.job? x =
      if x = c.id then some (claimedRow now req charge c.job) else l.store.job? x)
    (running : l'.store.running =
      l.store.running.claim c.id c.job.queue c.job.partitionKey (now + req.leaseMs))
    (adds : l'.runningAdd = l.runningAdd ++ [(c.job.queue, c.job.partitionKey, c.id)]) :
    Tally s queue part l' ∧ ousted s queue part l' = ousted s queue part l := by
  have hself : c.id ∉ s.runningIn queue part := not_mem_runningIn hc.row hc.waiting
  have hheld : ∀ x, l'.store.held x =
      if x = c.id then some (freshHeld now req c) else l.store.held x := by
    intro x
    unfold Store.held
    rw [jobs]
    split
    · exact held_claimedRow now req charge c
    · rfl
  -- the claimed job was waiting, so it is none of those that ran before the call
  have hout : ousted s queue part l' = ousted s queue part l := by
    refine ousted_eq fun x hx => ?_
    rw [hheld, if_neg]
    rintro rfl
    exact hself hx
  have hids : addedIds l'.runningAdd = addedIds l.runningAdd ++ [c.id] := by
    rw [adds]
    simp [addedIds]
  refine ⟨⟨fun x e he hx => ?_, fun a ha => ?_, fun x j row hq hp => ?_, fun x hx => ?_, ?_, ?_⟩,
    hout⟩
  · rw [hids, List.mem_append, not_or, List.mem_singleton] at hx
    rw [hheld, if_neg hx.2] at he
    exact h.kept x e he hx.1
  · rw [adds, List.mem_append, List.mem_singleton] at ha
    rcases ha with ha | rfl
    · exact h.added a ha
    · exact ⟨c.job, hc.row, hc.waiting, rfl, rfl⟩
  · rw [jobs, hids, List.mem_append, List.mem_singleton, hout]
    by_cases hx : x = c.id
    · exact .inr (.inr (.inr hx))
    · rw [if_neg hx]
      rcases h.rows x j row hq hp with hrow | hin | hin
      · exact .inl hrow
      · exact .inr (.inl hin)
      · exact .inr (.inr (.inl hin))
  · rw [hout] at hx
    rw [jobs, if_neg]
    · exact h.ended x hx
    · rintro rfl
      exact hself (mem_ousted.mp hx).1
  · rw [hout]
    exact h.earliest
  · have hbefore := h.count
    rw [running, hout, newcomers_append adds]
    show (l.store.running.incInflight _ _).inflight queue part + _ = _
    rw [Running.inflight_inc]
    -- one more running and one more newcomer, if the claim is of this partition
    by_cases hqp : c.job.queue = queue ∧ c.job.partitionKey = part
    · rw [if_pos hqp, if_pos ⟨hqp.1.symm, hqp.2.symm⟩, hqp.1, hqp.2]
      omega
    · rw [if_neg hqp, if_neg fun hx => hqp ⟨hx.1.symm, hx.2.symm⟩]
      exact hbefore

/-- The first of a zset leaves: it ran before the call, and longest of all that still do. -/
theorem Tally.ousts (hr : Roster now l.store l.runningAdd) {q p : String}
    (hq : Without ':' q) (first : (l.store.running.runningp (partKey q p)).first = some id)
    {j : Job} (pos : 1 ≤ l.store.running.inflight q p)
    (jobs : ∀ x, l'.store.job? x = if x = id then some (displacedRow now j) else l.store.job? x)
    (running : l'.store.running = l.store.running.drop id q p) (adds : l'.runningAdd = l.runningAdd)
    :
    Tally s queue part l' ∧ (ousted s queue part l').card =
      (ousted s queue part l).card + if q = queue ∧ p = part then 1 else 0 := by
  obtain ⟨sc, hsc, hleast⟩ := ZSet.first_eq_some _ first
  obtain ⟨e, he, heq, hep, hclaimed, hold⟩ := hr.entry hq hsc
  have hbefore : s.held id = some e := h.kept id e he hold
  have hheld : ∀ x, l'.store.held x = if x = id then none else l.store.held x := by
    intro x
    unfold Store.held
    rw [jobs]
    split
    · exact Job.held_of_idle (by simp [displacedRow])
    · rfl
  have hdrop : l'.store.running.inflight queue part =
      l.store.running.inflight queue part - if q = queue ∧ p = part then 1 else 0 := by
    rw [running]
    show (l.store.running.decInflight q p).inflight queue part = _
    rw [Running.inflight_dec]
    by_cases hqp : q = queue ∧ p = part
    · obtain ⟨rfl, rfl⟩ := hqp
      have hclamp : ¬ l.store.running.inflight q p - 1 < 0 := by omega
      rw [if_pos ⟨rfl, rfl⟩, if_neg hclamp, if_pos ⟨rfl, rfl⟩]
    · rw [if_neg hqp, if_neg fun hx => hqp ⟨hx.1.symm, hx.2.symm⟩, sub_zero]
  -- the victim counts in its own partition alone
  have hpart : id ∈ s.runningIn queue part ↔ q = queue ∧ p = part := by
    rw [mem_runningIn]
    constructor
    · rintro ⟨k, hk, hkq, hkp⟩
      rw [hbefore] at hk
      cases hk
      exact ⟨heq.symm.trans hkq, hep.symm.trans hkp⟩
    · rintro ⟨rfl, rfl⟩
      exact ⟨e, hbefore, heq, hep⟩
  have hout : ∀ x, x ∈ ousted s queue part l' ↔
      x = id ∧ id ∈ s.runningIn queue part ∨ x ∈ ousted s queue part l := by
    intro x
    rw [mem_ousted, mem_ousted, hheld]
    by_cases hx : x = id
    · subst hx
      simp [he]
    · simp [hx]
  have hcard : (ousted s queue part l').card =
      (ousted s queue part l).card + if q = queue ∧ p = part then 1 else 0 := by
    have hnot : id ∉ ousted s queue part l := fun hx => by
      rw [(mem_ousted.mp hx).2] at he
      cases he
    have hset : ousted s queue part l' =
        if q = queue ∧ p = part then insert id (ousted s queue part l) else ousted s queue part l := by
      ext x
      rw [hout, hpart]
      split <;> simp [*]
    rw [hset]
    split
    · exact Finset.card_insert_of_notMem hnot
    · rfl
  refine ⟨⟨fun x k hk => ?_, ?_, fun x k row hkq hkp => ?_, fun x hx => ?_,
    fun v hv r hrin hrout => ?_, ?_⟩, hcard⟩
  · rw [hheld] at hk
    split at hk
    · cases hk
    · rw [adds]
      exact h.kept x k hk
  · rw [adds]
    exact h.added
  · rw [jobs, hout, adds]
    by_cases hx : x = id
    · -- the lease is of the partition of the row
      obtain ⟨j', row', -, hq', hp', -⟩ := Store.held_eq_some.mp hbefore
      rw [← hx, row] at row'
      cases row'
      exact .inr (.inl (.inl ⟨hx, mem_runningIn.mpr
        ⟨e, hbefore, hq'.symm.trans hkq, hp'.symm.trans hkp⟩⟩))
    · rw [if_neg hx]
      exact (h.rows x k row hkq hkp).imp_right (Or.imp_left .inr)
  · rw [jobs]
    by_cases hxid : x = id
    · exact ⟨_, if_pos hxid, rfl⟩
    · rw [if_neg hxid]
      exact h.ended x (((hout x).mp hx).resolve_left fun hvictim => hxid hvictim.1)
  · rw [hout, not_or] at hrout
    rcases (hout v).mp hv with ⟨rfl, hin⟩ | hv
    · -- whoever is left holds the lease it held, and is listed behind the victim
      obtain ⟨rfl, rfl⟩ := hpart.mp hin
      intro e₁ e₂ he₁ he₂
      have hlisted : (l.store.running.runningp (partKey q p)).score r =
          some e₂.lease.claimedAtMs := by
        obtain ⟨e₃, he₃, heq₃, hep₃⟩ := mem_runningIn.mp hrin
        rw [he₂] at he₃
        obtain rfl := Option.some.inj he₃
        have hstill : l.store.held r = some e₂ := by
          cases hstate : l.store.held r with
          | none => exact absurd (mem_ousted.mpr ⟨hrin, hstate⟩) hrout.2
          | some e₄ =>
            have hsame := h.kept r e₄ hstate (h.not_added he₂)
            rw [he₂] at hsame
            exact hsame.symm
        rw [hr.listed, if_neg (h.not_added he₂), hstill, Option.bind_some]
        exact if_pos (by rw [heq₃, hep₃])
      rw [hbefore] at he₁
      obtain rfl := Option.some.inj he₁
      rw [hclaimed]
      exact hleast r _ hlisted
    · exact h.earliest v hv r hrin hrout.2
  · have hcount := h.count
    rw [hdrop, hcard, newcomers_same adds]
    split <;> omega

/-- A round under `cancel_running`: with free places claims are for nothing, without them each
takes one victim. -/
theorem Tally.round (hb : Balanced s queue part cfg.maxConcurrent l)
    (hr : Roster now l.store l.runningAdd) (hc : Fresh s c) (hq : Without ':' c.job.queue)
    (limit : concurrencyPolicy l.store queue = some cfg)
    (strategy : cfg.onSaturated = .cancelRunning) (m : Round now req c l l') :
    Tally s queue part l' ∧ Balanced s queue part cfg.maxConcurrent l' := by
  have hcount := h.count
  unfold Balanced at hb ⊢
  cases m with
  | keeps jobs running tables =>
    obtain ⟨htally, hout⟩ := h.idle (held_of_rows jobs) (fun x _ _ _ _ => jobs x) running
      tables.runningAdd
    refine ⟨htally, ?_⟩
    rw [hout, newcomers_same tables.runningAdd]
    exact hb
  | ends cfg' limit' strategy' last jobs held running adds =>
    -- a candidate of this queue would not be ended under this strategy
    have hother : c.job.queue ≠ queue := by
      rintro rfl
      rw [limit] at limit'
      cases limit'
      exact strategy' strategy
    obtain ⟨htally, hout⟩ := h.idle held (fun x j row hjq _ => jobs x fun hx => by
      rw [hx, hc.row] at row
      cases row
      exact hother hjq) running adds
    refine ⟨htally, ?_⟩
    rw [hout, newcomers_same adds]
    exact hb
  | claims room charge jobs running adds =>
    obtain ⟨htally, hout⟩ := h.claims hc jobs running adds
    refine ⟨htally, ?_⟩
    rw [hout, newcomers_append adds]
    by_cases hqp : c.job.queue = queue ∧ c.job.partitionKey = part
    · obtain ⟨rfl, rfl⟩ := hqp
      have hroom := room cfg limit
      rw [if_pos ⟨rfl, rfl⟩]
      omega
    · rw [if_neg hqp]
      exact hb
  | replaces cfg' limit' incoming full id j first charge jobs running adds =>
    have hpos : 1 ≤ l.store.running.inflight c.job.queue c.job.partitionKey := by
      have hone := concurrencyPolicy_pos limit'
      omega
    -- the victim goes, and then the claim is entered
    let mid : Selection := { l with store := { l.store.setJob id (displacedRow now j) with
      running := l.store.running.drop id c.job.queue c.job.partitionKey } }
    have hmid : ∀ x, mid.store.job? x =
        if x = id then some (displacedRow now j) else l.store.job? x := fun x =>
      Store.job?_setJob l.store id x _
    obtain ⟨htally, hcard⟩ := h.ousts hr hq first hpos hmid rfl rfl
    obtain ⟨htally', hout⟩ := htally.claims hc (fun x => by rw [jobs, hmid]) running adds
    refine ⟨htally', ?_⟩
    have hsame : newcomers queue part mid = newcomers queue part l := rfl
    rw [hout, hcard, newcomers_append (l := mid) adds, hsame]
    by_cases hqp : c.job.queue = queue ∧ c.job.partitionKey = part
    · obtain ⟨rfl, rfl⟩ := hqp
      rw [limit] at limit'
      cases limit'
      rw [if_pos ⟨rfl, rfl⟩]
      omega
    · rw [if_neg hqp]
      exact hb

end

/-! ## Section 4: The call -/

/-- The claims of a call are the entries it defers. -/
theorem selection_claimed (now : Int) (req : AdmitRequest) (order : SetOrder String)
    (queues : List String) (hentries : EntriesOk s) :
    (selection now req order queues s).1.claimed =
      addedIds (selection now req order queues s).1.runningAdd := by
  refine selection_induct (P := fun l => l.claimed = addedIds l.runningAdd) hentries
    (fun _ => rfl) ?_
  intro l q c rest _ hl _ _ _
  rcases considerCandidate_tables now req q c (l.pop q rest) with hsame | ⟨a, -, -, hdecided⟩
  · rw [hsame.claimed, hsame.runningAdd]
    exact hl
  · rw [hdecided.claimed, hdecided.runningAdd]
    split
    · simp only [addedIds, List.map_append, List.map_cons, List.map_nil]
      exact congrArg (· ++ [c.id]) hl
    · exact hl

/-- The tally at the end of a call's selection. -/
theorem selection_tally {calls : List Call} {now : Int} {req : AdmitRequest}
    {order : SetOrder String} (hnames : NamesApart calls req)
    (limit : concurrencyPolicy (exec calls) queue = some cfg)
    (strategy : cfg.onSaturated = .cancelRunning) :
    Tally (exec calls) queue part (selection now req order (requestQueues req) (exec calls)).1 ∧
      Balanced (exec calls) queue part cfg.maxConcurrent
        (selection now req order (requestQueues req) (exec calls)).1 := by
  have hentries := exec_entriesOk calls
  have hloop : ∀ routes, LoopOk now (exec calls) (startSelection ((exec calls).withRoutes routes)
      (drawnCands now req order (requestQueues req) (exec calls))) := LoopOk.start hnames
  have hcount := (exec_heldOk calls).accounts.inflight queue part
  -- from here on only the invariants of a run count, not the run
  generalize exec calls = s at *
  refine (selection_induct (P := fun l => LoopOk now s l ∧ Tally s queue part l ∧
    Balanced s queue part cfg.maxConcurrent l) hentries ?_ ?_).2
  · intro routes
    have hnone : ousted s queue part (startSelection (s.withRoutes routes)
        (drawnCands now req order (requestQueues req) s)) = ∅ := by
      apply Finset.eq_empty_of_forall_notMem
      intro x hx
      obtain ⟨hin, hgone⟩ := mem_ousted.mp hx
      obtain ⟨h, hh, -⟩ := mem_runningIn.mp hin
      have hsame : s.held x = none := hgone
      rw [hsame] at hh
      cases hh
    refine ⟨hloop routes, ⟨fun _ _ hh _ => hh, by simp [startSelection],
      fun x j row _ _ => .inl row, ?_, ?_, ?_⟩, ?_⟩
    · rw [hnone]
      simp
    · rw [hnone]
      simp
    · rw [hnone]
      show s.running.inflight queue part + ((∅ : Finset String).card : Int) =
        (s.runningIn queue part).card + ((0 : Nat) : Int)
      rw [hcount]
      rfl
    · unfold Balanced
      rw [hnone]
      simp [newcomers, startSelection]
  · intro l q c rest _ hl _ hchoose hc
    obtain ⟨hok, htally, hbalanced⟩ := hl
    have hplain : Without ':' q := hnames.requested q (chooseQueue_mem hchoose).1
    obtain ⟨hfresh, hqueue, hstands⟩ := hok.head hc
    subst hqueue
    have hround := considerCandidate_round now req (c := c)
      (l := l.pop c.job.queue rest) hok.roster
      hok.ok.entries (hok.ok.head hc) hplain hstands
    -- the policy in force during the loop is the one the call began with
    have hlimit : concurrencyPolicy l.store queue = some cfg := by
      rw [concurrencyPolicy_rules hok.rules]
      exact limit
    have hstart : Tally s queue part (l.pop c.job.queue rest) :=
      ⟨htally.kept, htally.added, htally.rows, htally.ended, htally.earliest, htally.count⟩
    exact ⟨hok.round hplain hc,
      hstart.round hbalanced hok.roster hfresh hplain hlimit strategy hround⟩

/-- The jobs of a partition that a call cancelled. -/
def cancelledIn (s s' : Store) (queue part : String) : Finset String :=
  s.ids.filter fun id =>
    ((s.job? id).any fun j => j.queue = queue && j.partitionKey = part && j.state ≠ .cancelled) &&
      (s'.job? id).any fun j => j.state = .cancelled

/-- The ids a call returned that are of a partition. -/
def claimedIn (s : Store) (claimed : List String) (queue part : String) : List String :=
  claimed.filter fun id => (s.job? id).any fun j => j.queue = queue && j.partitionKey = part

/-- The ids a call returned; none if it failed. -/
def admitted (now : Int) (req : AdmitRequest) (order : SetOrder String) (s : Store) :
    List String :=
  (admitCall now req order s).2.toOption.getD []

theorem mem_cancelledIn {s' : Store} :
    id ∈ cancelledIn s s' queue part ↔
      (∃ j, s.job? id = some j ∧ j.queue = queue ∧ j.partitionKey = part ∧ j.state ≠ .cancelled) ∧
        ∃ j, s'.job? id = some j ∧ j.state = .cancelled := by
  unfold cancelledIn
  rw [Finset.mem_filter, Store.mem_ids, Bool.and_eq_true, Option.any_eq_true, Option.any_eq_true]
  constructor
  · rintro ⟨-, ⟨j, row, hj⟩, ⟨j', row', hj'⟩⟩
    refine ⟨⟨j, row, ?_⟩, j', row', by simpa using hj'⟩
    simpa [and_assoc] using hj
  · rintro ⟨⟨j, row, hj⟩, ⟨j', row', hj'⟩⟩
    refine ⟨⟨j, row⟩, ⟨j, row, ?_⟩, j', row', by simpa using hj'⟩
    simpa [and_assoc] using hj

section
variable {l : Selection} {now : Int} {req : AdmitRequest} {seen : List String}

/-- The ousted jobs are the cancelled ones. -/
theorem Tally.cancelledIn_eq (h : Tally s queue part l) (hr : Roster now l.store l.runningAdd) :
    cancelledIn s (settle now req seen l) queue part = ousted s queue part l := by
  ext id
  rw [mem_cancelledIn]
  have hrow : (settle now req seen l).job? id = l.store.job? id := rfl
  rw [hrow]
  constructor
  · rintro ⟨⟨j, row, hq, hp, hnot⟩, ⟨j', row', hcancelled⟩⟩
    rcases h.rows id j row hq hp with hsame | hout | hadded
    · rw [hsame] at row'
      cases row'
      exact absurd hcancelled hnot
    · exact hout
    · -- a claim of the call is running
      obtain ⟨a, ha, rfl⟩ := List.mem_map.mp hadded
      obtain ⟨e, he, -⟩ := hr.added a ha
      obtain ⟨k, hk, running, -⟩ := Store.held_eq_some.mp he
      rw [hk] at row'
      cases row'
      rw [running] at hcancelled
      cases hcancelled
  · intro hout
    obtain ⟨e, he, hq, hp⟩ := mem_runningIn.mp (mem_ousted.mp hout).1
    obtain ⟨j, row, running, hq', hp', -⟩ := Store.held_eq_some.mp he
    refine ⟨⟨j, row, hq'.trans hq, hp'.trans hp, ?_⟩, h.ended id hout⟩
    rw [running]
    simp

/-- The claims of the partition, counted by their rows. -/
theorem Tally.claimedIn_length (h : Tally s queue part l) :
    (claimedIn s (addedIds l.runningAdd) queue part).length = newcomers queue part l := by
  unfold claimedIn addedIds newcomers
  rw [List.filter_map, List.length_map]
  congr 1
  apply List.filter_congr
  intro a ha
  obtain ⟨j, row, -, hq, hp⟩ := h.added a ha
  simp [Function.comp, row, hq, hp]

end

/-- **The ceiling of a call.**  No partition is left above its ceiling that was not above it
before.  Under `cancel_running`, with names that keep zsets and streams apart, exactly as many
jobs are cancelled as the claims exceed the free places, namely the ones claimed first and none
that the call returned; this is the excess over the ceiling if and only if the partition was not
above the ceiling before. -/
theorem admit_ceiling (calls : List Call) (now : Int) (req : AdmitRequest)
    (order : SetOrder String) (queue part : String) (cfg : ConcurrencyLimit)
    (limit : concurrencyPolicy (exec calls) queue = some cfg) :
    (((admitCall now req order (exec calls)).1.runningJobs queue part).card : Int) ≤
        max cfg.maxConcurrent ((exec calls).runningJobs queue part).card ∧
      (cfg.onSaturated = .cancelRunning → NamesApart calls req →
        (((cancelledIn (exec calls) (admitCall now req order (exec calls)).1 queue part).card : Int) =
            max 0 (((exec calls).runningJobs queue part).card +
              (claimedIn (exec calls) (admitted now req order (exec calls)) queue part).length -
                cfg.maxConcurrent) ↔
          (((exec calls).runningJobs queue part).card : Int) ≤ cfg.maxConcurrent) ∧
        (∀ v ∈ cancelledIn (exec calls) (admitCall now req order (exec calls)).1 queue part,
          v ∈ (exec calls).runningJobs queue part ∧ v ∉ admitted now req order (exec calls) ∧
            ∀ r ∈ (exec calls).runningJobs queue part,
              r ∉ cancelledIn (exec calls) (admitCall now req order (exec calls)).1 queue part →
                ClaimedBefore (exec calls) v r)) := by
  refine ⟨admitCall_bounded (exec_entriesOk calls) (exec_heldOk calls) now req order limit, ?_⟩
  intro strategy hnames
  have hleased := (exec_heldOk calls).leased
  rw [hleased.runningJobs_eq]
  by_cases hlease : req.leaseMs < 1
  · -- a refused call does nothing
    have hnone : cancelledIn (exec calls) (exec calls) queue part = ∅ := by
      apply Finset.eq_empty_of_forall_notMem
      intro x hx
      obtain ⟨⟨j, row, -, -, hnot⟩, j', row', hcancelled⟩ := mem_cancelledIn.mp hx
      rw [row] at row'
      cases row'
      exact hnot hcancelled
    have hempty : admitted now req order (exec calls) = [] := by
      unfold admitted
      rw [admitCall_refused hlease]
      rfl
    rw [admitCall_refused hlease, hnone, hempty]
    refine ⟨?_, by simp⟩
    show ((∅ : Finset String).card : Int) = max 0 (_ + ((0 : Nat) : Int) - _) ↔ _
    rw [Finset.card_empty]
    omega
  · obtain ⟨htally, hbalanced⟩ : Tally (exec calls) queue part
          (selection now req order (requestQueues req) (exec calls)).1 ∧
        Balanced (exec calls) queue part cfg.maxConcurrent
          (selection now req order (requestQueues req) (exec calls)).1 :=
      selection_tally hnames limit strategy
    have hlisted := exec_listedOk_of_plainQueues hnames.queues
    have hroster := selection_roster now req order hnames.requested (exec_entriesOk calls)
      (Roster.start hlisted.listed hlisted.names)
    have hadmitted : admitted now req order (exec calls) =
        addedIds (selection now req order (requestQueues req) (exec calls)).1.runningAdd := by
      unfold admitted
      rw [admitCall_eq (not_lt.mp hlease), ← selection_claimed now req order _
        (exec_entriesOk calls)]
      rfl
    rw [admitCall_eq (not_lt.mp hlease), htally.cancelledIn_eq hroster, hadmitted,
      htally.claimedIn_length]
    refine ⟨?_, fun v hv => ⟨(mem_ousted.mp hv).1, ?_, htally.earliest v hv⟩⟩
    · unfold Balanced at hbalanced
      -- the balance of newcomers and displaced jobs gives both directions
      have hmost := concurrencyPolicy_pos limit
      omega
    · obtain ⟨e, he, -⟩ := mem_runningIn.mp (mem_ousted.mp hv).1
      exact htally.not_added he

/-- The one place of a partition is taken, and a second job waits for it. -/
def oneTaken : List Call :=
  [⟨0, .upsertConcurrencyLimit "one" ⟨"q", 1, .cancelRunning⟩⟩,
    ⟨0, .enqueue [{ id := "a", kind := "k", queue := "q", partitionKey := "p" }]⟩,
    ⟨1, .admission ⟨"w", "L1", ["q"], 1, 10, 1⟩ .increasing⟩,
    ⟨2, .enqueue [{ id := "b", kind := "k", queue := "q", partitionKey := "p" }]⟩]

theorem admit_ceiling_oneTaken :
    ((cancelledIn (exec oneTaken) (admitCall 3 ⟨"w", "L2", ["q"], 1, 10, 1⟩ .increasing
      (exec oneTaken)).1 "q" "p").card : Int) =
        max 0 (((exec oneTaken).runningJobs "q" "p").card +
          (claimedIn (exec oneTaken) (admitted 3 ⟨"w", "L2", ["q"], 1, 10, 1⟩ .increasing
            (exec oneTaken)) "q" "p").length - 1) := by
  have hceiling := (admit_ceiling oneTaken 3 ⟨"w", "L2", ["q"], 1, 10, 1⟩ .increasing "q" "p"
    ⟨"q", 1, .cancelRunning⟩ (by decide +kernel)).2 rfl (by decide +kernel)
  exact hceiling.1.mpr (by decide +kernel)

/-- Two jobs run when the ceiling is lowered to one. -/
def loweredCeiling : List Call :=
  [⟨0, .upsertConcurrencyLimit "limit" ⟨"q", 2, .cancelRunning⟩⟩,
    ⟨0, .enqueue [{ id := "a", kind := "k", queue := "q", partitionKey := "p" },
      { id := "b", kind := "k", queue := "q", partitionKey := "p" }]⟩,
    ⟨1, .admission ⟨"w", "L1", ["q"], 2, 10, 2⟩ .increasing⟩,
    ⟨2, .upsertConcurrencyLimit "limit" ⟨"q", 1, .cancelRunning⟩⟩,
    ⟨2, .enqueue [{ id := "c", kind := "k", queue := "q", partitionKey := "p" }]⟩]

/-- The job `c` of partition `p:worker:w` is also drawn as a pinned job of partition `p`. -/
def drawnTwice : List Call :=
  [⟨0, .upsertConcurrencyLimit "limit" ⟨"q", 2, .cancelRunning⟩⟩,
    ⟨0, .enqueue [{ id := "a", kind := "k", queue := "q", partitionKey := "p:worker:w" },
      { id := "b", kind := "k", queue := "q", partitionKey := "p:worker:w" }]⟩,
    ⟨1, .admission ⟨"v", "L1", ["q"], 2, 10, 2⟩ .increasing⟩,
    ⟨2, .enqueue [{ id := "c", kind := "k", queue := "q", partitionKey := "p:worker:w" },
      { id := "d", kind := "k", queue := "q", partitionKey := "p", stickyWorker := "v" }]⟩]

/-- One job is cancelled where the excess over the ceiling is two, and two jobs where it is
one: the second candidate displaces a job and is then not found in its stream. -/
theorem ceiling_inexact :
    (concurrencyPolicy (exec loweredCeiling) "q" = some ⟨"q", 1, .cancelRunning⟩ ∧
      ((exec loweredCeiling).runningJobs "q" "p").card = 2 ∧
      admitted 3 ⟨"w", "L2", ["q"], 1, 10, 1⟩ .increasing (exec loweredCeiling) = ["c"] ∧
      (cancelledIn (exec loweredCeiling) (admitCall 3 ⟨"w", "L2", ["q"], 1, 10, 1⟩ .increasing
        (exec loweredCeiling)).1 "q" "p").card = 1) ∧
    (concurrencyPolicy (exec drawnTwice) "q" = some ⟨"q", 2, .cancelRunning⟩ ∧
      ((exec drawnTwice).runningJobs "q" "p:worker:w").card = 2 ∧
      admitted 3 ⟨"w", "L2", ["q"], 2, 10, 2⟩ .increasing (exec drawnTwice) = ["c"] ∧
      (cancelledIn (exec drawnTwice) (admitCall 3 ⟨"w", "L2", ["q"], 2, 10, 2⟩ .increasing
        (exec drawnTwice)).1 "q" "p:worker:w").card = 2) := by
  decide +kernel

end Headgate.Redis
