import Headgate.Redis.Decisions
import Headgate.Redis.Rate

/-!
# Policy isolation

A clause that holds a candidate back ends its round, and the loop goes on with the
next one.  So a call that stops short of its capacity, and short of a partition's
credit, leaves a drawn job of the partition waiting only if a policy blocks that
very job: its fingerprint, its rate class or the ceiling of its partition.

Blocked jobs were drawn before they were found to be blocked, though, and each of
them took a place in a window of limited size.  A job behind the window waits
without anything in its own way.
-/

namespace Headgate.Redis

open Headgate.Core Data Relation

variable {queue rc : String}

/-! ## Section 1: Full ceilings stay full -/

section
variable {now : Int} {req : AdmitRequest} {weight : String → Int} {queues : List String}
  {start l : Selection} {q : String} {c : Candidate} {rest : List Candidate} {s : Store}

/-- A place that a claim takes from a running job stays taken. -/
theorem Running.inflight_drop_claim (r : Running) (id id' : String) (expires : Int) {part : String}
    (hpos : 1 ≤ r.inflight queue part) (q p : String) :
    ((r.drop id queue part).claim id' queue part expires).inflight q p = r.inflight q p := by
  show ((r.drop id queue part).incInflight queue part).inflight q p = _
  have hdrop : ∀ q p, (r.drop id queue part).inflight q p =
      (r.decInflight queue part).inflight q p := fun _ _ => rfl
  rw [Running.inflight_inc, hdrop, hdrop, Running.inflight_dec, Running.inflight_dec]
  by_cases hqp : q = queue ∧ p = part
  · obtain ⟨rfl, rfl⟩ := hqp
    simp only [and_self, if_true]
    rw [if_neg (by omega)]
    omega
  · rw [if_neg hqp, if_neg hqp]

/-- No round lowers the counter of a partition. -/
theorem LoopOk.inflight_round (req : AdmitRequest) (h : LoopOk now s l) (hplain : Without ':' q)
    (hc : l.cands q = c :: rest) (queue part : String) :
    l.store.running.inflight queue part ≤
      (afterRound now req q c rest l).store.running.inflight queue part := by
  cases h.toRound req hplain hc with
  | keeps jobs running | ends cfg limit strategy last jobs held running => rw [running]
  | claims room charge jobs running =>
    rw [running]
    show _ ≤ (l.store.running.incInflight c.job.queue c.job.partitionKey).inflight queue part
    rw [Running.inflight_inc]
    split
    · rename_i hqp
      obtain ⟨rfl, rfl⟩ := hqp
      omega
    · exact le_rfl
  | replaces cfg limit incoming full victim k first charge jobs running =>
    -- one leaves and one comes, and the counter was not at zero
    have hpos : 1 ≤ l.store.running.inflight c.job.queue c.job.partitionKey :=
      (concurrencyPolicy_pos limit).trans full
    rw [running, Running.inflight_drop_claim _ _ _ _ hpos]

theorem Passes.inflight_le (hok : LoopOk now s start) (hplain : ∀ q ∈ queues, Without ':' q)
    (path : Passes now req weight queues start l) (queue part : String) :
    start.store.running.inflight queue part ≤ l.store.running.inflight queue part :=
  path.preserves
    (P := fun l => start.store.running.inflight queue part ≤ l.store.running.inflight queue part)
    (fun _ q _ _ hmeets hl => hl.trans ((hok.passes hplain hmeets.path).inflight_round req
      (hplain q (chooseQueue_mem hmeets.chosen).1) hmeets.next queue part)) le_rfl

/-- The claims that `cancel_running` has counted for a partition are running. -/
theorem Passes.incoming_le (hok : LoopOk now s start) (hplain : ∀ q ∈ queues, Without ':' q)
    (hkeys : ∀ q ∈ queues, Without '\x00' q) (path : Passes now req weight queues start l)
    (hqueue : Without '\x00' queue) (part : String)
    (hstart : start.selectedIncoming (tableKey queue part) ≤
      start.store.running.inflight queue part) :
    l.selectedIncoming (tableKey queue part) ≤ l.store.running.inflight queue part := by
  refine path.preserves (P := fun l => l.selectedIncoming (tableKey queue part) ≤
    l.store.running.inflight queue part) ?_ hstart
  intro l q c rest hmeets hl
  have hq : q ∈ queues := (chooseQueue_mem hmeets.chosen).1
  have hloop := hok.passes hplain hmeets.path
  have hmono := hloop.inflight_round req (hplain q hq) hmeets.next queue part
  obtain ⟨-, rfl, -⟩ := hloop.head hmeets.next
  -- the count of another partition stays as it is
  have hother : ∀ {l' : Selection}, Counted c (l.pop c.job.queue rest) l' →
      ¬ (queue = c.job.queue ∧ part = c.job.partitionKey) →
      l'.selectedIncoming (tableKey queue part) = l.selectedIncoming (tableKey queue part) := by
    intro l' counted hne
    rw [counted.selectedIncoming]
    split
    · rw [Function.update_of_ne]
      intro hcon
      exact hne ((tableKey_inj hqueue (hkeys _ hq)).mp hcon)
    · rfl
  -- and that of the candidate's own goes up by one at most
  have hone : ∀ {l' : Selection}, Counted c (l.pop c.job.queue rest) l' →
      l'.selectedIncoming (tableKey c.job.queue c.job.partitionKey) ≤
        l.selectedIncoming (tableKey c.job.queue c.job.partitionKey) + 1 := by
    intro l' counted
    rw [counted.selectedIncoming]
    split
    · rw [Function.update_self]
    · dsimp only
      omega
  cases hloop.toRound req (hplain _ hq) hmeets.next with
  | keeps jobs running tables =>
    rw [tables.selectedIncoming]
    exact hl.trans hmono
  | ends cfg limit strategy last jobs held running adds counted =>
    have hlimit : concurrencyPolicy l.store c.job.queue = some cfg := limit
    rw [counted.selectedIncoming, if_neg (by simpa [hlimit] using strategy)]
    exact hl.trans hmono
  | claims room charge jobs running adds counted =>
    by_cases hqp : queue = c.job.queue ∧ part = c.job.partitionKey
    · obtain ⟨rfl, rfl⟩ := hqp
      have hclaimed : (afterRound now req c.job.queue c rest l).store.running.inflight c.job.queue
          c.job.partitionKey = l.store.running.inflight c.job.queue c.job.partitionKey + 1 := by
        rw [running]
        show (l.store.running.incInflight c.job.queue c.job.partitionKey).inflight _ _ = _
        rw [Running.inflight_inc, if_pos ⟨rfl, rfl⟩]
      have hcount := hone counted
      omega
    · rw [hother counted hqp]
      exact hl.trans hmono
  | replaces cfg limit incoming full victim k first charge jobs running adds counted =>
    by_cases hqp : queue = c.job.queue ∧ part = c.job.partitionKey
    · -- the strategy counts up to the ceiling, and the ceiling was reached
      obtain ⟨rfl, rfl⟩ := hqp
      have hcount := hone counted
      have hincoming : l.selectedIncoming (tableKey c.job.queue c.job.partitionKey) <
        cfg.maxConcurrent := incoming
      have hfull : cfg.maxConcurrent ≤
        l.store.running.inflight c.job.queue c.job.partitionKey := full
      omega
    · rw [hother counted hqp]
      exact hl.trans hmono

/-! ## Section 2: Spent classes stay spent -/

/-- What the rate clause found when it held a candidate back. -/
theorem passRate_short {l : Selection} (h : (passRate now c l).2 = false) :
    c.job.rateClass ≠ "" ∧ ∃ b, l.store.policy.rate c.job.rateClass = some b ∧
      (refill now b).tokens < l.takenClass c.job.rateClass + cost c.job ∧
      (passRate now c l).1.configured c.job.rateClass = true := by
  unfold passRate bucketAvail at h ⊢
  by_cases hempty : c.job.rateClass = ""
  · rw [if_pos hempty] at h
    cases h
  · rw [if_neg hempty] at h ⊢
    refine ⟨hempty, ?_⟩
    cases hrate : l.store.policy.rate c.job.rateClass with
    | none =>
      rw [hrate] at h
      cases h
    | some b =>
      rw [hrate] at h
      refine ⟨b, rfl, ?_, Function.update_self _ _ _⟩
      rw [decide_eq_false_iff_not] at h
      exact not_le.mp h

/-- A class, once looked at, stays marked, and its count never goes down. -/
theorem afterRound_class :
    l.takenClass rc ≤ (afterRound now req q c rest l).takenClass rc ∧
      (l.configured rc = true → (afterRound now req q c rest l).configured rc = true) := by
  unfold afterRound
  set m : Selection := l.pop q rest with hm
  have htables := (gateVerdict_clause now req q c m).tables
  have hclauses : m.configured rc = true → (gateVerdict now req q c m).1.configured rc = true := by
    obtain ⟨rate, configured, t, hlook, -, heq⟩ := gateVerdict_eq now req q c m
    rw [heq]
    exact (hlook rc).2
  have hcost := cost_pos c.job
  rcases considerCandidate_cases now req q c m with ⟨-, heq⟩ | ⟨a, -, -, heq⟩ | ⟨a, -, -, heq⟩
  · rw [heq, htables.takenClass]
    exact ⟨le_rfl, hclauses⟩
  · rw [heq]
    exact ⟨le_of_eq (congrFun htables.takenClass rc).symm, hclauses⟩
  · rw [heq]
    cases a with
    | discard | cancelIncoming => exact ⟨le_of_eq (congrFun htables.takenClass rc).symm, hclauses⟩
    | claim =>
      refine ⟨?_, hclauses⟩
      -- a claim adds its cost to its own class
      show m.takenClass rc ≤ (if c.job.rateClass ≠ "" then
        Function.update (gateVerdict now req q c m).1.takenClass c.job.rateClass
          ((gateVerdict now req q c m).1.takenClass c.job.rateClass + cost c.job)
        else (gateVerdict now req q c m).1.takenClass) rc
      rw [htables.takenClass]
      split
      · by_cases hclass : rc = c.job.rateClass
        · rw [hclass, Function.update_self]
          omega
        · rw [Function.update_of_ne hclass]
      · exact le_rfl

theorem Passes.class_le (path : Passes now req weight queues start l)
    (hconf : start.configured rc = true) :
    start.takenClass rc ≤ l.takenClass rc ∧ l.configured rc = true :=
  path.preserves
    (P := fun l => start.takenClass rc ≤ l.takenClass rc ∧ l.configured rc = true)
    (fun _ _ _ _ _ hl => ⟨hl.1.trans afterRound_class.1, afterRound_class.2 hl.2⟩)
    ⟨le_rfl, hconf⟩

theorem Passes.books (hok : LoopOk now s start) (hplain : ∀ q ∈ queues, Without ':' q)
    (path : Passes now req weight queues start l) {b : Bucket}
    (hstart : ClassBooks now s rc b start) : ClassBooks now s rc b l :=
  path.preserves (P := ClassBooks now s rc b)
    (fun _ _ _ _ hmeets hl => hl.round (hok.passes hplain hmeets.path).ok hmeets.next) hstart

end

/-! ## Section 3: Blocked jobs -/

/-- A policy stands in the way of the job itself. -/
inductive Blocked (now : Int) (s : Store) (j : Job) : Prop where
  | quarantine (listed : j.fingerprint ∈ s.policy.quarantine)
  | rate (b : Bucket) (classed : j.rateClass ≠ "") (limit : s.policy.rate j.rateClass = some b)
      (short : (refill now b).tokens < cost j)
  | ceiling (cfg : ConcurrencyLimit) (limit : concurrencyPolicy s j.queue = some cfg)
      (full : cfg.maxConcurrent ≤ (s.runningJobs j.queue j.partitionKey).card)

section
variable {calls : List Call} {now : Int} {req : AdmitRequest} {order : SetOrder String}
  {m : Selection} {q : String} {c : Candidate} {rest : List Candidate} (hnames : NamesApart calls req)
  (hmeets : Meets now req (qweight (exec calls)) (requestQueues req)
    (loopStart now req order (exec calls)) q c rest m)
  (hrun : Passes now req (qweight (exec calls)) (requestQueues req) (afterRound now req q c rest m)
    (selection now req order (requestQueues req) (exec calls)).1)

include hnames hmeets hrun

/-- A class that had too little for a candidate has too little after the call. -/
theorem Meets.rate_blocked (hfree : passQuarantine c m.store = true)
    (short : (passRate now c (m.pop q rest)).2 = false) (seen : List String) :
    ∃ b, (settle now req seen
      (selection now req order (requestQueues req) (exec calls)).1).policy.rate c.job.rateClass =
        some b ∧ (refill now b).tokens < cost c.job := by
  have hok := loopStart_ok now order hnames
  obtain ⟨hclass, b, hb, hshort, hconf⟩ := passRate_short short
  -- the class was configured before the call
  obtain ⟨b₀, hb₀⟩ : ∃ b₀, (exec calls).policy.rate c.job.rateClass = some b₀ := by
    cases hrate : (exec calls).policy.rate c.job.rateClass with
    | some b₀ => exact ⟨b₀, rfl⟩
    | none =>
      have hnone : m.store.policy.rate c.job.rateClass = none := by
        refine hmeets.path.preserves
          (P := fun l => l.store.policy.rate c.job.rateClass = none) ?_ ?_
        · intro l q c rest _ hl
          exact considerCandidate_rate_none hl
        · obtain ⟨routes, hstart⟩ := loopStart_eq now req order (exec calls)
          rw [hstart]
          exact hrate
      have hsome : m.store.policy.rate c.job.rateClass = some b := hb
      rw [hnone] at hsome
      cases hsome
  have hstart : ClassBooks now (exec calls) c.job.rateClass b₀
      (loopStart now req order (exec calls)) := by
    obtain ⟨routes, hstart⟩ := loopStart_eq now req order (exec calls)
    rw [hstart]
    exact ⟨hb₀, fun _ => rfl, le_refl 0, le_max_left 0 _, (add_zero _).symm⟩
  have hbooks := hmeets.path.books hok hnames.requested hstart
  have hrefill : refill now b = refill now b₀ := by
    have hbucket := hbooks.bucket
    have hsome : m.store.policy.rate c.job.rateClass = some b := hb
    rw [hsome] at hbucket
    rw [Option.some.inj hbucket]
    split
    · exact refill_refill now b₀
    · rfl
  -- the round that looked at it has marked it
  have hround : (afterRound now req q c rest m).configured c.job.rateClass = true ∧
      (afterRound now req q c rest m).takenClass = m.takenClass := by
    have hverdict : gateVerdict now req q c (m.pop q rest) =
        ((passRate now c (m.pop q rest)).1, none) := by
      rcases gateVerdict_cases now req q c (m.pop q rest) with ⟨hno, -⟩ | ⟨-, heq⟩ | ⟨hpass, -⟩
      · exact absurd (hfree.symm.trans hno) nofun
      · exact heq
      · exact absurd (hpass.symm.trans short) nofun
    unfold afterRound
    rw [considerCandidate_eq, hverdict]
    exact ⟨hconf, (passRate_clause now c _).tables.takenClass⟩
  obtain ⟨htaken, hmarked⟩ := hrun.class_le hround.1
  have hend := (hmeets.after.trans hrun).books hok hnames.requested hstart
  refine ⟨_, hend.settled hmarked req seen, ?_⟩
  rw [refill_spent]
  rw [hround.2] at htaken
  rw [hrefill] at hshort
  dsimp only at hshort ⊢
  omega

/-- A partition that had no place for a candidate has none after the call. -/
theorem Meets.ceiling_blocked (hkeys : ∀ q ∈ requestQueues req, Without '\x00' q)
    (full : (passCeiling now q c (passRate now c (m.pop q rest)).1).2 = none) :
    ∃ cfg, concurrencyPolicy (exec calls) q = some cfg ∧ cfg.maxConcurrent ≤
      (selection now req order (requestQueues req) (exec calls)).1.store.running.inflight q
        c.job.partitionKey := by
  have hok := loopStart_ok now order hnames
  have hm := hok.passes hnames.requested hmeets.path
  have hq : q ∈ requestQueues req := (chooseQueue_mem hmeets.chosen).1
  obtain ⟨p, hp⟩ := passRate_store now c (m.pop q rest)
  have hclause := passRate_clause now c (m.pop q rest)
  generalize passRate now c (m.pop q rest) = r at hp hclause full
  have hown : OwnEntries q c.job.partitionKey r.1.store := by
    rw [hp]
    exact hm.roster.ownEntries (hnames.requested q hq) c.job.partitionKey
  have hrunning : r.1.store.running = m.store.running := by rw [hp]
  have hverdict := passCeiling_verdict now (c := c) hown
  rw [full] at hverdict
  generalize (passCeiling now q c r.1).1 = l₂ at hverdict
  cases hverdict with
  | holds cfg limit hfull =>
    refine ⟨cfg, ?_, ?_⟩
    · rw [← limit, concurrencyPolicy_rules (s := exec calls) (hm.rules.trans hclause.rules)]
    · -- the counter was at the ceiling when the candidate was met, and does not go down
      have hmet : cfg.maxConcurrent ≤ m.store.running.inflight q c.job.partitionKey := by
        rw [hrunning] at hfull
        rcases hfull with hfull | ⟨-, hincoming⟩
        · exact hfull
        · rw [hclause.tables.selectedIncoming] at hincoming
          refine hincoming.trans (hmeets.path.incoming_le hok hnames.requested hkeys (hkeys q hq)
            c.job.partitionKey ?_)
          obtain ⟨routes, hstart⟩ := loopStart_eq now req order (exec calls)
          rw [hstart]
          show (0 : Int) ≤ (exec calls).running.inflight q c.job.partitionKey
          rw [(exec_heldOk calls).runningBooks.inflight]
          exact Int.natCast_nonneg _
      -- from the meeting to the end of the loop the counter only grows
      have hone : Passes now req (qweight (exec calls)) (requestQueues req) m
          (afterRound now req q c rest m) :=
        .round .here hmeets.room hmeets.chosen hmeets.next
      exact hmet.trans ((hone.trans hrun).inflight_le hm hnames.requested q c.job.partitionKey)

/-- A candidate that a policy held back is blocked in the store the call leaves. -/
theorem Meets.blocked (hkeys : ∀ q ∈ requestQueues req, Without '\x00' q)
    (hlease : 1 ≤ req.leaseMs) (h : Refusal now req q c (m.pop q rest)) :
    Blocked now (admitCall now req order (exec calls)).1 c.job := by
  have hok := loopStart_ok now order hnames
  have hm := hok.passes hnames.requested hmeets.path
  have hend := hok.passes hnames.requested (hmeets.after.trans hrun)
  obtain ⟨-, rfl, -⟩ := hm.head hmeets.next
  have hbooks := (exec_heldOk (calls ++ [⟨now, .admission req order⟩])).runningBooks.inflight
    c.job.queue c.job.partitionKey
  have hcall : exec (calls ++ [⟨now, .admission req order⟩]) =
    (admitCall now req order (exec calls)).1 := exec_snoc calls _
  rw [hcall] at hbooks
  rw [admitCall_eq hlease] at hbooks ⊢
  dsimp only at hbooks ⊢
  obtain ⟨deficit, hpolicy⟩ := settle_policy now req
    (selection now req order (requestQueues req) (exec calls)).2
    (selection now req order (requestQueues req) (exec calls)).1
  -- the list of quarantined fingerprints is the same at the end of the call
  have hquarantined : passQuarantine c m.store = false →
      Blocked now (settle now req (selection now req order (requestQueues req) (exec calls)).2
        (selection now req order (requestQueues req) (exec calls)).1) c.job := by
    intro hlisted
    have hsame : (selection now req order (requestQueues req)
        (exec calls)).1.store.policy.quarantine = m.store.policy.quarantine :=
      hend.rules.quarantine.trans hm.rules.quarantine.symm
    apply Blocked.quarantine
    rw [hpolicy]
    show c.job.fingerprint ∈
      (selection now req order (requestQueues req) (exec calls)).1.store.policy.quarantine
    rw [hsame]
    unfold passQuarantine at hlisted
    simp only [Bool.or_eq_false_iff, decide_eq_false_iff_not, not_not] at hlisted
    exact hlisted.2
  cases h with
  | quarantine listed => exact hquarantined listed
  | rate short =>
    cases hfree : passQuarantine c m.store with
    | false => exact hquarantined hfree
    | true =>
      obtain ⟨b, hb, hshort⟩ := hmeets.rate_blocked hnames hrun hfree short
        (selection now req order (requestQueues req) (exec calls)).2
      exact .rate b (passRate_short short).1 hb hshort
  | ceiling fits credit full =>
    obtain ⟨cfg, limit, hfull⟩ := hmeets.ceiling_blocked hnames hrun hkeys full
    refine .ceiling cfg ?_ ?_
    · rw [← limit, ← concurrencyPolicy_rules hend.rules]
      unfold concurrencyPolicy
      rw [hpolicy]
      rfl
    · rw [← hbooks]
      show _ ≤ (addRunning now _ _).inflight _ _
      rw [addRunning_inflight]
      exact hfull

end

/-! ## Section 4: The call -/

/-- A due job of the partition that the worker may run. -/
@[mk_iff]
structure DueFor (now : Int) (worker queue part : String) (j : Job) : Prop where
  due : j.isDue now = true
  queue : j.queue = queue
  part : j.partitionKey = part
  mine : j.stickyWorker = "" ∨ j.stickyWorker = worker

instance (now : Int) (worker queue part : String) (j : Job) :
    Decidable (DueFor now worker queue part j) :=
  decidable_of_iff' _ (dueFor_iff ..)

/-- The draw takes every due job of the partition that the caller may run.  Of a paused queue
nothing is drawn; there it says that no such job is due. -/
def DrawsAll (now : Int) (req : AdmitRequest) (order : SetOrder String) (queue part : String)
    (s : Store) : Prop :=
  ∀ id ∈ s.ids, ∀ j ∈ s.job? id, DueFor now req.worker queue part j →
    ⟨id, j⟩ ∈ queueCands now req order queue s

instance (now : Int) (req : AdmitRequest) (order : SetOrder String) (queue part : String)
    (s : Store) : Decidable (DrawsAll now req order queue part s) := by
  unfold DrawsAll
  infer_instance

/-- The due jobs in the streams that a worker's draw of the partition reads. -/
def backlog (now : Int) (worker queue part : String) (s : Store) : Finset String :=
  s.ids.filter fun id => (s.job? id).any fun j => j.isDue now &&
    (j.pendingKey = pendingKey queue part "" || j.pendingKey = pendingKey queue part worker)

/-- With credit for the backlog nothing is left out. -/
theorem drawsAll_of_backlog {now : Int} {req : AdmitRequest} {order : SetOrder String}
    {part : String} {s : Store} (hentries : EntriesOk s) (hfound : AllFound s)
    (hpaused : queue ∉ s.policy.paused) (hstar : req.worker ≠ "*")
    (hfits : ((backlog now req.worker queue part s).card : Int) ≤
      deficit req.quantum queue part s) : DrawsAll now req order queue part s := by
  rintro id - j row ⟨due, rfl, rfl, mine⟩
  have hfind := hfound id j row (isDue_iff.mp due).1
  have hplain : j.stickyWorker ≠ "*" := by
    intro hsticky
    rcases mine with hfree | hmine
    · rw [hfree] at hsticky
      exact absurd hsticky (by decide)
    · exact hstar (hmine.symm.trans hsticky)
  refine mem_queueCands.mpr ⟨hpaused, j.partitionKey, hfind.part hplain, ?_⟩
  refine mem_partCands_of_card_le hentries (backlog now req.worker j.queue j.partitionKey s) ?_
    hfits row due mine hfind.stream
  intro sticky hsticky a sc hsc hle
  -- an entry of one of the two streams is a due job with that stream's key
  obtain ⟨k, hk, hwait, hkey, hsched⟩ := hentries _ _ _ hsc
  unfold backlog
  rw [Finset.mem_filter, Store.mem_ids]
  refine ⟨⟨k, hk⟩, ?_⟩
  rw [hk, Option.any_some]
  unfold Job.isDue
  rcases hsticky with rfl | rfl
  · simp [hwait, hkey, hsched, hle]
  · simp [hwait, hkey, hsched, hle]

/-- The call stopped short of its capacity and of the partition's credit. -/
@[mk_iff]
structure StopsShort (now : Int) (req : AdmitRequest) (order : SetOrder String)
    (queue part : String) (s : Store) : Prop where
  capacity : (decidedJobs s (admitCall now req order s).1).card < req.capacity
  credit : ((decidedIn s (admitCall now req order s).1 queue part).card : Int) <
    deficit req.quantum queue part s

instance (now : Int) (req : AdmitRequest) (order : SetOrder String) (queue part : String)
    (s : Store) : Decidable (StopsShort now req order queue part s) :=
  decidable_of_iff' _ (stopsShort_iff ..)

/-- A call that stops short leaves only blocked jobs of the partition waiting. -/
def Isolated (now : Int) (req : AdmitRequest) (order : SetOrder String) (queue part : String)
    (s : Store) : Prop :=
  StopsShort now req order queue part s → ∀ id j, s.job? id = some j →
    DueFor now req.worker queue part j →
      (∃ j', (admitCall now req order s).1.job? id = some j' ∧ j'.state.isWaiting = true) →
        Blocked now (admitCall now req order s).1 j

section
variable {calls : List Call} {now : Int} {req : AdmitRequest} {order : SetOrder String}

/-- A call that stopped short of its capacity has met every candidate. -/
theorem all_met (hshort : (selection now req order (requestQueues req) (exec calls)).1.decided <
      req.capacity) {q : String} {c : Candidate}
    (hc : c ∈ (loopStart now req order (exec calls)).cands q) :
    ∃ m rest, Meets now req (qweight (exec calls)) (requestQueues req)
        (loopStart now req order (exec calls)) q c rest m ∧
      Passes now req (qweight (exec calls)) (requestQueues req) (afterRound now req q c rest m)
        (selection now req order (requestQueues req) (exec calls)).1 := by
  obtain ⟨hq, -⟩ := mem_loopStart.mp hc
  -- the loop ended with capacity to spare, so the candidates ran out
  have hempty : (selection now req order (requestQueues req) (exec calls)).1.cands q = [] := by
    rcases selection_exhausts now req order (requestQueues_nodup req) (exec calls) with
      hfull | hnone
    · exact absurd hshort (not_lt.mpr hfull)
    · exact hnone q hq
  rcases (selection_passes now req order (exec calls)).met hc with hin | hmet
  · rw [hempty] at hin
    cases hin
  · exact hmet

/-- A drawn job that still waits after a call that stopped short is blocked. -/
theorem blocked_of_drawn (hnames : NamesApart calls req)
    (hkeys : ∀ q ∈ requestQueues req, Without '\x00' q) (hlease : 1 ≤ req.leaseMs)
    {id : String} {j j' : Job} (hq : j.queue ∈ requestQueues req)
    (hshort : StopsShort now req order j.queue j.partitionKey (exec calls))
    (hdrawn : ⟨id, j⟩ ∈ queueCands now req order j.queue (exec calls))
    (row' : (admitCall now req order (exec calls)).1.job? id = some j')
    (waiting : j'.state.isWaiting = true) :
    Blocked now (admitCall now req order (exec calls)).1 j := by
  have hok := loopStart_ok now order hnames
  obtain ⟨hall, hpart⟩ := admitCall_decisions order hkeys now hlease hnames
  have hcapacity := hshort.capacity
  rw [← hall] at hcapacity
  have hcredit := hshort.credit
  rw [← hpart j.queue j.partitionKey (hkeys _ hq)] at hcredit
  obtain ⟨m, rest, hmeets, hrun⟩ := all_met hcapacity (mem_loopStart.mpr ⟨hq, hdrawn⟩)
  have hm := hok.passes hnames.requested hmeets.path
  rw [admitCall_job? hlease] at row'
  rcases hm.decided req hmeets.next with hnone | ⟨k, hk, hidle⟩
  · rcases refusal_of_none hnone with hrefusal | hcred
    · exact hmeets.blocked hnames hrun hkeys hlease hrefusal
    · -- the partition had credit to the end
      exfalso
      have hused := mt passDeficit_iff.mpr (Bool.eq_false_iff.mp hcred)
      have hmono := hrun.takenPart_le (tableKey j.queue j.partitionKey)
      have hround : m.takenPart (tableKey j.queue j.partitionKey) ≤
          (afterRound now req j.queue ⟨id, j⟩ rest m).takenPart
            (tableKey j.queue j.partitionKey) :=
        considerCandidate_takenPart (l := m.pop j.queue rest) _
      have hlimit : deficit req.quantum j.queue j.partitionKey m.store =
          deficit req.quantum j.queue j.partitionKey (exec calls) := by
        unfold deficit
        rw [hm.rules.deficit]
      apply hused
      dsimp only
      omega
  · -- decided jobs do not wait
    exfalso
    obtain ⟨k', hk', hidle'⟩ :=
      hrun.not_waiting (hok.passes hnames.requested hmeets.after).ok hk hidle
    rw [row'] at hk'
    cases hk'
    rw [waiting] at hidle'
    cases hidle'

end

/-- **Policy isolation.**  In a run with well-told names, an accepted call that draws every due
job of an open partition leaves only blocked jobs of it waiting, when it stops short of capacity
and credit.  If it leaves only blocked jobs waiting, then the jobs it did not draw are blocked
themselves. -/
theorem admit_isolation (calls : List Call) (now : Int) (req : AdmitRequest)
    (order : SetOrder String) (hnames : NamesApart calls req)
    (hkeys : ∀ q ∈ requestQueues req, Without '\x00' q) (hlease : 1 ≤ req.leaseMs)
    (queue part : String) (hq : queue ∈ requestQueues req) :
    (DrawsAll now req order queue part (exec calls) →
      Isolated now req order queue part (exec calls)) ∧
    (Isolated now req order queue part (exec calls) →
      StopsShort now req order queue part (exec calls) →
        ∀ id j, (exec calls).job? id = some j → DueFor now req.worker queue part j →
          ⟨id, j⟩ ∉ queueCands now req order queue (exec calls) →
            Blocked now (admitCall now req order (exec calls)).1 j) := by
  constructor
  · rintro hall hshort id j row hdue ⟨j', row', waiting⟩
    have hmem : id ∈ (exec calls).ids := (Store.mem_ids _ id).mpr ⟨j, row⟩
    have hdrawn := hall id hmem j row hdue
    obtain ⟨-, rfl, rfl, -⟩ := hdue
    exact blocked_of_drawn hnames hkeys hlease hq hshort hdrawn row' waiting
  · intro hisolated hshort id j row hdue hout
    have waiting := (isDue_iff.mp hdue.due).1
    -- a job outside its own queue's draw is in no draw: queue names are kept apart
    have hnone : ∀ q, ⟨id, j⟩ ∉ (loopStart now req order (exec calls)).cands q := by
      intro q hin
      obtain ⟨rfl, -⟩ := mem_loopStart_own hnames hin
      apply hout
      rw [← hdue.queue]
      exact (mem_loopStart.mp hin).2
    obtain ⟨hrow, -⟩ := admitCall_undrawn hnames row waiting hnone
    exact hisolated hshort id j row hdue ⟨j, hrow, waiting⟩

/-- A class with one token, a job of it that costs five, and a job without class that fell due
later. -/
def heavyFirst : List Call :=
  [⟨0, .upsertRateClass "r" 0 1 1 false⟩,
    ⟨0, .enqueue [
      { id := "a", kind := "k", queue := "q", partitionKey := "p", rateClass := "r", weight := 5 }]⟩,
    ⟨1, .enqueue [{ id := "b", kind := "k", queue := "q", partitionKey := "p" }]⟩]

theorem admit_isolation_heavyFirst :
    StopsShort 2 ⟨"w", "L", ["q"], 5, 10, 2⟩ .increasing "q" "p" (exec heavyFirst) ∧
      admitted 2 ⟨"w", "L", ["q"], 5, 10, 2⟩ .increasing (exec heavyFirst) = ["b"] ∧
      Isolated 2 ⟨"w", "L", ["q"], 5, 10, 2⟩ .increasing "q" "p" (exec heavyFirst) := by
  refine ⟨by decide +kernel, by decide +kernel, ?_⟩
  exact (admit_isolation heavyFirst 2 ⟨"w", "L", ["q"], 5, 10, 2⟩ .increasing (by decide +kernel)
    (by decide +kernel) (by decide) "q" "p" (by decide +kernel)).1 (by decide +kernel)

/-- With a quantum of one, the job of the spent class takes the only place in the window: nothing
is claimed, and the job behind it waits although no policy speaks of it. -/
theorem isolation_broken :
    admitted 2 ⟨"w", "L", ["q"], 5, 10, 1⟩ .increasing (exec heavyFirst) = [] ∧
      ¬ Isolated 2 ⟨"w", "L", ["q"], 5, 10, 1⟩ .increasing "q" "p" (exec heavyFirst) := by
  refine ⟨by decide +kernel, fun hisolated => ?_⟩
  have hshort : StopsShort 2 ⟨"w", "L", ["q"], 5, 10, 1⟩ .increasing "q" "p"
    (exec heavyFirst) := by decide +kernel
  obtain ⟨j, row, hdue, hclass⟩ : ∃ j, (exec heavyFirst).job? "b" = some j ∧
      DueFor 2 "w" "q" "p" j ∧ j.rateClass = "" :=
    ⟨_, rfl, by decide +kernel, rfl⟩
  have hstill : ((admitCall 2 ⟨"w", "L", ["q"], 5, 10, 1⟩ .increasing
    (exec heavyFirst)).1.job? "b").any (fun j => j.state.isWaiting) = true := by decide +kernel
  have hfree : (admitCall 2 ⟨"w", "L", ["q"], 5, 10, 1⟩ .increasing
    (exec heavyFirst)).1.policy.quarantine = ∅ := by decide +kernel
  have hopen : concurrencyPolicy (admitCall 2 ⟨"w", "L", ["q"], 5, 10, 1⟩ .increasing
    (exec heavyFirst)).1 "q" = none := by decide +kernel
  rw [Option.any_eq_true] at hstill
  -- none of the three reasons applies to the light job behind the heavy one
  cases hisolated hshort "b" j row hdue hstill with
  | quarantine listed =>
    rw [hfree] at listed
    exact absurd listed (Finset.notMem_empty _)
  | rate b classed => exact classed hclass
  | ceiling cfg limit =>
    rw [hdue.queue, hopen] at limit
    cases limit

end Headgate.Redis
