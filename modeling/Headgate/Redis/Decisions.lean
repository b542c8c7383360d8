import Headgate.Redis.Meeting

/-!
# What a call decides

To decide a job is to take it out of the waiting states, by a claim or by ending
it.  The loop counts its decisions, in all and per partition; the counts of the
partitions are kept under table keys.  Both are counts of rows: of the jobs that
waited before the call and do not wait after it.  For the partitions this needs
queue names without NUL, which is what a table key separates its parts with.
-/

namespace Headgate.Redis

open Headgate.Core Data Relation

variable {s s' : Store} {req : AdmitRequest} {now : Int} {part queue : String}

/-! ## Section 1: Decided jobs -/

/-- The jobs that waited and do not wait any more. -/
def decidedJobs (s s' : Store) : Finset String :=
  s.ids.filter fun id =>
    ((s.job? id).any fun j => j.state.isWaiting) && (s'.job? id).any fun j => !j.state.isWaiting

/-- The decided jobs of a partition. -/
def decidedIn (s s' : Store) (queue part : String) : Finset String :=
  (decidedJobs s s').filter fun id =>
    (s.job? id).any fun j => j.queue = queue && j.partitionKey = part

theorem mem_decidedJobs {id : String} :
    id ∈ decidedJobs s s' ↔ ∃ j j', s.job? id = some j ∧ j.state.isWaiting = true ∧
      s'.job? id = some j' ∧ j'.state.isWaiting = false := by
  unfold decidedJobs
  rw [Finset.mem_filter, Store.mem_ids, Bool.and_eq_true, Option.any_eq_true, Option.any_eq_true]
  constructor
  · rintro ⟨-, ⟨j, row, waiting⟩, j', row', idle⟩
    exact ⟨j, j', row, waiting, row', by simpa using idle⟩
  · rintro ⟨j, j', row, waiting, row', idle⟩
    exact ⟨⟨j, row⟩, ⟨j, row, waiting⟩, j', row', by simpa using idle⟩

theorem decidedJobs_congr {s'' : Store} (h : ∀ x, s''.job? x = s'.job? x) :
    decidedJobs s s'' = decidedJobs s s' := by
  ext id
  rw [mem_decidedJobs, mem_decidedJobs, h]

theorem decidedIn_congr {s'' : Store} (h : ∀ x, s''.job? x = s'.job? x) (queue part : String) :
    decidedIn s s'' queue part = decidedIn s s' queue part := by
  unfold decidedIn
  rw [decidedJobs_congr h]

/-- Names without NUL can be read back from a table key. -/
theorem tableKey_inj {q q' p p' : String} (hq : Without '\x00' q) (hq' : Without '\x00' q') :
    tableKey q p = tableKey q' p' ↔ q = q' ∧ p = p' := by
  constructor
  · intro h
    have hsplit := congrArg splitTableKey h
    rw [splitTableKey_tableKey hq, splitTableKey_tableKey hq'] at hsplit
    exact Prod.mk.inj hsplit
  · rintro ⟨rfl, rfl⟩
    rfl

/-! ## Section 2: Through the loop -/

/-- The counters of the loop count decided jobs. -/
structure DecisionsOk (s : Store) (l : Selection) : Prop where
  all : l.decided = (decidedJobs s l.store).card
  part : ∀ queue part, Without '\x00' queue →
    l.takenPart (tableKey queue part) = (decidedIn s l.store queue part).card

/-- No partition has taken more than its credit and one quantum. -/
def WithinCredit (req : AdmitRequest) (s : Store) (l : Selection) : Prop :=
  l.store.policy.deficit = s.policy.deficit ∧
    ∀ queue part, Without '\x00' queue →
      l.takenPart (tableKey queue part) ≤ max 0 (deficit req.quantum queue part s)

section
variable {l : Selection} {q : String} {c : Candidate} {rest : List Candidate}

/-- A round decides nothing and counts nothing, or decides its candidate and counts it. -/
theorem LoopOk.decidedJobs_round (req : AdmitRequest) (h : LoopOk now s l)
    (hplain : Without ':' q) (hc : l.cands q = c :: rest) :
    (decidedJobs s (afterRound now req q c rest l).store = decidedJobs s l.store ∧
      SameTables (l.pop q rest)
        (afterRound now req q c rest l)) ∨
    (decidedJobs s (afterRound now req q c rest l).store = insert c.id (decidedJobs s l.store) ∧
      c.id ∉ decidedJobs s l.store ∧
      Counted c (l.pop q rest)
        (afterRound now req q c rest l)) := by
  obtain ⟨hfresh, hqueue, hstands⟩ := h.head hc
  -- the candidate waits until this round
  have hnew : c.id ∉ decidedJobs s l.store := by
    intro hin
    obtain ⟨-, j, -, -, row, idle⟩ := mem_decidedJobs.mp hin
    obtain ⟨hrow, waiting, -⟩ := (h.ok.head hc).of_holds h.ok.entries hstands
    obtain rfl : c.job = j := Option.some.inj (hrow.symm.trans row)
    rw [waiting] at idle
    cases idle
  have hinsert : (∃ j, (afterRound now req q c rest l).store.job? c.id = some j ∧
      j.state.isWaiting = false) →
      decidedJobs s (afterRound now req q c rest l).store =
        insert c.id (decidedJobs s l.store) := by
    rintro ⟨j, row, idle⟩
    ext id
    rw [Finset.mem_insert]
    by_cases hid : id = c.id
    · subst hid
      simp only [true_or, iff_true]
      exact mem_decidedJobs.mpr ⟨c.job, j, hfresh.row, hfresh.waiting, row, idle⟩
    · rw [mem_decidedJobs, mem_decidedJobs]
      rcases h.others req hplain hc hid with hsame | ⟨j₁, j₂, row₁, idle₁, row₂, idle₂⟩
      · rw [hsame]
        simp [hid]
      · -- a job that ran before and after the round
        rw [row₁, row₂]
        simp [hid, idle₁, idle₂]
  cases h.toRound req hplain hc with
  | keeps jobs running tables => exact .inl ⟨decidedJobs_congr jobs, tables⟩
  | ends cfg limit strategy last jobs held running adds counted =>
    obtain ⟨j, row, terminal⟩ := last
    exact .inr ⟨hinsert ⟨j, row, not_waiting_of_terminal terminal⟩, hnew, counted⟩
  | claims room charge jobs running adds counted
  | replaces cfg limit incoming full victim k first charge jobs running adds counted =>
    exact .inr ⟨hinsert ⟨_, (jobs c.id).trans (if_pos rfl), rfl⟩, hnew, counted⟩

theorem DecisionsOk.round (h : DecisionsOk s l) (hok : LoopOk now s l) (hplain : Without ':' q)
    (hkey : Without '\x00' q) (hc : l.cands q = c :: rest) :
    DecisionsOk s (afterRound now req q c rest l) := by
  obtain ⟨hfresh, rfl, -⟩ := hok.head hc
  -- a round decides one job and counts it, or it decides none and counts none
  rcases hok.decidedJobs_round req hplain hc with ⟨hsame, tables⟩ | ⟨hinsert, hnew, counted⟩
  · refine ⟨?_, fun queue part hqueue => ?_⟩
    · rw [hsame, tables.decided]
      exact h.all
    · unfold decidedIn
      rw [hsame, tables.takenPart]
      exact h.part queue part hqueue
  · refine ⟨?_, fun queue part hqueue => ?_⟩
    · rw [hinsert, Finset.card_insert_of_notMem hnew, counted.decided]
      exact congrArg (· + 1) h.all
    · have hpart := h.part queue part hqueue
      unfold decidedIn at hpart ⊢
      rw [hinsert, counted.takenPart, Finset.filter_insert]
      by_cases hown : c.job.queue = queue ∧ c.job.partitionKey = part
      · -- the counter of the partition goes up with its jobs
        obtain ⟨rfl, rfl⟩ := hown
        rw [Function.update_self, if_pos (by simp [hfresh.row]), Finset.card_insert_of_notMem
          fun hin => hnew (Finset.mem_of_mem_filter _ hin), hpart]
        rfl
      · rw [Function.update_of_ne, if_neg (by simpa [hfresh.row] using hown)]
        · exact hpart
        · intro hcon
          obtain ⟨hq, hp⟩ := (tableKey_inj hqueue hkey).mp hcon
          exact hown ⟨hq.symm, hp.symm⟩

theorem WithinCredit.round (h : WithinCredit req s l) (hkey : Without '\x00' q) :
    WithinCredit req s (afterRound now req q c rest l) := by
  obtain ⟨hsame, hle⟩ := h
  have hrules := considerCandidate_rules now req q c (l.pop q rest)
  refine ⟨hrules.deficit.trans hsame, fun queue part hqueue => ?_⟩
  unfold afterRound
  rcases considerCandidate_tables now req q c (l.pop q rest) with htables | ⟨a, hsome, -, hdecided⟩
  · rw [htables.takenPart]
    exact hle queue part hqueue
  · -- a decision needs credit left
    have hcredit := passDeficit_iff.mp (passDeficit_of_some hsome)
    rw [hdecided.takenPart]
    by_cases hown : tableKey queue part = tableKey q c.job.partitionKey
    · obtain ⟨rfl, rfl⟩ := (tableKey_inj hqueue hkey).mp hown
      rw [Function.update_self]
      unfold deficit at hcredit ⊢
      dsimp only at hcredit ⊢
      rw [hsame] at hcredit
      -- the test has already counted this job in
      omega
    · rw [Function.update_of_ne hown]
      exact hle queue part hqueue

end

/-- A partition is charged once, if it is among the keys. -/
theorem charges_deficit (quantum : Int) (taken : String → Int) {keys : List String}
    (hkeys : keys.Nodup) (hnames : ∀ key ∈ keys, ∃ q p, Without '\x00' q ∧ key = tableKey q p)
    (pol : Policy) (hqueue : Without '\x00' queue) :
    (keys.foldl (chargeDeficit quantum taken) pol).deficit queue part =
      if tableKey queue part ∈ keys then
        max 0 (min (quantum * 4) (pol.deficit queue part + quantum - taken (tableKey queue part)))
      else pol.deficit queue part := by
  induction keys generalizing pol with
  | nil => rfl
  | cons key keys ih =>
    obtain ⟨hfirst, hrest⟩ := List.nodup_cons.mp hkeys
    obtain ⟨q, p, hq, rfl⟩ := hnames key List.mem_cons_self
    have hnames' : ∀ key ∈ keys, ∃ q p, Without '\x00' q ∧ key = tableKey q p :=
      fun key hkey => hnames key (List.mem_cons_of_mem _ hkey)
    rw [List.foldl_cons, ih hrest hnames', chargeDeficit_deficit, splitTableKey_tableKey hq]
    by_cases hown : (q, p) = (queue, part)
    · -- charged here, and by no later key
      obtain ⟨rfl, rfl⟩ := Prod.mk.inj hown
      rw [if_neg hfirst, if_pos rfl, if_pos List.mem_cons_self]
    · -- the key is split at the first NUL, which no queue contains
      have hne : tableKey queue part ≠ tableKey q p := by
        intro heq
        obtain ⟨rfl, rfl⟩ := (tableKey_inj hqueue hq).mp heq
        exact hown rfl
      rw [if_neg hown]
      simp only [List.mem_cons, hne, false_or]

/-- A partition that the call draws from. -/
structure DrawnFrom (now : Int) (req : AdmitRequest) (s : Store) (queue part : String) : Prop where
  requested : queue ∈ requestQueues req
  runs : queue ∉ s.policy.paused
  listed : part ∈ s.waiting.parts queue
  ids : drawIds now req queue part s ≠ []

/-! ## Section 3: A whole call -/

section
variable {calls : List Call} (order : SetOrder String)
  (hkeys : ∀ q ∈ requestQueues req, Without '\x00' q)
include hkeys

/-- The counts of a call. -/
theorem selection_decisions (now : Int) (hnames : NamesApart calls req) :
    DecisionsOk (exec calls) (selection now req order (requestQueues req) (exec calls)).1 := by
  have hok := loopStart_ok now order hnames
  apply (selection_passes now req order (exec calls)).preserves (P := DecisionsOk (exec calls))
  · intro l q c rest hmeets hl
    have hq : q ∈ requestQueues req := (chooseQueue_mem hmeets.chosen).1
    exact hl.round (hok.passes hnames.requested hmeets.path) (hnames.requested q hq) (hkeys q hq)
      hmeets.next
  · -- no job has stopped waiting yet
    obtain ⟨routes, hstart⟩ := loopStart_eq now req order (exec calls)
    have hnone : decidedJobs (exec calls) (loopStart now req order (exec calls)).store = ∅ := by
      rw [hstart, Finset.eq_empty_iff_forall_notMem]
      intro id hin
      obtain ⟨j, j', row, waiting, row', idle⟩ := mem_decidedJobs.mp hin
      have hrow : (exec calls).job? id = some j' := row'
      rw [row] at hrow
      cases hrow
      rw [waiting] at idle
      cases idle
    refine ⟨?_, fun queue part _ => ?_⟩
    · rw [hnone, hstart]
      rfl
    · unfold decidedIn
      rw [hnone, hstart]
      rfl

/-- What the counters of a call say about its store. -/
theorem admitCall_decisions (now : Int) (hlease : 1 ≤ req.leaseMs) (hnames : NamesApart calls req) :
    ((selection now req order (requestQueues req) (exec calls)).1.decided =
      (decidedJobs (exec calls) (admitCall now req order (exec calls)).1).card) ∧
    ∀ queue part, Without '\x00' queue →
      (selection now req order (requestQueues req) (exec calls)).1.takenPart
        (tableKey queue part) =
          (decidedIn (exec calls) (admitCall now req order (exec calls)).1 queue part).card := by
  have hcounts := selection_decisions order hkeys now hnames
  have hrows : ∀ id, (admitCall now req order (exec calls)).1.job? id =
      (selection now req order (requestQueues req) (exec calls)).1.store.job? id :=
    admitCall_job? hlease
  refine ⟨?_, fun queue part hqueue => ?_⟩
  · rw [decidedJobs_congr hrows]
    exact hcounts.all
  · rw [decidedIn_congr hrows]
    exact hcounts.part queue part hqueue

theorem selection_credit (now : Int) (s : Store) :
    WithinCredit req s (selection now req order (requestQueues req) s).1 := by
  apply (selection_passes now req order s).preserves (P := WithinCredit req s)
  · intro l q c rest hmeets hl
    exact hl.round (hkeys q (chooseQueue_mem hmeets.chosen).1)
  · obtain ⟨routes, hstart⟩ := loopStart_eq now req order s
    rw [hstart]
    exact ⟨rfl, fun _ _ _ => le_max_left 0 _⟩

/-- The credit after a call, by the key of the partition. -/
theorem admitCall_charge (hlease : 1 ≤ req.leaseMs) (hqueue : Without '\x00' queue) :
    (admitCall now req order s).1.policy.deficit queue part =
      if tableKey queue part ∈ drawnSeen now req order (requestQueues req) s then
        max 0 (min (req.quantum * 4) (s.policy.deficit queue part + req.quantum -
          (selection now req order (requestQueues req) s).1.takenPart (tableKey queue part)))
      else s.policy.deficit queue part := by
  -- the partitions to be charged are those the draw has visited
  have hseen : (selection now req order (requestQueues req) s).2
      = drawnSeen now req order (requestQueues req) s := by
    obtain ⟨routes, -, hsel⟩ := selection_eq now req order (requestQueues req) s
    rw [hsel]
  rw [admitCall_eq hlease]
  rw [settle_deficit, charges_deficit _ _ (List.nodup_dedup _) ?_ _ hqueue,
    (selection_credit order hkeys now s).1]
  · simp only [List.mem_dedup, hseen]
  · intro key hkey
    rw [List.mem_dedup, hseen] at hkey
    obtain ⟨q, hq, hmem⟩ := List.mem_flatMap.mp hkey
    obtain ⟨p, -, rfl⟩ := List.mem_map.mp hmem
    exact ⟨q, p, hkeys q hq, rfl⟩

/-- The partitions that a call charges. -/
theorem mem_drawnSeen_iff (hqueue : Without '\x00' queue) :
    tableKey queue part ∈ drawnSeen now req order (requestQueues req) s ↔
      DrawnFrom now req s queue part := by
  constructor
  · intro h
    obtain ⟨q, hq, hmem⟩ := List.mem_flatMap.mp h
    obtain ⟨p, hp, heq⟩ := List.mem_map.mp hmem
    obtain ⟨rfl, rfl⟩ := (tableKey_inj (hkeys q hq) hqueue).mp heq
    unfold queueSeen at hp
    split at hp
    · cases hp
    next hruns =>
      obtain ⟨hlisted, hids⟩ := List.mem_filter.mp hp
      exact ⟨hq, hruns, mem_sortedParts.mp hlisted, by simpa using hids⟩
  · intro h
    refine List.mem_flatMap.mpr ⟨queue, h.requested, List.mem_map_of_mem ?_⟩
    unfold queueSeen
    rw [if_neg h.runs]
    exact List.mem_filter.mpr ⟨mem_sortedParts.mpr h.listed, by simpa using h.ids⟩

variable (hlease : 1 ≤ req.leaseMs)
include hlease

/-- The credit that a call charges to a partition. -/
theorem admitCall_deficit (hnames : NamesApart calls req)
    (hdrawn : DrawnFrom now req (exec calls) queue part) :
    (admitCall now req order (exec calls)).1.policy.deficit queue part =
      max 0 (min (req.quantum * 4) ((exec calls).policy.deficit queue part + req.quantum -
        (decidedIn (exec calls) (admitCall now req order (exec calls)).1 queue part).card)) := by
  have hqueue := hkeys queue hdrawn.requested
  have htaken := (admitCall_decisions order hkeys now hlease hnames).2 queue part hqueue
  rw [← htaken, admitCall_charge order hkeys hlease hqueue,
    if_pos ((mem_drawnSeen_iff order hkeys hqueue).mpr hdrawn)]

/-- What a partition that a call draws from may take. -/
theorem admitCall_share (hnames : NamesApart calls req) (hquantum : 0 ≤ req.quantum)
    (hqueue : Without '\x00' queue) :
    ((decidedIn (exec calls) (admitCall now req order (exec calls)).1 queue part).card : Int) ≤
      (exec calls).policy.deficit queue part + req.quantum := by
  have hle := (selection_credit order hkeys now (exec calls)).2 queue part hqueue
  have hstored := exec_creditOk calls queue part
  rw [(admitCall_decisions order hkeys now hlease hnames).2 queue part hqueue] at hle
  unfold deficit at hle
  omega

end

end Headgate.Redis
