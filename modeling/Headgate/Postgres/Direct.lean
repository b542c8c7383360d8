import Headgate.Postgres.Visible

/-!
# `admit_direct.sql`

With no policy, no pinned job and at most one active partition there is nothing
to merge or to rank between queues, so one short statement can draw and claim.
It tests for this shape itself and answers a sentinel otherwise.  Whenever it
applies it does what the full gate does, as long as the full gate can compute
its own bound on the partitions.
-/

namespace Headgate.Postgres

open Headgate.Core Data Sql

section Statement
variable (now : Int) (req : AdmitRequest) (db : GateDb)

/-! ## Section 1: The statement -/

/-- No available job of a requested queue is pinned to a worker. -/
def unpinned : Bool :=
  (db.jobs.select fun _ j => decide (j.state = .available) && decide (j.stickyWorker ≠ "")
    && req.queues.contains j.queue).isEmpty

def directKey (e : Part × Unit) : String ×ₗ String :=
  toLex (db.texts.sortKey e.1.1, db.texts.sortKey e.1.2)

/-- `active_parts`: two of them are already too many. -/
def directParts : List Part :=
  (first (directKey db) 2
    (db.activePartitions.select fun p _ =>
      (normalizeQueues req.queues).contains p.1 && !paused db p.1)).map Prod.fst

/-- `shape.applicable`. -/
def applicable : Bool :=
  (policyFree req db && unpinned req db) && decide (0 < req.capacity)
    && decide ((directParts req db).length ≤ 1)

def directLimit (p : Part) : Int :=
  min (req.quantum * 4) (min (fairShare req db p) req.capacity)

/-- The available rows of a partition, pinned or not. -/
def directRows (p : Part) : List ((String × Job) × Nat) :=
  db.jobs.entries.zipIdx.filter fun row =>
    (decide (row.1.2.state = .available) && inPart p row.1.2)
      && decide (row.1.2.scheduledAtMs ≤ now ∨ row.1.2.priority > 0)

/-- `ORDER BY priority DESC, scheduled_at_ms, id`. -/
def rowKey (row : (String × Job) × Nat) : Int ×ₗ Int ×ₗ Nat :=
  toLex (-row.1.2.priority, toLex (row.1.2.scheduledAtMs, row.2))

/-- `drawn`. -/
def directDrawn : List String :=
  if applicable req db then
    (directParts req db).flatMap fun p =>
      (first rowKey (directLimit req db p).toNat (directRows now db p)).map fun row => row.1.1
  else []

def directRow (j : Job) : Job :=
  { j with
    state := .running
    lease := some ⟨req.leaseId, now + req.leaseMs, now, req.worker⟩
    fence := j.fence + 1
    rateCharge := 0 }

/-- `claimed`, the rows as they were. -/
def directClaimed : List (String × Job) :=
  db.jobs.select fun u j => (directDrawn now req db).contains u && decide (j.state = .available)

def directClaimedIn (p : Part) : Nat :=
  ((directClaimed now req db).filter fun e => inPart p e.2).length

def directClaimedOf (queue : String) : Nat :=
  ((directClaimed now req db).filter fun e => e.2.queue = queue).length

/-- `charge`: all claims are counted, there is one partition. -/
def directDeficits (p : Part) : Option Int :=
  if p ∈ directParts req db ∧ directDrawn now req db ≠ [] then
    some (chargedDeficit req (db.deficits p) (directClaimed now req db).length)
  else db.deficits p

/-- `infl`: the counter is not clamped. -/
def directInflight (p : Part) : Option Int :=
  if directClaimedIn now req db p = 0 then db.inflight p
  else some ((db.inflight p).getD 0 + directClaimedIn now req db p)

/-- `queue_charge`. -/
def directQueues (queue : String) : Option QueueState :=
  if directClaimedOf now req db queue = 0 then db.queueStates queue
  else
    let st := queueState db queue
    some { st with dispatchCount := st.dispatchCount + directClaimedOf now req db queue }

/-- `admit_direct.sql`; `widen` is the sentinel that sends the caller to the full gate. -/
def admitDirect : Except StoreError PassResult :=
  if (directParts req db).all fun p => 0 ≤ directLimit req db p then
    .ok {
      db := { db with
        jobs := db.jobs.update
          (fun u j => (directDrawn now req db).contains u && decide (j.state = .available))
          fun _ => directRow now req
        deficits := directDeficits now req db
        inflight := directInflight now req db
        queueStates := directQueues now req db }
      claims := (directClaimed now req db).map fun e => (e.1, directRow now req e.2)
      widen := !applicable req db }
  else .error negativeLimit

/-- The bound on the partitions is a product of two 32-bit integers. -/
def integerOutOfRange : StoreError := .backend "integer out of range"

/-- `admit.sql` with that product computed as Postgres does, for a capacity that is itself a
32-bit integer. -/
def fullGate (overfetch : Int) : Except StoreError (GateDb × List (String × Job)) :=
  if (normalizeQueues req.queues).isEmpty
      ∨ (-2 ^ 31 ≤ req.capacity * overfetch ∧ req.capacity * overfetch < 2 ^ 31) then
    admitQueries overfetch now req db
  else .error integerOutOfRange

end Statement

variable {overfetch now : Int} {req : AdmitRequest} {db : GateDb} {p : Part}

/-! ## Section 2: Where it does not apply -/

/-- The sentinel comes alone. -/
theorem admitDirect_inapplicable {r : PassResult} (hcall : admitDirect now req db = .ok r)
    (h : applicable req db = false) : r.db = db ∧ r.claims = [] ∧ r.widen = true := by
  have hdrawn : directDrawn now req db = [] := by
    unfold directDrawn
    rw [h]
    rfl
  have hclaimed : directClaimed now req db = [] := by
    unfold directClaimed Table.select
    simp [hdrawn]
  -- without a drawn row none of the four updates finds anything to change
  have hdeficits : directDeficits now req db = db.deficits := by
    funext p
    unfold directDeficits
    simp [hdrawn]
  have hinflight : directInflight now req db = db.inflight := by
    funext p
    unfold directInflight directClaimedIn
    simp [hclaimed]
  have hqueues : directQueues now req db = db.queueStates := by
    funext queue
    unfold directQueues directClaimedOf
    simp [hclaimed]
  have hjobs : db.jobs.update
      (fun u j => (directDrawn now req db).contains u && decide (j.state = .available))
      (fun _ => directRow now req) = db.jobs := by
    apply Table.update_eq_self
    intro u j _
    simp [hdrawn]
  unfold admitDirect at hcall
  split at hcall
  · cases hcall
    rw [hdeficits, hinflight, hqueues, hjobs, hclaimed, h]
    exact ⟨rfl, rfl, rfl⟩
  · cases hcall

/-! ## Section 3: The same partition -/

/-- Every counter of running jobs is a count. -/
def CountersOk (db : GateDb) : Prop := ∀ p n, db.inflight p = some n → 0 ≤ n

/-- What the shape test establishes. -/
structure Direct (req : AdmitRequest) (db : GateDb) : Prop where
  free : policyFree req db = true
  unpinned : unpinned req db = true
  capacity : 0 < req.capacity
  alone : (directParts req db).length ≤ 1

theorem applicable_iff : applicable req db = true ↔ Direct req db := by
  unfold applicable
  simp only [Bool.and_eq_true, decide_eq_true_eq]
  exact ⟨fun h => ⟨h.1.1.1, h.1.1.2, h.1.2, h.2⟩,
    fun h => ⟨⟨⟨h.free, h.unpinned⟩, h.capacity⟩, h.alone⟩⟩

/-- With less than two partitions the list is complete. -/
theorem mem_directParts (h : (directParts req db).length ≤ 1) : p ∈ directParts req db ↔
    p.1 ∈ normalizeQueues req.queues ∧ paused db p.1 = false ∧
      (db.activePartitions.get p).isSome := by
  unfold directParts at h ⊢
  rw [List.length_map, first, List.length_take, (orderBy_perm _ _).length_eq] at h
  -- the query reads two partitions at most, and here there is no second one
  have hall : first (directKey db) 2
      (db.activePartitions.select fun p _ =>
        (normalizeQueues req.queues).contains p.1 && !paused db p.1)
      = orderBy (directKey db)
        (db.activePartitions.select fun p _ =>
          (normalizeQueues req.queues).contains p.1 && !paused db p.1) := by
    apply List.take_of_length_le
    rw [(orderBy_perm _ _).length_eq]
    omega
  rw [hall, List.mem_map]
  constructor
  · rintro ⟨⟨q, u⟩, hmem, rfl⟩
    obtain ⟨hget, hcond⟩ := Table.mem_select.mp (mem_orderBy.mp hmem)
    simp only [Bool.and_eq_true, List.contains_iff_mem, Bool.not_eq_true'] at hcond
    exact ⟨hcond.1, hcond.2, by simp [hget]⟩
  · rintro ⟨hqueue, hruns, hlisted⟩
    obtain ⟨u, hget⟩ := Option.isSome_iff_exists.mp hlisted
    refine ⟨(p, u), mem_orderBy.mpr (Table.mem_select.mpr ⟨hget, ?_⟩), rfl⟩
    simp [hqueue, hruns]

theorem directParts_nodup : (directParts req db).Nodup := by
  have hselect := db.activePartitions.select_nodup fun p _ =>
    (normalizeQueues req.queues).contains p.1 && !paused db p.1
  have hperm := (orderBy_perm (directKey db)
    (db.activePartitions.select fun p _ =>
      (normalizeQueues req.queues).contains p.1 && !paused db p.1)).map Prod.fst
  exact ((first_sublist _ _ _).map Prod.fst).nodup (hperm.nodup_iff.mpr hselect)

/-- The full gate draws from the same partition, if its bound lets it see one. -/
theorem activeParts_eq_directParts (h : Direct req db) (hbound : 1 ≤ req.capacity * overfetch) :
    activeParts req db overfetch = directParts req db := by
  have hmem : ∀ q, q ∈ activeParts req db overfetch ↔ q ∈ directParts req db := by
    intro q
    rw [mem_activeParts, mem_directParts h.alone]
    constructor
    · rintro ⟨hqueue, hruns, hlisted, -⟩
      exact ⟨hqueue, hruns, hlisted⟩
    · rintro ⟨hqueue, hruns, hlisted⟩
      refine ⟨hqueue, hruns, hlisted, ?_⟩
      -- a partition of the queue with a smaller key would be a second one
      have hzero : db.activePartitions.count
          (fun r _ => decide (r.1 = q.1) &&
            decide (db.texts.sortKey r.2 < db.texts.sortKey q.2)) = 0 := by
        rw [Table.count_eq_zero]
        intro r u hget
        by_contra hcond
        simp only [Bool.not_eq_false, Bool.and_eq_true, decide_eq_true_eq] at hcond
        have hr : r ∈ directParts req db :=
          (mem_directParts h.alone).mpr ⟨hcond.1 ▸ hqueue, hcond.1 ▸ hruns, by simp [hget]⟩
        have hq := (mem_directParts h.alone).mpr ⟨hqueue, hruns, hlisted⟩
        rw [eq_of_length_le_one h.alone hr hq] at hcond
        exact lt_irrefl _ hcond.2
      rw [hzero]
      omega
  have hperm : (activeParts req db overfetch).Perm (directParts req db) :=
    (List.perm_ext_iff_of_nodup (activeParts_nodup overfetch) directParts_nodup).mpr hmem
  have halone := h.alone
  cases hl : directParts req db with
  | nil =>
    rw [hl] at hperm
    exact hperm.eq_nil
  | cons q rest =>
    rw [hl] at hperm halone
    obtain rfl : rest = [] := List.eq_nil_of_length_eq_zero (by simpa using halone)
    exact List.perm_singleton.mp hperm

theorem routeLimit_eq_directLimit (overfetch : Int) (h : Direct req db) (p : Part) :
    routeLimit overfetch req db true p = directLimit req db p := by
  have hcap := h.capacity
  unfold routeLimit freeBound drawLimit directLimit
  rw [if_pos h.free]
  rw [if_pos rfl]
  omega

/-! ## Section 4: The same rows -/

/-- The candidate that the full gate makes of a row. -/
def rowCandidate (row : (String × Job) × Nat) : Candidate where
  id := row.2
  ulid := row.1.1
  stream := 0
  queue := row.1.2.queue
  partitionKey := row.1.2.partitionKey
  rateClass := row.1.2.rateClass
  weight := row.1.2.weight
  fingerprint := row.1.2.fingerprint
  priority := row.1.2.priority
  scheduledAtMs := row.1.2.scheduledAtMs

theorem unpinned_row (h : Direct req db) {u : String} {j : Job} (hget : db.jobs.get u = some j)
    (havail : j.state = .available) (hqueue : j.queue ∈ req.queues) : j.stickyWorker = "" := by
  by_contra hsticky
  have hempty := h.unpinned
  unfold unpinned at hempty
  rw [List.isEmpty_iff] at hempty
  have hmem : (u, j) ∈ db.jobs.select fun _ j => decide (j.state = .available)
      && decide (j.stickyWorker ≠ "") && req.queues.contains j.queue :=
    Table.mem_select.mpr ⟨hget, by simp [havail, hsticky, hqueue]⟩
  rw [hempty] at hmem
  cases hmem

theorem mem_queues_of_directParts (h : Direct req db) (hp : p ∈ directParts req db) :
    p.1 ∈ req.queues := by
  have hqueue := ((mem_directParts h.alone).mp hp).1
  exact (List.mem_insertionSort _).mp (List.mem_dedup.mp hqueue)

/-- Without pinned jobs the two streams of a partition are one. -/
theorem partRows_eq_directRows (hunpinned : ∀ u j, db.jobs.get u = some j →
      j.state = .available → j.queue = p.1 → j.stickyWorker = "") :
    partRows gateDialect now req db p = (directRows now db p).map rowCandidate := by
  -- no available job of the queue is pinned to a worker
  have hpinned : pinnedRows gateDialect now req db p = [] := by
    unfold pinnedRows
    split
    · rfl
    next hnamed =>
      rw [List.eq_nil_iff_forall_not_mem]
      intro c hc
      obtain ⟨⟨j, hj⟩, hpart, -⟩ := mem_routeRows hc
      have hsticky := routeRows_sticky hc hj
      rw [hunpinned _ _ hj.get hj.available (hj.queue.trans (congrArg Prod.fst hpart))] at hsticky
      exact hnamed ⟨rfl, hsticky.symm⟩
  have hroute : routeRows now db p 0 "" = (directRows now db p).map rowCandidate := by
    unfold routeRows directRows
    rw [← List.filterMap_eq_map, ← List.filterMap_eq_filter, List.filterMap_filterMap]
    apply List.filterMap_congr
    rintro ⟨⟨u, j⟩, id⟩ hrow
    have hget : db.jobs.get u = some j :=
      Table.mem_entries.mp (List.mem_of_getElem? (List.mem_zipIdx_iff_getElem?.mp hrow))
    dsimp only [inPart]
    -- the two queries filter by the same conditions but for the pin
    by_cases hcond : j.state = .available ∧ j.queue = p.1 ∧ j.partitionKey = p.2
        ∧ (j.scheduledAtMs ≤ now ∨ j.priority > 0)
    · obtain ⟨havail, hown, hkey, htime⟩ := hcond
      have hsticky := hunpinned _ _ hget havail hown
      rw [if_pos ⟨havail, hown, hkey, hsticky, htime⟩]
      simp [havail, hown, hkey, htime, Option.guard, rowCandidate]
    · rw [if_neg fun hall => hcond ⟨hall.1, hall.2.1, hall.2.2.1, hall.2.2.2.2⟩]
      symm
      rw [Option.bind_eq_none_iff]
      intro row hrow'
      obtain ⟨-, hrow'⟩ := Option.guard_eq_some_iff.mp hrow'
      simp only [Bool.and_eq_true, decide_eq_true_eq] at hrow'
      exact absurd ⟨hrow'.1.1, hrow'.1.2.1, hrow'.1.2.2, hrow'.2⟩ hcond
  unfold partRows
  rw [hpinned, hroute, List.append_nil]

theorem rowKey_le_iff (a b : (String × Job) × Nat) :
    rowKey a ≤ rowKey b ↔ (rowCandidate a).key ≤ (rowCandidate b).key := by
  simp only [rowKey, Candidate.key, rowCandidate, Prod.Lex.toLex_le_toLex, le_refl,
    and_true]
  -- the candidate's key ends with its stream, which is the same for all these rows
  constructor
  · rintro (hlt | ⟨heq, hlt | ⟨heq', hle⟩⟩)
    · exact .inl hlt
    · exact .inr ⟨heq, .inl hlt⟩
    · exact .inr ⟨heq, .inr ⟨heq', hle.lt_or_eq⟩⟩
  · rintro (hlt | ⟨heq, hlt | ⟨heq', hlt | heq''⟩⟩)
    · exact .inl hlt
    · exact .inr ⟨heq, .inl hlt⟩
    · exact .inr ⟨heq, .inr ⟨heq', hlt.le⟩⟩
    · exact .inr ⟨heq, .inr ⟨heq', heq''.le⟩⟩

/-- The draw of a partition without pinned jobs, as rows of the table in order. -/
theorem drawn_keys (wide : Bool) (hunpinned : ∀ u j, db.jobs.get u = some j →
      j.state = .available → j.queue = p.1 → j.stickyWorker = "") :
    (drawn overfetch now req db wide p).map (fun c => (c.ulid, c.key)) =
      (first rowKey (routeLimit overfetch req db wide p).toNat (directRows now db p)).map
        fun row => (row.1.1, (rowCandidate row).key) := by
  have hranked : (rankedRows gateDialect now req db p).map (fun c => (c.ulid, c.key))
      = (orderBy rowKey (directRows now db p)).map
        fun row => (row.1.1, (rowCandidate row).key) := by
    -- both queries sort by the same order, under different names
    have hsorted := List.map_insertionSort (r := fun a b => rowKey a ≤ rowKey b)
      (s := fun a b : Candidate => a.key ≤ b.key) rowCandidate (directRows now db p)
      fun a _ b _ => rowKey_le_iff a b
    unfold rankedRows
    rw [numbered_map, partRows_eq_directRows hunpinned]
    · unfold orderBy
      rw [← hsorted, List.map_map]
      rfl
    · intro c rank
      rfl
  rw [drawn_eq, List.map_take, hranked, first, List.map_take]

section Agreement
variable (h : Direct req db)
include h

/-- Both draws of the partition name the same rows in the same order. -/
theorem drawn_ulids (hp : p ∈ directParts req db) :
    (drawn overfetch now req db true p).map Candidate.ulid =
      (first rowKey (directLimit req db p).toNat (directRows now db p)).map fun row => row.1.1 := by
  have hqueue := mem_queues_of_directParts h hp
  have hkeys : (drawn overfetch now req db true p).map (fun c => (c.ulid, c.key)) = _ :=
    drawn_keys true fun u j hget havail hown => unpinned_row h hget havail (hown ▸ hqueue)
  have hfst := congrArg (List.map Prod.fst) hkeys
  rw [List.map_map, List.map_map, routeLimit_eq_directLimit overfetch h] at hfst
  exact hfst

/-- Without a bucket no claim carries a charge. -/
theorem claimedRow_eq : claimedRow gateDialect now req db = directRow now req := by
  have hbuckets : ∀ cls, db.buckets.get cls = none := by
    intro cls
    have hfree := h.free
    simp only [policyFree, Bool.and_eq_true, List.isEmpty_iff] at hfree
    unfold Table.get
    rw [hfree.1.1]
    rfl
  funext j
  unfold claimedRow directRow chargeFor
  rw [hbuckets]
  simp

/-- All claims belong to the one partition. -/
theorem directClaimed_part (hp : p ∈ directParts req db) :
    directClaimedIn now req db p = (directClaimed now req db).length := by
  unfold directClaimedIn
  congr 1
  apply List.filter_eq_self.mpr
  rintro ⟨u, j⟩ hmem
  obtain ⟨hget, hcond⟩ := Table.mem_select.mp hmem
  simp only [Bool.and_eq_true, List.contains_iff_mem] at hcond
  have hdrawn := hcond.1
  unfold directDrawn at hdrawn
  rw [if_pos (applicable_iff.mpr h)] at hdrawn
  obtain ⟨q, hq, hrow⟩ := List.mem_flatMap.mp hdrawn
  -- there is one partition only, so every claim is of it
  obtain rfl := eq_of_length_le_one h.alone hq hp
  obtain ⟨⟨⟨u', j'⟩, id⟩, hfirst, rfl⟩ := List.mem_map.mp hrow
  obtain ⟨hentry, hcond'⟩ := List.mem_filter.mp (mem_of_mem_first hfirst)
  have hget' : db.jobs.get u' = some j' :=
    Table.mem_entries.mp (List.mem_of_getElem? (List.mem_zipIdx_iff_getElem?.mp hentry))
  rw [hget, Option.some_inj] at hget'
  subst hget'
  simp only [Bool.and_eq_true] at hcond'
  exact hcond'.1.2

variable (hbound : 1 ≤ req.capacity * overfetch)
include hbound

theorem candidates_ulids (now : Int) :
    (candidates overfetch now req db true).map Candidate.ulid = directDrawn now req db := by
  unfold candidates directDrawn
  rw [if_pos (applicable_iff.mpr h), activeParts_eq_directParts h hbound, List.map_flatMap]
  exact List.flatMap_congr fun p hp => drawn_ulids h hp

/-- One partition gives no more rows than the caller can take. -/
theorem candidates_length :
    (candidates overfetch now req db true).length ≤ req.capacity := by
  have hdrawn : ∀ q, (drawn overfetch now req db true q).length ≤ req.capacity := by
    intro q
    have hlimit := routeLimit_eq_directLimit overfetch h q
    unfold directLimit at hlimit
    rw [drawn_eq, List.length_take]
    omega
  unfold candidates
  rw [activeParts_eq_directParts h hbound]
  match directParts req db, h.alone with
  | [], _ => exact Nat.zero_le _
  | [q], _ => simpa using hdrawn q

/-! ## Section 5: The same selection -/

theorem chosen_perm (now : Int) :
    (chosen overfetch now req db true).Perm
      ((candidates overfetch now req db true).map fun c => ⟨c, .claim⟩) := by
  have hpool : eligiblePool now req db (candidates overfetch now req db true)
      = (candidates overfetch now req db true).map fun c => ⟨c, .claim⟩ := by
    unfold eligiblePool
    rw [if_pos h.free]
    rfl
  unfold chosen eligible first
  rw [hpool, List.take_of_length_le]
  · exact orderBy_perm _ _
  · rw [(orderBy_perm _ _).length_eq, List.length_map]
    exact candidates_length h hbound

theorem chosen_ulids_contains (u : String) :
    ((chosen overfetch now req db true).map fun e => e.cand.ulid).contains u
      = (directDrawn now req db).contains u := by
  have hperm := (chosen_perm h hbound now).map fun e : Decision => e.cand.ulid
  rw [List.map_map] at hperm
  rw [← candidates_ulids h hbound now, Bool.eq_iff_iff, List.contains_iff_mem,
    List.contains_iff_mem, hperm.mem_iff]
  rfl

theorem claimedRows_eq (now : Int) :
    claimedRows db (chosen overfetch now req db true) = directClaimed now req db := by
  unfold claimedRows directClaimed
  rw [claimIds_of_claims (chosen_claims overfetch now h.free)]
  simp only [chosen_ulids_contains h hbound]

/-- The one partition is seen if anything was drawn. -/
theorem seen_iff_drawn :
    p ∈ seenParts overfetch now req db true ↔ p ∈ directParts req db ∧ directDrawn now req db ≠ [] := by
  unfold seenParts
  rw [List.mem_filter, activeParts_eq_directParts h hbound]
  refine and_congr_right fun hp => ?_
  have hone : directDrawn now req db = (drawn overfetch now req db true p).map Candidate.ulid := by
    rw [drawn_ulids h hp]
    unfold directDrawn
    rw [if_pos (applicable_iff.mpr h)]
    match hl : directParts req db, h.alone with
    | [], _ => rw [hl] at hp; cases hp
    | [q], _ =>
      rw [hl] at hp
      obtain rfl := List.mem_singleton.mp hp
      simp
  rw [hone]
  simp

/-! ## Section 6: The same writes -/

theorem settle_eq_direct (hcounters : CountersOk db) :
    settle gateDialect now req db true (seenParts overfetch now req db true)
        (chosen overfetch now req db true) =
      ({ db with
          jobs := db.jobs.update
            (fun u j => (directDrawn now req db).contains u && decide (j.state = .available))
            fun _ => directRow now req
          deficits := directDeficits now req db
          inflight := directInflight now req db
          queueStates := directQueues now req db },
        (directClaimed now req db).map fun e => (e.1, directRow now req e.2)) := by
  have hclaims := chosen_claims overfetch now h.free
  have hrows := claimedRows_eq h hbound now
  have hin : ∀ q, claimedIn db (chosen overfetch now req db true) q = directClaimedIn now req db q := by
    intro q
    unfold claimedIn directClaimedIn
    rw [hrows]
  have hjobs : settleJobs gateDialect now req db (chosen overfetch now req db true)
      = db.jobs.update
        (fun u j => (directDrawn now req db).contains u && decide (j.state = .available))
        fun _ => directRow now req := by
    rw [settleJobs_of_claims hclaims, claimedRow_eq h]
    simp only [chosen_ulids_contains h hbound]
  have hbuckets : settleBuckets gateDialect now db (chosen overfetch now req db true)
      = db.buckets := by
    apply Table.update_eq_self
    intro name b hget
    have hfree := h.free
    simp only [policyFree, Bool.and_eq_true, List.isEmpty_iff] at hfree
    have hmem := Table.mem_entries.mpr hget
    rw [hfree.1.1] at hmem
    cases hmem
  have hdeficits : settleDeficits req db (seenParts overfetch now req db true)
      (chosen overfetch now req db true) = directDeficits now req db := by
    funext q
    unfold settleDeficits directDeficits
    by_cases hseen : q ∈ directParts req db ∧ directDrawn now req db ≠ []
    · rw [if_pos ((seen_iff_drawn h hbound).mpr hseen), if_pos hseen, decisionsIn, hin,
        directClaimed_part h hseen.1, terminalDecisions_of_claims hclaims]
      rfl
    · rw [if_neg (fun hmem => hseen ((seen_iff_drawn h hbound).mp hmem)), if_neg hseen]
  have hinflight : settleInflight db (chosen overfetch now req db true)
      = directInflight now req db := by
    funext q
    rw [settleInflight_of_claims hclaims, hin]
    unfold directInflight
    -- the clamp does nothing to a count
    have hnonneg : 0 ≤ (db.inflight q).getD 0 := by
      cases hq : db.inflight q with
      | none => exact le_refl 0
      | some n => exact hcounters q n hq
    rw [max_eq_right (by omega)]
  have hqueues : settleQueues db (chosen overfetch now req db true) = directQueues now req db := by
    have hof : ∀ queue, decisionsOf db (chosen overfetch now req db true) queue
        = directClaimedOf now req db queue := by
      intro queue
      unfold decisionsOf directClaimedOf
      rw [hrows, terminalDecisions_of_claims hclaims]
      rfl
    funext queue
    unfold settleQueues directQueues
    rw [hof]
  unfold settle
  rw [if_pos rfl, locked_eq (chosen_read overfetch now req db true)]
  dsimp only
  rw [hjobs, if_pos rfl, if_pos rfl, hbuckets, hdeficits, hinflight, hqueues, hrows,
    claimedRow_eq h]

end Agreement

/-- The direct statement agrees with the full gate wherever it applies, if the full gate can
compute a positive bound on the partitions and the counters of running jobs are counts; elsewhere
it writes nothing. -/
theorem admit_direct_agrees (overfetch now : Int) (req : AdmitRequest) (db : GateDb) :
    (applicable req db = true → 1 ≤ overfetch → req.capacity * overfetch < 2 ^ 31 →
        CountersOk db →
        (admitDirect now req db).map (fun r => (r.db, r.claims)) = fullGate now req db overfetch ∧
        ∀ r, admitDirect now req db = .ok r → r.widen = false) ∧
      (applicable req db = false → ∀ r, admitDirect now req db = .ok r →
        r.db = db ∧ r.claims = [] ∧ r.widen = true) := by
  refine ⟨fun happ hoverfetch hrange hcounters => ?_, fun hnot r hr => admitDirect_inapplicable hr hnot⟩
  have h := applicable_iff.mp happ
  have hbound : 1 ≤ req.capacity * overfetch := by
    have hcap : (0 : Int) < req.capacity := by exact_mod_cast h.capacity
    exact Int.mul_pos hcap (by omega)
  constructor
  · -- the same limits are refused
    have hlimits : limitsOk overfetch req db true
        = (directParts req db).all fun p => 0 ≤ directLimit req db p := by
      unfold limitsOk
      rw [activeParts_eq_directParts h hbound, decide_eq_true (by omega), Bool.or_true,
        Bool.true_and]
      simp only [routeLimit_eq_directLimit overfetch h]
    have hfull : fullGate now req db overfetch = admitQueries overfetch now req db := by
      unfold fullGate
      rw [if_pos (.inr ⟨by omega, hrange⟩)]
    rw [hfull, admitQueries_eq, hlimits, settle_eq_direct h hbound hcounters]
    unfold admitDirect
    split
    · rfl
    · rfl
  · intro r hr
    unfold admitDirect at hr
    split at hr
    · cases hr
      rw [happ]
      rfl
    · cases hr

/-- Two jobs in the only partition, and the stored counter of its running jobs. -/
def loneTenant (counter : Option Int) : GateDb where
  jobs := Table.empty.insertRows [
    ("a", baseJob 0 { queue := "q" }),
    ("b", baseJob 0 { queue := "q", priority := 1 })]
  buckets := .empty
  quarantine := .empty
  limits := .empty
  activePartitions := Table.empty.insert ("q", "") ()
  queueStates := fun _ => none
  deficits := fun _ => none
  inflight := fun _ => counter

theorem admit_direct_agrees_loneTenant :
    applicable oneJob (loneTenant (some 4)) = true ∧
      (admitDirect 5 oneJob (loneTenant (some 4))).map (fun r => (r.db, r.claims))
        = fullGate 5 oneJob (loneTenant (some 4)) 8 := by
  have happ : applicable oneJob (loneTenant (some 4)) = true := by decide +kernel
  have hcounters : CountersOk (loneTenant (some 4)) := by
    intro p n hn
    cases hn
    decide
  exact ⟨happ, ((admit_direct_agrees 8 5 oneJob (loneTenant (some 4))).1 happ (by decide)
    (by decide) hcounters).1⟩

/-- The claims of an answer, by id. -/
def claimIdsOf : Except StoreError (GateDb × List (String × Job)) → Option (List String)
  | .ok r => some (r.2.map Prod.fst)
  | .error _ => none

/-- The running jobs of a partition that an answer leaves on record. -/
def counterOf (p : Part) : Except StoreError (GateDb × List (String × Job)) → Option Int
  | .ok r => r.1.inflight p
  | .error _ => none

/-- The two paths part where the full gate cannot compute its bound, where the bound hides the
partition, and at a counter below zero. -/
theorem direct_parts_from_full_gate :
    (applicable { oneJob with capacity := 2 ^ 28 } (loneTenant none) = true ∧
      claimIdsOf ((admitDirect 5 { oneJob with capacity := 2 ^ 28 } (loneTenant none)).map
        fun r => (r.db, r.claims)) = some ["a", "b"] ∧
      claimIdsOf (fullGate 5 { oneJob with capacity := 2 ^ 28 } (loneTenant none) 8) = none) ∧
    (applicable oneJob (loneTenant none) = true ∧
      claimIdsOf ((admitDirect 5 oneJob (loneTenant none)).map fun r => (r.db, r.claims))
        = some ["b"] ∧
      claimIdsOf (fullGate 5 oneJob (loneTenant none) 0) = some []) ∧
    (applicable oneJob (loneTenant (some (-2))) = true ∧
      counterOf ("q", "") ((admitDirect 5 oneJob (loneTenant (some (-2)))).map
        fun r => (r.db, r.claims)) = some (-1) ∧
      counterOf ("q", "") (fullGate 5 oneJob (loneTenant (some (-2))) 8) = some 0) := by
  decide +kernel

end Headgate.Postgres
