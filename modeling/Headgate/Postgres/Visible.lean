import Headgate.Postgres.Adaptive
import Headgate.Sql.Ledger

/-!
# Which partitions the gate sees

`active_parts` keeps, for each queue, the first `capacity * overfetch` listed
partitions in the database's order of texts; nothing behind that cut is drawn from,
charged or credited, however long it has waited.  A partition before the cut is
either served or credited with its quantum.
-/

namespace Headgate.Postgres

open Headgate.Core Data Sql

variable {wide : Bool}

variable {overfetch now : Int} {req : AdmitRequest} {db db' : GateDb} {p : Part}

/-! ## Section 1: The selection reads the table -/

section
variable (overfetch now : Int) (req : AdmitRequest) (db : GateDb) (wide : Bool)

theorem chosen_subperm :
    ((chosen overfetch now req db wide).map Decision.cand).Subperm
      (candidates overfetch now req db wide) := by
  have hpool := (eligiblePool_cands now req db (candidates overfetch now req db wide)).subperm
  obtain ⟨l, hperm, hl⟩ : (chosen overfetch now req db wide).Subperm _ := eligible_subperm _
  exact ((hperm.map _).symm.subperm.trans (hl.map _).subperm).trans hpool

theorem chosen_read : AllRead db (chosen overfetch now req db wide) := by
  intro e he
  have hcand := (chosen_subperm overfetch now req db wide).subset (List.mem_map_of_mem he)
  obtain ⟨q, -, hq⟩ := List.mem_flatMap.mp hcand
  exact (mem_drawPart hq).1

/-- No row is selected twice. -/
theorem chosen_ulids_nodup :
    ((chosen overfetch now req db wide).map fun e => e.cand.ulid).Nodup := by
  have hcands : ((candidates overfetch now req db wide).map Candidate.ulid).Nodup :=
    drawParts_ulids_nodup (.inl rfl) (activeParts_nodup overfetch) _
  obtain ⟨l, hperm, hl⟩ := chosen_subperm overfetch now req db wide
  have hnodup := (hperm.map Candidate.ulid).nodup_iff.mp ((hl.map Candidate.ulid).nodup hcands)
  rwa [List.map_map] at hnodup

end

/-- A selected row has a rank within the share of its partition. -/
theorem chosen_rank {e : Decision} (he : e ∈ chosen overfetch now req db wide) :
    (e.cand.rankPart : Int) ≤ fairShare req db e.cand.part := by
  have hpool := (eligible_subperm _).subset he
  have hcand := (chosen_subperm overfetch now req db wide).subset (List.mem_map_of_mem he)
  unfold eligiblePool at hpool
  split at hpool
  · -- without policies the window itself ends at the share
    rename_i hfree
    obtain ⟨q, -, hq⟩ := List.mem_flatMap.mp hcand
    have hrank := (rank_of_mem_drawPart hq).2
    rw [(mem_drawPart hq).2]
    unfold routeLimit freeBound at hrank
    rw [if_pos hfree] at hrank
    omega
  · have hready := policyReady_of_mem_eligPolicy hpool
    simp only [policyReady, Bool.and_eq_true, decide_eq_true_eq] at hready
    exact hready.2

theorem chosen_selected (overfetch now : Int) (req : AdmitRequest) (db : GateDb) (wide : Bool) :
    Selected req db (chosen overfetch now req db wide) where
  read := chosen_read overfetch now req db wide
  ulids := chosen_ulids_nodup overfetch now req db wide
  share _ := length_le_of_rank_le (activeParts_nodup overfetch)
    (chosen_subperm overfetch now req db wide) fun _ he hpart => hpart ▸ chosen_rank he
  capacity := List.length_take_le _ _

/-- What a call that succeeds did, with the selected rows still available. -/
theorem admitQueries_ok {rows : List (String × Job)}
    (h : admitQueries overfetch now req db = .ok (db', rows)) :
    db'.jobs = settleJobs gateDialect now req db (chosen overfetch now req db true) ∧
    db'.deficits = settleDeficits req db (seenParts overfetch now req db true)
      (chosen overfetch now req db true) ∧
    rows.map Prod.fst = (claimedRows db (chosen overfetch now req db true)).map Prod.fst := by
  rw [admitQueries_eq] at h
  split at h
  · have h := Except.ok.inj h
    -- the chosen rows were read in this transaction, so locking finds them unchanged
    unfold settle at h
    rw [if_pos rfl, locked_eq (chosen_read overfetch now req db true)] at h
    obtain ⟨rfl, rfl⟩ := Prod.mk.inj h
    exact ⟨rfl, rfl, List.map_map⟩
  · cases h

/-- Without policies every decision is a claim. -/
theorem chosen_claims (overfetch now : Int) (hfree : policyFree req db = true) :
    ∀ e ∈ chosen overfetch now req db true, e.action = .claim := by
  intro e he
  have hpool := (eligible_subperm _).subset he
  unfold eligiblePool at hpool
  rw [if_pos hfree] at hpool
  obtain ⟨c, -, rfl⟩ := List.mem_map.mp hpool
  rfl

/-! ## Section 2: Seen and unseen partitions -/

/-- The partition has a due job that the caller may run. -/
def Runnable (now : Int) (req : AdmitRequest) (db : GateDb) (p : Part) : Prop :=
  ∃ u j, db.jobs.get u = some j ∧ j.state = .available ∧ inPart p j = true ∧
    j.scheduledAtMs ≤ now ∧ (j.stickyWorker = "" ∨ j.stickyWorker = req.worker)

/-- The partition is before the cut, and the window for it is not empty. -/
@[mk_iff]
structure Visible (overfetch : Int) (req : AdmitRequest) (db : GateDb) (p : Part) : Prop where
  listed : (db.activePartitions.get p).isSome
  /-- Few enough listed partitions of the queue come before it in the database's order. -/
  beforeCut : db.activePartitions.count (fun q _ => decide (q.1 = p.1) &&
      decide (db.texts.sortKey q.2 < db.texts.sortKey p.2))
    < (req.capacity * overfetch).toNat
  quantum : 0 < req.quantum
  share : policyFree req db = true → 0 < fairShare req db p

instance : Decidable (Visible overfetch req db p) :=
  decidable_of_iff' _ (visible_iff ..)

theorem routeLimit_wide_pos_iff (hp : p ∈ activeParts req db overfetch) :
    0 < routeLimit overfetch req db true p ↔
      0 < req.quantum ∧ (policyFree req db = true → 0 < fairShare req db p) := by
  have hcap := capacity_pos hp
  unfold routeLimit drawLimit freeBound
  rw [if_pos rfl]
  -- with policies the window is an overfetch, without them it ends at the share
  cases policyFree req db with
  | true =>
    rw [if_pos rfl]
    simp only [forall_true_left]
    omega
  | false =>
    rw [if_neg Bool.false_ne_true]
    simp only [Bool.false_eq_true, false_imp_iff, and_true]
    omega

theorem partRows_ne_nil (hrun : Runnable now req db p) : partRows gateDialect now req db p ≠ [] := by
  obtain ⟨u, j, hget, havail, hpart, hdue, hsticky⟩ := hrun
  intro hnil
  have hroute := List.append_eq_nil_iff.mp hnil
  by_cases hempty : j.stickyWorker = ""
  · obtain ⟨c, hc, -⟩ := exists_routeRows 0 hget havail hpart (.inl hdue)
    rw [hempty, hroute.1] at hc
    cases hc
  · -- a pinned job, and the caller is the named worker
    have hworker : j.stickyWorker = req.worker := hsticky.resolve_left hempty
    obtain ⟨c, hc, -⟩ := exists_routeRows 1 hget havail hpart (.inl hdue)
    have hpinned := hroute.2
    unfold pinnedRows at hpinned
    rw [if_neg (by rintro ⟨-, hworker'⟩; exact hempty (hworker.trans hworker'))] at hpinned
    rw [hworker, hpinned] at hc
    cases hc

theorem mem_seenParts (hqueue : p.1 ∈ normalizeQueues req.queues) (hruns : paused db p.1 = false)
    (hrun : Runnable now req db p) :
    p ∈ seenParts overfetch now req db true ↔ Visible overfetch req db p := by
  have hrows : (rankedRows gateDialect now req db p).length ≠ 0 := by
    rw [rankedRows_length]
    exact fun h => partRows_ne_nil hrun (List.length_eq_zero_iff.mp h)
  -- there is a row to draw, so the draw is empty only if the limit is
  have hdrawn : (!(drawn overfetch now req db true p).isEmpty) = true ↔
      0 < routeLimit overfetch req db true p := by
    rw [drawn_eq, Bool.not_eq_true', ← Bool.not_eq_true, List.isEmpty_iff, List.take_eq_nil_iff,
      ← List.length_eq_zero_iff]
    omega
  unfold seenParts
  rw [List.mem_filter, hdrawn]
  constructor
  · rintro ⟨hactive, hpos⟩
    obtain ⟨-, -, hlisted, hcut⟩ := mem_activeParts.mp hactive
    obtain ⟨hquantum, hshare⟩ := (routeLimit_wide_pos_iff hactive).mp hpos
    exact ⟨hlisted, hcut, hquantum, hshare⟩
  · intro h
    have hactive := mem_activeParts.mpr ⟨hqueue, hruns, h.listed, h.beforeCut⟩
    exact ⟨hactive, (routeLimit_wide_pos_iff hactive).mpr ⟨h.quantum, h.share⟩⟩

/-- Nothing is selected from a partition that is not seen. -/
theorem seen_of_chosen {e : Decision} (he : e ∈ chosen overfetch now req db wide) :
    e.cand.part ∈ seenParts overfetch now req db wide := by
  have hcand := (chosen_subperm overfetch now req db wide).subset (List.mem_map_of_mem he)
  obtain ⟨q, hq, hdrawn⟩ := List.mem_flatMap.mp hcand
  rw [(mem_drawPart hdrawn).2]
  refine List.mem_filter.mpr ⟨hq, ?_⟩
  simpa using List.ne_nil_of_mem hdrawn

theorem decisionsIn_unseen (h : p ∉ seenParts overfetch now req db wide) :
    decisionsIn db (chosen overfetch now req db wide) p = 0 := by
  have hnone : (chosen overfetch now req db wide).filter (fun e => e.cand.part = p) = [] := by
    apply List.filter_eq_nil_iff.mpr
    intro e he hpart
    rw [decide_eq_true_eq] at hpart
    exact h (hpart ▸ seen_of_chosen he)
  have hle := decisionsIn_le (chosen_read overfetch now req db wide) p
  rw [hnone] at hle
  exact Nat.le_zero.mp hle

/-! ## Section 3: Served or credited -/

/-- In a call of the full gate, a partition with a job that the caller may run is served or
credited with a quantum if it is before the cut; otherwise nothing happens to it. -/
theorem served_or_credited_iff_visible (overfetch now : Int) (req : AdmitRequest)
    (db db' : GateDb) (rows : List (String × Job)) (p : Part)
    (hcall : admitQueries overfetch now req db = .ok (db', rows))
    (hqueue : p.1 ∈ normalizeQueues req.queues) (hruns : paused db p.1 = false)
    (hrun : Runnable now req db p) :
    (Visible overfetch req db p →
        0 < decidedIn db db' p ∨ db'.deficits p = some (chargedDeficit req (db.deficits p) 0)) ∧
      (¬ Visible overfetch req db p →
        decidedIn db db' p = 0 ∧ db'.deficits p = db.deficits p) := by
  obtain ⟨hjobs, hdeficits, -⟩ := admitQueries_ok hcall
  have hread := chosen_read overfetch now req db true
  have hdecided := decisionsIn_eq_decidedIn gateDialect now req hjobs hread
    (chosen_ulids_nodup overfetch now req db true) p
  rw [← mem_seenParts hqueue hruns hrun, ← hdecided, hdeficits]
  unfold settleDeficits
  constructor
  · intro hseen
    rw [if_pos hseen]
    -- a partition seen without a decision keeps its whole quantum as credit
    rcases Nat.eq_zero_or_pos (decisionsIn db (chosen overfetch now req db true) p) with hzero | hpos
    · exact .inr (by rw [hzero])
    · exact .inl hpos
  · intro hunseen
    rw [if_neg hunseen]
    exact ⟨decisionsIn_unseen hunseen, rfl⟩

/-- Nine partitions of a queue, one job in each. -/
def nineTenants : GateDb where
  jobs := Table.empty.insertRows (["1", "2", "3", "4", "5", "6", "7", "8", "9"].map fun tenant =>
    ("job" ++ tenant, baseJob 0 { queue := "q", partitionKey := tenant }))
  buckets := .empty
  quarantine := .empty
  limits := .empty
  activePartitions := Table.empty.insertRows
    (["1", "2", "3", "4", "5", "6", "7", "8", "9"].map fun tenant => (("q", tenant), ()))
  queueStates := fun _ => none
  deficits := fun _ => none
  inflight := fun _ => none

/-- The first eight partitions are served or credited, with the default overfetch of eight. -/
theorem served_or_credited_iff_visible_nineTenants :
    ∃ db' rows, admitQueries 8 5 oneJob nineTenants = .ok (db', rows) ∧
      Visible 8 oneJob nineTenants ("q", "2") ∧
      (0 < decidedIn nineTenants db' ("q", "2") ∨ db'.deficits ("q", "2") = some 3) := by
  have hrun : Runnable 5 oneJob nineTenants ("q", "2") :=
    ⟨"job2", _, rfl, by decide, by decide, by decide, .inl (by decide)⟩
  have hvisible : Visible 8 oneJob nineTenants ("q", "2") := by decide +kernel
  refine ⟨_, _, rfl, hvisible, ?_⟩
  exact (served_or_credited_iff_visible 8 5 oneJob nineTenants _ _ ("q", "2") rfl
    (by decide +kernel) (by decide) hrun).1 hvisible

/-- The ninth is neither. -/
theorem ninth_tenant_invisible :
    Runnable 5 oneJob nineTenants ("q", "9") ∧
      ∃ db' rows, admitQueries 8 5 oneJob nineTenants = .ok (db', rows) ∧
        decidedIn nineTenants db' ("q", "9") = 0 ∧ db'.deficits ("q", "9") = none := by
  refine ⟨⟨"job9", _, rfl, by decide, by decide, by decide, .inl (by decide)⟩, _, _, rfl, ?_, ?_⟩
  · decide +kernel
  · decide +kernel

end Headgate.Postgres
