import Headgate.Postgres.Gate
import Headgate.Sql.Adapters
import Headgate.Sql.Draw

/-!
# The adaptive window

Let `z` be the last row that the narrow pass selects.  If no partition was cut
off before `z`, both windows agree on every row up to `z`; the class costs, the
ranks at the ceiling and the actions of those rows are then the same, and the
final limit stops at `z` in both.  Otherwise the narrow pass asks to be widened,
and it has written nothing.
-/

namespace Headgate.Postgres

open Headgate.Core Data Sql

variable {cands cands' : List Candidate} {z : Int ×ₗ Int ×ₗ Nat ×ₗ Nat} {wide : Bool} {p : Part}

variable {overfetch now : Int} {req : AdmitRequest} {db : GateDb}

/-! ## Section 1: The pool up to a cut -/

theorem policyReady_eq_of_upTo (now : Int) (req : AdmitRequest) (db : GateDb)
    (h : upTo Candidate.key z cands = upTo Candidate.key z cands') {c : Candidate} (hc : c.key ≤ z) :
    policyReady now req db cands c = policyReady now req db cands' c := by
  unfold policyReady hasBudget costClass
  rw [runningSum_eq_of_upTo h hc]

theorem eligPolicy_upTo (h : upTo Candidate.key z cands = upTo Candidate.key z cands') :
    upTo Decision.key z (eligPolicy now req db cands)
      = upTo Decision.key z (eligPolicy now req db cands') := by
  have hready := upTo_filter_eq h fun c hc => policyReady_eq_of_upTo now req db h hc
  have hkey : ∀ (ready : List Candidate) (c : Candidate) (e : Decision),
      ceilingDecision db ready c = some e → e.key = c.key := by
    intro ready c e he
    obtain ⟨action, -, rfl⟩ := Option.map_eq_some_iff.mp he
    rfl
  apply upTo_filterMap_eq (hkey _) (hkey _) hready
  intro c hc
  unfold ceilingDecision
  rw [rowNumber_eq_of_upTo hready hc]

theorem eligFree_upTo (h : upTo Candidate.key z cands = upTo Candidate.key z cands') :
    upTo Decision.key z (eligFree cands) = upTo Decision.key z (eligFree cands') := by
  unfold eligFree
  simp only [← List.filterMap_eq_map']
  apply upTo_filterMap_eq _ _ h fun _ _ => rfl
  all_goals
    intro c e he
    cases he
    rfl

theorem eligiblePool_upTo (now : Int) (req : AdmitRequest) (db : GateDb)
    (h : upTo Candidate.key z cands = upTo Candidate.key z cands') :
    upTo Decision.key z (eligiblePool now req db cands)
      = upTo Decision.key z (eligiblePool now req db cands') := by
  unfold eligiblePool
  split
  · exact eligFree_upTo h
  · exact eligPolicy_upTo h

/-- A decision keeps its row, so the pool is no larger than the candidates. -/
theorem eligiblePool_cands (now : Int) (req : AdmitRequest) (db : GateDb) (cands : List Candidate) :
    ((eligiblePool now req db cands).map Decision.cand).Sublist cands := by
  unfold eligiblePool
  split
  · rw [eligFree_cands]
  · exact eligPolicy_cands now req db cands

theorem candidates_nodup (wide : Bool) :
    ((candidates overfetch now req db wide).map Candidate.key).Nodup :=
  drawParts_nodup (activeParts_nodup overfetch) _

theorem pool_nodup (overfetch now : Int) (req : AdmitRequest) (db : GateDb) (wide : Bool) :
    ((eligiblePool now req db (candidates overfetch now req db wide)).map Decision.key).Nodup := by
  have hsub := (eligiblePool_cands now req db (candidates overfetch now req db wide)).map
    Candidate.key
  rw [List.map_map] at hsub
  exact hsub.nodup (candidates_nodup wide)

/-! ## Section 2: One queue -/

theorem mem_pool_queue {e : Decision}
    (h : e ∈ eligiblePool now req db (candidates overfetch now req db wide)) :
    e.cand.queue ∈ (activeParts req db overfetch).map Prod.fst := by
  have hc : e.cand ∈ candidates overfetch now req db wide :=
    (eligiblePool_cands now req db _).subset (List.mem_map_of_mem h)
  obtain ⟨p, hp, hdrawn⟩ := List.mem_flatMap.mp hc
  rw [← (mem_drawPart hdrawn).2] at hp
  exact List.mem_map.mpr ⟨_, hp, rfl⟩

theorem eq_of_length_le_one {α : Type*} {l : List α} (h : l.length ≤ 1) {a b : α} (ha : a ∈ l)
    (hb : b ∈ l) : a = b := by
  match l, h with
  | [], _ => cases ha
  | [x], _ => rw [List.mem_singleton.mp ha, List.mem_singleton.mp hb]

/-- With one queue the order between the queues is the order of the rows. -/
theorem chosen_eq_first (h : queueCount overfetch req db ≤ 1) (wide : Bool) :
    chosen overfetch now req db wide = first Decision.key req.capacity
      (eligiblePool now req db (candidates overfetch now req db wide)) := by
  unfold chosen eligible first
  rw [orderBy_eq_of_rises (pool_nodup overfetch now req db wide)]
  intro a ha b hb hab
  have hqueue : a.cand.queue = b.cand.queue :=
    eq_of_length_le_one h (List.mem_dedup.mpr (mem_pool_queue ha))
      (List.mem_dedup.mpr (mem_pool_queue hb))
  have hrank : rowNumber (fun e : Decision => e.cand.queue) Decision.key
      (eligiblePool now req db (candidates overfetch now req db wide)) a
      < rowNumber (fun e : Decision => e.cand.queue) Decision.key
      (eligiblePool now req db (candidates overfetch now req db wide)) b :=
    rowNumber_lt ha hqueue hab
  unfold servedKey
  rw [Prod.Lex.toLex_lt_toLex]
  left
  rw [hqueue]
  have hpos : (0 : ℚ) < (queueState db b.cand.queue).weight := by
    exact_mod_cast (queueState db b.cand.queue).weight_pos
  apply div_lt_div_of_pos_right _ hpos
  have hone : 1 ≤ rowNumber (fun e : Decision => e.cand.queue) Decision.key
      (eligiblePool now req db (candidates overfetch now req db wide)) a := Nat.le_add_left 1 _
  exact_mod_cast (by omega)

/-! ## Section 3: The two windows -/

section
variable (overfetch : Int) (req : AdmitRequest) (db : GateDb) (p : Part)

theorem drawLimit_narrow_le :
    drawLimit overfetch req db false ≤ drawLimit overfetch req db true := by
  exact min_le_left _ _

theorem routeLimit_narrow_le :
    routeLimit overfetch req db false p ≤ routeLimit overfetch req db true p := by
  unfold routeLimit
  have := drawLimit_narrow_le overfetch req db
  split <;> omega

theorem routeLimit_wide : routeLimit overfetch req db true p ≤ req.quantum * 4 := by
  unfold routeLimit drawLimit
  split <;> simp

/-- The share of the capacity is never negative. -/
theorem share_nonneg :
    0 ≤ ((req.capacity : Int) + max ((activeParts req db overfetch).length : Int) 1 - 1)
      / max ((activeParts req db overfetch).length : Int) 1 := by
  apply Int.ediv_nonneg <;> omega

end

/-- The narrow window is at least one row, unless the wide one is empty as well. -/
theorem drawLimit_pos (overfetch : Int) (db : GateDb) (h : 0 < req.quantum * 4) :
    0 < drawLimit overfetch req db false := by
  unfold drawLimit
  have := share_nonneg overfetch req db
  rw [if_neg (by decide)]
  omega

theorem drawLimit_nonneg_iff (overfetch : Int) (req : AdmitRequest) (db : GateDb) :
    0 ≤ drawLimit overfetch req db false ↔ 0 ≤ drawLimit overfetch req db true := by
  unfold drawLimit
  have := share_nonneg overfetch req db
  rw [if_neg (by decide), if_pos rfl]
  omega

/-- A narrower window only where the share of the capacity binds. -/
theorem routeLimit_narrow_lt
    (h : routeLimit overfetch req db false p < routeLimit overfetch req db true p) :
    routeLimit overfetch req db false p = drawLimit overfetch req db false := by
  unfold routeLimit at h ⊢
  have := drawLimit_narrow_le overfetch req db
  split at h <;> rename_i hfree
  · rw [if_pos hfree]
    omega
  · rw [if_neg hfree]

section
variable (overfetch : Int) (req : AdmitRequest) (db : GateDb) (p : Part)

theorem routeLimit_pos_iff :
    0 < routeLimit overfetch req db false p ↔ 0 < routeLimit overfetch req db true p := by
  constructor
  · intro h
    exact h.trans_le (routeLimit_narrow_le overfetch req db p)
  · intro h
    by_contra hneg
    have hlt : routeLimit overfetch req db false p < routeLimit overfetch req db true p := by omega
    rw [routeLimit_narrow_lt hlt] at hneg
    exact hneg (drawLimit_pos overfetch db (h.trans_le (routeLimit_wide overfetch req db p)))

theorem routeLimit_nonneg_iff :
    0 ≤ routeLimit overfetch req db false p ↔ 0 ≤ routeLimit overfetch req db true p := by
  have := drawLimit_nonneg_iff overfetch req db
  have := drawLimit_narrow_le overfetch req db
  unfold routeLimit
  split <;> omega

end

theorem limitsOk_eq : limitsOk overfetch req db false = limitsOk overfetch req db true := by
  unfold limitsOk
  simp only [routeLimit_nonneg_iff]

theorem drawn_eq (wide : Bool) (p : Part) :
    drawn overfetch now req db wide p
      = (rankedRows gateDialect now req db p).take (routeLimit overfetch req db wide p).toNat :=
  drawPart_eq _ p

/-- Both windows see the same partitions. -/
theorem seenParts_eq :
    seenParts overfetch now req db false = seenParts overfetch now req db true := by
  apply List.filter_congr
  intro p _
  have hpos := routeLimit_pos_iff overfetch req db p
  have hzero : (routeLimit overfetch req db false p).toNat = 0
      ↔ (routeLimit overfetch req db true p).toNat = 0 := by omega
  rw [drawn_eq, drawn_eq, Bool.not_inj_iff, Bool.eq_iff_iff, List.isEmpty_iff, List.isEmpty_iff,
    List.take_eq_nil_iff, List.take_eq_nil_iff, hzero]

/-! ## Section 4: Nothing is hidden -/

theorem capacity_pos (hp : p ∈ activeParts req db overfetch) : 0 < req.capacity := by
  by_contra hzero
  have hcap : req.capacity = 0 := by omega
  obtain ⟨queue, -, hmem⟩ := List.mem_flatMap.mp hp
  simp [hcap, first] at hmem

/-- If the narrow window drew less and does not ask to be widened, the partition was cut off
behind the last selected row. -/
theorem cut_behind_z (hwiden : widens overfetch now req db false = false)
    (hp : p ∈ activeParts req db overfetch)
    (hne : drawn overfetch now req db false p ≠ drawn overfetch now req db true p) :
    queueCount overfetch req db ≤ 1 ∧ ∃ z, eligZ req (chosen overfetch now req db false) = some z
      ∧ 0 < (routeLimit overfetch req db false p).toNat
      ∧ ∀ t, (drawn overfetch now req db false p).getLast? = some t → z.key ≤ t.key := by
  rw [drawn_eq, drawn_eq] at hne
  have hle := routeLimit_narrow_le overfetch req db p
  have hwide := routeLimit_wide overfetch req db p
  -- the windows differ, and there were rows for the difference
  have hlt : routeLimit overfetch req db false p < routeLimit overfetch req db true p := by
    by_contra hnot
    exact hne (by rw [show routeLimit overfetch req db false p = routeLimit overfetch req db true p
      by omega])
  have hpos : 0 < routeLimit overfetch req db true p := by
    by_contra hnot
    exact hne (by rw [show (routeLimit overfetch req db false p).toNat = 0 by omega,
      show (routeLimit overfetch req db true p).toNat = 0 by omega])
  have hlong : (routeLimit overfetch req db false p).toNat
      < (rankedRows gateDialect now req db p).length := by
    by_contra hnot
    exact hne (by rw [List.take_of_length_le (by omega), List.take_of_length_le (by omega)])
  have hlim := routeLimit_narrow_lt hlt
  have hlimpos := drawLimit_pos overfetch db (hpos.trans_le hwide)
  have hlen : (drawn overfetch now req db false p).length
      = (drawLimit overfetch req db false).toNat := by
    rw [drawn_eq, List.length_take, hlim]
    rw [hlim] at hlong
    omega
  -- so the verdict looked at this partition
  have hneeded : chainNeeded overfetch req db false = true := by
    unfold chainNeeded
    cases hfree : policyFree req db with
    | false => rfl
    | true =>
      simp only [Bool.not_false, Bool.not_true, Bool.false_or, Bool.true_and, List.any_eq_true,
        decide_eq_true_eq]
      refine ⟨p, hp, ?_⟩
      have hbound : routeLimit overfetch req db true p ≤ freeBound req db p := by
        unfold routeLimit
        rw [if_pos hfree]
        exact min_le_left _ _
      omega
  have hverdict : partWidens overfetch now req db false p = false := by
    unfold widens at hwiden
    rw [hneeded, decide_eq_true (capacity_pos hp), Bool.true_and, Bool.true_and,
      List.any_eq_false] at hwiden
    exact Bool.eq_false_iff.mpr (hwiden p hp)
  have hnonempty : drawn overfetch now req db false p ≠ [] := by
    intro hnil
    rw [hnil] at hlen
    simp only [List.length_nil] at hlen
    omega
  unfold partWidens at hverdict
  simp only [List.getLast?_eq_some_getLast hnonempty] at hverdict
  rw [decide_eq_true (by omega : drawLimit overfetch req db false
      ≤ (drawn overfetch now req db false p).length),
    decide_eq_true (by omega : drawLimit overfetch req db false < req.quantum * 4),
    Bool.true_and, Bool.true_and, Bool.or_eq_false_iff, decide_eq_false_iff_not] at hverdict
  obtain ⟨hqueues, hz⟩ := hverdict
  refine ⟨by omega, ?_⟩
  cases hzcase : eligZ req (chosen overfetch now req db false) with
  | none => rw [hzcase] at hz; cases hz
  | some z =>
    rw [hzcase] at hz
    refine ⟨z, rfl, by omega, ?_⟩
    intro t ht
    rw [List.getLast?_eq_some_getLast hnonempty, Option.some_inj] at ht
    rw [← ht]
    simpa using hz

theorem eligZ_some {selected : List Decision} {z : Decision} (h : eligZ req selected = some z) :
    req.capacity ≤ selected.length ∧ (orderBy Decision.key selected).getLast? = some z := by
  unfold eligZ at h
  split at h
  case isTrue hlen => exact ⟨hlen, h⟩
  case isFalse => cases h

/-- The last row in order is an upper bound. -/
theorem key_le_last {l : List Decision} (hl : (l.map Decision.key).Nodup) {z : Decision}
    (hz : (orderBy Decision.key l).getLast? = some z) {e : Decision} (he : e ∈ l) :
    e.key ≤ z.key := by
  obtain ⟨front, hfront⟩ := List.getLast?_eq_some_iff.mp hz
  have hstrict := orderBy_strict hl
  have hmem : e ∈ orderBy Decision.key l := mem_orderBy.mpr he
  rw [hfront, List.pairwise_append] at hstrict
  rw [hfront] at hmem
  rcases List.mem_append.mp hmem with hmem | hmem
  · exact (hstrict.2.2 e hmem z List.mem_cons_self).le
  · rw [List.mem_singleton] at hmem
    rw [hmem]

/-- The selection does not depend on the window unless the narrow pass says so. -/
theorem chosen_eq (hwiden : widens overfetch now req db false = false) :
    chosen overfetch now req db false = chosen overfetch now req db true := by
  by_cases hall : ∀ p ∈ activeParts req db overfetch,
      drawn overfetch now req db false p = drawn overfetch now req db true p
  · -- no row was cut off
    have hcands : candidates overfetch now req db false = candidates overfetch now req db true :=
      List.flatMap_congr hall
    unfold chosen
    rw [hcands]
  · push Not at hall
    obtain ⟨p₀, hp₀, hne₀⟩ := hall
    obtain ⟨hqueues, z, hz, -, -⟩ := cut_behind_z hwiden hp₀ hne₀
    have hcands : upTo Candidate.key z.key (candidates overfetch now req db false)
        = upTo Candidate.key z.key (candidates overfetch now req db true) := by
      apply upTo_flatMap
      intro p hp
      by_cases heq : drawn overfetch now req db false p = drawn overfetch now req db true p
      · rw [heq]
      · obtain ⟨-, z', hz', hpos, hcut⟩ := cut_behind_z hwiden hp heq
        rw [hz, Option.some_inj] at hz'
        subst hz'
        rw [drawn_eq] at hcut
        rw [drawn_eq, drawn_eq]
        apply upTo_take_eq (rankedRows_strict p) hpos
        · have := routeLimit_narrow_le overfetch req db p
          omega
        · exact fun t ht => .inr (hcut t ht)
    have hpool := eligiblePool_upTo now req db hcands
    obtain ⟨hfull, hlast⟩ := eligZ_some hz
    rw [chosen_eq_first hqueues] at hfull hlast ⊢
    rw [chosen_eq_first hqueues]
    apply first_eq_of_upTo (pool_nodup overfetch now req db false)
      (pool_nodup overfetch now req db true) hpool
    -- the selected rows themselves are rows up to `z`
    have hsub : (first Decision.key req.capacity
        (eligiblePool now req db (candidates overfetch now req db false))).Subperm
        (upTo Decision.key z.key
          (eligiblePool now req db (candidates overfetch now req db false))) := by
      have hnodup := nodup_map_first (n := req.capacity) (pool_nodup overfetch now req db false)
      apply List.subperm_of_subset (List.Nodup.of_map _ hnodup)
      intro e he
      refine List.mem_filter.mpr ⟨mem_of_mem_first he, ?_⟩
      simpa using key_le_last hnodup hlast he
    exact hfull.trans hsub.length_le

/-! ## Section 5: The passes -/

theorem widens_wide : widens overfetch now req db true = false := by
  unfold widens chainNeeded
  simp

theorem settle_closed {d : GateDialect} (seen : List Part) (selected : List Decision) :
    settle d now req db false seen selected = (db, []) := by
  have hclaim : claimIds db [] = [] := rfl
  have hvictim : victimIds db [] = [] := rfl
  have hjobs : settleJobs d now req db [] = db.jobs := by
    unfold settleJobs
    simp [hclaim, hvictim, terminalIds, Table.update]
  have hrows : claimedRows db [] = [] := by
    unfold claimedRows Table.select
    simp [hclaim]
  have hinflight : settleInflight db [] = db.inflight := by
    funext p
    unfold settleInflight claimedIn
    simp [hrows, replaceParts]
  have hqueues : settleQueues db [] = db.queueStates := by
    funext queue
    unfold settleQueues decisionsOf
    simp [hrows, terminalDecisions]
  unfold settle
  simp [hjobs, hrows, hinflight, hqueues]

theorem admitPass_verdict {r : PassResult} (h : admitPass overfetch now req db wide = .ok r) :
    r.widen = widens overfetch now req db wide := by
  unfold admitPass at h
  split at h
  · cases h
    rfl
  · cases h

/-- A pass that asks to be widened writes nothing and claims nothing. -/
theorem admitPass_widen {r : PassResult} (h : admitPass overfetch now req db wide = .ok r)
    (hwiden : r.widen = true) :
    r.db = db ∧ r.claims = [] := by
  unfold admitPass at h
  split at h
  · cases h
    dsimp only at hwiden ⊢
    rw [hwiden, Bool.not_true, settle_closed]
    exact ⟨rfl, rfl⟩
  · cases h

/-- A narrow pass that does not is the wide pass. -/
theorem admitPass_eq (h : widens overfetch now req db false = false) :
    admitPass overfetch now req db false = admitPass overfetch now req db true := by
  unfold admitPass
  rw [limitsOk_eq, h, widens_wide, seenParts_eq, chosen_eq h]

section
variable (overfetch now : Int) (req : AdmitRequest) (db : GateDb)

/-- Narrow, then wide if asked for, is the wide pass alone. -/
theorem admitQueries_wide :
    admitQueries overfetch now req db = admitPasses overfetch now req [true] db := by
  unfold admitQueries
  rw [admitPasses]
  cases hwiden : widens overfetch now req db false with
  | false =>
    rw [admitPass_eq hwiden, admitPasses]
    cases hpass : admitPass overfetch now req db true with
    | error => rfl
    | ok r =>
      have hr : r.widen = false := (admitPass_verdict hpass).trans widens_wide
      dsimp only
      rw [hr]
      rfl
  | true =>
    cases hpass : admitPass overfetch now req db false with
    | error =>
      -- a limit that one window may not have, the other may not have either
      rw [admitPasses]
      unfold admitPass at hpass ⊢
      rw [← limitsOk_eq]
      split at hpass
      · cases hpass
      next hbad =>
        rw [if_neg hbad]
        cases hpass
        rfl
    | ok r =>
      have hr : r.widen = true := (admitPass_verdict hpass).trans hwiden
      dsimp only
      rw [if_pos hr, (admitPass_widen hpass hr).1]

/-- The whole call in one equation: it settles the selection of the wide window. -/
theorem admitQueries_eq :
    admitQueries overfetch now req db =
      if limitsOk overfetch req db true then
        .ok (settle gateDialect now req db true (seenParts overfetch now req db true)
          (chosen overfetch now req db true))
      else .error negativeLimit := by
  rw [admitQueries_wide, admitPasses]
  unfold admitPass
  by_cases hlimits : limitsOk overfetch req db true = true
  · rw [if_pos hlimits, if_pos hlimits]
    rw [widens_wide]
    rfl
  · rw [if_neg hlimits, if_neg hlimits]

end

/-- A call that succeeds has settled one selection, against the tables it found. -/
theorem admitQueries_settle {db' : GateDb} {rows : List (String × Job)}
    (h : admitQueries overfetch now req db = .ok (db', rows)) :
    ∃ wide, settle gateDialect now req db true (seenParts overfetch now req db wide)
      (chosen overfetch now req db wide) = (db', rows) := by
  rw [admitQueries_eq] at h
  split at h
  · exact ⟨true, Except.ok.inj h⟩
  · cases h

/-- Narrow, then wide if asked for, is the wide pass alone; and the pass that asks writes
nothing. -/
theorem adaptive_window_invisible (overfetch now : Int) (req : AdmitRequest) (db : GateDb) :
    admitQueries overfetch now req db = admitPasses overfetch now req [true] db
      ∧ ∀ r, admitPass overfetch now req db false = .ok r → r.widen = true →
          r.db = db ∧ r.claims = [] := by
  constructor
  · exact admitQueries_wide overfetch now req db
  · intro r hr hwiden
    exact admitPass_widen hr hwiden

/-- Three jobs of one partition, the first two under a quarantined fingerprint. -/
def quarantinedHead : GateDb where
  jobs := Table.empty.insertRows [
    ("a", baseJob 0 { queue := "q", fingerprint := "f", priority := 2 }),
    ("b", baseJob 0 { queue := "q", fingerprint := "f", priority := 1 }),
    ("c", baseJob 0 { queue := "q", fingerprint := "g" })]
  buckets := .empty
  quarantine := Table.empty.insert "f" ⟨3, 0⟩
  limits := .empty
  activePartitions := Table.empty.insert ("q", "") ()
  queueStates := fun _ => none
  deficits := fun _ => none
  inflight := fun _ => none

def oneJob : AdmitRequest where
  worker := "w"
  leaseId := "l"
  queues := ["q"]
  capacity := 1
  leaseMs := 1000
  quantum := 3

/-- The narrow window ends inside the quarantined jobs; the wide one reaches the third. -/
theorem adaptive_window_invisible_quarantinedHead :
    (∃ r, admitPass 8 5 oneJob quarantinedHead false = .ok r ∧ r.widen = true
        ∧ r.db = quarantinedHead ∧ r.claims = [])
      ∧ ∃ db rows, admitQueries 8 5 oneJob quarantinedHead = .ok (db, rows)
        ∧ rows.map Prod.fst = ["c"] := by
  obtain ⟨hsame, hnothing⟩ := adaptive_window_invisible 8 5 oneJob quarantinedHead
  have hnarrow : ∃ r, admitPass 8 5 oneJob quarantinedHead false = .ok r ∧ r.widen = true :=
    ⟨_, rfl, by decide +kernel⟩
  obtain ⟨r, hr, hwiden⟩ := hnarrow
  obtain ⟨hdb, hclaims⟩ := hnothing r hr hwiden
  refine ⟨⟨r, hr, hwiden, hdb, hclaims⟩, ?_⟩
  rw [hsame]
  exact ⟨_, _, rfl, by decide +kernel⟩

end Headgate.Postgres
