import Headgate.Sql.Draw

/-!
# What a settlement does

One call sees one snapshot, so a row that it selects is still available when it
is locked, and every decision is carried out on the row it is about.  The rows
that stop being available are then exactly those that were claimed or ended, and
a partition is charged for them one by one.
-/

namespace Headgate.Sql

open Headgate.Core Data

variable {j : Job} {u : String}

variable {d : GateDialect} {now : Int} {req : AdmitRequest} {db : GateDb} {held : List Decision}

/-! ## Section 1: Decisions about rows of the table -/

/-- Every decision is about a row that is available in the table. -/
def AllRead (db : GateDb) (l : List Decision) : Prop := ∀ e ∈ l, ∃ j, e.cand.Reads db j

theorem Candidate.Reads.get {c : Candidate} (h : c.Reads db j) :
    db.jobs.get c.ulid = some j :=
  Table.mem_entries.mp (List.mem_of_getElem? h.row)

theorem Candidate.Reads.inPart_iff {c : Candidate} (h : c.Reads db j) (p : Part) :
    inPart p j = true ↔ c.part = p := by
  simp [inPart, Candidate.part, h.queue, h.partitionKey, Prod.ext_iff]

theorem locked_eq (h : AllRead db held) : locked db held = held := by
  apply List.filter_eq_self.mpr
  intro e he
  obtain ⟨j, hj⟩ := h e he
  simp [hj.get, hj.available]

/-- A claimed row is one that the selection wanted to run. -/
theorem mem_claimIds (h : u ∈ claimIds db held) :
    ∃ e ∈ held, e.cand.ulid = u ∧ (e.action = .claim ∨ e.action = .cancelRunning) := by
  rcases List.mem_append.mp h with h | h
  · obtain ⟨e, he, rfl⟩ := List.mem_map.mp h
    obtain ⟨hheld, haction⟩ := List.mem_filter.mp he
    exact ⟨e, hheld, rfl, .inl (by simpa using haction)⟩
  · obtain ⟨p, -, hp⟩ := List.mem_flatMap.mp h
    have hp := List.mem_dedup.mp (List.mem_of_mem_take hp)
    obtain ⟨e, he, rfl⟩ := List.mem_map.mp hp
    obtain ⟨hheld, haction⟩ := List.mem_filter.mp (mem_orderBy.mp he)
    simp only [decide_eq_true_eq] at haction
    exact ⟨e, hheld, rfl, .inr haction.1⟩

/-- The rows that end without a claim. -/
def terminalUlids (held : List Decision) : List String :=
  (terminalDecisions held).map fun e => e.cand.ulid

theorem mem_terminalUlids : u ∈ terminalUlids held ↔
    ∃ e ∈ held, e.cand.ulid = u ∧ (e.action = .discard ∨ e.action = .cancelIncoming) := by
  constructor
  · intro h
    obtain ⟨e, he, rfl⟩ := List.mem_map.mp h
    obtain ⟨hheld, haction⟩ := List.mem_filter.mp he
    exact ⟨e, hheld, rfl, by simpa using haction⟩
  · rintro ⟨e, he, rfl, haction⟩
    exact List.mem_map_of_mem (List.mem_filter.mpr ⟨he, by simpa using haction⟩)

/-- The two terminal updates together. -/
theorem mem_terminalUlids_iff : u ∈ terminalUlids held ↔
    u ∈ terminalIds .discard held ∨ u ∈ terminalIds .cancelIncoming held := by
  rw [mem_terminalUlids]
  simp only [terminalIds, List.mem_map, List.mem_filter, decide_eq_true_eq]
  constructor
  · rintro ⟨e, he, hu, haction | haction⟩
    · exact .inl ⟨e, ⟨he, haction⟩, hu⟩
    · exact .inr ⟨e, ⟨he, haction⟩, hu⟩
  · rintro (⟨e, ⟨he, haction⟩, hu⟩ | ⟨e, ⟨he, haction⟩, hu⟩)
    · exact ⟨e, he, hu, .inl haction⟩
    · exact ⟨e, he, hu, .inr haction⟩

/-! ## Section 2: The job table afterwards -/

/-- An available row leaves that state if it was claimed or ended. -/
theorem settleJobs_available (d : GateDialect) (now : Int) (req : AdmitRequest)
    (held : List Decision) (hget : db.jobs.get u = some j) (havail : j.state = .available) :
    ∃ j', (settleJobs d now req db held).get u = some j' ∧
      (j'.state ≠ .available ↔ u ∈ claimIds db held ∨ u ∈ terminalUlids held) := by
  rw [mem_terminalUlids_iff]
  unfold settleJobs
  simp only [Table.get_update, hget, Option.map_some, List.contains_iff_mem, Bool.and_eq_true,
    decide_eq_true_eq, havail, reduceCtorEq, and_false, if_false, and_true]
  refine ⟨_, rfl, ?_⟩
  -- the updates run in this order, each on rows that are still available
  by_cases hdiscard : u ∈ terminalIds .discard held
  · simp [hdiscard, terminalRow]
  · by_cases hcancel : u ∈ terminalIds .cancelIncoming held
    · simp [hdiscard, hcancel, terminalRow, havail]
    · by_cases hclaim : u ∈ claimIds db held
      · simp [hdiscard, hcancel, hclaim, claimedRow, havail]
      · simp [hdiscard, hcancel, hclaim, havail]

/-- The rows of a partition that stopped being available between two states. -/
def decidedIn (db db' : GateDb) (p : Part) : Nat :=
  db.jobs.count fun u j => (inPart p j && decide (j.state = .available))
    && (db'.jobs.get u).any fun j' => j'.state ≠ .available

/-! ## Section 3: Counting decisions -/

theorem claimedIn_eq_count (db : GateDb) (held : List Decision) (p : Part) :
    claimedIn db held p = db.jobs.count fun u j =>
      (inPart p j && decide (j.state = .available)) && (claimIds db held).contains u := by
  unfold claimedIn claimedRows Table.count Table.select
  rw [List.filter_filter]
  congr 1
  apply List.filter_congr
  rintro ⟨u, j⟩ -
  dsimp only
  cases inPart p j <;> cases (claimIds db held).contains u <;> simp

/-- The terminal decisions of a partition, counted as rows. -/
theorem terminal_eq_count (hread : AllRead db held)
    (hids : (held.map fun e => e.cand.ulid).Nodup) (p : Part) :
    ((terminalDecisions held).filter fun e => e.cand.part = p).length = db.jobs.count fun u j =>
      (inPart p j && decide (j.state = .available)) && (terminalUlids held).contains u := by
  have hsub : (((terminalDecisions held).filter fun e => e.cand.part = p).map
      fun e => e.cand.ulid).Nodup :=
    ((List.filter_sublist.trans List.filter_sublist).map _).nodup hids
  have hrows := db.jobs.select_nodup fun u j =>
    (inPart p j && decide (j.state = .available)) && (terminalUlids held).contains u
  -- both name the same rows, each of them once
  have hperm : (((terminalDecisions held).filter fun e => e.cand.part = p).map
      fun e => e.cand.ulid).Perm ((db.jobs.select fun u j =>
        (inPart p j && decide (j.state = .available)) && (terminalUlids held).contains u).map
          Prod.fst) := by
    rw [List.perm_ext_iff_of_nodup hsub hrows]
    intro u
    constructor
    · intro h
      obtain ⟨e, he, rfl⟩ := List.mem_map.mp h
      obtain ⟨hterminal, hpart⟩ := List.mem_filter.mp he
      obtain ⟨j, hj⟩ := hread e (List.mem_of_mem_filter hterminal)
      refine List.mem_map.mpr ⟨(e.cand.ulid, j), Table.mem_select.mpr ⟨hj.get, ?_⟩, rfl⟩
      have hpart := (hj.inPart_iff p).mpr (by simpa using hpart)
      have hmem : e.cand.ulid ∈ terminalUlids held := List.mem_map_of_mem hterminal
      simp [hpart, hj.available, hmem]
    · intro h
      obtain ⟨⟨u', j⟩, hrow, rfl⟩ := List.mem_map.mp h
      obtain ⟨hget, hcond⟩ := Table.mem_select.mp hrow
      simp only [Bool.and_eq_true, List.contains_iff_mem] at hcond
      obtain ⟨e, he, hulid⟩ := List.mem_map.mp hcond.2
      obtain ⟨j', hj'⟩ := hread e (List.mem_of_mem_filter he)
      have hsame := hj'.get
      rw [hulid, hget, Option.some_inj] at hsame
      subst hsame
      refine List.mem_map.mpr ⟨e, List.mem_filter.mpr ⟨he, ?_⟩, hulid⟩
      exact decide_eq_true ((hj'.inPart_iff p).mp hcond.1.1)
  have := hperm.length_eq
  rwa [List.length_map, List.length_map] at this

/-- No row is both claimed and ended. -/
theorem not_mem_claimIds_of_terminal (hids : (held.map fun e => e.cand.ulid).Nodup)
    (h : u ∈ terminalUlids held) : u ∉ claimIds db held := by
  intro hclaim
  obtain ⟨e, he, hu, haction⟩ := mem_terminalUlids.mp h
  obtain ⟨e', he', hu', haction'⟩ := mem_claimIds hclaim
  have hsame : e = e' := List.inj_on_of_nodup_map hids he he' (hu.trans hu'.symm)
  subst hsame
  rcases haction with haction | haction <;> rcases haction' with haction' | haction' <;>
    rw [haction] at haction' <;> cases haction'

/-- What a partition is charged for is the rows it gave. -/
theorem decisionsIn_eq_decidedIn (d : GateDialect) (now : Int) (req : AdmitRequest) {db' : GateDb}
    (hjobs : db'.jobs = settleJobs d now req db held) (hread : AllRead db held)
    (hids : (held.map fun e => e.cand.ulid).Nodup) (p : Part) :
    decisionsIn db held p = decidedIn db db' p := by
  unfold decisionsIn decidedIn
  rw [claimedIn_eq_count, terminal_eq_count hread hids, hjobs]
  conv_rhs => rw [db.jobs.count_split _ fun u _ => (claimIds db held).contains u]
  congr 1
  all_goals
    apply Table.count_congr
    intro u j hget
    cases havail : decide (j.state = .available) with
    | false => simp
    | true =>
      obtain ⟨j', hj', hiff⟩ := settleJobs_available d now req held hget (of_decide_eq_true havail)
      rw [hj', Option.any_some]
      by_cases hclaim : u ∈ claimIds db held
      · have hterminal : u ∉ terminalUlids held :=
          fun h => not_mem_claimIds_of_terminal hids h hclaim
        simp [hiff, hclaim, hterminal]
      · simp [hiff, hclaim]

/-- A partition is charged for no more than was selected from it. -/
theorem decisionsIn_le (hread : AllRead db held) (p : Part) :
    decisionsIn db held p ≤ (held.filter fun e => e.cand.part = p).length := by
  have hclaims : claimedIn db held p ≤ ((held.filter fun e => e.cand.part = p).filter
      fun e => e.action = .claim ∨ e.action = .cancelRunning).length := by
    have hnodup : (((claimedRows db held).filter fun e => inPart p e.2).map Prod.fst).Nodup :=
      (List.filter_sublist.map _).nodup (db.jobs.select_nodup _)
    have hsub : ((claimedRows db held).filter fun e => inPart p e.2).map Prod.fst ⊆
        ((held.filter fun e => e.cand.part = p).filter
          fun e => e.action = .claim ∨ e.action = .cancelRunning).map fun e => e.cand.ulid := by
      intro u hu
      obtain ⟨⟨u', j⟩, hrow, rfl⟩ := List.mem_map.mp hu
      obtain ⟨hclaimed, hpart⟩ := List.mem_filter.mp hrow
      obtain ⟨hget, hcond⟩ := Table.mem_select.mp hclaimed
      simp only [Bool.and_eq_true, List.contains_iff_mem] at hcond
      obtain ⟨e, he, hulid, haction⟩ := mem_claimIds hcond.1
      obtain ⟨j', hj'⟩ := hread e he
      have hsame := hj'.get
      rw [hulid, hget, Option.some_inj] at hsame
      subst hsame
      refine List.mem_map.mpr ⟨e, List.mem_filter.mpr ⟨List.mem_filter.mpr ⟨he, ?_⟩, ?_⟩, hulid⟩
      · exact decide_eq_true ((hj'.inPart_iff p).mp hpart)
      · exact decide_eq_true haction
    have hle := (List.subperm_of_subset hnodup hsub).length_le
    rwa [List.length_map, List.length_map] at hle
  have hterminal : ((terminalDecisions held).filter fun e => e.cand.part = p).length
      ≤ ((held.filter fun e => e.cand.part = p).filter
        fun e => !decide (e.action = .claim ∨ e.action = .cancelRunning)).length := by
    unfold terminalDecisions
    rw [List.filter_filter, List.filter_filter]
    apply List.Sublist.length_le
    apply List.monotone_filter_right
    intro e
    cases e.action <;> simp
  have hsplit := (held.filter fun e => e.cand.part = p).length_eq_length_filter_add
    fun e => decide (e.action = .claim ∨ e.action = .cancelRunning)
  unfold decisionsIn
  omega

/-! ## Section 4: A selection of claims only -/

section Claims
variable (hclaims : ∀ e ∈ held, e.action = .claim)
include hclaims

theorem replaceParts_of_claims : replaceParts held = [] := by
  have hnone : held.filter (fun e => e.action = .cancelRunning) = [] := by
    apply List.filter_eq_nil_iff.mpr
    intro e he
    simp [hclaims e he]
  simp [replaceParts, hnone]

theorem terminalDecisions_of_claims : terminalDecisions held = [] := by
  apply List.filter_eq_nil_iff.mpr
  intro e he
  simp [hclaims e he]

theorem claimIds_of_claims (db : GateDb) :
    claimIds db held = held.map fun e => e.cand.ulid := by
  have hall : held.filter (fun e => e.action = .claim) = held := by
    apply List.filter_eq_self.mpr
    intro e he
    simp [hclaims e he]
  simp [claimIds, hall, replaceParts_of_claims hclaims]

theorem settleJobs_of_claims (d : GateDialect) (now : Int) (req : AdmitRequest) (db : GateDb) :
    settleJobs d now req db held = db.jobs.update
      (fun u j => (held.map fun e => e.cand.ulid).contains u && decide (j.state = .available))
      fun _ => claimedRow d now req db := by
  have hterminal : ∀ action, action ≠ .claim → terminalIds action held = [] := by
    intro action haction
    have hnone : held.filter (fun e => e.action = action) = [] := by
      apply List.filter_eq_nil_iff.mpr
      intro e he
      simpa [hclaims e he] using Ne.symm haction
    simp [terminalIds, hnone]
  unfold settleJobs
  rw [claimIds_of_claims hclaims, hterminal .discard (by decide),
    hterminal .cancelIncoming (by decide), victimIds, replaceParts_of_claims hclaims]
  simp only [List.flatMap_nil, List.contains_nil, Bool.false_and]
  rw [Table.update_eq_self fun _ _ _ => rfl, Table.update_eq_self fun _ _ _ => rfl,
    Table.update_eq_self fun _ _ _ => rfl]

theorem settleInflight_of_claims (db : GateDb) (p : Part) :
    settleInflight db held p = if claimedIn db held p = 0 then db.inflight p
      else some (max 0 ((db.inflight p).getD 0 + claimedIn db held p)) := by
  unfold settleInflight
  simp [replaceParts_of_claims hclaims]

end Claims

end Headgate.Sql
