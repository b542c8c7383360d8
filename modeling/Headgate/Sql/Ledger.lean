import Headgate.Sql.Settle

/-!
# The deficit ledger of the SQL gates

A partition takes no more than its carried deficit and one quantum, since the
rows selected from it have distinct ranks up to that share.  `charge` then
inserts a credit, `max(0, quantum - decisions)`, and merges it into the stored
row by adding.  The credit is clamped before it is added, so a partition that
took more than its quantum keeps the deficit it carried in, where the ledger
would have spent it.
-/

namespace Headgate.Sql

open Headgate.Core Data

variable {d : GateDialect} {now : Int} {req : AdmitRequest} {db : GateDb} {held : List Decision}
  {p : Part}

/-! ## Section 1: Ranks -/

theorem rank_of_mem_drawPart {lim : Int} {c : Candidate} (h : c ∈ drawPart d now req db lim p) :
    1 ≤ c.rankPart ∧ (c.rankPart : Int) ≤ lim := by
  obtain ⟨x, -, i, hi, rfl⟩ := mem_numbered h
  have hlen := hi.trans_le (List.length_take_le lim.toNat _)
  exact ⟨Nat.le_add_left 1 i, by push_cast; omega⟩

/-- Rows of one partition with one rank are one row. -/
theorem eq_of_rank {lim : Int} {c c' : Candidate} (h : c ∈ drawPart d now req db lim p)
    (h' : c' ∈ drawPart d now req db lim p) (hrank : c.rankPart = c'.rankPart) : c = c' := by
  obtain ⟨⟨x, i⟩, hmem, rfl⟩ := List.mem_map.mp h
  obtain ⟨⟨x', i'⟩, hmem', rfl⟩ := List.mem_map.mp h'
  have hx := List.mem_zipIdx_iff_getElem?.mp hmem
  have hx' := List.mem_zipIdx_iff_getElem?.mp hmem'
  obtain rfl : i = i' := by simpa using hrank
  rw [hx, Option.some_inj] at hx'
  rw [hx']

/-- A selection with ranks up to a bound has no more rows of the partition than the bound. -/
theorem length_le_of_rank_le {parts : List Part} (hparts : parts.Nodup) {lim : Part → Int}
    (hsub : (held.map Decision.cand).Subperm
      (parts.flatMap fun p => drawPart d now req db (lim p) p)) {bound : Int}
    (hrank : ∀ e ∈ held, e.cand.part = p → (e.cand.rankPart : Int) ≤ bound) :
    (held.filter fun e => e.cand.part = p).length ≤ bound.toNat := by
  have hdrawn : ∀ c ∈ (held.filter fun e => e.cand.part = p).map Decision.cand,
      c.part = p ∧ c ∈ drawPart d now req db (lim p) p := by
    intro c hc
    obtain ⟨e, he, rfl⟩ := List.mem_map.mp hc
    obtain ⟨hheld, hpart⟩ := List.mem_filter.mp he
    have hpart : e.cand.part = p := by simpa using hpart
    obtain ⟨q, -, hq⟩ := List.mem_flatMap.mp (hsub.subset (List.mem_map_of_mem hheld))
    obtain rfl : q = p := (mem_drawPart hq).2.symm.trans hpart
    exact ⟨hpart, hq⟩
  have hcands : ((held.filter fun e => e.cand.part = p).map Decision.cand).Nodup := by
    obtain ⟨l, hperm, hl⟩ := hsub
    have hkeys : ((parts.flatMap fun p => drawPart d now req db (lim p) p).map
      Candidate.key).Nodup := drawParts_nodup hparts lim
    exact (List.filter_sublist.map _).nodup
      (hperm.nodup_iff.mp (hl.nodup (List.Nodup.of_map _ hkeys)))
  -- distinct ranks between one and the bound
  have hranks : (((held.filter fun e => e.cand.part = p).map Decision.cand).map
      Candidate.rankPart).Nodup :=
    hcands.map_on fun c hc c' hc' => eq_of_rank (hdrawn c hc).2 (hdrawn c' hc').2
  have hrange : ((held.filter fun e => e.cand.part = p).map Decision.cand).map
      Candidate.rankPart ⊆ List.range' 1 bound.toNat := by
    intro rank hin
    obtain ⟨c, hc, rfl⟩ := List.mem_map.mp hin
    have hone := (rank_of_mem_drawPart (hdrawn c hc).2).1
    obtain ⟨e, he, rfl⟩ := List.mem_map.mp hc
    have hle := hrank e (List.mem_of_mem_filter he) (hdrawn _ hc).1
    rw [List.mem_range'_1]
    omega
  have hlen := (List.subperm_of_subset hranks hrange).length_le
  simpa using hlen

/-! ## Section 2: Selections within the share -/

/-- What both gates know about the rows they settle. -/
structure Selected (req : AdmitRequest) (db : GateDb) (held : List Decision) : Prop where
  read : AllRead db held
  ulids : (held.map fun e => e.cand.ulid).Nodup
  share : ∀ p, (held.filter fun e => e.cand.part = p).length ≤ (fairShare req db p).toNat
  capacity : held.length ≤ req.capacity

theorem Selected.decisions_le_share (h : Selected req db held) (hshare : 0 ≤ fairShare req db p) :
    (decisionsIn db held p : Int) ≤ fairShare req db p := by
  have hle := (decisionsIn_le h.read p).trans (h.share p)
  omega

theorem Selected.decisions_le_capacity (h : Selected req db held) :
    decisionsIn db held p ≤ req.capacity :=
  ((decisionsIn_le h.read p).trans (List.length_filter_le _ _)).trans h.capacity

theorem decidedIn_le_available (db db' : GateDb) (p : Part) :
    decidedIn db db' p ≤ db.jobs.count fun _ j => inPart p j && decide (j.state = .available) := by
  apply Table.count_le_count
  intro u j h
  rw [Bool.and_eq_true] at h
  exact h.1

/-! ## Section 3: The charge -/

/-- The ledger's law: a quantum is added, the decisions are spent. -/
def ledgerLaw (quantum deficit : Int) (decisions : Nat) : Int :=
  max 0 (min (quantum * 4) (deficit + quantum - decisions))

/-- The stored deficit follows the law exactly if the credit was not clamped away. -/
theorem chargedDeficit_eq_iff {stored : Option Int} {n : Nat} (hquantum : 0 ≤ req.quantum)
    (hstored : ∀ deficit, stored = some deficit → 0 ≤ deficit)
    (hn : (n : Int) ≤ stored.getD 0 + req.quantum) :
    chargedDeficit req stored n = ledgerLaw req.quantum (stored.getD 0) n ↔
      (n : Int) ≤ req.quantum ∨ req.quantum * 4 ≤ stored.getD 0 + req.quantum - n := by
  unfold chargedDeficit ledgerLaw
  cases stored with
  | none =>
    dsimp only [Option.getD_none] at hn ⊢
    omega
  | some deficit =>
    have hdeficit := hstored deficit rfl
    dsimp only [Option.getD_some] at hn ⊢
    omega

/-- The partition cannot take more than a quantum: it carries nothing, the caller asks for no
more, or it has no more. -/
def WithinQuantum (req : AdmitRequest) (db : GateDb) (p : Part) : Prop :=
  (db.deficits p).getD 0 = 0 ∨ (req.capacity : Int) ≤ req.quantum ∨
    ((db.jobs.count fun _ j => inPart p j && decide (j.state = .available)) : Int) ≤ req.quantum

/-- What a call does to the ledger of a partition that it draws from. -/
structure Charged (req : AdmitRequest) (db db' : GateDb) (p : Part) : Prop where
  /-- Decisions stay within the share. -/
  share : (decidedIn db db' p : Int) ≤ (db.deficits p).getD 0 + req.quantum
  /-- The law holds unless more than a quantum was taken. -/
  law_iff : db'.deficits p
      = some (ledgerLaw req.quantum ((db.deficits p).getD 0) (decidedIn db db' p)) ↔
    (decidedIn db db' p : Int) ≤ req.quantum ∨
      req.quantum * 4 ≤ (db.deficits p).getD 0 + req.quantum - decidedIn db db' p
  /-- So it holds wherever no more can be taken. -/
  law : WithinQuantum req db p → db'.deficits p
      = some (ledgerLaw req.quantum ((db.deficits p).getD 0) (decidedIn db db' p))

theorem Selected.charged (h : Selected req db held) {db' : GateDb}
    (hjobs : db'.jobs = settleJobs d now req db held)
    (hdeficit : db'.deficits p = some (chargedDeficit req (db.deficits p) (decisionsIn db held p)))
    (hquantum : 0 ≤ req.quantum) (hstored : ∀ deficit, db.deficits p = some deficit → 0 ≤ deficit) :
    Charged req db db' p := by
  have hcarried : 0 ≤ (db.deficits p).getD 0 := by
    cases hp : db.deficits p with
    | none => exact le_refl 0
    | some deficit => exact hstored deficit hp
  have hshare : (decisionsIn db held p : Int) ≤ (db.deficits p).getD 0 + req.quantum :=
    h.decisions_le_share (p := p) (by unfold fairShare; omega)
  have hsame := decisionsIn_eq_decidedIn d now req hjobs h.read h.ulids p
  have hiff := chargedDeficit_eq_iff hquantum hstored hshare
  have hcapacity := h.decisions_le_capacity (p := p)
  have havailable := decidedIn_le_available db db' p
  rw [hsame] at hdeficit hshare hiff hcapacity
  refine ⟨hshare, ?_, ?_⟩
  · rw [hdeficit, Option.some_inj]
    exact hiff
  · intro hwithin
    rw [hdeficit, Option.some_inj]
    refine hiff.mpr (.inl ?_)
    rcases hwithin with hnone | hcap | hfew
    · omega
    · omega
    · omega

end Headgate.Sql
