import Headgate.Postgres.Maintained
import Headgate.Postgres.Rows

/-!
# The maintained counters are exact

Every statement is judged by what it turns over in the job table: which rows start to
run, which stop, and in which partitions rows become available.  The clauses beside it
write down exactly that, so the counters agree with the rows after every transaction.
The clamp at zero never cuts anything off.
-/

namespace Headgate.Postgres

open Headgate.Core Data
open Sql (AckArgs BulkAction Db Dialect Job Part arrivals classifyIds newRows postgresRust
  validateAck)

/-! ## Section 1: What the counters say -/

/-- The count of a partition; a missing row means zero. -/
def inflightOf (t : Table Part Inflight) (p : Part) : Int := ((t.get p).map Inflight.n).getD 0

def runningIn (t : Table String Job) (p : Part) : Nat :=
  t.count fun _ j => part j = p && j.state = .running

def unfinishedIn (t : Table String Job) (queue : String) : Nat :=
  t.count fun _ j => j.queue = queue && j.state.isUnfinished

/-- The counters agree with the rows. -/
structure Exact (db : Db) (inflight : Table Part Inflight) (active : Finset Part) : Prop where
  inflight : ∀ p, inflightOf inflight p = runningIn db.jobs p
  active : ∀ id j, db.jobs.get id = some j → j.state = .available → part j ∈ active
  depth : ∀ queue, db.entered queue = db.exited queue + unfinishedIn db.jobs queue

/-- What a statement turns over: rows stay in their partition; rows of `entered` start to run and
rows of `left` stop; rows become available only in partitions of `listed`. -/
structure Turnover (t t' : Table String Job) (entered left listed : List Part) : Prop where
  same : ∀ id j j', t.get id = some j → t'.get id = some j' → part j' = part j
  running : ∀ p, runningIn t' p + left.count p = runningIn t p + entered.count p
  available : ∀ id j', t'.get id = some j' → j'.state = .available →
    part j' ∈ listed ∨ ∃ j, t.get id = some j ∧ j.state = .available

theorem Turnover.refl (t : Table String Job) : Turnover t t [] [] [] where
  same id j j' hj hj' := by
    rw [hj] at hj'
    cases hj'
    rfl
  running p := rfl
  available id j' hj' hst := .inr ⟨j', hj', hst⟩

theorem Turnover.trans {t t' t'' : Table String Job} {entered entered' left left' : List Part}
    (h : Turnover t t' entered left []) (h' : Turnover t' t'' entered' left' [])
    (keys : ∀ id, t'.get id = none → t''.get id = none) :
    Turnover t t'' (entered ++ entered') (left ++ left') [] where
  same id j j'' hj hj'' := by
    -- the row in between exists: a key that is gone does not come back
    cases hmid : t'.get id with
    | none =>
      rw [keys id hmid] at hj''
      cases hj''
    | some j' => exact (h'.same id j' j'' hmid hj'').trans (h.same id j j' hj hmid)
  running p := by
    have h₁ := h.running p
    have h₂ := h'.running p
    rw [List.count_append, List.count_append]
    omega
  available id j'' hj'' hst := by
    rcases h'.available id j'' hj'' hst with hin | ⟨j', hj', hst'⟩
    · cases hin
    · rcases h.available id j' hj' hst' with hin | hold
      · cases hin
      · exact .inr hold

/-! ## Section 2: Kinds of statements -/

section
variable {t : Table String Job} {sel : String → Job → Bool} {f : String → Job → Job}
  {listed : List Part}

/-- An update, by the rows it starts and the rows it stops. -/
theorem Turnover.update (starts stops : String → Job → Bool)
    (same : ∀ id j, t.get id = some j → sel id j = true → part (f id j) = part j)
    (runs : ∀ id j, t.get id = some j →
      (if (if sel id j then f id j else j).state = .running then 1 else 0)
          + (if stops id j then 1 else 0)
        = (if j.state = .running then 1 else 0) + if starts id j then 1 else 0)
    (lists : ∀ id j, t.get id = some j → sel id j = true → (f id j).state = .available →
      part j ∈ listed ∨ j.state = .available) :
    Turnover t (t.update sel f) (parts t starts) (parts t stops) listed := by
  have hpart : ∀ id j, t.get id = some j → part (if sel id j then f id j else j) = part j := by
    intro id j hj
    split
    · rename_i hsel
      exact same id j hj hsel
    · rfl
  refine ⟨fun id j j' hj hj' => ?_, fun p => ?_, fun id j' hj' hst => ?_⟩
  · rw [Table.get_update, hj, Option.map_some] at hj'
    cases hj'
    exact hpart id j hj
  · rw [runningIn, Table.count_update, parts, parts, Table.count_map_select,
      Table.count_map_select]
    -- the balance holds row by row, and so for the counts
    apply Table.count_balance
    intro id j hj
    rw [hpart id j hj]
    by_cases hp : part j = p
    · simpa [hp] using runs id j hj
    · simp [hp]
  · rw [Table.get_update] at hj'
    obtain ⟨j, hj, rfl⟩ := Option.map_eq_some_iff.mp hj'
    rw [hpart id j hj]
    split at hst
    · rename_i hsel
      exact (lists id j hj hsel hst).imp_right fun hold => ⟨j, hj, hold⟩
    · exact .inr ⟨j, hj, hst⟩

theorem parts_eq_nil (h : ∀ id j, t.get id = some j → sel id j = false) : parts t sel = [] := by
  rw [parts, List.map_eq_nil_iff, ← List.length_eq_zero_iff]
  exact Table.count_eq_zero.mpr h

/-- An update after which none of its rows runs. -/
theorem Turnover.stop (same : ∀ id j, t.get id = some j → sel id j = true → part (f id j) = part j)
    (stops : ∀ id j, t.get id = some j → sel id j = true → (f id j).state ≠ .running)
    (lists : ∀ id j, t.get id = some j → sel id j = true → (f id j).state = .available →
      part j ∈ listed ∨ j.state = .available) :
    Turnover t (t.update sel f) [] (parts t fun id j => sel id j && j.state = .running) listed := by
  rw [← parts_eq_nil fun id j _ => rfl]
  refine .update (fun _ _ => false) _ same (fun id j hj => ?_) lists
  cases hsel : sel id j
  · simp
  · simp [stops id j hj hsel]

/-- None of the rows ran before, so none has left. -/
theorem parts_running_nil (h : ∀ id j, t.get id = some j → sel id j = true → j.state ≠ .running) :
    (parts t fun id j => sel id j && j.state = .running) = [] := by
  apply parts_eq_nil
  intro id j hj
  cases hsel : sel id j
  · rfl
  · simpa using h id j hj hsel

section
variable (same : ∀ id j, t.get id = some j → sel id j = true → part (f id j) = part j)
include same

/-- An update of rows that run neither before nor after. -/
theorem Turnover.idle
    (before : ∀ id j, t.get id = some j → sel id j = true → j.state ≠ .running)
    (after : ∀ id j, t.get id = some j → sel id j = true → (f id j).state ≠ .running)
    (lists : ∀ id j, t.get id = some j → sel id j = true → (f id j).state = .available →
      part j ∈ listed) : Turnover t (t.update sel f) [] [] listed := by
  have h := Turnover.stop same after fun id j hj hsel hst => .inl (lists id j hj hsel hst)
  rw [parts_running_nil before] at h
  exact h

/-- An update that leaves the state alone. -/
theorem Turnover.still
    (state : ∀ id j, t.get id = some j → sel id j = true → (f id j).state = j.state) :
    Turnover t (t.update sel f) [] [] [] := by
  rw [← parts_eq_nil fun id j _ => rfl]
  refine .update _ _ same (fun id j hj => ?_) fun id j hj hsel hst =>
    .inr (state id j hj hsel ▸ hst)
  split
  · rename_i hsel
    rw [state id j hj hsel]
  · rfl

end

theorem Turnover.delete (t : Table String Job) (sel : String → Job → Bool) :
    Turnover t (t.delete sel) [] (parts t fun id j => sel id j && j.state = .running) [] := by
  have hrow : ∀ id j', (t.delete sel).get id = some j' → t.get id = some j' := by
    intro id j' hj'
    rw [Table.get_delete] at hj'
    exact (Option.filter_eq_some_iff.mp hj').1
  refine ⟨fun id j j' hj hj' => ?_, fun p => ?_, fun id j' hj' hst => .inr ⟨j', hrow id j' hj', hst⟩⟩
  · rw [hrow id j' hj'] at hj
    cases hj
    rfl
  · -- the running rows are those that go and those that stay
    have hsplit := t.count_split (fun _ j => part j = p && j.state = .running) sel
    have hleft : (parts t fun id j => sel id j && j.state = .running).count p
        = t.count (fun id j => (part j = p && j.state = .running) && sel id j) := by
      rw [parts, Table.count_map_select]
      congr 1
      funext id j
      ac_rfl
    rw [hleft, runningIn, runningIn, Table.count_delete, List.count_nil]
    omega

/-- Deleting rows that do not run. -/
theorem Turnover.delete_idle
    (before : ∀ id j, t.get id = some j → sel id j = true → j.state ≠ .running) :
    Turnover t (t.delete sel) [] [] [] := by
  have h := Turnover.delete t sel
  rw [parts_running_nil before] at h
  exact h

/-- Rows that do not run arrive under new ids. -/
theorem Turnover.insertRows {rows : List (String × Job)} (keys : (rows.map Prod.fst).Nodup)
    (new : ∀ e ∈ rows, t.get e.1 = none) (idle : ∀ e ∈ rows, e.2.state ≠ .running)
    (lists : ∀ e ∈ rows, e.2.state = .available → part e.2 ∈ listed) :
    Turnover t (t.insertRows rows) [] [] listed := by
  have hrow := fun (id : String) (j : Job) =>
    Table.get_insertRows keys new (i := id) (r := j)
  refine ⟨fun id j j' hj hj' => ?_, fun p => ?_, fun id j' hj' hst => ?_⟩
  · rw [Table.get_insertRows_of_some hj] at hj'
    cases hj'
    rfl
  · -- no new row runs, so the running ones are the old ones
    apply Table.count_eq_of_keys
    intro id
    constructor
    · rintro ⟨j, hj, hrun⟩
      rcases (hrow id j).mp hj with hnew | hold
      · exact absurd (by simp_all) (idle _ hnew)
      · exact ⟨j, hold, hrun⟩
    · rintro ⟨j, hj, hrun⟩
      exact ⟨j, Table.get_insertRows_of_some hj rows, hrun⟩
  · rcases (hrow id j').mp hj' with hnew | hold
    · exact .inl (lists _ hnew hst)
    · exact .inr ⟨j', hold, hst⟩

/-- The partition of the row under an id. -/
theorem parts_key (t : Table String Job) (id : String) (p : Job → Bool) :
    (parts t fun x j => x = id && p j) = (((t.get id).filter p).map part).toList := by
  rw [parts, Table.select_key]
  cases (t.get id).filter p <;> rfl

/-- A row is replaced by one that does not run. -/
theorem Turnover.replace {id : String} {j row : Job} (listed : List Part)
    (hj : t.get id = some j) (same : part row = part j) (stops : row.state ≠ .running)
    (lists : row.state = .available → part j ∈ listed ∨ j.state = .available) :
    Turnover t (t.updateAt id (fun _ => true) fun _ => row) []
      (if j.state = .running then [part j] else []) listed := by
  have hone : ∀ {x : String} {k : Job}, t.get x = some k →
      (decide (x = id) && true) = true → k = j := by
    intro x k hk hx
    rw [Bool.and_true, decide_eq_true_eq] at hx
    rw [hx, hj] at hk
    exact (Option.some.inj hk).symm
  have hleft : (parts t fun x k => (decide (x = id) && true) && decide (k.state = .running))
      = if j.state = .running then [part j] else [] := by
    simp only [Bool.and_true]
    rw [parts_key t id fun k => decide (k.state = .running), hj]
    by_cases hrun : j.state = .running <;> simp [hrun]
  rw [← hleft]
  refine .stop (fun x k hk hx => ?_) (fun _ _ _ _ => stops) fun x k hk hx hav => ?_
  · rw [hone hk hx]
    exact same
  · rw [hone hk hx]
    exact lists hav

/-- All the rows ran before. -/
theorem parts_running (h : ∀ id j, t.get id = some j → sel id j = true → j.state = .running) :
    (parts t fun id j => sel id j && j.state = .running) = parts t sel := by
  have hsame : (t.select fun id j => sel id j && j.state = .running) = t.select sel := by
    apply List.filter_congr
    rintro ⟨id, j⟩ he
    cases hsel : sel id j
    · simp [hsel]
    · simp [hsel, h id j (Table.mem_entries.mp he) hsel]
  rw [parts, hsame, parts]

end

/-! ## Section 3: The clauses -/

theorem inflightOf_dec (src : List Part) (t : Table Part Inflight) (p : Part) :
    inflightOf (inflightDec src t) p
      = if p ∈ src then max 0 (inflightOf t p - src.count p) else inflightOf t p := by
  unfold inflightOf inflightDec
  rw [Table.get_update]
  cases t.get p with
  | none => simp
  | some =>
    simp only [Option.map_some, Option.getD_some, List.contains_iff_mem]
    split <;> rfl

theorem inflightOf_defaults (ins : List Part) (t : Table Part Inflight) (p : Part) :
    inflightOf (inflightDefaults ins t) p = inflightOf t p := by
  unfold inflightOf inflightDefaults
  rw [Table.get_insertRows_map t ins.dedup fun _ => {}]
  cases t.get p with
  | none =>
    rw [Option.none_or]
    split <;> rfl
  | some => rfl

theorem inflightOf_net (claimed displaced : List Part) (t : Table Part Inflight) (p : Part) :
    inflightOf (inflightNet claimed displaced t) p = if p ∈ claimed ++ displaced then
      max 0 (inflightOf t p + (claimed.count p - displaced.count p)) else inflightOf t p := by
  unfold inflightOf inflightNet
  have hdefault (t : Table Part Inflight) := Table.get_insertRows_map t (claimed ++ displaced).dedup
    (fun p => ({ n := max 0 ((claimed.count p : Int) - displaced.count p) } : Inflight)) p
  rw [hdefault, Table.get_update]
  simp only [List.contains_iff_mem, List.mem_dedup]
  -- a missing row is inserted with the net change, one that exists is added to
  cases t.get p with
  | none =>
    rw [Option.map_none, Option.none_or]
    split
    · simp
    · rfl
  | some =>
    rw [Option.map_some, Option.some_or]
    split <;> rfl

/-! ## Section 4: One statement -/

section
variable {db : Db} {t : Table String Job} {inflight inflight' : Table Part Inflight}
  {active active' : Finset Part} {entered left listed : List Part}
variable (h : Exact db inflight active)
include h

/-- The counters stay exact if they write down the turnover. -/
theorem Exact.setJobs
    (ht : Turnover db.jobs t entered left listed)
    (hinflight : ∀ p, inflightOf inflight' p = inflightOf inflight p + entered.count p - left.count p)
    (hactive : ∀ p, p ∈ active ∨ p ∈ listed → p ∈ active') :
    Exact (db.setJobs t) inflight' active' where
  inflight p := by
    have hrunning := ht.running p
    have hold := h.inflight p
    rw [hinflight]
    show _ = (runningIn t p : Int)
    omega
  active id j' hj' hst := by
    apply hactive
    rcases ht.available id j' hj' hst with hin | ⟨j, hj, hst'⟩
    · exact .inr hin
    · rw [ht.same id j j' hj hj']
      exact .inl (h.active id j hj hst')
  depth queue := by
    -- what the triggers add is the balance of the unfinished rows
    have hbalance := Table.count_exchange db.jobs t (fun j => j.queue = queue)
      (fun j => j.state.isUnfinished) fun id j j' hj hj' => by
        have hqueue : j'.queue = j.queue := congrArg Prod.fst (ht.same id j j' hj hj')
        rw [hqueue]
    have hold := h.depth queue
    simp only [Sql.Db.setJobs, arrivals, unfinishedIn] at hold ⊢
    omega

/-- Rows stop running, and the decrement counts them. -/
theorem Exact.dec (ht : Turnover db.jobs t [] left listed)
    (hactive : ∀ p, p ∈ active ∨ p ∈ listed → p ∈ active') :
    Exact (db.setJobs t) (inflightDec left inflight) active' := by
  refine h.setJobs ht (fun p => ?_) hactive
  have hrunning := ht.running p
  have hold := h.inflight p
  rw [inflightOf_dec, List.count_nil]
  rw [List.count_nil] at hrunning
  split
  · omega
  · rename_i hnot
    rw [List.count_eq_zero_of_not_mem hnot]
    omega

/-- No row starts or stops running. -/
theorem Exact.keep (ht : Turnover db.jobs t [] [] listed)
    (hactive : ∀ p, p ∈ active ∨ p ∈ listed → p ∈ active') :
    Exact (db.setJobs t) inflight active' := by
  refine h.setJobs ht (fun p => ?_) hactive
  rw [List.count_nil]
  omega

/-- Rows that do not run become available, and the partitions of the updated rows are listed. -/
theorem Exact.activate (sel : String → Job → Bool)
    (f : String → Job → Job)
    (same : ∀ id j, db.jobs.get id = some j → sel id j = true → part (f id j) = part j)
    (before : ∀ id j, db.jobs.get id = some j → sel id j = true → j.state ≠ .running)
    (after : ∀ id j, db.jobs.get id = some j → sel id j = true → (f id j).state = .available) :
    Exact (db.setJobs (db.jobs.update sel f)) inflight
      (active ∪ (parts db.jobs sel).toFinset) := by
  -- the activated rows were not running and are listed under their own partitions
  have hturn : Turnover db.jobs (db.jobs.update sel f) [] [] (parts db.jobs sel) := by
    refine .idle same before (fun id j hj hsel => ?_) fun id j hj hsel _ => ?_
    · rw [after id j hj hsel]
      decide
    · exact List.mem_map.mpr ⟨(id, j), Table.mem_select.mpr ⟨hj, hsel⟩, rfl⟩
  refine h.keep hturn fun p hp => ?_
  rw [Finset.mem_union, List.mem_toFinset]
  exact hp

theorem Exact.net (ht : Turnover db.jobs t entered left []) :
    Exact (db.setJobs t) (inflightNet entered left inflight) active := by
  refine h.setJobs ht (fun p => ?_) fun p hp => hp.resolve_right nofun
  have hrunning := ht.running p
  have hold := h.inflight p
  rw [inflightOf_net]
  split
  · omega
  · rename_i hnot
    rw [List.mem_append, not_or] at hnot
    rw [List.count_eq_zero_of_not_mem hnot.1, List.count_eq_zero_of_not_mem hnot.2]
    omega

/-- A partition without available rows need not be listed. -/
theorem Exact.delist (drop : Part → Bool) : Exact db inflight
    (active.filter fun p => ¬ (drop p && !hasAvailable db.jobs p)) where
  inflight := h.inflight
  active id j hj hst := by
    have havailable : hasAvailable db.jobs (part j) = true := by
      rw [hasAvailable, decide_eq_true_eq]
      exact Table.count_ne_zero.mpr ⟨id, j, hj, by simp [hst]⟩
    refine Finset.mem_filter.mpr ⟨h.active id j hj hst, ?_⟩
    simp [havailable]
  depth := h.depth

end

end Headgate.Postgres
