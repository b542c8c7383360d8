import Headgate.Postgres.Rows

/-!
# Pending jobs on Postgres

A pending row is not available to the gate and no promotion of due jobs finds it.
Two statements reach it all the same: the replacement of a unique-key holder writes
`scheduled` when the enqueue debounces, and the quarantine sweep takes pending rows
along, which a release then makes available.
-/

namespace Headgate.Postgres

open Headgate.Core Data

variable {j : Job} {now : Int} {db : Db} {ref : LeaseRef}
open Sql (Db Job anyId candidates holdersOf insertFresh newRows onTaken postgresRust
  postgresReplaceHolder)

/-! ## Section 1: Rows that rest -/

/-- Neither waiting nor running: pending, or taken by the quarantine sweep. -/
def Resting (j : Job) : Prop := j.state = .pending ∨ j.state = .quarantined

theorem Resting.of_state {j' : Job} (h : Resting j) (state : j'.state = j.state) :
    Resting j' := by
  unfold Resting
  rw [state]
  exact h

theorem Resting.ne {st : State} (h : Resting j) (hpending : st ≠ .pending)
    (hquarantined : st ≠ .quarantined) : j.state ≠ st := by
  rcases h with hst | hst
  · exact hst ▸ hpending.symm
  · exact hst ▸ hquarantined.symm

/-- The row under `id` is there and rests. -/
def RestsAt (id : String) (t : Table String Job) : Prop := ∃ j, t.get id = some j ∧ Resting j

section
variable {id : String} {t : Table String Job} {db : Store}
variable (h : RestsAt id t)
include h

theorem RestsAt.update {p : String → Job → Bool} {f : String → Job → Job}
    (hf : ∀ j, t.get id = some j → Resting j → p id j = true → Resting (f id j)) :
    RestsAt id (t.update p f) := by
  obtain ⟨j, row, hrests⟩ := h
  refine ⟨if p id j then f id j else j, ?_, ?_⟩
  · rw [Table.get_update, row]
    rfl
  · split
    · rename_i hp
      exact hf j row hrests hp
    · exact hrests

theorem RestsAt.updateAt {x : String} {p : Job → Bool} {f : Job → Job}
    (hf : ∀ j, t.get id = some j → Resting j → x = id → p j = true → Resting (f j)) :
    RestsAt id (t.updateAt x p f) := by
  refine h.update fun j row hrests hp => ?_
  simp only [Bool.and_eq_true, decide_eq_true_eq] at hp
  exact hf j row hrests hp.1.symm hp.2

theorem RestsAt.delete {p : String → Job → Bool}
    (hp : ∀ j, t.get id = some j → Resting j → p id j = false) : RestsAt id (t.delete p) := by
  obtain ⟨j, row, hrests⟩ := h
  refine ⟨j, ?_, hrests⟩
  rw [Table.get_delete, row, Option.filter_some, hp j row hrests]
  rfl

theorem RestsAt.insertRows (rows : List (String × Job)) :
    RestsAt id (t.insertRows rows) := by
  obtain ⟨j, row, hrests⟩ := h
  exact ⟨j, Table.get_insertRows_of_some row rows, hrests⟩

theorem RestsAt.run (hdb : RestsAt id db.jobs) :
    RestsAt id (db.run t).jobs := by
  rcases run_jobs db t with ⟨heq, -⟩ | heq
  · rw [heq]
    exact h
  · rw [heq]
    exact hdb

end

/-! ## Section 2: Enqueues that meet a holder -/

/-- Only a debounce changes the state of a holder. -/
theorem postgresReplaceHolder_state {e : Envelope} {row : Job}
    (h : postgresReplaceHolder now e j = some row) (hdebounce : ¬ 0 < e.uniqueDebounceMs) :
    row.state = j.state := by
  unfold postgresReplaceHolder at h
  split at h
  · split at h
    · simp only [Option.some.injEq] at h
      rw [← h]
      rfl
    · cases h
  · cases h

theorem mem_anyId {order : SetOrder String} {rows : List (String × Job)} {id : String}
    (h : anyId order rows = some id) : ∃ j, (id, j) ∈ rows := by
  have hmem : id ∈ order.list (rows.map Prod.fst).toFinset := List.mem_of_head? h
  rw [order.mem_list, List.mem_toFinset, List.mem_map] at hmem
  obtain ⟨⟨x, j⟩, hrow, rfl⟩ := hmem
  exact ⟨j, hrow⟩

/-- A debouncing batch does not carry the key of the row. -/
def Unclaimed (id : String) (batch : List Envelope) (t : Table String Job) : Prop :=
  ∀ e ∈ batch, 0 < e.uniqueDebounceMs → ∀ e' ∈ batch, ∀ j ∈ t.get id,
    e'.uniqueKey.isSome → e'.uniqueKey ≠ j.uniqueKey

instance (id : String) (batch : List Envelope) (t : Table String Job) :
    Decidable (Unclaimed id batch t) := by
  unfold Unclaimed
  infer_instance

section
variable {order : SetOrder String} {fresh : List Envelope} {id : String}

theorem onTaken_rests (h : RestsAt id db.jobs) (hfree : Unclaimed id fresh db.jobs) :
    RestsAt id (onTaken postgresRust.dialect now order fresh db).1.jobs := by
  unfold onTaken
  split
  · rename_i holder hholder
    split
    · rename_i row hrow
      obtain ⟨e, he, hrow⟩ := Option.bind_eq_some_iff.mp hrow
      obtain ⟨j, hj, hrow⟩ := Option.bind_eq_some_iff.mp hrow
      refine h.updateAt fun k hk hrests hid _ => ?_
      subst hid
      rw [hj] at hk
      cases hk
      have hdebounce : ¬ 0 < e.uniqueDebounceMs := by
        intro hpos
        -- the holder carries a key of the batch
        have hkey := selected_row hj (fun e he => he) (mem_anyId hholder)
        simp only [Bool.and_eq_true] at hkey
        cases hkeyj : j.uniqueKey with
        | none =>
          rw [hkeyj] at hkey
          exact absurd hkey.1 Bool.false_ne_true
        | some key =>
          rw [hkeyj] at hkey
          have hmem : key ∈ candidates fresh := by simpa using hkey.1
          obtain ⟨e', he', hkeye⟩ := Sql.mem_candidates.mp hmem
          refine hfree e (List.mem_of_head? he) hpos e' he' j hj ?_ ?_
          · rw [hkeye]
            rfl
          · rw [hkeye, hkeyj]
      exact hrests.of_state (postgresReplaceHolder_state hrow hdebounce)
    · exact h
  · exact h

theorem insertFresh_rests (h : RestsAt id db.jobs) (hfree : Unclaimed id fresh db.jobs) :
    RestsAt id (insertFresh postgresRust.dialect now order fresh db).1.jobs := by
  unfold insertFresh
  split
  · rename_i t hins
    obtain ⟨rfl, -⟩ := Sql.insertLoop_ok hins
    exact h.insertRows _
  · exact h
  · split
    · exact onTaken_rests h hfree
    · split
      · split
        · exact h
        · exact onTaken_rests h hfree
      · rename_i db' hwrite
        -- ended windows are released; keys and states stay
        obtain ⟨hjobs, -⟩ := Sql.Db.write_eq_some hwrite
        have h' : RestsAt id db'.jobs := by
          rw [hjobs]
          exact h.update fun _ _ hrests _ => hrests
        have hfree' : Unclaimed id fresh db'.jobs := by
          intro e he hpos e' he' j' hj' hsome
          rw [hjobs, Sql.releaseKeys, Table.get_update] at hj'
          obtain ⟨j, hj, rfl⟩ := Option.map_eq_some_iff.mp hj'
          have hkey := hfree e he hpos e' he' j hj hsome
          split
          · exact hkey
          · exact hkey
        split
        · rename_i t hins
          obtain ⟨rfl, -⟩ := Sql.insertLoop_ok hins
          exact h'.insertRows _
        · exact h'
        · exact onTaken_rests h' hfree'

theorem enqueueOn_rests {batch : List Envelope} (h : RestsAt id db.jobs)
    (hfree : Unclaimed id (batch.map scopeKey) db.jobs) :
    RestsAt id (Sql.enqueueOn postgresRust now order batch db).1.jobs := by
  cases hvalid : validateEnqueue batch with
  | error =>
    rw [(Sql.enqueue_invalid hvalid).2]
    exact h
  | ok =>
    rw [enqueueOn_eq hvalid]
    rcases Sql.enqueueScoped_cases postgresRust.dialect now order (batch.map scopeKey) db with
      ⟨fresh, hchecked, heq⟩ | ⟨-, hkept, -⟩
    · rw [heq]
      apply insertFresh_rests h
      -- the new envelopes are some of the batch
      obtain rfl := Sql.classifyIds_ok hchecked.ids
      intro e he hpos e' he'
      exact hfree e (List.mem_of_mem_filter he) hpos e' (List.mem_of_mem_filter he')
    · rw [hkept]
      exact h

end

/-! ## Section 3: Runs -/

/-- The call is not about the job: it is no operator's call for it and no batch of a bulk
operation, no debouncing enqueue carries its key, and its fingerprint is not released while a
sweep has quarantined it. -/
def Undisturbed (id : String) (db : Store) (c : Call) : Prop :=
  match c.op with
  | .enqueue batch _ | .enqueueTx batch _ => Unclaimed id (batch.map scopeKey) db.jobs
  | .quarantineRelease fp => ∀ j ∈ db.jobs.get id, ¬ (j.fingerprint = fp ∧ j.state = .quarantined)
  | .promoteJob x | .schedulePendingJob x _ | .operatorCancel x | .deleteJob x => x ≠ id
  | .runPendingOperations _ => False
  | _ => True

instance (id : String) (db : Store) (c : Call) : Decidable (Undisturbed id db c) := by
  unfold Undisturbed
  split <;> infer_instance

theorem not_resting_of_heldBy (h : j.heldBy ref = true) :
    ¬ Resting j := by
  simp only [Job.heldBy, Bool.and_eq_true, decide_eq_true_eq] at h
  exact fun hrests => hrests.ne (by decide) (by decide) h.1.1

section
variable {id : String} {db : Store}

/-- A statement that picks rows by another state passes over a resting one. -/
theorem not_mem_states {states : List State} (hrests : Resting j)
    (hpending : State.pending ∉ states) (hquarantined : State.quarantined ∉ states) :
    states.contains j.state = false := by
  rw [Bool.eq_false_iff]
  intro hmem
  rw [List.contains_iff_mem] at hmem
  exact hrests.ne (fun h => hpending (h ▸ hmem)) (fun h => hquarantined (h ▸ hmem)) rfl

theorem admitJobs_rests {leaseMs : Int} {req : AdmitRequest} (changes : List (String × GateChange))
    {t : Table String Job} (h : RestsAt id t) :
    RestsAt id (admitJobs now leaseMs req changes t) := by
  induction changes generalizing t with
  | nil => exact h
  | cons c rest ih =>
    apply ih
    refine h.updateAt fun j _ hrests _ hstart => ?_
    -- the gate starts from available and running rows
    have hstate : j.state = c.2.starts := of_decide_eq_true hstart
    refine absurd hstate (hrests.ne ?_ ?_)
    · cases c.2 <;> simp [GateChange.starts]
    · cases c.2 <;> simp [GateChange.starts]

theorem fencedWrite_rests {f : Job → Job} (h : RestsAt id db.jobs) :
    RestsAt id (fencedWrite ref f db).jobs := by
  refine .run (h.updateAt fun j _ hrests _ hheld => ?_) h
  exact absurd hrests (not_resting_of_heldBy hheld)

theorem ack_rests {opts : Options} {jitter : Int} {a : Sql.AckArgs} (h : RestsAt id db.jobs) :
    RestsAt id (ack opts now jitter ref a db).1.jobs := by
  unfold ack
  split
  · exact h
  · split
    · exact h
    · rename_i j hheld
      obtain ⟨hj, hheld⟩ := Option.filter_eq_some_iff.mp hheld
      have hother : ∀ k, db.jobs.get id = some k → Resting k → ref.jobId ≠ id := by
        intro k hk hrests heq
        rw [heq, hk] at hj
        cases hj
        exact not_resting_of_heldBy hheld hrests
      refine .run ?_ h
      unfold ackJobs
      split
      · refine h.delete fun k hk hrests => decide_eq_false fun heq => ?_
        exact hother k hk hrests heq.symm
      · exact h.updateAt fun k hk hrests heq _ => absurd heq (hother k hk hrests)

theorem step_rests {c : Call} (hquiet : Undisturbed id db c) (h : RestsAt id db.jobs) :
    RestsAt id (step db c).jobs := by
  obtain ⟨now, op⟩ := c
  cases op with
  | enqueue =>
    simp only [step, Sql.enqueue, postgresRust_scopesInside, if_true]
    split
    · exact h
    · split
      · exact h
      · split
        · exact enqueueOn_rests h hquiet
        · exact h
  | enqueueTx => exact enqueueOn_rests h hquiet
  | admission req leaseMs changes => exact .run (admitJobs_rests changes h) h
  | ack => exact ack_rests h
  | renew =>
    simp only [step, renew]
    split
    · exact h
    · refine .run (h.update fun j _ hrests hp => ?_) h
      obtain ⟨ref, -, hheld⟩ := List.any_eq_true.mp hp
      simp only [Bool.and_eq_true] at hheld
      exact absurd hrests (not_resting_of_heldBy hheld.2)
  | checkpoint | writeJobOutput | writeJobProgress => exact fencedWrite_rests h
  | reclaimExpired =>
    simp only [step, reclaimExpired]
    split
    · rename_i db' hwrite
      rw [(Sql.Db.write_eq_some hwrite).1]
      refine h.update fun j hj hrests hid => ?_
      have hrunning := selected_row hj (fun e he => he) (mem_firstIds hid)
      simp only [Bool.and_eq_true, decide_eq_true_eq] at hrunning
      exact absurd hrunning.1 (hrests.ne (by decide) (by decide))
    · exact h
  | promoteDue =>
    refine .run (h.update fun j hj hrests hid => ?_) h
    have hdue := selected_row hj (fun e he => mem_orderBy.mp he) (mem_firstIds hid)
    rw [not_mem_states hrests (by decide) (by decide)] at hdue
    cases hdue
  | evictRetained =>
    refine .run (h.delete fun j hj hrests => Bool.eq_false_iff.mpr fun hid => ?_) h
    have hdone := selected_row hj (fun e he => he) (mem_someIds hid)
    rw [not_mem_states hrests (by decide) (by decide)] at hdone
    cases hdone
  | quarantineSweep => exact .run (h.update fun _ _ _ _ => .inr rfl) h
  | quarantineRelease =>
    simp only [step, quarantineRelease]
    split
    · rename_i db' hwrite
      rw [(Sql.Db.write_eq_some hwrite).1]
      refine h.update fun j hj _ hp => ?_
      simp only [releases, Bool.and_eq_true, decide_eq_true_eq] at hp
      exact absurd hp (hquiet j hj)
    · exact h
  | operatorRetry =>
    refine .run (h.updateAt fun j _ hrests _ hp => ?_) h
    rw [retries, not_mem_states hrests (by decide) (by decide)] at hp
    cases hp
  | rescheduleJob => exact .run (h.updateAt fun _ _ hrests _ _ => hrests) h
  | editPayload =>
    exact .run (h.updateAt fun j _ hrests _ _ => hrests.of_state rfl) h
  | operatorCancel | promoteJob =>
    exact .run (h.updateAt fun _ _ _ heq _ => absurd heq hquiet) h
  | schedulePendingJob =>
    simp only [step, schedulePendingJob]
    split
    · exact h
    · exact .run (h.updateAt fun _ _ _ heq _ => absurd heq hquiet) h
  | deleteJob =>
    refine .run (h.delete fun j _ _ => Bool.eq_false_iff.mpr fun hp => ?_) h
    simp only [Bool.and_eq_true, decide_eq_true_eq] at hp
    exact hquiet hp.1.symm
  | setEnqueueLimit => exact h
  | createOperation =>
    simp only [step, createOperation]
    split <;> exact h
  | runPendingOperations => exact hquiet.elim
  | deleteQueue =>
    simp only [step, deleteQueue, createOperation]
    split
    · exact h
    · split
      · split <;> exact h
      · exact h

/-- A row that rests goes on resting along a run that leaves it alone. -/
theorem run_rests {calls : List Call} (h : RestsAt id db.jobs)
    (hquiet : EachStep step (Undisturbed id) db calls) : RestsAt id (run step db calls).jobs :=
  run_invariant (fun db : Store => RestsAt id db.jobs) (fun _ _ hq h => step_rests hq h) h hquiet

end

end Headgate.Postgres
