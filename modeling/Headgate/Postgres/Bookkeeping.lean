import Headgate.Postgres.Counters

/-!
# The bookkeeping of every call

Each call of the store is taken apart into its statements, and each statement is
one of the kinds of the module before: so every transaction leaves the counters
exact.
-/

namespace Headgate.Postgres

open Headgate.Core Data

variable {now : Int} {j : Job}
open Sql (AckArgs BulkAction Db Dialect Job Part classifyIds newRows postgresRust validateAck)

/-! ## Section 1: The gate -/

section
variable {leaseMs : Int} {req : AdmitRequest} {t : Table String Job}

/-- One change of the gate: a claim starts a row, a displacement stops one. -/
theorem change_turnover (c : String × GateChange) :
    Turnover t
      (t.updateAt c.1 (fun j => j.state = c.2.starts) fun j => c.2.apply now leaseMs req j)
      (((t.get c.1).filter fun j => j.state = c.2.starts && c.2.isClaim).map part).toList
      (((t.get c.1).filter fun j => j.state = c.2.starts && decide (c.2 = .displace)).map part).toList
      [] := by
  obtain ⟨id, change⟩ := c
  rw [← parts_key, ← parts_key]
  refine .update _ _ (fun x j _ _ => ?_) (fun x j _ => ?_) fun x j _ _ hav => ?_
  · cases change <;> rfl
  · -- the row counts by its state before and after
    by_cases hhit : x = id ∧ j.state = change.starts
    · cases change <;> simp [hhit, GateChange.apply, GateChange.starts, GateChange.isClaim]
    · cases change <;> grind
  · cases change <;> cases hav

theorem admitJobs_turnover (changes : List (String × GateChange)) (t : Table String Job) :
    Turnover t (admitJobs now leaseMs req changes t)
      (Maintained.gateParts now leaseMs req GateChange.isClaim changes t)
      (Maintained.gateParts now leaseMs req (· = .displace) changes t) [] := by
  induction changes generalizing t with
  | nil => exact .refl t
  | cons c rest ih =>
    refine (change_turnover c).trans (ih _) fun id hnone => ?_
    -- no later change inserts a row
    have hkeeps := admitJobs_keeps now leaseMs req rest
      (t.updateAt c.1 (fun j => j.state = c.2.starts) fun j => c.2.apply now leaseMs req j)
    cases hrow : (admitJobs now leaseMs req (c :: rest) t).get id with
    | none => rfl
    | some j =>
      obtain ⟨k, hk, -⟩ := hkeeps.rows id j hrow
      rw [hnone] at hk
      cases hk

end

/-! ## Section 2: Enqueue -/

/-- A replaced holder waits before and after, and a debounce makes it scheduled. -/
theorem replaceHolder_state {e : Envelope} {row : Job}
    (h : postgresRust.dialect.replaceHolder now e j = some row) :
    part row = part j ∧ j.state ≠ .running ∧ (row.state = j.state ∨ row.state = .scheduled) := by
  have hrow : Sql.postgresReplaceHolder now e j = some row := h
  simp only [Sql.postgresReplaceHolder, Option.ite_none_right_eq_some, Bool.and_eq_true] at hrow
  obtain ⟨-, ⟨hdebouncable, -⟩, hrow⟩ := hrow
  -- a holder that is already running is not replaced
  have hwaits : j.state ≠ .running := by
    intro hrun
    rw [Sql.debouncable, hrun] at hdebouncable
    cases hdebouncable
  have hfollows := (Sql.postgresRust_regular.replaced now e j row h).1
  refine ⟨Prod.ext hfollows.queue hfollows.partitionKey, hwaits, ?_⟩
  rw [← Option.some.inj hrow]
  split
  · exact .inr rfl
  · exact .inl rfl

/-- A new row does not run. -/
theorem newJob_state (now : Int) (e : Envelope) :
    (postgresRust.dialect.newJob now e).state ≠ .running := by
  show (Sql.postgresJob now e).state ≠ .running
  unfold Sql.postgresJob
  dsimp only
  split
  · decide
  · split
    · decide
    · split <;> decide

section
variable {order : SetOrder String} {fresh batch : List Envelope} {db : Db}
  {inflight : Table Part Inflight} {active : Finset Part}

theorem onTaken_exact (h : Exact db inflight active) :
    Exact (Sql.onTaken postgresRust.dialect now order fresh db).1 inflight active := by
  unfold Sql.onTaken
  split
  · rename_i id hid
    split
    · rename_i row hrow
      obtain ⟨e, -, hrow⟩ := Option.bind_eq_some_iff.mp hrow
      obtain ⟨j, hj, hrow⟩ := Option.bind_eq_some_iff.mp hrow
      obtain ⟨hpart, hwaits, hstate⟩ := replaceHolder_state hrow
      have hstops : row.state ≠ .running := by
        rcases hstate with hstate | hstate
        · rw [hstate]
          exact hwaits
        · rw [hstate]
          decide
      -- a replaced holder waits as before or becomes scheduled, which needs no active entry
      have hturn := Turnover.replace [] hj hpart hstops fun hav => .inr <| by
        rcases hstate with hstate | hstate
        · exact hstate ▸ hav
        · rw [hstate] at hav
          cases hav
      rw [if_neg hwaits] at hturn
      exact h.keep hturn (by simp)
    · exact h
  · exact h

/-- The counters agree with the rows when those of `fresh` have got counters and are listed. -/
def ExactWith (now : Int) (fresh : List Envelope) (db : Db) (inflight : Table Part Inflight)
    (active : Finset Part) : Prop :=
  Exact db (inflightDefaults ((fresh.map (postgresRust.dialect.newJob now)).map part) inflight)
    (active ∪ (((fresh.map (postgresRust.dialect.newJob now)).filter fun j =>
      j.state = .available).map part).toFinset)

theorem insert_exact (h : Exact db inflight active) (hids : (fresh.map Envelope.id).Nodup)
    (habsent : ∀ e ∈ fresh, db.jobs.get e.id = none) :
    ExactWith now fresh
      (db.setJobs (db.jobs.insertRows (newRows postgresRust.dialect now fresh))) inflight active := by
  have hturn : Turnover db.jobs (db.jobs.insertRows (newRows postgresRust.dialect now fresh)) [] []
      (((fresh.map (postgresRust.dialect.newJob now)).filter fun j =>
        j.state = .available).map part) := by
    apply Turnover.insertRows
    · rw [newRows, List.map_map]
      exact hids
    · intro row hrow
      obtain ⟨e, he, rfl⟩ := List.mem_map.mp hrow
      exact habsent e he
    · intro row hrow
      obtain ⟨e, -, rfl⟩ := List.mem_map.mp hrow
      exact newJob_state now e
    · intro row hrow hav
      obtain ⟨e, he, rfl⟩ := List.mem_map.mp hrow
      refine List.mem_map.mpr ⟨_, List.mem_filter.mpr ⟨List.mem_map.mpr ⟨e, he, rfl⟩, ?_⟩, rfl⟩
      exact decide_eq_true hav
  refine h.setJobs hturn (fun p => ?_) fun p hp => ?_
  · rw [inflightOf_defaults, List.count_nil]
    omega
  · rw [Finset.mem_union, List.mem_toFinset]
    exact hp

section
variable (now : Int) (order : SetOrder String) (h : Exact db inflight active)
include h

/-- What an attempt leaves: the rows with their clauses, or no change of any partition. -/
theorem insertFresh_exact
    (hids : (fresh.map Envelope.id).Nodup) (habsent : ∀ e ∈ fresh, db.jobs.get e.id = none) :
    let r := Sql.insertFresh postgresRust.dialect now order fresh db
    (r.2 = .ok () → ExactWith now fresh r.1 inflight active) ∧
    ∀ err, r.2 = .error err → Exact r.1 inflight active := by
  have hontaken : ∀ db : Db, (Sql.onTaken postgresRust.dialect now order fresh db).2 ≠ .ok () := by
    intro db
    unfold Sql.onTaken
    split
    · split <;> rintro ⟨⟩
    · rintro ⟨⟩
  unfold Sql.insertFresh
  split
  · rename_i t hins
    rw [(Sql.insertLoop_ok hins).1]
    exact ⟨fun _ => insert_exact h hids habsent, by rintro _ ⟨⟩⟩
  · exact ⟨by rintro ⟨⟩, fun _ _ => h⟩
  · split
    · exact ⟨fun hok => absurd hok (hontaken db), fun _ _ => onTaken_exact h⟩
    · split
      · split
        · exact ⟨by rintro ⟨⟩, fun _ _ => h⟩
        · exact ⟨fun hok => absurd hok (hontaken db), fun _ _ => onTaken_exact h⟩
      · rename_i db' hwrite
        -- releasing keys moves no row
        have hset := Sql.Db.eq_setJobs hwrite
        have h' : Exact db' inflight active := by
          rw [hset]
          refine h.keep (.still (fun _ _ _ _ => rfl) fun _ _ _ _ => rfl) fun p hp => ?_
          exact hp.resolve_right List.not_mem_nil
        have habsent' : ∀ e ∈ fresh, db'.jobs.get e.id = none := by
          intro e he
          rw [hset]
          show (Sql.releaseKeys now (Sql.candidates fresh) db.jobs).get e.id = none
          rw [Sql.releaseKeys, Table.get_update, habsent e he]
          rfl
        split
        · rename_i t hins
          rw [(Sql.insertLoop_ok hins).1]
          exact ⟨fun _ => insert_exact h' hids habsent', by rintro _ ⟨⟩⟩
        · exact ⟨by rintro ⟨⟩, fun _ _ => h'⟩
        · exact ⟨fun hok => absurd hok (hontaken db'), fun _ _ => onTaken_exact h'⟩

/-- The same for the whole of `enqueue_on`. -/
theorem enqueueScoped_exact
    (hids : (batch.map Envelope.id).Nodup) :
    let r := Sql.enqueueScoped postgresRust.dialect now order batch db
    (r.2 = .ok () → ∃ fresh, classifyIds db batch = .ok fresh ∧
      ExactWith now fresh r.1 inflight active) ∧
    ∀ err, r.2 = .error err → Exact r.1 inflight active := by
  rcases Sql.enqueueScoped_cases postgresRust.dialect now order batch db with
    ⟨fresh, hchecked, heq⟩ | ⟨-, hkept, hempty⟩
  · have hfresh := Sql.classifyIds_ok hchecked.ids
    have hnodup : (fresh.map Envelope.id).Nodup := by
      rw [hfresh]
      exact (List.filter_sublist.map Envelope.id).nodup hids
    have habsent : ∀ e ∈ fresh, db.jobs.get e.id = none := by
      intro e he
      rw [hfresh, Sql.unstored, List.mem_filter] at he
      simpa using he.2
    obtain ⟨hok, herr⟩ := insertFresh_exact now order h hnodup habsent
    rw [heq]
    exact ⟨fun hverdict => ⟨fresh, hchecked.ids, hok hverdict⟩, herr⟩
  · -- an early return: nothing is written, and on success nothing was fresh
    dsimp only
    rw [hkept]
    refine ⟨fun hok => ⟨[], hempty hok, ?_⟩, fun _ _ => h⟩
    simpa [ExactWith, inflightDefaults, Table.insertRows] using h

end

end

/-- The counters of a database with its maintained tables agree with its rows. -/
def Maintained.Exact (s : Maintained) : Prop := Postgres.Exact s.toDb s.inflight s.active

namespace Maintained

section
variable {s : Maintained} {batch : List Envelope} {db : Db}

/-- The holder's partition is dropped only without an available row. -/
theorem delistDebounced_exact (h : s.Exact) (holder : String) : (s.delistDebounced holder).Exact :=
  .delist h _

/-- The tables after an attempt, by its verdict. -/
theorem afterEnqueue_exact {r : Db × Except StoreError Unit}
    (hok : r.2 = .ok () → ∃ fresh, classifyIds db (batch.map scopeKey) = .ok fresh ∧
      ExactWith now fresh r.1 s.inflight s.active)
    (herr : ∀ err, r.2 = .error err → Postgres.Exact r.1 s.inflight s.active) :
    ({ s with toDb := r.1 }.afterEnqueue now batch db r.2).Exact := by
  unfold afterEnqueue
  cases hverdict : r.2 with
  | ok =>
    obtain ⟨fresh, hclassify, hexact⟩ := hok hverdict
    rw [hclassify]
    exact hexact
  | error err =>
    have h := herr err hverdict
    -- only a duplicate whose holder was debounced takes an entry off the active list
    split
    · cases ‹Except.error err = Except.ok ()›
    · split
      · rename_i holder _ _ _ _ _
        exact delistDebounced_exact (s := { s with toDb := r.1 }) h holder
      · exact h
    · exact h

section
variable (now : Int) (order : SetOrder String)

/-- `enqueue_on` of a valid batch. -/
private theorem enqueueOn_exact (h : s.Exact) (hvalid : validateEnqueue batch = .ok ()) :
    let r := Sql.enqueueOn postgresRust now order batch s.toDb
    (r.2 = .ok () → ∃ fresh, classifyIds s.toDb (batch.map scopeKey) = .ok fresh ∧
      ExactWith now fresh r.1 s.inflight s.active) ∧
    ∀ err, r.2 = .error err → Postgres.Exact r.1 s.inflight s.active := by
  have hids : ((batch.map scopeKey).map Envelope.id).Nodup := by
    rw [List.map_map]
    exact (validateEnqueue_ok hvalid).1
  rw [enqueueOn_eq hvalid]
  exact enqueueScoped_exact now order h hids

theorem enqueueTx_exact (batch : List Envelope) (h : s.Exact) :
    (s.enqueueTx now order batch).Exact := by
  unfold enqueueTx Sql.enqueueTx
  cases hvalid : validateEnqueue batch with
  | ok =>
    obtain ⟨hok, herr⟩ := enqueueOn_exact now order h hvalid
    exact afterEnqueue_exact hok herr
  | error =>
    rw [(Sql.enqueue_invalid hvalid).2]
    exact afterEnqueue_exact (by rintro ⟨⟩) fun _ _ => h

theorem enqueue_exact (batch : List Envelope) (h : s.Exact) :
    (s.enqueue now order batch).Exact := by
  unfold enqueue
  cases hvalid : validateEnqueue batch with
  | ok =>
    obtain ⟨hok, herr⟩ := enqueueOn_exact now order h hvalid
    rw [Sql.enqueue_valid hvalid, postgresRust_scopesInside, if_pos rfl, Sql.rolledBack]
    refine afterEnqueue_exact (fun hverdict => ?_) fun err hverdict => ?_
    · have hverdict : (Sql.enqueueOn postgresRust now order batch s.toDb).2 = .ok () := hverdict
      have hcommits : Sql.commits (Sql.enqueueOn postgresRust now order batch s.toDb).2 = true := by
        rw [hverdict]
        rfl
      rw [if_pos hcommits]
      exact hok hverdict
    · -- a failed batch is kept or rolled back; the counters are exact on both sides
      split
      · exact herr err hverdict
      · exact h
  | error =>
    rw [(Sql.enqueue_invalid hvalid).1]
    exact afterEnqueue_exact (by rintro ⟨⟩) fun _ _ => h

end

end

/-! ## Section 3: Statements under a lease and sweeps -/

section
variable {s : Maintained} {t : Table String Job} {inflight : Table Part Inflight}
  {active : Finset Part}

/-- Every outcome but a rate limit ends in a state that is neither running nor available. -/
theorem ackRow_state {opts : Options} {jitter : Int} {a : AckArgs} {row : Job}
    (hvalid : validateAck a = .ok ()) (h : ackRow opts now jitter a j = some row) :
    row.state ≠ .running ∧ (row.state = .available → a.outcome = .rateLimited) := by
  unfold ackRow at h
  split at h
  · split at h
    · cases h
    · rw [← Option.some.inj h]
      simp [released]
  · rw [← Option.some.inj h]
    dsimp only [released]
    split <;> simp
  · rw [← Option.some.inj h]
    simp [ackTerminal, released]
  · rw [← Option.some.inj h]
    simp [ackTerminal, released]
  · cases h
  · rw [← Option.some.inj h]
    simp [released]
  · rename_i hlimited
    rw [← Option.some.inj h]
    exact ⟨by simp [released], fun _ => hlimited⟩
  · -- a lost lease is no outcome a worker may report
    rename_i hlost
    simp [validateAck, hlost] at hvalid

/-- Cancelled rows stop running if they did. -/
theorem cancel_turnover (now : Int) (t : Table String Job) (sel : String → Job → Bool) :
    Turnover t (t.update sel fun _ => cancelledRow now) []
      (parts t fun id j => sel id j && j.state = .running) [] := by
  refine .stop (fun _ _ _ _ => rfl) (fun id j _ _ => ?_) fun id j _ _ hav => ?_
  · simp [cancelledRow]
  · cases hav

/-- The rows of a bulk statement are in states of its action. -/
private theorem bulk_state {batch : Int} {op : Operation} {id : String}
    (hj : s.jobs.get id = some j) (hid : (bulkIds now batch op s.jobs).contains id = true) :
    (Sql.bulkActionStates op.action).contains j.state = true := by
  have hsel := selected_row hj (fun e he => he) (mem_firstIds hid)
  simp only [selected, Bool.and_eq_true] at hsel
  exact hsel.1.1.1.1.1

variable (h : s.Exact)
include h

/-- A statement with its clauses, if it goes through. -/
theorem run_exact (ht : Postgres.Exact (s.setJobs t) inflight active) :
    (s.run t inflight active).Exact := by
  unfold Maintained.run
  split
  · rename_i db' hwrite
    rw [Sql.Db.eq_setJobs hwrite]
    exact ht
  · exact h

/-- A statement without clauses. -/
theorem store_run_exact (ht : Turnover s.jobs t [] [] []) :
    Maintained.Exact { s with toStore := s.toStore.run t } := by
  unfold Store.run
  split
  · rename_i db' hwrite
    rw [Sql.Db.eq_setJobs hwrite]
    exact .keep h ht fun p hp => hp.resolve_right List.not_mem_nil
  · exact h

theorem admission_exact (now leaseMs : Int) (req : AdmitRequest)
    (changes : List (String × GateChange)) :
    (s.admission now leaseMs req changes).Exact :=
  run_exact h (.net h (admitJobs_turnover changes s.jobs))

section
variable (opts : Options) (order : SetOrder Part) (now limit : Int)

theorem ack_exact (jitter : Int) (ref : LeaseRef) (a : AckArgs) :
    (s.ack opts now jitter ref a).Exact := by
  unfold ack
  split
  · exact h
  · rename_i hvalid
    split
    · exact h
    · rename_i j hheld
      obtain ⟨hj, hheld⟩ := Option.filter_eq_some_iff.mp hheld
      have hrun : j.state = .running := by
        simp only [Sql.Job.heldBy, Bool.and_eq_true, decide_eq_true_eq] at hheld
        exact hheld.1.1
      apply run_exact h
      unfold ackJobs
      cases hrow : ackRow opts now jitter a j with
      | none =>
        have hturn := Turnover.delete s.jobs fun id _ => decide (id = ref.jobId)
        -- the held row is the one that stops
        rw [parts_key s.jobs ref.jobId fun k => decide (k.state = .running), hj] at hturn
        simp only [hrun, Option.filter_some, decide_true, if_true] at hturn
        refine Postgres.Exact.dec h hturn fun p hp => ?_
        have hp := hp.resolve_right List.not_mem_nil
        split
        · exact Finset.mem_insert_of_mem hp
        · exact hp
      | some row =>
        obtain ⟨hstops, havailable⟩ := ackRow_state hvalid hrow
        have hfollows := ackRow_follows hrow
        have hturn := Turnover.replace (if a.outcome = .rateLimited then [part j] else []) hj
          (Prod.ext hfollows.queue hfollows.partitionKey) hstops fun hav => .inl <| by
            simp [havailable hav]
        rw [if_pos hrun] at hturn
        refine Postgres.Exact.dec h hturn fun p hp => ?_
        split at hp
        · rename_i hlimited
          rw [if_pos hlimited, Finset.mem_insert]
          exact hp.symm.imp_left List.mem_singleton.mp
        · rename_i hother
          rw [if_neg hother]
          exact hp.resolve_right List.not_mem_nil

theorem reclaimExpired_exact : (s.reclaimExpired opts now limit).Exact := by
  unfold reclaimExpired
  dsimp only
  split
  · rename_i db' hwrite
    -- every expired row ran, and none does afterwards
    have hran : ∀ id j, s.jobs.get id = some j →
        (expiredIds now limit s.toStore).contains id = true → j.state = .running := by
      intro id j hj hid
      have hsel := selected_row hj (fun e he => he) (mem_firstIds hid)
      simp only [Bool.and_eq_true, decide_eq_true_eq] at hsel
      exact hsel.1
    have hturn : Turnover s.jobs (s.jobs.update
        (fun id _ => (expiredIds now limit s.toStore).contains id) fun _ =>
          Postgres.crashedRow opts now) []
        (parts s.jobs fun id _ => (expiredIds now limit s.toStore).contains id) [] := by
      rw [← parts_running hran]
      refine Turnover.stop (fun _ _ _ _ => rfl) (fun id j _ _ => ?_) fun id j _ _ hav => ?_
      · unfold Postgres.crashedRow
        dsimp only
        split <;> decide
      · unfold Postgres.crashedRow at hav
        dsimp only at hav
        split at hav <;> cases hav
    have hexact := Postgres.Exact.dec h hturn fun p hp => hp.resolve_right List.not_mem_nil
    rw [← Sql.Db.eq_setJobs hwrite] at hexact
    exact ⟨hexact.inflight, hexact.active, hexact.depth⟩
  · exact h

theorem promoteDue_exact : (s.promoteDue now limit).Exact := by
  unfold promoteDue
  apply run_exact h
  refine .activate h _ _ (fun _ _ _ _ => rfl) (fun id j hj hid hrun => ?_)
    fun _ _ _ _ => rfl
  have hsel := selected_row hj (fun e he => mem_orderBy.mp he) (mem_firstIds hid)
  rw [hrun] at hsel
  cases hsel

theorem quarantineRelease_exact (fp : String) :
    (s.quarantineRelease now fp).Exact := by
  unfold quarantineRelease
  dsimp only
  split
  · rename_i db' hwrite
    have hexact := Postgres.Exact.activate h (releases fp) (fun _ => reopenedRow now)
      (fun _ _ _ _ => rfl) (fun id j _ hsel hrun => by simp [releases, hrun] at hsel)
      fun _ _ _ _ => rfl
    rw [← Sql.Db.eq_setJobs hwrite] at hexact
    exact ⟨hexact.inflight, hexact.active, hexact.depth⟩
  · exact h

theorem pruneActivePartitions_exact :
    (s.pruneActivePartitions order limit).Exact := .delist h _

theorem reconcileInflight_exact : (s.reconcileInflight order now limit).Exact := by
  refine ⟨fun p => ?_, h.active, h.depth⟩
  have hold := h.inflight p
  unfold reconcileInflight inflightOf
  rw [Table.get_update]
  unfold inflightOf at hold
  -- only rows that exist are reconciled; a missing one counts as zero already
  cases hrow : s.inflight.get p with
  | none =>
    rw [hrow] at hold
    exact hold
  | some =>
    rw [hrow] at hold
    simp only [Option.map_some, Option.getD_some] at hold ⊢
    split
    · -- a reconciled count is the count itself
      show ((s.jobs.count fun _ j => decide (j.state = .running) && decide (part j = p) : Nat) : Int)
        = runningIn s.jobs p
      congr 1
      apply Table.count_congr
      intro _ j _
      rw [Bool.and_comm]
    · exact hold

end

/-! ## Section 4: Operators -/

theorem operatorRetry_exact (now : Int) (id : String) :
    (s.operatorRetry now id).Exact := by
  refine run_exact h (.activate h _ _ (fun _ _ _ _ => rfl)
    (fun x j _ hsel hrun => ?_) fun _ _ _ _ => rfl)
  simp [retries, hrun] at hsel

theorem promoteJob_exact (now : Int) (id : String) : (s.promoteJob now id).Exact := by
  refine run_exact h (.activate h _ _ (fun _ _ _ _ => rfl)
    (fun x j _ hsel hrun => ?_) fun _ _ _ _ => rfl)
  simp [hrun] at hsel

theorem operatorCancel_exact (now : Int) (id : String) :
    (s.operatorCancel now id).Exact :=
  run_exact h (.dec h (cancel_turnover now s.jobs _) fun _ hp => hp.resolve_right List.not_mem_nil)

theorem bulk_exact (now batch : Int) (op : Operation) :
    Postgres.Exact (s.setJobs (bulkMutation now op.action (bulkIds now batch op s.jobs) s.jobs))
      (s.bulkClauses op.action (bulkIds now batch op s.jobs)).1
      (s.bulkClauses op.action (bulkIds now batch op s.jobs)).2 := by
  -- no action but a cancellation takes running rows
  have hidle : op.action ≠ .cancel → ∀ id j, s.jobs.get id = some j →
      (bulkIds now batch op s.jobs).contains id = true → j.state ≠ .running := by
    intro haction id j hj hid hrun
    have hallowed := bulk_state hj hid
    rw [hrun] at hallowed
    cases ha : op.action with
    | cancel => exact haction ha
    | retry | delete =>
      rw [ha] at hallowed
      cases hallowed
  unfold bulkMutation bulkClauses
  cases haction : op.action with
  | retry =>
    exact .activate h _ _ (fun _ _ _ _ => rfl) (hidle (by simp [haction]))
      fun _ _ _ _ => rfl
  | cancel =>
    exact .dec h (cancel_turnover now s.jobs _) fun _ hp => hp.resolve_right List.not_mem_nil
  | delete =>
    exact .keep h (.delete_idle (hidle (by simp [haction])))
      fun _ hp => hp.resolve_right List.not_mem_nil

theorem runOperation_exact (now batch : Int) (e : String × Operation) :
    (s.runOperation now batch e).Exact := by
  unfold runOperation Postgres.runOperation
  cases hwrite : bulkWrite now batch e.2 s.toStore with
  | none =>
    -- a failed statement only marks the operation
    exact h
  | some db' =>
    have hexact := bulk_exact h now batch e.2
    rw [← Sql.Db.eq_setJobs (write_of_bulkWrite hwrite)] at hexact
    exact hexact

theorem runPendingOperations_exact (now batch : Int) :
    (s.runPendingOperations now batch).Exact :=
  List.foldlRecOn (motive := fun s : Maintained => s.Exact) _ _ h
    fun _ hs e _ => runOperation_exact hs now batch e

end

/-! ## Section 5: Runs -/

/-- Every transaction leaves the counters exact. -/
theorem step_exact {s : Maintained} (c : Commit) (h : s.Exact) : (s.step c).Exact := by
  cases c with
  | pruneActivePartitions order limit => exact pruneActivePartitions_exact h order limit
  | reconcileInflight order now limit => exact reconcileInflight_exact h order now limit
  | call c =>
    obtain ⟨now, op⟩ := c
    cases op with
    | enqueue batch order => exact enqueue_exact now order batch h
    | enqueueTx batch order => exact enqueueTx_exact now order batch h
    | admission req leaseMs changes => exact admission_exact h now leaseMs req changes
    | ack opts jitter ref args => exact ack_exact h opts now jitter ref args
    | reclaimExpired opts limit => exact reclaimExpired_exact h opts now limit
    | promoteDue limit => exact promoteDue_exact h now limit
    | quarantineRelease fp => exact quarantineRelease_exact h now fp
    | operatorRetry id => exact operatorRetry_exact h now id
    | operatorCancel id => exact operatorCancel_exact h now id
    | promoteJob id => exact promoteJob_exact h now id
    | runPendingOperations batch => exact runPendingOperations_exact h now batch
    | renew =>
      simp only [step, Postgres.step, renew]
      split
      · exact h
      · exact store_run_exact h (.still (fun _ _ _ _ => rfl) fun _ _ _ _ => rfl)
    | checkpoint _ _ | writeJobOutput _ _ | writeJobProgress _ _ _ _ | rescheduleJob _ _
    | editPayload _ _ _ _ =>
      -- the state of the row stays
      exact store_run_exact h (.still (fun _ _ _ _ => by simp only [part]) fun _ _ _ _ => rfl)
    | evictRetained =>
      refine store_run_exact h (.delete_idle fun id j hj hid hrun => ?_)
      have hsel := selected_row hj (fun e he => he) (mem_someIds hid)
      rw [hrun] at hsel
      cases hsel
    | quarantineSweep =>
      refine store_run_exact h (.idle (fun _ _ _ _ => rfl) (fun id j hj hid hrun => ?_)
        (fun _ _ _ _ => by simp) fun _ _ _ _ hav => by cases hav)
      have hsel := selected_row hj (fun e he => he) (mem_someIds hid)
      rw [hrun] at hsel
      cases hsel
    | schedulePendingJob =>
      simp only [step, Postgres.step, schedulePendingJob]
      split
      · exact h
      · exact store_run_exact h (.idle (fun _ _ _ _ => rfl)
          (fun _ _ _ hsel hrun => by simp [hrun] at hsel) (fun _ _ _ _ => by simp)
          fun _ _ _ _ hav => by cases hav)
    | deleteJob =>
      exact store_run_exact h (.delete_idle fun _ _ _ hsel hrun => by simp [hrun] at hsel)
    | setEnqueueLimit => exact ⟨h.inflight, h.active, h.depth⟩
    | createOperation =>
      simp only [step, Postgres.step, createOperation]
      split
      · exact h
      · exact h
    | deleteQueue =>
      simp only [step, Postgres.step, deleteQueue, createOperation]
      split
      · exact ⟨h.inflight, h.active, h.depth⟩
      · split
        · split
          · exact ⟨h.inflight, h.active, h.depth⟩
          · exact ⟨h.inflight, h.active, h.depth⟩
        · exact h

theorem init_exact : Maintained.init.Exact :=
  ⟨fun _ => rfl, fun _ _ hj => (nomatch hj), fun _ => rfl⟩

theorem exec_exact (commits : List Commit) : (Maintained.exec commits).Exact :=
  run_invariant Maintained.Exact (P := fun _ _ => True) (fun _ c _ h => step_exact c h) init_exact
    (EachStep.trivial commits Maintained.init)

end Maintained

/-! ## Section 6: The counters -/

/-- **The maintained counters.**  After every transaction of any run, the in-flight count of each
partition is the number of its running rows, every partition with an available row is listed, and
the depth counters of each queue differ by its unfinished rows. -/
theorem maintained_counters (commits : List Commit) :
    (∀ queue key, inflightOf (Maintained.exec commits).inflight (queue, key)
      = (Maintained.exec commits).jobs.count fun _ j =>
        j.state = .running && j.queue = queue && j.partitionKey = key) ∧
    (∀ id j, (Maintained.exec commits).jobs.get id = some j → j.state = .available →
      (j.queue, j.partitionKey) ∈ (Maintained.exec commits).active) ∧
    ∀ queue, ((Maintained.exec commits).entered queue : Int) - (Maintained.exec commits).exited queue
      = (Maintained.exec commits).jobs.count fun _ j => j.queue = queue && j.state.isUnfinished := by
  have h := Maintained.exec_exact commits
  refine ⟨fun queue key => ?_, h.active, fun queue => ?_⟩
  · rw [h.inflight]
    congr 1
    apply Table.count_congr
    intro _ j _
    simp only [part, Prod.mk.injEq]
    grind
  · have hdepth := h.depth queue
    unfold unfinishedIn at hdepth
    omega

end Headgate.Postgres
