import Headgate.Postgres.Step
import Headgate.Sql.Arrivals

/-!
# What the calls do to rows on Postgres

Every call other than an enqueue changes and deletes rows that are there; the
columns of the key stay.  An enqueue inserts rows beside rows whose ended windows
may have been released.  The unique indexes hold throughout.
-/

namespace Headgate.Postgres

open Headgate.Core Data

variable {now : Int} {j : Job}
open Sql (AckArgs BulkAction Dialect Job Keeps indexed newRows postgresRust unstored)

/-! ## Section 1: Statements -/

@[simp] theorem postgresRust_scopesInside : postgresRust.scopesInside = true := rfl

theorem enqueueOn_eq {now : Int} {order : SetOrder String} {batch : List Envelope} {db : Sql.Db}
    (hvalid : validateEnqueue batch = .ok ()) : Sql.enqueueOn postgresRust now order batch db
      = Sql.enqueueScoped postgresRust.dialect now order (batch.map scopeKey) db :=
  Sql.enqueueOn_valid hvalid

section Sound
variable {gone : String → Job → Prop} {db : Store} {t t' : Table String Job}

/-- The rows go on, and so do the unique indexes. -/
structure Sound (now : Int) (gone : String → Job → Prop) (t t' : Table String Job) : Prop where
  keeps : Keeps now gone t t'
  indexed : indexed t = true → indexed t' = true

theorem Sound.refl (t : Table String Job) : Sound now gone t t := ⟨.refl t, id⟩

theorem Sound.write {db' : Sql.Db} (hwrite : db.write t = some db') (h : Keeps now gone db.jobs t) :
    Sound now gone db.jobs db'.jobs := by
  obtain ⟨hjobs, hidx⟩ := Sql.Db.write_eq_some hwrite
  rw [hjobs]
  exact ⟨h, fun _ => hidx⟩

/-- A statement goes through or changes nothing. -/
theorem run_jobs (db : Store) (t : Table String Job) :
    (db.run t).jobs = t ∧ indexed t = true ∨ (db.run t).jobs = db.jobs := by
  unfold Store.run
  split
  · rename_i db' hwrite
    exact .inl (Sql.Db.write_eq_some hwrite)
  · exact .inr rfl

theorem Sound.run (h : Keeps now gone db.jobs t) : Sound now gone db.jobs (db.run t).jobs := by
  rcases run_jobs db t with ⟨heq, hnew⟩ | heq
  · rw [heq]
    exact ⟨h, fun _ => hnew⟩
  · rw [heq]
    exact .refl db.jobs

end Sound

/-! ## Section 2: Deletions -/

/-- The selector reaches the row, whatever its state. -/
def Operation.reaches (now : Int) (op : Operation) (j : Job) : Bool :=
  op.selector.queue.all (· = j.queue) && op.selector.kind.all (· = j.kind)
    && op.selector.partitionKey.all (· = j.partitionKey)
    && op.selector.olderThanMs.all fun age => j.enqueuedAtMs < now - age

/-- The rows a call may delete. -/
def Op.deletes (now : Int) (db : Store) : Op → String → Job → Bool
  | .ack opts jitter ref a, id, j =>
    id = ref.jobId && j.heldBy ref && (ackRow opts now jitter a j).isNone
  | .evictRetained limit order, id, _ => (evictIds order now limit db).contains id
  | .deleteJob x, id, j => id = x && j.state ≠ .running
  | .runPendingOperations _, _, j =>
    (openOperations db).any fun e => e.2.action = .delete && e.2.reaches now j
  | _, _, _ => false

/-- An enqueue, in either form. -/
def Op.isEnqueue : Op → Prop
  | .enqueue _ _ | .enqueueTx _ _ => True
  | _ => False

theorem Operation.reaches_of_selected {op : Operation} (h : selected now op j = true) :
    op.reaches now j = true := by
  simp only [selected, Bool.and_eq_true] at h
  obtain ⟨⟨⟨⟨⟨-, hqueue⟩, -⟩, hkind⟩, hpartition⟩, hage⟩ := h
  simp only [Operation.reaches, Bool.and_eq_true]
  exact ⟨⟨⟨hqueue, hkind⟩, hpartition⟩, hage⟩

/-- A row keeps what a selector looks at. -/
theorem Operation.reaches_of_follows {op : Operation} {j' : Job} (hf : j.Follows now j')
    (h : op.reaches now j' = true) : op.reaches now j = true := by
  simp only [Operation.reaches, hf.queue, hf.kind, hf.partitionKey, hf.enqueuedAtMs] at h
  exact h

theorem mem_firstIds {limit : Int} {rows : List (String × Job)} {id : String}
    (h : (firstIds limit rows).contains id = true) : ∃ j, (id, j) ∈ rows := by
  rw [firstIds, List.contains_iff_mem, List.mem_map] at h
  obtain ⟨row, hrow, rfl⟩ := h
  exact ⟨row.2, List.mem_of_mem_take hrow⟩

theorem mem_someIds {order : SetOrder String} {limit : Int} {rows : List (String × Job)}
    {id : String} (h : (someIds order limit rows).contains id = true) : ∃ j, (id, j) ∈ rows := by
  rw [someIds, List.contains_iff_mem] at h
  have hmem := List.mem_of_mem_take h
  rw [order.mem_list, List.mem_toFinset, List.mem_map] at hmem
  obtain ⟨⟨x, j⟩, hrow, rfl⟩ := hmem
  exact ⟨j, hrow⟩

/-- An id of a query names a row that the query selects. -/
theorem selected_row {t : Table String Job} {p : String → Job → Bool} {rows : List (String × Job)}
    {id : String} (hj : t.get id = some j) (hrows : ∀ e ∈ rows, e ∈ t.select p)
    (hid : ∃ k, (id, k) ∈ rows) : p id j = true := by
  obtain ⟨k, hk⟩ := hid
  obtain ⟨hget, hp⟩ := Table.mem_select.mp (hrows _ hk)
  rw [hj] at hget
  cases hget
  exact hp

theorem write_of_bulkWrite {batch : Int} {op : Operation} {db : Store} {db' : Sql.Db}
    (h : bulkWrite now batch op db = some db') :
    db.write (bulkMutation now op.action (bulkIds now batch op db.jobs) db.jobs) = some db' := by
  unfold bulkWrite at h
  split at h
  · cases h
  · exact h

theorem runOperation_sound (now batch : Int) (ops : List (String × Operation)) (db : Store)
    {e : String × Operation} (he : e ∈ ops) :
    Sound now (fun _ j => ops.any (fun e => e.2.action = .delete && e.2.reaches now j) = true)
      db.jobs (runOperation now batch db e).jobs := by
  unfold runOperation
  dsimp only
  split
  · exact .refl db.jobs
  · rename_i db' hwrite
    refine .write (write_of_bulkWrite hwrite) ?_
    unfold bulkMutation
    split
    · exact .update fun _ _ _ _ => ⟨rfl, .inl rfl, rfl, rfl, rfl, rfl⟩
    · exact .update fun _ _ _ _ => ⟨rfl, .inl rfl, rfl, rfl, rfl, rfl⟩
    · -- only the delete action removes rows, and only selected ones
      rename_i haction
      refine .delete fun id j hj hid => ?_
      have hsel := selected_row hj (fun e he => he) (mem_firstIds hid)
      refine List.any_eq_true.mpr ⟨e, he, ?_⟩
      simp [haction, Operation.reaches_of_selected hsel]

/-- The loop over the open operations deletes only rows that one of them reaches. -/
theorem runPendingOperations_sound (now batch : Int) (db : Store) :
    Sound now (fun id j => Op.deletes now db (.runPendingOperations batch) id j = true) db.jobs
      (runPendingOperations now batch db).jobs := by
  have htrans : ∀ (_ : String) (j j' j'' : Job), j.Follows now j' → j'.Follows now j'' →
      j.Follows now j'' := fun _ _ _ _ hf hf' => hf.trans hf'
  -- an operation that reaches the changed row would have reached the old one
  have hreach : ∀ (_ : String) (j j' : Job), j.Follows now j' →
      (openOperations db).any (fun e => e.2.action = .delete && e.2.reaches now j') = true →
      (openOperations db).any (fun e => e.2.action = .delete && e.2.reaches now j) = true := by
    intro _ j j' hf hany
    obtain ⟨e, he, hboth⟩ := List.any_eq_true.mp hany
    simp only [Bool.and_eq_true] at hboth
    refine List.any_eq_true.mpr ⟨e, he, ?_⟩
    simp only [Bool.and_eq_true]
    exact ⟨hboth.1, Operation.reaches_of_follows hf hboth.2⟩
  have hstep := fun (s : Store) (e : String × Operation) (he : e ∈ openOperations db) =>
    runOperation_sound now batch (openOperations db) s he
  refine ⟨.foldl htrans hreach (fun s e he => (hstep s e he).keeps) db, fun hidx => ?_⟩
  exact List.foldlRecOn (motive := fun s : Store => indexed s.jobs = true) _ _ hidx
    fun s hs e he => (hstep s e he).indexed hs

/-! ## Section 3: The calls -/

theorem admitJobs_keeps (now leaseMs : Int) (req : AdmitRequest)
    (changes : List (String × GateChange)) (t : Table String Job) :
    Keeps now noRow t (admitJobs now leaseMs req changes t) := by
  induction changes generalizing t with
  | nil => exact .refl t
  | cons c rest ih =>
    refine .trans (.updateAt fun j _ _ => ?_) (ih _)
    cases c.2 <;> exact ⟨rfl, .inl rfl, rfl, rfl, rfl, rfl⟩

theorem ackRow_follows {opts : Options} {jitter : Int} {a : AckArgs} {row : Job}
    (h : ackRow opts now jitter a j = some row) : j.Follows now row := by
  unfold ackRow at h
  -- no outcome touches the key, the queue or the time of arrival
  split at h
  · split at h
    · cases h
    · rw [← Option.some.inj h]
      exact ⟨rfl, .inl rfl, rfl, rfl, rfl, rfl⟩
  · rw [← Option.some.inj h]
    exact ⟨rfl, .inl rfl, rfl, rfl, rfl, rfl⟩
  · rw [← Option.some.inj h]
    exact ⟨rfl, .inl rfl, rfl, rfl, rfl, rfl⟩
  · rw [← Option.some.inj h]
    exact ⟨rfl, .inl rfl, rfl, rfl, rfl, rfl⟩
  · cases h
  · rw [← Option.some.inj h]
    exact ⟨rfl, .inl rfl, rfl, rfl, rfl, rfl⟩
  · rw [← Option.some.inj h]
    exact ⟨rfl, .inl rfl, rfl, rfl, rfl, rfl⟩
  · rw [← Option.some.inj h]
    exact Sql.Job.Follows.refl now j

theorem ack_sound (opts : Options) (now jitter : Int) (ref : LeaseRef) (a : AckArgs) (db : Store) :
    Sound now (fun id j => Op.deletes now db (.ack opts jitter ref a) id j = true) db.jobs
      (ack opts now jitter ref a db).1.jobs := by
  unfold ack
  split
  · exact .refl db.jobs
  · split
    · exact .refl db.jobs
    · rename_i j hheld
      obtain ⟨hj, hheld⟩ := Option.filter_eq_some_iff.mp hheld
      refine .run ?_
      unfold ackJobs
      split
      · -- no new row: the job is deleted, which its lease allows
        rename_i hrow
        refine .delete fun id j' hj' hid => ?_
        obtain rfl : id = ref.jobId := by simpa using hid
        rw [hj] at hj'
        cases hj'
        simp [Op.deletes, hheld, hrow]
      · rename_i row hrow
        refine .updateAt fun j' hj' _ => ?_
        rw [hj] at hj'
        cases hj'
        exact ackRow_follows hrow

/-- **Every call but an enqueue keeps rows**, up to the ones it deletes. -/
theorem step_sound (db : Store) (c : Call) (h : ¬ c.op.isEnqueue) :
    Sound c.now (fun id j => c.op.deletes c.now db id j = true) db.jobs (step db c).jobs := by
  obtain ⟨now, op⟩ := c
  cases op with
  | enqueue | enqueueTx => exact absurd trivial h
  | admission req leaseMs changes =>
    exact .run (admitJobs_keeps now leaseMs req changes db.jobs).weaken
  | ack opts jitter ref args => exact ack_sound opts now jitter ref args db
  | renew =>
    simp only [step, renew]
    split
    · exact .refl db.jobs
    · exact .run (.update fun _ _ _ _ => ⟨rfl, .inl rfl, rfl, rfl, rfl, rfl⟩)
  | reclaimExpired =>
    simp only [step, reclaimExpired]
    split
    · rename_i db' hwrite
      show Sound now _ db.jobs db'.jobs
      exact .write hwrite (.update fun _ _ _ _ => ⟨rfl, .inl rfl, rfl, rfl, rfl, rfl⟩)
    · exact .refl db.jobs
  | promoteDue _ | quarantineSweep _ _ =>
    exact .run (.update fun _ _ _ _ => ⟨rfl, .inl rfl, rfl, rfl, rfl, rfl⟩)
  | evictRetained => exact .run (.delete fun _ _ _ hid => hid)
  | quarantineRelease =>
    simp only [step, quarantineRelease]
    split
    · rename_i db' hwrite
      show Sound now _ db.jobs db'.jobs
      exact .write hwrite (.update fun _ _ _ _ => ⟨rfl, .inl rfl, rfl, rfl, rfl, rfl⟩)
    · exact .refl db.jobs
  | schedulePendingJob =>
    simp only [step, schedulePendingJob]
    split
    · exact .refl db.jobs
    · exact .run (.updateAt fun _ _ _ => ⟨rfl, .inl rfl, rfl, rfl, rfl, rfl⟩)
  | checkpoint _ _ | writeJobOutput _ _ | writeJobProgress _ _ _ _ | operatorRetry _
  | operatorCancel _ | promoteJob _ | rescheduleJob _ _ | editPayload _ _ _ _ =>
    -- one row, none of the columns of its key
    exact .run (.updateAt fun _ _ _ => ⟨rfl, .inl rfl, rfl, rfl, rfl, rfl⟩)
  | deleteJob => exact .run (.delete fun _ _ _ hid => hid)
  | setEnqueueLimit => exact .refl db.jobs
  | createOperation =>
    simp only [step, createOperation]
    split <;> exact .refl db.jobs
  | runPendingOperations batch => exact runPendingOperations_sound now batch db
  | deleteQueue =>
    simp only [step, deleteQueue, createOperation]
    split
    · exact .refl db.jobs
    · split
      · split <;> exact .refl db.jobs
      · exact .refl db.jobs

/-! ## Section 4: The indexes hold -/

/-- The envelopes a call brings. -/
def Op.arriving : Op → List Envelope
  | .enqueue batch _ | .enqueueTx batch _ => batch
  | _ => []

/-- **An enqueue inserts the envelopes that are not stored, or keeps the rows.** -/
theorem enqueue_cases (db : Store) (c : Call) (h : c.op.isEnqueue) :
    ((c.op.arriving.map Envelope.id).Nodup ∧ ∃ t₀, Keeps c.now noRow db.jobs t₀ ∧
      (step db c).jobs = t₀.insertRows (newRows postgresRust.dialect c.now
        ((unstored db.toDb c.op.arriving).map scopeKey)) ∧ indexed (step db c).jobs = true) ∨
    Sound c.now noRow db.jobs (step db c).jobs := by
  have hon : ∀ {batch : List Envelope} {order : SetOrder String},
      validateEnqueue batch = .ok () → Sql.Outcome postgresRust.dialect c.now
        ((unstored db.toDb batch).map scopeKey) db.jobs
        (Sql.enqueueOn postgresRust c.now order batch db.toDb).1.jobs := by
    intro batch order hvalid
    rw [enqueueOn_eq hvalid, ← Sql.unstored_scopeKey]
    exact Sql.enqueueScoped_outcome Sql.postgresRust_regular c.now order (batch.map scopeKey) db.toDb
  obtain ⟨now, op⟩ := c
  cases op with
  | enqueue =>
    simp only [step, Sql.enqueue, Op.arriving, postgresRust_scopesInside, if_true]
    split
    · exact .inr (.refl db.jobs)
    · split
      · exact .inr (.refl db.jobs)
      · rename_i hvalid
        split
        · exact (hon hvalid).imp (⟨(validateEnqueue_ok hvalid).1, ·⟩) fun h => ⟨h.1, h.2⟩
        · exact .inr (.refl db.jobs)
  | enqueueTx batch =>
    simp only [step, Sql.enqueueTx, Op.arriving]
    cases hvalid : validateEnqueue batch with
    | ok => exact (hon hvalid).imp (⟨(validateEnqueue_ok hvalid).1, ·⟩) fun h => ⟨h.1, h.2⟩
    | error =>
      rw [(Sql.enqueue_invalid hvalid).2]
      exact .inr (.refl db.jobs)
  | _ => exact h.elim

theorem step_indexed (db : Store) (c : Call) (hidx : indexed db.jobs = true) :
    indexed (step db c).jobs = true := by
  by_cases henq : c.op.isEnqueue
  · rcases enqueue_cases db c henq with ⟨-, -, -, -, hnew⟩ | hkept
    · exact hnew
    · exact hkept.indexed hidx
  · exact (step_sound db c henq).indexed hidx

/-- The unique indexes hold in every state. -/
theorem exec_indexed (calls : List Call) : indexed (exec calls).jobs = true :=
  run_invariant (fun db : Store => indexed db.jobs = true)
    (fun db c _ hidx => step_indexed db c hidx) rfl (EachStep.trivial calls Store.init)

/-! ## Section 5: The answer of a renewal -/

/-- `upd` of the query: the jobs it updates. -/
def renewed (refs : List LeaseRef) (db : Store) : List String :=
  (db.jobs.select fun id j => refs.any fun r => r.jobId = id && j.heldBy r).map Prod.fst

/-- What `renew` returns: the references whose job is not among the updated ones. -/
def renewLost (leaseMs : Int) (refs : List LeaseRef) (db : Store) : Except StoreError (List String) :=
  if refs.isEmpty then .ok []
  else if leaseMs ≤ 0 then .error (.invalid "lease must be >= 1ms")
  else .ok ((refs.map LeaseRef.jobId).filter fun id => !(renewed refs db).contains id)

/-- The reference matches the running row. -/
def Matches (db : Store) (r : LeaseRef) : Prop := ∃ j ∈ db.jobs.get r.jobId, j.heldBy r = true

instance (db : Store) (r : LeaseRef) : Decidable (Matches db r) :=
  inferInstanceAs (Decidable (∃ j ∈ db.jobs.get r.jobId, _))

/-- The row is held by the reference until a lease from now. -/
def Extended (now leaseMs : Int) (db : Store) (r : LeaseRef) : Prop :=
  ∃ j ∈ db.jobs.get r.jobId, j.heldBy r = true ∧ j.lease.map Lease.expiresAtMs = some (now + leaseMs)

variable {leaseMs : Int} {refs : List LeaseRef} {db : Store}

theorem renew_jobs (hidx : indexed db.jobs = true) (hlease : 1 ≤ leaseMs) :
    (renew now leaseMs refs db).jobs = db.jobs.update
      (fun id j => refs.any fun r => r.jobId = id && j.heldBy r)
      fun _ j => { j with lease := j.lease.map fun l => { l with expiresAtMs := now + leaseMs } } := by
  have hwrite := Sql.indexed_update hidx (f := fun _ j => { j with
      lease := j.lease.map fun l => { l with expiresAtMs := now + leaseMs } })
    (p := fun id j => refs.any fun r => r.jobId = id && j.heldBy r) fun _ _ _ _ => ⟨rfl, rfl⟩
  rw [renew, if_neg (by omega), Store.run, Sql.Db.write, if_pos hwrite]
  rfl

/-- A renewal extends the references that match, and no others. -/
theorem extended_renew_iff (hidx : indexed db.jobs = true) (hlease : 1 ≤ leaseMs) {r : LeaseRef}
    (hr : r ∈ refs) : Extended now leaseMs (renew now leaseMs refs db) r ↔ Matches db r := by
  rw [Extended, Matches, renew_jobs hidx hlease, Table.get_update]
  constructor
  · rintro ⟨k, hk, hheld, -⟩
    obtain ⟨j, hj, rfl⟩ := Option.map_eq_some_iff.mp hk
    refine ⟨j, hj, ?_⟩
    split at hheld
    · simpa [Job.heldBy, Function.comp_def] using hheld
    · exact hheld
  · rintro ⟨j, hj, hheld⟩
    have hany : (refs.any fun r' => r'.jobId = r.jobId && j.heldBy r') = true :=
      List.any_eq_true.mpr ⟨r, hr, by simp [hheld]⟩
    refine ⟨_, Option.map_eq_some_iff.mpr ⟨j, hj, rfl⟩, ?_⟩
    rw [if_pos hany]
    simp only [Job.heldBy, Bool.and_eq_true, decide_eq_true_eq] at hheld ⊢
    obtain ⟨l, hl, hid⟩ := Option.map_eq_some_iff.mp hheld.1.2
    simp [hheld.1.1, hheld.2, hl, hid]

/-- **Lost leases.**  A renewal reports every reference that does not match exactly if no job is
named both by such a reference and by one that matches. -/
theorem renew_reports_iff (now leaseMs : Int) (refs : List LeaseRef) (db : Store)
    (hidx : indexed db.jobs = true) (hlease : 1 ≤ leaseMs) :
    ((∀ r ∈ refs, Extended now leaseMs (renew now leaseMs refs db) r ↔ Matches db r) ∧
      ∃ lost, renewLost leaseMs refs db = .ok lost ∧
        ∀ r ∈ refs, ¬ Matches db r → r.jobId ∈ lost) ↔
    ∀ r ∈ refs, ¬ Matches db r → ∀ r' ∈ refs, r'.jobId = r.jobId → ¬ Matches db r' := by
  have hlost : renewLost leaseMs refs db = .ok ((refs.map LeaseRef.jobId).filter fun id =>
      !(renewed refs db).contains id) := by
    rw [renewLost, if_neg (show ¬ leaseMs ≤ 0 by omega)]
    cases refs <;> rfl
  have hmem : ∀ r ∈ refs, r.jobId ∈ ((refs.map LeaseRef.jobId).filter fun id =>
      !(renewed refs db).contains id) ↔ ∀ r' ∈ refs, r'.jobId = r.jobId → ¬ Matches db r' := by
    intro r hr
    rw [List.mem_filter, and_iff_right (List.mem_map_of_mem hr)]
    simp only [renewed, List.contains_eq_mem, Bool.not_eq_true', decide_eq_false_iff_not, List.mem_map,
      Prod.exists, Table.mem_select, List.any_eq_true, Bool.and_eq_true, decide_eq_true_eq,
      exists_and_right, exists_eq_right]
    constructor
    · rintro hout r' hr' hid ⟨j, hj, hheld⟩
      exact hout ⟨j, hid ▸ hj, r', hr', hid, hheld⟩
    · rintro hnone ⟨j, hj, r', hr', hid, hheld⟩
      exact hnone r' hr' hid ⟨j, hid ▸ hj, hheld⟩
  constructor
  · rintro ⟨-, lost, hreturned, hreports⟩ r hr hstale
    cases hlost.symm.trans hreturned
    exact (hmem r hr).mp (hreports r hr hstale)
  · intro hapart
    exact ⟨fun r hr => extended_renew_iff hidx hlease hr, _, hlost,
      fun r hr hstale => (hmem r hr).mpr (hapart r hr hstale)⟩

/-- Two jobs claimed with fence 1. -/
def claimedOnce : List Call :=
  [⟨0, .enqueue [{ id := "a", kind := "k", queue := "q" },
      { id := "b", kind := "k", queue := "q" }] .increasing⟩,
    ⟨1, .admission ⟨"w", "l", ["q"], 2, 10, 2⟩ 10 [("a", .claim false), ("b", .claim false)]⟩]

theorem renew_reports_iff_stale :
    Extended 2 10 (renew 2 10 [⟨"a", "l", 1⟩, ⟨"b", "l", 0⟩] (exec claimedOnce)) ⟨"a", "l", 1⟩ ∧
      ∃ lost, renewLost 10 [⟨"a", "l", 1⟩, ⟨"b", "l", 0⟩] (exec claimedOnce) = .ok lost ∧
        "b" ∈ lost := by
  obtain ⟨hextends, lost, hlost, hreports⟩ := (renew_reports_iff 2 10
    [⟨"a", "l", 1⟩, ⟨"b", "l", 0⟩] (exec claimedOnce) (exec_indexed _) (by decide)).mpr
    (by decide +kernel)
  refine ⟨(hextends _ List.mem_cons_self).mpr (by decide +kernel), lost, hlost, ?_⟩
  exact hreports _ (List.mem_cons_of_mem _ List.mem_cons_self) (by decide +kernel)

/-- Beside the reference that matches, the one with the former fence goes unreported. -/
theorem stale_renewal_unreported :
    Matches (exec claimedOnce) ⟨"a", "l", 1⟩ ∧ ¬ Matches (exec claimedOnce) ⟨"a", "l", 0⟩ ∧
      renewLost 10 [⟨"a", "l", 1⟩, ⟨"a", "l", 0⟩] (exec claimedOnce) = .ok [] :=
  ⟨by decide +kernel, by decide +kernel, rfl⟩

end Headgate.Postgres
