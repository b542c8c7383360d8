import Headgate.Data.Evolve
import Headgate.Sqlite.Gate
import Headgate.Sqlite.Step

/-!
# What the operations do to rows

Every operation other than an enqueue only changes and deletes rows that are
there.  `Keeps` says so: the columns of the unique key stay, and a finished job
stays finished unless the operation brings it back.  The theorem
`step_keeps` covers all operations at once; what follows about unique keys uses
nothing else about them.
-/

namespace Headgate.Sqlite

open Headgate.Core Data

variable {j j' j'' : Job} {back : Prop} {id : String} {f : Job → Job} {p : String → Job → Bool}
  {to_ : State} {ref : LeaseRef} {opts : Options} {now : Int} {a : AckArgs}
open Sql (AckArgs BulkAction)

/-! ## Section 1: The relation -/

/-- The columns of the unique key are the same. -/
structure Job.SameUnique (j j' : Job) : Prop where
  uniqueKey : j'.uniqueKey = j.uniqueKey
  uniqueWindowMs : j'.uniqueWindowMs = j.uniqueWindowMs
  uniqueExpiresAtMs : j'.uniqueExpiresAtMs = j.uniqueExpiresAtMs

theorem Job.SameUnique.refl (j : Job) : j.SameUnique j := ⟨rfl, rfl, rfl⟩

theorem Job.SameUnique.trans (h : j.SameUnique j') (h' : j'.SameUnique j'') :
    j.SameUnique j'' :=
  ⟨h'.uniqueKey.trans h.uniqueKey, h'.uniqueWindowMs.trans h.uniqueWindowMs,
    h'.uniqueExpiresAtMs.trans h.uniqueExpiresAtMs⟩

/-- `j'` may replace `j`: same key, and unfinished only if `j` was or is brought back. -/
structure Follows (back : Prop) (j j' : Job) : Prop where
  unique : j.SameUnique j'
  unfinished : j'.state.isUnfinished = true → j.state.isUnfinished = true ∨ back

theorem Follows.refl (back : Prop) (j : Job) : Follows back j j :=
  ⟨Job.SameUnique.refl j, .inl⟩

instance (back : Job → Prop) : Std.Refl fun j j' => Follows (back j) j j' :=
  ⟨fun j => .refl (back j) j⟩

/-- The change leads to a finished state. -/
theorem Follows.finished (unique : j.SameUnique j') (h : j'.state.isUnfinished = false) :
    Follows back j j' :=
  ⟨unique, fun hunf => by rw [h] at hunf; cases hunf⟩

/-- The change starts from an unfinished state. -/
theorem Follows.unfinishedBefore (unique : j.SameUnique j') (h : j.state.isUnfinished = true) :
    Follows back j j' :=
  ⟨unique, fun _ => .inl h⟩

theorem Follows.trans (h : Follows back j j') (h' : Follows back j' j'') :
    Follows back j j'' := by
  refine ⟨h.unique.trans h'.unique, fun hunf => ?_⟩
  rcases h'.unfinished hunf with hunf' | hback
  · exact h.unfinished hunf'
  · exact .inr hback

/-- Rows change as `Follows` allows, and only rows in `gone` are deleted. -/
def Keeps (back gone : String → Job → Prop) (t t' : Table String Job) : Prop :=
  Evolves (fun id j j' => Follows (back id j) j j') gone t t'

section
variable {back gone : String → Job → Prop} {t t' t'' : Table String Job}

theorem Keeps.trans (h : Keeps noRow noRow t t') (h' : Keeps noRow noRow t' t'') :
    Keeps noRow noRow t t'' :=
  Evolves.trans (fun _ _ _ _ => Follows.trans) (fun _ _ _ _ => id) h h'

/-- A step that brings nothing back and deletes nothing, seen as one that might. -/
theorem Keeps.weaken (h : Keeps noRow noRow t t') : Keeps back gone t t' := by
  refine .mono h (fun id j j' hf => ⟨hf.unique, fun hunf => ?_⟩) fun _ _ => False.elim
  exact .inl ((hf.unfinished hunf).resolve_right False.elim)

theorem Keeps.updateJob {db : Store} {p : Job → Bool}
    (h : ∀ j, p j = true → Follows (back id j) j (f j)) :
    Keeps back gone db.jobs (db.updateJob id p f).1.jobs :=
  .updateAt fun j _ hp => h j hp

theorem Keeps.foldl {α : Type} {f : Store → α → Store}
    (h : ∀ db x, Keeps noRow noRow db.jobs (f db x).jobs) (xs : List α) (db : Store) :
    Keeps noRow noRow db.jobs (xs.foldl f db).jobs :=
  Evolves.foldl (R := fun id j => Follows (noRow id j) j) (fun _ _ _ _ => .trans)
    (fun _ _ _ _ => id) (fun db x _ => h db x) db

end

/-! ## Section 2: Admission -/

section
variable (now : Int) (a : GateArgs) (queue id : String) (j : Job) (g : Gate)

theorem expireDeadlines_keeps (jobs : Table String Job) :
    Keeps noRow noRow jobs (expireDeadlines now jobs) :=
  .update fun _ _ _ _ => .finished ⟨rfl, rfl, rfl⟩ rfl

theorem terminalize_keeps (h : to_.isUnfinished = false) :
    Keeps noRow noRow g.jobs (terminalize now queue id to_ g).jobs := by
  simp only [terminalize, countDecision]
  exact .updateAt fun _ _ _ => .finished ⟨rfl, rfl, rfl⟩ h

theorem claimJob_keeps : Keeps noRow noRow g.jobs (claimJob a queue id j g).jobs := by
  unfold claimJob
  split
  · simp only [countDecision]
    refine .updateAt fun row _ hrow => .unfinishedBefore ⟨rfl, rfl, rfl⟩ ?_
    have hst : row.state = .available := by simpa using hrow
    rw [hst]
    rfl
  · exact .refl g.jobs

theorem gateLoop_keeps {jobs : Table String Job} (hg : Keeps noRow noRow jobs g.jobs) (fuel : Nat) :
    Keeps noRow noRow jobs (gateLoop a fuel g).jobs := by
  apply gateLoop_invariant (P := fun g' => Keeps noRow noRow jobs g'.jobs) _ fuel g hg
  intro g₁ g₂ queue id j rest h _ _ _ hround
  have hclaim : ∀ g' : Gate, Keeps noRow noRow jobs g'.jobs →
      Keeps noRow noRow jobs (claimJob a queue id j g').jobs :=
    fun g' hg => hg.trans (claimJob_keeps a queue id j g')
  cases hround with
  | refused | held => exact h
  | ended _ to_ hfinished => exact h.trans (terminalize_keeps a.now queue id g₁ hfinished)
  | unlimited | belowCeiling => exact hclaim _ h
  | replaced =>
    refine hclaim _ (h.trans ?_)
    simp only [displace]
    exact .updateAt fun _ _ _ => .finished ⟨rfl, rfl, rfl⟩ rfl

theorem admitCall_keeps (req : AdmitRequest) (db : Store) :
    Keeps noRow noRow db.jobs (admitCall now req db).1.jobs := by
  have hexpire := expireDeadlines_keeps now db.jobs
  unfold admitCall
  dsimp only
  split
  · exact .refl db.jobs
  · split
    · exact .refl db.jobs
    · -- the loop starts on the table that the deadline pass left
      rcases admitOn_cases now req (normalizeQueues req.queues) db with heq | ⟨_, _, -, hjobs, -⟩
      · rw [heq]
        exact hexpire
      · rw [hjobs]
        exact gateLoop_keeps _ (startGate _ _ _ _ _) hexpire _

end

/-! ## Section 3: Leases and sweeps -/

theorem isUnfinished_of_heldBy (h : j.heldBy ref = true) :
    j.state.isUnfinished = true := by
  have hrun : j.state = .running := by
    simp only [Job.heldBy, Sql.Job.heldBy, Bool.and_eq_true, decide_eq_true_eq] at h
    exact h.1.1
  rw [hrun]
  rfl

theorem Job.SameUnique.recordAttempt {x : Job} (h : j.SameUnique x) (now : Int) (a : AckArgs)
    (record : Bool) (attempt : Nat) : j.SameUnique (recordAttempt now a record attempt x) := by
  unfold Sqlite.recordAttempt
  split
  · exact ⟨h.uniqueKey, h.uniqueWindowMs, h.uniqueExpiresAtMs⟩
  · exact h

theorem ackRow_unique {row : Job} (h : ackRow opts now a j = some row) : j.SameUnique row := by
  have hsame : j.SameUnique j := Job.SameUnique.refl j
  -- leaving the lease and taking a state touch no key column
  have hrelease : ∀ {x : Job}, j.SameUnique x → j.SameUnique (released a x) :=
    fun hx => ⟨hx.uniqueKey, hx.uniqueWindowMs, hx.uniqueExpiresAtMs⟩
  have hfinish : ∀ {x : Job} (st : State), j.SameUnique x → j.SameUnique (finished now st x) :=
    fun _ hx => ⟨hx.uniqueKey, hx.uniqueWindowMs, hx.uniqueExpiresAtMs⟩
  have hrequeue : ∀ {x : Job} (st : State) (t : Int), j.SameUnique x →
      j.SameUnique (requeued st t x) :=
    fun _ _ hx => ⟨hx.uniqueKey, hx.uniqueWindowMs, hx.uniqueExpiresAtMs⟩
  unfold ackRow at h
  split at h
  · split at h
    · cases h
    · cases h
      have hresult : j.SameUnique { j with result := a.result <|> j.result } := ⟨rfl, rfl, rfl⟩
      exact hrelease ((hfinish .completed hresult).recordAttempt now a _ _)
  · have hattempt : j.SameUnique { j with attempt := j.attempt + 1 } := ⟨rfl, rfl, rfl⟩
    dsimp only at h
    split at h
    · cases h
      exact hrelease (hrequeue _ _ (hattempt.recordAttempt now a _ _))
    · cases h
      exact hrelease (hfinish _ (hattempt.recordAttempt now a _ _))
  · cases h
    exact hrelease ((hfinish .archived hsame).recordAttempt now a _ _)
  · cases h
  · cases h
    exact hrelease (hrequeue _ _ hsame)
  · cases h
    exact hrelease ((hfinish .undecodable hsame).recordAttempt now a _ _)
  · cases h
    exact hrelease (hrequeue _ _ hsame)
  · cases h
    exact hsame

/-- The outcomes that delete the row. -/
def ackDeletes (a : AckArgs) (j : Job) : Bool :=
  a.outcome = .revoke || (a.outcome = .success && j.retentionMs = 0)

theorem ackDeletes_of_ackRow (h : ackRow opts now a j = none) : ackDeletes a j = true := by
  unfold ackRow at h
  unfold ackDeletes
  -- only a success without retention and a revocation leave no row
  split at h
  · rename_i houtcome
    split at h
    · rename_i hretention
      simp [houtcome, hretention]
    · cases h
  · dsimp only at h
    split at h <;> cases h
  · cases h
  · rename_i houtcome
    simp [houtcome]
  all_goals cases h

theorem ack_keeps (opts : Options) (now : Int) (ref : LeaseRef) (a : AckArgs) (db : Store) :
    Keeps noRow (fun id j => id = ref.jobId ∧ j.heldBy ref = true ∧ ackDeletes a j = true)
      db.jobs (ack opts now ref a db).1.jobs := by
  unfold ack
  split
  · exact .refl db.jobs
  · split
    · exact .refl db.jobs
    · rename_i j hheld
      obtain ⟨hj, hheld⟩ := Option.filter_eq_some_iff.mp hheld
      -- the statement finds the row that was read
      have hsame : ∀ {k : Job}, db.jobs.get ref.jobId = some k → k = j := by
        intro k hk
        rw [hj] at hk
        exact (Option.some.inj hk).symm
      dsimp only
      split
      · rename_i hrow
        refine .delete fun id k hk hid => ?_
        have hid : id = ref.jobId := by simpa using hid
        subst hid
        rw [hsame hk]
        exact ⟨rfl, hheld, ackDeletes_of_ackRow hrow⟩
      · rename_i row hrow
        refine .updateAt fun k hk _ => ?_
        rw [hsame hk]
        exact .unfinishedBefore (ackRow_unique hrow) (isUnfinished_of_heldBy hheld)

theorem fencedWrite_keeps (db : Store) (h : ∀ j : Job, j.SameUnique (f j)) :
    Keeps noRow noRow db.jobs (fencedWrite ref f db).jobs :=
  .updateJob fun j hj => .unfinishedBefore (h j) (isUnfinished_of_heldBy hj)

theorem renewOne_keeps (now leaseMs : Int) (db : Store) (ref : LeaseRef) :
    Keeps noRow noRow db.jobs (renewOne now leaseMs db ref).jobs := by
  exact fencedWrite_keeps db fun _ => ⟨rfl, rfl, rfl⟩

theorem reclaimOne_keeps (opts : Options) (now : Int) (db : Store) (e : String × Job) :
    Keeps noRow noRow db.jobs (reclaimOne opts now db e).jobs := by
  simp only [reclaimOne]
  refine .updateAt fun j _ hj => .unfinishedBefore ⟨rfl, rfl, rfl⟩ ?_
  have hrun : j.state = .running := by simpa using hj
  rw [hrun]
  rfl

theorem mem_firstIds {κ : Type} [LinearOrder κ] {key : String × Job → κ} {limit : Int}
    {rows : List (String × Job)} (h : id ∈ firstIds key limit rows) :
    ∃ j, (id, j) ∈ rows := by
  obtain ⟨⟨x, j⟩, hmem, rfl⟩ := List.mem_map.mp h
  exact ⟨j, mem_orderBy.mp (List.mem_of_mem_take hmem)⟩

theorem promoteDue_keeps (now limit : Int) (db : Store) :
    Keeps noRow noRow db.jobs (promoteDue now limit db).jobs := by
  unfold promoteDue
  split
  · exact .refl db.jobs
  · dsimp only
    refine .update fun id j hj hid => .unfinishedBefore ⟨rfl, rfl, rfl⟩ ?_
    -- the row the update finds is the one the query selected
    obtain ⟨k, hk⟩ := mem_firstIds (List.contains_iff_mem.mp hid)
    obtain ⟨hget, hst⟩ := Table.mem_select.mp hk
    rw [hj] at hget
    cases hget
    simp only [Bool.and_eq_true, List.contains_iff_mem, List.mem_cons, List.not_mem_nil,
      or_false] at hst
    rcases hst.1 with h | h <;> (rw [h]; rfl)

/-! ## Section 4: Operators -/

theorem simpleTransition_keeps (now : Int) (id : String) {from_ : List State}
    {back gone : String → Job → Prop} (db : Store)
    (h : ∀ j : Job, from_.contains j.state = true → to_.isUnfinished = true →
      j.state.isUnfinished = true ∨ back id j) :
    Keeps back gone db.jobs (simpleTransition now id from_ to_ db).jobs := by
  exact .updateJob fun j hj => ⟨⟨rfl, rfl, rfl⟩, h j hj⟩

/-- The finished jobs an operation brings back. -/
def Op.bringsBack (db : Store) : Op → String → Job → Bool
  | .operatorRetry x, id, j => id = x && [State.archived, .cancelled, .undecodable].contains j.state
  | .quarantineRelease fp, _, j => j.fingerprint = fp && j.state = .quarantined
  | .runPendingOperations batch, id, _ =>
    match nextOperation db with
    | some (_, op) =>
      !op.dryRun && op.action = .retry && (bulkIds batch op db).contains id
    | none => false
  | _, _, _ => false

/-- The rows an operation deletes. -/
def Op.deletes (now : Int) (db : Store) : Op → String → Job → Bool
  | .ack _ ref a, id, j => id = ref.jobId && j.heldBy ref && ackDeletes a j
  | .evictRetained limit, id, _ => (evictIds now limit db).contains id
  | .deleteJob x, id, j => id = x && j.state ≠ .running
  | .runPendingOperations batch, id, _ =>
    match nextOperation db with
    | some (_, op) =>
      !op.dryRun && op.action = .delete && (bulkIds batch op db).contains id
    | none => false
  | _, _, _ => false

theorem bulkMutation_keeps (now : Int) (action : BulkAction) (ids : List String)
    (jobs : Table String Job) :
    Keeps (fun id _ => action = .retry ∧ ids.contains id = true)
      (fun id _ => action = .delete ∧ ids.contains id = true) jobs
      (bulkMutation now action ids jobs) := by
  unfold bulkMutation
  cases action with
  | delete => exact .delete fun _ _ _ hid => ⟨rfl, hid⟩
  | cancel => exact .update fun _ _ _ _ => .finished ⟨rfl, rfl, rfl⟩ rfl
  | retry => exact .update fun id j _ hid => ⟨⟨rfl, rfl, rfl⟩, fun _ => .inr ⟨rfl, hid⟩⟩

theorem runPendingOperations_keeps (now batch : Int) (db : Store) :
    Keeps (fun id j => Op.bringsBack db (.runPendingOperations batch) id j = true)
      (fun id j => Op.deletes now db (.runPendingOperations batch) id j = true) db.jobs
      (runPendingOperations now batch db).jobs := by
  unfold runPendingOperations
  split
  · exact .refl db.jobs
  · split
    · exact .refl db.jobs
    · rename_i opId op hnext
      split
      · exact .refl db.jobs
      · rename_i hdry
        -- the first open operation is applied to one batch of ids; a dry run to none
        have hbulk := bulkMutation_keeps now op.action (bulkIds batch op db) db.jobs
        refine .mono hbulk (fun id j j' hf => ⟨hf.unique, fun hunf => ?_⟩) ?_
        · refine (hf.unfinished hunf).imp_right fun ⟨hretry, hid⟩ => ?_
          simp only [Op.bringsBack, hnext, hdry, hretry, hid, Bool.not_false, decide_true,
            Bool.and_self]
        · intro id j ⟨hdelete, hid⟩
          simp only [Op.deletes, hnext, hdry, hdelete, hid, Bool.not_false, decide_true,
            Bool.and_self]

/-- An operation other than an enqueue. -/
def Op.isEnqueue : Op → Prop
  | .enqueue _ _ | .enqueueTx _ _ => True
  | _ => False

/-- **Every operation but an enqueue keeps rows**, up to the jobs it brings back and the ones
it deletes. -/
theorem step_keeps (db : Store) (c : Call) (h : ¬ c.op.isEnqueue) :
    Keeps (fun id j => c.op.bringsBack db id j = true)
      (fun id j => c.op.deletes c.now db id j = true) db.jobs (step db c).jobs := by
  obtain ⟨now, op⟩ := c
  cases op with
  | enqueue | enqueueTx => exact absurd trivial h
  | admission req => exact (admitCall_keeps now req db).weaken
  | ack opts ref args =>
    refine Evolves.mono (ack_keeps opts now ref args db) (fun id j j' hf => ?_) ?_
    · exact ⟨hf.unique, fun hunf => (hf.unfinished hunf).imp_right False.elim⟩
    · intro id j ⟨hid, hheld, hdelete⟩
      simp [Op.deletes, hid, hheld, hdelete]
  | renew refs leaseMs =>
    simp only [step, renew]
    split
    · exact .refl db.jobs
    · exact (Keeps.foldl (renewOne_keeps now leaseMs) refs db).weaken
  | checkpoint ref | writeJobOutput ref | writeJobProgress ref =>
    refine Keeps.weaken (show Keeps noRow noRow db.jobs (fencedWrite ref _ db).jobs from ?_)
    exact fencedWrite_keeps db fun _ => ⟨rfl, rfl, rfl⟩
  | reclaimExpired opts =>
    simp only [step, reclaimExpired]
    split
    · exact .refl db.jobs
    · exact (Keeps.foldl (reclaimOne_keeps opts now) _ db).weaken
  | promoteDue limit => exact (promoteDue_keeps now limit db).weaken
  | evictRetained =>
    simp only [step, evictRetained]
    split
    · exact .refl db.jobs
    · exact .delete fun _ _ _ hid => hid
  | quarantineSweep =>
    simp only [step, quarantineSweep]
    split
    · exact .refl db.jobs
    · dsimp only
      exact .update fun _ _ _ _ => Follows.finished ⟨rfl, rfl, rfl⟩ rfl
  -- a release, an operator's retry and a bulk retry bring finished jobs back
  | quarantineRelease =>
    simp only [step, quarantineRelease]
    exact .update fun _ _ _ hp => ⟨⟨rfl, rfl, rfl⟩, fun _ => Or.inr hp⟩
  | operatorRetry id =>
    refine simpleTransition_keeps now id db fun j hj _ => Or.inr ?_
    simpa [Op.bringsBack] using hj
  | operatorCancel id =>
    exact simpleTransition_keeps now id db fun _ _ hunf => by cases hunf
  | promoteJob id =>
    refine simpleTransition_keeps now id db fun j hj _ => Or.inl ?_
    have hst : j.state = .pending := by simpa using hj
    rw [hst]
    rfl
  | schedulePendingJob =>
    simp only [step, schedulePendingJob]
    refine Keeps.updateJob fun j hj => Follows.unfinishedBefore ⟨rfl, rfl, rfl⟩ ?_
    have hst : j.state = .pending := by simpa using hj
    rw [hst]
    rfl
  | rescheduleJob =>
    simp only [step, rescheduleJob]
    exact Keeps.updateJob fun _ _ => ⟨⟨rfl, rfl, rfl⟩, Or.inl⟩
  | editPayload =>
    simp only [step, editPayload]
    split
    · exact Keeps.updateJob fun _ _ => ⟨⟨rfl, rfl, rfl⟩, Or.inl⟩
    · exact .refl db.jobs
  | deleteJob => exact .delete fun _ _ _ hid => hid
  | createOperation =>
    simp only [step, createOperation]
    split <;> exact .refl db.jobs
  | runPendingOperations batch => exact runPendingOperations_keeps now batch db
  | setQueuePaused | setEnqueueLimit => exact .refl db.jobs
  | setQueueWeight | upsertRateClass =>
    simp only [step]
    split <;> exact .refl db.jobs
  | upsertConcurrencyLimit =>
    simp only [step]
    split
    · unfold upsertConcurrencyLimit
      split <;> exact .refl db.jobs
    · exact .refl db.jobs
  | deleteQueue =>
    simp only [step, deleteQueue]
    split
    · exact .refl db.jobs
    · split <;> exact .refl db.jobs

end Headgate.Sqlite
