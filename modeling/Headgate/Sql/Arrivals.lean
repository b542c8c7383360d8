import Headgate.Data.Evolve
import Headgate.Sql.Adapters

/-!
# What an enqueue does to the rows

On Postgres and MySQL the unique indexes decide.  An enqueue that succeeds has
inserted its rows beside rows whose ended windows may have been released, and
the indexes hold of the result; any other enqueue only touches rows that are
there, and no key or open window among them changes.
-/

namespace Headgate.Sql

open Headgate.Core Data

variable {now : Int} {j row : Job} {id message : String} {t : Table String Job} {k : Bytes}
  {db db' : Db} {d : Dialect} {p : String → Job → Bool} {batch fresh : List Envelope} {e : Envelope}

/-! ## Section 1: How rows go on -/

/-- `j'` may stand where `j` stood: the same job under the same key, and the end of its window
is dropped only once it has passed. -/
structure Job.Follows (now : Int) (j j' : Job) : Prop where
  uniqueKey : j'.uniqueKey = j.uniqueKey
  expires : j'.uniqueExpiresAtMs = j.uniqueExpiresAtMs ∨
    j'.uniqueExpiresAtMs = none ∧ ∃ u, j.uniqueExpiresAtMs = some u ∧ u ≤ now
  queue : j'.queue = j.queue
  kind : j'.kind = j.kind
  partitionKey : j'.partitionKey = j.partitionKey
  enqueuedAtMs : j'.enqueuedAtMs = j.enqueuedAtMs

theorem Job.Follows.refl (now : Int) (j : Job) : j.Follows now j :=
  ⟨rfl, .inl rfl, rfl, rfl, rfl, rfl⟩

instance (now : Int) : Std.Refl (Job.Follows now) := ⟨.refl now⟩

theorem Job.Follows.trans {j' j'' : Job} (h : j.Follows now j') (h' : j'.Follows now j'') :
    j.Follows now j'' where
  uniqueKey := h'.uniqueKey.trans h.uniqueKey
  expires := by
    rcases h'.expires with heq' | ⟨hnone', u, hu, hle⟩
    · rw [heq']
      exact h.expires
    · -- an end that is dropped in the second change was there before the first
      rcases h.expires with heq | ⟨hnone, -⟩
      · exact .inr ⟨hnone', u, heq ▸ hu, hle⟩
      · rw [hnone] at hu
        cases hu
  queue := h'.queue.trans h.queue
  kind := h'.kind.trans h.kind
  partitionKey := h'.partitionKey.trans h.partitionKey
  enqueuedAtMs := h'.enqueuedAtMs.trans h.enqueuedAtMs

/-- Rows go on, and only rows in `gone` are deleted. -/
def Keeps (now : Int) (gone : String → Job → Prop) : Table String Job → Table String Job → Prop :=
  Evolves (fun _ => Job.Follows now) gone

section Keeps
variable {gone : String → Job → Prop} {t' t'' : Table String Job}

theorem Keeps.weaken (h : Keeps now noRow t t') : Keeps now gone t t' :=
  .mono h (fun _ _ _ hf => hf) fun _ _ hno => hno.elim

theorem Keeps.trans (h : Keeps now noRow t t') (h' : Keeps now noRow t' t'') :
    Keeps now noRow t t'' :=
  Evolves.trans (fun _ _ _ _ hf hf' => hf.trans hf') (fun _ _ _ _ hno => hno) h h'

end Keeps

/-! ## Section 2: The two indexes -/

theorem indexed_iff :
    indexed t = true ↔ Exclusive Job.lifecycleEntry t.get ∧ Exclusive Job.throttleEntry t.get := by
  rw [indexed, Bool.and_eq_true, Table.uniqueOn_iff, Table.uniqueOn_iff]

theorem Job.lifecycleEntry_eq_some :
    j.lifecycleEntry = some k ↔
      j.uniqueExpiresAtMs = none ∧ j.state.isUnfinished = true ∧ j.uniqueKey = some k := by
  unfold Job.lifecycleEntry
  split
  · rename_i hlive
    simp [hlive]
  · rename_i hnot
    simp only [reduceCtorEq, false_iff]
    exact fun h => hnot ⟨h.1, h.2.1⟩

theorem Job.throttleEntry_eq_some :
    j.throttleEntry = some k ↔ (∃ u, j.uniqueExpiresAtMs = some u) ∧ j.uniqueKey = some k := by
  unfold Job.throttleEntry
  split
  · rename_i hsome
    simp [Option.isSome_iff_exists.mp hsome]
  · rename_i hnone
    simp only [reduceCtorEq, false_iff]
    exact fun h => hnone (Option.isSome_iff_exists.mpr h.1)

/-- A statement that changes no index entry keeps the indexes. -/
theorem indexed_update {p : String → Job → Bool} {f : String → Job → Job}
    (hidx : indexed t = true) (h : ∀ id j, t.get id = some j → p id j = true →
      (f id j).lifecycleEntry = j.lifecycleEntry ∧ (f id j).throttleEntry = j.throttleEntry) :
    indexed (t.update p f) = true := by
  have hshrinks : ∀ key : Job → Option Bytes, (∀ id j, t.get id = some j → p id j = true →
      key (f id j) = key j) → Shrinks key t.get (t.update p f).get := by
    intro key hsame x r k hr hk
    rw [Table.get_update, Option.map_eq_some_iff] at hr
    obtain ⟨j, hj, rfl⟩ := hr
    refine ⟨j, hj, ?_⟩
    split at hk
    · rename_i hp
      rw [← hsame x j hj hp]
      exact hk
    · exact hk
  obtain ⟨hl, ht⟩ := indexed_iff.mp hidx
  exact indexed_iff.mpr ⟨hl.shrinks (hshrinks _ fun id j hj hp => (h id j hj hp).1),
    ht.shrinks (hshrinks _ fun id j hj hp => (h id j hj hp).2)⟩

theorem indexed_updateAt (hidx : indexed t = true) (hj : t.get id = some j)
    (hlife : row.lifecycleEntry = j.lifecycleEntry) (hthr : row.throttleEntry = j.throttleEntry) :
    indexed (t.updateAt id (fun _ => true) fun _ => row) = true := by
  refine indexed_update hidx fun x k hk hx => ?_
  rw [Bool.and_true, decide_eq_true_eq] at hx
  rw [hx, hj] at hk
  cases hk
  exact ⟨hlife, hthr⟩

/-- A statement that goes through sets the job table. -/
theorem Db.eq_setJobs (h : db.write t = some db') :
    db' = db.setJobs t := by
  unfold Db.write at h
  split at h
  · exact (Option.some.inj h).symm
  · cases h

/-- A statement that goes through leaves the indexes intact. -/
theorem Db.write_eq_some (h : db.write t = some db') :
    db'.jobs = t ∧ indexed t = true := by
  unfold Db.write at h
  split at h
  · rename_i hidx
    cases h
    exact ⟨rfl, hidx⟩
  · cases h

/-! ## Section 3: The passes -/

/-- What the dialects do to the columns of a key. -/
structure Dialect.Regular (d : Dialect) : Prop where
  newKey : ∀ now e, (d.newJob now e).uniqueKey = e.uniqueKey
  newWindow : ∀ now e, 0 < e.uniqueWindowMs → e.uniqueKey.isSome →
    (d.newJob now e).uniqueExpiresAtMs = some (now + e.uniqueWindowMs)
  replaced : ∀ now e j row, d.replaceHolder now e j = some row → j.Follows now row ∧
    row.lifecycleEntry = j.lifecycleEntry ∧ row.throttleEntry = j.throttleEntry
  refusal : ∀ e message, d.refuses e = some message →
    .backend message ≠ transactionAborted ∧ .backend message ≠ duplicateTag

/-- The rows of a list of envelopes. -/
def newRows (d : Dialect) (now : Int) (es : List Envelope) : List (String × Job) :=
  es.map fun e => (e.id, d.newJob now e)

theorem classifyIds_ok (h : classifyIds db batch = .ok fresh) :
    fresh = unstored db batch := by
  unfold unstored
  induction batch generalizing fresh with
  | nil =>
    cases h
    rfl
  | cons e rest ih =>
    unfold classifyIds at h
    split at h
    · -- an id that is not stored is fresh; a stored one is skipped or the batch fails
      rename_i hget
      cases hcls : classifyIds db rest with
      | error =>
        rw [hcls] at h
        cases h
      | ok =>
        rw [hcls] at h
        cases h
        rw [List.filter_cons_of_pos (by simp [hget]), ih hcls]
    · rename_i j hget
      split at h
      · rw [List.filter_cons_of_neg (by simp [hget])]
        exact ih h
      · cases h

section Insert
variable {es : List Envelope}

/-- The insert ends with all rows in the table and both indexes intact. -/
theorem insertLoop_ok {t' : Table String Job} (h : insertLoop d now es t = .ok t') :
    t' = t.insertRows (newRows d now es) ∧ (es = [] ∨ indexed t' = true) := by
  induction es generalizing t with
  | nil =>
    cases h
    exact ⟨rfl, .inl rfl⟩
  | cons e rest ih =>
    unfold insertLoop at h
    split at h
    · cases h
    · dsimp only at h
      split at h
      · rename_i hidx
        obtain ⟨heq, hlast⟩ := ih h
        refine ⟨heq, .inr (hlast.elim (fun hnil => ?_) id)⟩
        -- no row after this one: the table is the one just checked
        subst hnil
        rw [heq]
        exact hidx
      · cases h

/-- The insert collides at the end of some first part of its list. -/
theorem insertLoop_taken (h : insertLoop d now es t = .error .taken) :
    ∃ es', es'.Sublist es ∧ indexed (t.insertRows (newRows d now es')) = false := by
  -- the statement fails at one row, and the rows before it are already in the table
  induction es generalizing t with
  | nil => cases h
  | cons e rest ih =>
    unfold insertLoop at h
    split at h
    · cases h
    · dsimp only at h
      split at h
      · obtain ⟨es', hsub, hnot⟩ := ih h
        exact ⟨e :: es', hsub.cons_cons e, hnot⟩
      · rename_i hidx
        exact ⟨[e], (List.nil_sublist rest).cons_cons e, Bool.eq_false_iff.mpr hidx⟩

theorem get_newRows (hids : (es.map Envelope.id).Nodup) (habsent : ∀ e ∈ es, t.get e.id = none) :
    (t.insertRows (newRows d now es)).get id = some j ↔
      (∃ e ∈ es, e.id = id ∧ d.newJob now e = j) ∨ t.get id = some j := by
  have hkeys : ((newRows d now es).map Prod.fst).Nodup := by
    rw [newRows, List.map_map]
    exact hids
  have hnew : ∀ row ∈ newRows d now es, t.get row.1 = none := by
    intro row hrow
    obtain ⟨e, he, rfl⟩ := List.mem_map.mp hrow
    exact habsent e he
  rw [Table.get_insertRows hkeys hnew, newRows, List.mem_map]
  simp only [Prod.mk.injEq]

end Insert

theorem releaseKeys_keeps (now : Int) (keys : List Bytes) (t : Table String Job) :
    Keeps now noRow t (releaseKeys now keys t) := by
  refine .update fun id j _ hj => ⟨rfl, .inr ⟨rfl, ?_⟩, rfl, rfl, rfl, rfl⟩
  simp only [Job.releasable, Bool.and_eq_true] at hj
  cases hu : j.uniqueExpiresAtMs with
  | none => simp [hu] at hj
  | some u => exact ⟨u, rfl, by simpa [hu] using hj.2⟩

theorem onTaken_keeps (hd : d.Regular) (now : Int) (order : SetOrder String) (fresh : List Envelope)
    (db : Db) :
    Keeps now noRow db.jobs (onTaken d now order fresh db).1.jobs ∧
      (indexed db.jobs = true → indexed (onTaken d now order fresh db).1.jobs = true) := by
  unfold onTaken
  split
  · rename_i id hid
    split
    · rename_i row hrow
      -- the one write of the fallback is the replacement of a holder
      obtain ⟨e, -, hrow⟩ := Option.bind_eq_some_iff.mp hrow
      obtain ⟨j, hj, hrow⟩ := Option.bind_eq_some_iff.mp hrow
      obtain ⟨hf, hlife, hthr⟩ := hd.replaced now e j row hrow
      simp only [Db.setJobs]
      refine ⟨.updateAt fun j' hj' _ => ?_, fun hidx => indexed_updateAt hidx hj hlife hthr⟩
      rw [hj] at hj'
      cases hj'
      exact hf
    · exact ⟨.refl db.jobs, fun hidx => hidx⟩
  · exact ⟨.refl db.jobs, fun hidx => hidx⟩

/-! ## Section 4: Keys that nothing holds -/

/-- Every key of the list is throttled and distinct, its windows have ended, and at most one
unfinished job carries it. -/
structure KeysFree (now : Int) (t : Table String Job) (es : List Envelope) : Prop where
  distinct : (candidates es).Nodup
  windowed : ∀ e ∈ es, e.uniqueKey.isSome → 0 < e.uniqueWindowMs
  ended : ∀ id j k u, t.get id = some j → k ∈ candidates es → j.uniqueKey = some k →
    j.uniqueExpiresAtMs = some u → u ≤ now
  sole : ∀ id id' j j' k, t.get id = some j → t.get id' = some j' → k ∈ candidates es →
    j.uniqueKey = some k → j'.uniqueKey = some k → j.state.isUnfinished = true →
    j'.state.isUnfinished = true → id = id'

theorem mem_candidates {es : List Envelope} :
    k ∈ candidates es ↔ ∃ e ∈ es, e.uniqueKey = some k :=
  List.mem_filterMap

theorem Job.releasable_iff {keys : List Bytes} :
    j.releasable now keys = true ↔ ∃ k u, j.uniqueKey = some k ∧ k ∈ keys ∧
      j.uniqueExpiresAtMs = some u ∧ u ≤ now := by
  unfold Job.releasable
  cases j.uniqueKey <;> cases j.uniqueExpiresAtMs <;> simp

section Free
variable {es : List Envelope}

/-- Throttled rows fit in where no row holds their keys. -/
theorem indexed_insertRows (hd : d.Regular) (hids : (es.map Envelope.id).Nodup)
    (habsent : ∀ e ∈ es, t.get e.id = none) (hidx : indexed t = true)
    (hdistinct : (candidates es).Nodup)
    (hwindowed : ∀ e ∈ es, e.uniqueKey.isSome → 0 < e.uniqueWindowMs)
    (hfree : ∀ id j k, t.get id = some j → k ∈ candidates es → j.throttleEntry ≠ some k) :
    indexed (t.insertRows (newRows d now es)) = true := by
  obtain ⟨hlife, hthr⟩ := indexed_iff.mp hidx
  refine indexed_iff.mpr ⟨hlife.shrinks ?_, ?_⟩
  · -- the new rows are not in the index of lifecycle keys
    intro id j k hj hk
    rcases (get_newRows hids habsent).mp hj with ⟨e, he, -, rfl⟩ | hold
    · obtain ⟨hnone, -, hkey⟩ := Job.lifecycleEntry_eq_some.mp hk
      rw [hd.newKey] at hkey
      have hsome : e.uniqueKey.isSome := by simp [hkey]
      rw [hd.newWindow now e (hwindowed e he hsome) hsome] at hnone
      cases hnone
    · exact ⟨j, hold, hk⟩
  · intro id id' j j' k hj hj' hk hk'
    -- two entries of one key: both new, new and old, or both old
    rcases (get_newRows hids habsent).mp hj with ⟨e, he, rfl, rfl⟩ | hold <;>
      rcases (get_newRows hids habsent).mp hj' with ⟨e', he', rfl, rfl⟩ | hold'
    · have hkey := (Job.throttleEntry_eq_some.mp hk).2
      have hkey' := (Job.throttleEntry_eq_some.mp hk').2
      rw [hd.newKey] at hkey hkey'
      rw [eq_of_nodup_filterMap hdistinct he he' hkey hkey']
    · have hkey := (Job.throttleEntry_eq_some.mp hk).2
      rw [hd.newKey] at hkey
      exact absurd hk' (hfree id' j' k hold' (mem_candidates.mpr ⟨e, he, hkey⟩))
    · have hkey := (Job.throttleEntry_eq_some.mp hk').2
      rw [hd.newKey] at hkey
      exact absurd hk (hfree id j k hold (mem_candidates.mpr ⟨e', he', hkey⟩))
    · exact hthr id id' j j' k hold hold' hk hk'

/-- Releasing a key that at most one unfinished job carries breaks no index, and afterwards no
row holds the key. -/
theorem releaseKeys_free (hidx : indexed t = true) (hfree : KeysFree now t es) :
    indexed (releaseKeys now (candidates es) t) = true ∧
      ∀ id j k, (releaseKeys now (candidates es) t).get id = some j → k ∈ candidates es →
        j.throttleEntry ≠ some k := by
  -- a row afterwards is a row before, released or not
  have hrows : ∀ id r, (releaseKeys now (candidates es) t).get id = some r → ∃ j,
      t.get id = some j ∧ (r = j ∧ ¬ j.releasable now (candidates es) = true ∨
        r = { j with uniqueExpiresAtMs := none } ∧ j.releasable now (candidates es) = true) := by
    intro id r hr
    rw [releaseKeys, Table.get_update, Option.map_eq_some_iff] at hr
    obtain ⟨j, hj, rfl⟩ := hr
    refine ⟨j, hj, ?_⟩
    split
    · rename_i hrel
      exact .inr ⟨rfl, hrel⟩
    · rename_i hrel
      exact .inl ⟨rfl, hrel⟩
  obtain ⟨hlife, hthr⟩ := indexed_iff.mp hidx
  have hthrottle : Shrinks Job.throttleEntry t.get (releaseKeys now (candidates es) t).get := by
    intro id r k hr hk
    obtain ⟨j, hj, ⟨rfl, -⟩ | ⟨rfl, -⟩⟩ := hrows id r hr
    · exact ⟨r, hj, hk⟩
    · obtain ⟨⟨u, hu⟩, -⟩ := Job.throttleEntry_eq_some.mp hk
      cases hu
  refine ⟨indexed_iff.mpr ⟨?_, hthr.shrinks hthrottle⟩, ?_⟩
  · intro id id' r r' k hr hr' hk hk'
    obtain ⟨j, hj, hcase⟩ := hrows id r hr
    obtain ⟨j', hj', hcase'⟩ := hrows id' r' hr'
    obtain ⟨-, hunf, hkey⟩ := Job.lifecycleEntry_eq_some.mp hk
    obtain ⟨-, hunf', hkey'⟩ := Job.lifecycleEntry_eq_some.mp hk'
    by_cases hmem : k ∈ candidates es
    · -- both rows were unfinished under the key
      refine hfree.sole id id' j j' k hj hj' hmem ?_ ?_ ?_ ?_
      · rcases hcase with ⟨rfl, -⟩ | ⟨rfl, -⟩ <;> exact hkey
      · rcases hcase' with ⟨rfl, -⟩ | ⟨rfl, -⟩ <;> exact hkey'
      · rcases hcase with ⟨rfl, -⟩ | ⟨rfl, -⟩ <;> exact hunf
      · rcases hcase' with ⟨rfl, -⟩ | ⟨rfl, -⟩ <;> exact hunf'
    · -- rows under other keys are not touched
      have huntouched : ∀ {j r : Job}, r.uniqueKey = some k →
          (r = j ∧ ¬ j.releasable now (candidates es) = true ∨
            r = { j with uniqueExpiresAtMs := none } ∧
              j.releasable now (candidates es) = true) → r = j := by
        rintro j r hkey (⟨rfl, -⟩ | ⟨rfl, hrel⟩)
        · rfl
        · obtain ⟨k', -, hk', hin, -⟩ := Job.releasable_iff.mp hrel
          have hkey : j.uniqueKey = some k := hkey
          rw [hkey] at hk'
          cases hk'
          exact absurd hin hmem
      obtain rfl := huntouched hkey hcase
      obtain rfl := huntouched hkey' hcase'
      exact hlife id id' r r' k hj hj' hk hk'
  · intro id r k hr hmem hk
    obtain ⟨j, hj, ⟨rfl, hnot⟩ | ⟨rfl, -⟩⟩ := hrows id r hr
    · obtain ⟨⟨u, hu⟩, hkey⟩ := Job.throttleEntry_eq_some.mp hk
      have hended := hfree.ended id r k u hj hmem hkey hu
      exact hnot (Job.releasable_iff.mpr ⟨k, u, hkey, hmem, hu, hended⟩)
    · obtain ⟨⟨u, hu⟩, -⟩ := Job.throttleEntry_eq_some.mp hk
      cases hu

theorem insertLoop_refused (h : insertLoop d now es t = .error (.refused message)) :
    ∃ e ∈ es, d.refuses e = some message := by
  -- a refusal comes from the row at hand; the table built so far plays no part
  induction es generalizing t with
  | nil => cases h
  | cons e rest ih =>
    unfold insertLoop at h
    split at h
    · rename_i hrefuses
      cases h
      exact ⟨e, List.mem_cons_self, hrefuses⟩
    · dsimp only at h
      split at h
      · obtain ⟨e', he', hrefuses⟩ := ih h
        exact ⟨e', List.mem_cons_of_mem e he', hrefuses⟩
      · cases h

/-- No column refused a row that was inserted. -/
theorem insertLoop_accepts {t' : Table String Job} (h : insertLoop d now es t = .ok t') :
    ∀ e ∈ es, d.refuses e = none := by
  induction es generalizing t with
  | nil => exact fun _ he => absurd he List.not_mem_nil
  | cons e rest ih =>
    unfold insertLoop at h
    split at h
    · cases h
    · rename_i hrefuses
      dsimp only at h
      split at h
      · exact List.forall_mem_cons.mpr ⟨hrefuses, ih h⟩
      · cases h

/-- **Free keys do not collide**: the insert goes through, unless a column refuses a row. -/
theorem insertFresh_verdict (hd : d.Regular) (order : SetOrder String)
    (hids : (es.map Envelope.id).Nodup) (habsent : ∀ e ∈ es, db.jobs.get e.id = none)
    (hidx : indexed db.jobs = true) (hfree : KeysFree now db.jobs es) :
    (insertFresh d now order es db).2 = .ok () ∨
      ∃ e ∈ es, ∃ message, d.refuses e = some message ∧
        (insertFresh d now order es db).2 = .error (.backend message) := by
  -- whatever part of the list has been inserted, it has not collided
  have hfits : ∀ t, indexed t = true → (∀ e ∈ es, t.get e.id = none) →
      (∀ id j k, t.get id = some j → k ∈ candidates es → j.throttleEntry ≠ some k) →
      insertLoop d now es t ≠ .error .taken := by
    intro t hidx habsent hnone htaken
    obtain ⟨es', hsub, hnot⟩ := insertLoop_taken htaken
    have hkeys : (candidates es').Sublist (candidates es) := hsub.filterMap _
    have hfit : indexed (t.insertRows (newRows d now es')) = true :=
      indexed_insertRows hd ((hsub.map Envelope.id).nodup hids)
        (fun e he => habsent e (hsub.subset he)) hidx (hkeys.nodup hfree.distinct)
        (fun e he => hfree.windowed e (hsub.subset he))
        fun id j k hj hk => hnone id j k hj (hkeys.subset hk)
    rw [hfit] at hnot
    cases hnot
  unfold insertFresh
  split
  · exact .inl rfl
  · rename_i message hins
    obtain ⟨e, he, hrefuses⟩ := insertLoop_refused hins
    exact .inr ⟨e, he, message, hrefuses, rfl⟩
  · rename_i htaken
    split
    · -- nothing to release: no row holds a key of the list
      rename_i hcount
      refine absurd htaken (hfits db.jobs hidx habsent fun id j k hj hmem hk => ?_)
      obtain ⟨⟨u, hu⟩, hkey⟩ := Job.throttleEntry_eq_some.mp hk
      have hrel := Job.releasable_iff.mpr ⟨k, u, hkey, hmem, hu, hfree.ended id j k u hj hmem hkey hu⟩
      exact Table.count_ne_zero.mpr ⟨id, j, hj, hrel⟩ hcount
    · obtain ⟨hidx', hnone⟩ := releaseKeys_free hidx hfree
      have hwrite : db.write (releaseKeys now (candidates es) db.jobs) =
          some (db.setJobs (releaseKeys now (candidates es) db.jobs)) := by
        rw [Db.write, if_pos hidx']
      rw [hwrite]
      have habsent' : ∀ e ∈ es, (releaseKeys now (candidates es) db.jobs).get e.id = none := by
        intro e he
        rw [releaseKeys, Table.get_update, habsent e he]
        rfl
      dsimp only
      split
      · exact .inl rfl
      · rename_i message hins
        obtain ⟨e, he, hrefuses⟩ := insertLoop_refused hins
        exact .inr ⟨e, he, message, hrefuses, rfl⟩
      · rename_i htaken'
        exact absurd htaken' (hfits _ hidx' habsent' hnone)

end Free

/-! ## Section 5: The whole enqueue -/

/-- What a transaction may leave: rows inserted beside kept ones, or kept rows only. -/
def Outcome (d : Dialect) (now : Int) (fresh : List Envelope) (t t' : Table String Job) : Prop :=
  (∃ t₀, Keeps now noRow t t₀ ∧ t' = t₀.insertRows (newRows d now fresh) ∧ indexed t' = true) ∨
    (Keeps now noRow t t' ∧ (indexed t = true → indexed t' = true))

theorem Outcome.same (d : Dialect) (now : Int) (fresh : List Envelope) (t : Table String Job) :
    Outcome d now fresh t t :=
  .inr ⟨.refl t, id⟩

theorem insertFresh_outcome (hd : d.Regular) (now : Int) (order : SetOrder String)
    (hfresh : fresh ≠ []) (db : Db) :
    Outcome d now fresh db.jobs (insertFresh d now order fresh db).1.jobs := by
  unfold insertFresh
  split
  · rename_i t hins
    obtain ⟨heq, hidx⟩ := insertLoop_ok hins
    exact .inl ⟨db.jobs, .refl _, heq, hidx.resolve_left hfresh⟩
  · exact Outcome.same d now fresh _
  · split
    · exact .inr (onTaken_keeps hd now order fresh db)
    · split
      · split
        · exact Outcome.same d now fresh _
        · exact .inr (onTaken_keeps hd now order fresh db)
      · rename_i db' hwrite
        -- the release went through
        obtain ⟨hjobs, hidx'⟩ := Db.write_eq_some hwrite
        have hkeeps := releaseKeys_keeps now (candidates fresh) db.jobs
        rw [← hjobs] at hkeeps hidx'
        split
        · rename_i t hins
          obtain ⟨heq, hidx⟩ := insertLoop_ok hins
          exact .inl ⟨db'.jobs, hkeeps, heq, hidx.resolve_left hfresh⟩
        · exact .inr ⟨hkeeps, fun _ => hidx'⟩
        · obtain ⟨hmore, hidx⟩ := onTaken_keeps hd now order fresh db'
          exact .inr ⟨hkeeps.trans hmore, fun _ => hidx hidx'⟩

section Checked
variable {order : SetOrder String}

theorem enqueueScoped_checked (h : Checked d order batch db fresh) :
    enqueueScoped d now order batch db = insertFresh d now order fresh db := by
  have hempty : fresh.isEmpty = false := by simpa using h.nonempty
  simp only [enqueueScoped, h.ids, hempty, h.quarantine, h.depth]
  rfl

/-- Unless the checks pass, an enqueue leaves the database alone and succeeds only on replays. -/
theorem enqueueScoped_cases (d : Dialect) (now : Int) (order : SetOrder String)
    (batch : List Envelope) (db : Db) :
    (∃ fresh, Checked d order batch db fresh ∧
      enqueueScoped d now order batch db = insertFresh d now order fresh db) ∨
    (∀ fresh, ¬ Checked d order batch db fresh) ∧ (enqueueScoped d now order batch db).1 = db ∧
      ((enqueueScoped d now order batch db).2 = .ok () → classifyIds db batch = .ok []) := by
  by_cases h : ∃ fresh, Checked d order batch db fresh
  · obtain ⟨fresh, hchecked⟩ := h
    exact .inl ⟨fresh, hchecked, enqueueScoped_checked hchecked⟩
  · refine .inr ⟨not_exists.mp h, ?_⟩
    -- each early return leaves the database alone, and only an empty rest reports success
    unfold enqueueScoped
    split
    · exact ⟨rfl, nofun⟩
    · rename_i fresh hids
      split
      · rename_i hempty
        exact ⟨rfl, fun _ => List.isEmpty_iff.mp hempty ▸ hids⟩
      · rename_i hne
        split
        · exact ⟨rfl, nofun⟩
        · split
          · exact ⟨rfl, nofun⟩
          · rename_i hquar _ hdepth
            exact absurd ⟨fresh, hids, by simpa using hne, hquar, hdepth⟩ h

end Checked

theorem enqueueScoped_outcome (hd : d.Regular) (now : Int) (order : SetOrder String)
    (batch : List Envelope) (db : Db) :
    Outcome d now (unstored db batch) db.jobs (enqueueScoped d now order batch db).1.jobs := by
  rcases enqueueScoped_cases d now order batch db with ⟨fresh, hchecked, heq⟩ | ⟨-, hkept, -⟩
  · obtain rfl : fresh = unstored db batch := classifyIds_ok hchecked.ids
    rw [heq]
    exact insertFresh_outcome hd now order hchecked.nonempty db
  · rw [hkept]
    exact Outcome.same d now _ _

theorem unstored_scopeKey (db : Db) (batch : List Envelope) :
    unstored db (batch.map scopeKey) = (unstored db batch).map scopeKey := by
  rw [unstored, unstored, List.filter_map]
  rfl

theorem enqueueOn_valid {a : Adapter} {order : SetOrder String}
    (hvalid : validateEnqueue batch = .ok ()) :
    enqueueOn a now order batch db =
      withTags a.dialect (unstored db (if a.scopesInside then batch.map scopeKey else batch))
        (enqueueScoped a.dialect now order
          (if a.scopesInside then batch.map scopeKey else batch) db) := by
  unfold enqueueOn
  split
  · rename_i hempty
    rw [List.isEmpty_iff.mp hempty]
    unfold withTags
    cases a.dialect.tagKey <;> simp [enqueueScoped, classifyIds, unstored, insertTags]
  · rw [hvalid]

/-- What a call's own transaction leaves: nothing after an error without a replacement. -/
def rolledBack (db : Db) (r : Db × Except StoreError Unit) : Db × Except StoreError Unit :=
  (if commits r.2 then r.1 else db, r.2)

theorem enqueue_valid {a : Adapter} {order : SetOrder String}
    (hvalid : validateEnqueue batch = .ok ()) :
    enqueue a now order batch db = rolledBack db
      (enqueueOn a now order (if a.scopesInside then batch else batch.map scopeKey) db) := by
  unfold enqueue
  split
  · rename_i hempty
    rw [List.isEmpty_iff.mp hempty]
    simp [enqueueOn, rolledBack]
  · rw [hvalid]
    rfl

/-- A batch that is not valid is neither read nor written. -/
theorem enqueue_invalid {a : Adapter} {order : SetOrder String} {err : StoreError}
    (hinvalid : validateEnqueue batch = .error err) :
    enqueue a now order batch db = (db, .error err) ∧
      enqueueOn a now order batch db = (db, .error err) := by
  cases batch with
  | nil => cases hinvalid
  | cons => simp [enqueue, enqueueOn, hinvalid]

/-- The verdicts that are due to a unique key: a named holder, an aborted transaction after a
release that collided, and the nameless conflict of a key the batch repeats. -/
def keyRejection : StoreError → Bool
  | .duplicate _ _ => true
  | .idConflict id => id = ""
  | err => err = transactionAborted

/-- The checks before the insert have nothing to do with unique keys. -/
theorem enqueueScoped_keyRejection (hd : d.Regular) (order : SetOrder String)
    (hids : (batch.map Envelope.id).Nodup) (hnonempty : ∀ e ∈ batch, e.id ≠ "")
    (hidx : indexed db.jobs = true) (hfree : KeysFree now db.jobs (unstored db batch)) :
    FailsWith (fun err => keyRejection err = false) (enqueueScoped d now order batch db).2 := by
  -- an id conflict names the id, which is not empty here
  have hconflict : ∀ es : List Envelope, (∀ e ∈ es, e.id ≠ "") →
      FailsWith (fun err => keyRejection err = false) (classifyIds db es) := by
    intro es hes
    induction es with
    | nil => exact nofun
    | cons e rest ih =>
      intro err h
      have ih := ih fun e' he' => hes e' (List.mem_cons_of_mem e he')
      unfold classifyIds at h
      split at h
      · cases hcls : classifyIds db rest with
        | ok =>
          rw [hcls] at h
          cases h
        | error =>
          rw [hcls] at h
          cases h
          exact ih err hcls
      · split at h
        · exact ih err h
        · cases h
          simpa [keyRejection] using hes e List.mem_cons_self
  intro err h
  unfold enqueueScoped at h
  split at h
  · rename_i hcls
    cases h
    exact hconflict batch hnonempty err hcls
  · rename_i fresh hcls
    obtain rfl : fresh = unstored db batch := classifyIds_ok hcls
    split at h
    · cases h
    · split at h
      · cases h
        simp [keyRejection, transactionAborted]
      · split at h
        · rename_i err' herr
          cases h
          obtain ⟨queue, -, hqueue⟩ := List.exists_of_findSome?_eq_some herr
          unfold backpressure at hqueue
          dsimp only at hqueue
          split at hqueue
          · cases hqueue
          · split at hqueue
            · cases hqueue
              simp [keyRejection, transactionAborted]
            · cases hqueue
        · -- past the checks only the insertion is left, and all its keys are free
          have hsub : (unstored db batch).Sublist batch := List.filter_sublist
          have habsent : ∀ e ∈ unstored db batch, db.jobs.get e.id = none := by
            intro e he
            simpa using (List.mem_filter.mp he).2
          rcases insertFresh_verdict hd order ((hsub.map Envelope.id).nodup hids) habsent hidx hfree
            with hok | ⟨e, -, message, hrefuses, hbackend⟩
          · rw [hok] at h
            cases h
          · rw [hbackend] at h
            cases h
            simpa [keyRejection] using (hd.refusal e message hrefuses).1

/-! ## Section 6: The dialects -/

section Replace
variable (cast : Nat → Int) (now : Int) (e : Envelope) (j : Job)

theorem replaceColumns_follows : j.Follows now (replaceColumns cast now e j) :=
  ⟨rfl, .inl rfl, rfl, rfl, rfl, rfl⟩

theorem debounceColumns_follows : j.Follows now (debounceColumns cast now e j) :=
  ⟨rfl, .inl rfl, rfl, rfl, rfl, rfl⟩

theorem replaceColumns_entries :
    (replaceColumns cast now e j).lifecycleEntry = j.lifecycleEntry ∧
      (replaceColumns cast now e j).throttleEntry = j.throttleEntry :=
  ⟨rfl, rfl⟩

/-- A debounce turns one unfinished state into another. -/
theorem debounceColumns_entries (h : j.state.isUnfinished = true) :
    (debounceColumns cast now e j).lifecycleEntry = j.lifecycleEntry ∧
      (debounceColumns cast now e j).throttleEntry = j.throttleEntry := by
  have hscheduled : State.scheduled.isUnfinished = true := rfl
  refine ⟨?_, rfl⟩
  simp only [Job.lifecycleEntry, debounceColumns, h, hscheduled]

end Replace

theorem isUnfinished_of_debouncable (h : debouncable j = true) :
    j.state.isUnfinished = true := by
  unfold debouncable at h
  revert h
  cases j.state <;> simp [State.isUnfinished]

/-- Debounce and replacement as two statements touch no index entry. -/
theorem replaceHolder_entries {cast : Nat → Int} (h : replaceHolder cast now e j = some row) :
    j.Follows now row ∧
      row.lifecycleEntry = j.lifecycleEntry ∧ row.throttleEntry = j.throttleEntry := by
  -- debounce first, then replace; neither takes a row into an index or out of one
  unfold replaceHolder at h
  split at h
  · rw [Option.ite_none_right_eq_some] at h
    rw [← Option.some.inj h.2]
    exact ⟨debounceColumns_follows cast now e j,
      debounceColumns_entries cast now e j (isUnfinished_of_debouncable h.1)⟩
  · split at h
    · rw [Option.ite_none_right_eq_some] at h
      rw [← Option.some.inj h.2]
      exact ⟨replaceColumns_follows cast now e j, replaceColumns_entries cast now e j⟩
    · cases h

theorem postgresRefuses_message (h : postgresRefuses e = some message) :
    .backend message ≠ transactionAborted ∧ .backend message ≠ duplicateTag := by
  simp only [postgresRefuses, Option.ite_none_left_eq_some] at h
  rw [← Option.some.inj h.2]
  simp [transactionAborted, duplicateTag]

theorem postgresRust_regular : postgresRust.dialect.Regular where
  newKey := fun _ _ => rfl
  newWindow := by
    intro now e hpos _
    exact if_pos hpos
  replaced := by
    intro now e j row hrow
    have hrow : postgresReplaceHolder now e j = some row := hrow
    simp only [postgresReplaceHolder, Option.ite_none_right_eq_some] at hrow
    obtain ⟨-, hfound, hrow⟩ := hrow
    rw [Bool.and_eq_true] at hfound
    have hunf := isUnfinished_of_debouncable hfound.1
    have hfollows := replaceColumns_follows asI32 now e j
    obtain ⟨hlife, hthr⟩ := replaceColumns_entries asI32 now e j
    rw [← Option.some.inj hrow]
    -- both replacements, one after the other, if the envelope also debounces
    split
    · have hmore := debounceColumns_follows asI32 now e (replaceColumns asI32 now e j)
      obtain ⟨hlife', hthr'⟩ :=
        debounceColumns_entries asI32 now e (replaceColumns asI32 now e j) hunf
      exact ⟨hfollows.trans hmore, hlife'.trans hlife, hthr'.trans hthr⟩
    · exact ⟨hfollows, hlife, hthr⟩
  refusal := by
    intro e message hrefuses
    simp only [postgresRust, postgresDialect] at hrefuses
    exact postgresRefuses_message hrefuses

theorem postgresGo_regular : postgresGo.dialect.Regular where
  newKey := fun _ _ => rfl
  newWindow := fun _ _ hpos _ => if_pos hpos
  replaced := fun _ _ _ _ => replaceHolder_entries
  refusal := by
    intro e message hrefuses
    simp only [postgresGo, postgresDialect] at hrefuses
    exact postgresRefuses_message hrefuses

theorem mysql_regular (collation : String → String) : (mysqlDialect collation).Regular where
  newKey := fun _ _ => rfl
  newWindow := by
    intro now e hpos hsome
    simp [mysqlDialect, mysqlJob, hpos, hsome]
  replaced := fun _ _ _ _ => replaceHolder_entries
  refusal := by
    intro e message hrefuses
    simp only [mysqlDialect, mysqlRefuses] at hrefuses
    -- every text is about a column that is too narrow
    iterate 6
      split at hrefuses
      · rw [← Option.some.inj hrefuses]
        simp [transactionAborted, duplicateTag]
    cases hrefuses

end Headgate.Sql
