import Headgate.Sqlite.Rows

/-!
# What an enqueue does to rows

The first pass of an enqueue lets an envelope through if its id is free and its
checked key is neither held nor seen in the batch; `Fresh` collects this.  An
enqueue then either inserts such envelopes, or keeps the rows it finds
(`enqueue_cases`).  Nothing else about `enqueue_on` is used by the results about
unique keys.
-/

namespace Headgate.Sqlite

open Headgate.Core Data

variable {id : String} {seen : List (Bytes × String)} {e : Envelope} {batch : List Envelope}

/-! ## Section 1: The holder query -/

section Holder
variable {order : SetOrder String} {now : Int} {key : Bytes} {db : Store}

/-- The query misses no holder. -/
theorem holdsKey_of_lookupHolder_none (h : lookupHolder order now key db = none) {j : Job}
    (hj : db.jobs.get id = some j) : j.holdsKey now key = false := by
  by_contra hne
  have hholds : j.holdsKey now key = true := by simpa using hne
  have hmem : id ∈ ((db.jobs.select fun _ j => j.holdsKey now key).map Prod.fst).toFinset := by
    rw [List.mem_toFinset]
    exact List.mem_map.mpr ⟨(id, j), Table.mem_select.mpr ⟨hj, hholds⟩, rfl⟩
  have hlist := (order.mem_list _ id).mpr hmem
  rw [List.head?_eq_none_iff.mp h] at hlist
  cases hlist

/-- What the query returns holds the key. -/
theorem holdsKey_of_lookupHolder_some (h : lookupHolder order now key db = some id) :
    ∃ j, db.jobs.get id = some j ∧ j.holdsKey now key = true := by
  have hlist := (order.mem_list _ id).mp (List.mem_of_head? h)
  rw [List.mem_toFinset] at hlist
  obtain ⟨⟨x, j⟩, hmem, rfl⟩ := List.mem_map.mp hlist
  exact ⟨j, Table.mem_select.mp hmem⟩

end Holder

/-! ## Section 2: The first pass -/

/-- Envelopes of a batch that the first pass lets through. -/
structure Fresh (now : Int) (order : SetOrder String) (db : Store) (es : List Envelope) : Prop where
  nodup : (es.map Envelope.id).Nodup
  absent : ∀ e ∈ es, db.jobs.get e.id = none
  unheld : ∀ e ∈ es, ∀ k, checkedKey e = some k → lookupHolder order now k db = none
  distinct : ∀ e ∈ es, ∀ e' ∈ es, e ≠ e' → ∀ k, checkedKey e = some k → checkedKey e' ≠ some k

section FirstPass
variable {now : Int} {order : SetOrder String} {db : Store}

theorem Fresh.sublist {es es' : List Envelope} (h : Fresh now order db es) (hs : es'.Sublist es) :
    Fresh now order db es' where
  nodup := (hs.map Envelope.id).nodup h.nodup
  absent := fun e he => h.absent e (hs.subset he)
  unheld := fun e he => h.unheld e (hs.subset he)
  distinct := fun e he e' he' => h.distinct e (hs.subset he) e' (hs.subset he')

theorem classify_keep (h : classify now order db seen e = .keep) :
    db.jobs.get e.id = none ∧
      ∀ k, checkedKey e = some k → seen.lookup k = none ∧ lookupHolder order now k db = none := by
  unfold classify at h
  -- a stored id, a quarantined fingerprint and a taken key are all turned away before
  split at h
  · split at h <;> cases h
  · rename_i habsent
    refine ⟨habsent, fun k hk => ?_⟩
    split at h
    · cases h
    · rw [hk] at h
      dsimp only at h
      split at h
      · cases h
      · rename_i hseen
        split at h
        · cases h
        · rename_i hholder
          exact ⟨hseen, hholder⟩

theorem lookup_noteKey {k : Bytes} (h : (noteKey e seen).lookup k = none) :
    seen.lookup k = none ∧ checkedKey e ≠ some k := by
  unfold noteKey at h
  -- an envelope without a key notes nothing
  split at h
  · rename_i hnone
    rw [hnone]
    exact ⟨h, by simp⟩
  · rename_i key hkey
    rw [List.lookup_cons] at h
    split at h
    · cases h
    · rename_i hne
      refine ⟨h, fun hk => ?_⟩
      rw [hkey, Option.some.injEq] at hk
      simp [hk] at hne

/-- Everything the first pass establishes, with the keys seen before as an invariant. -/
theorem classifyAll_fresh {fresh : List Envelope} (hids : (batch.map Envelope.id).Nodup)
    (h : classifyAll now order db batch seen = .ok fresh) :
    fresh.Sublist batch ∧ Fresh now order db fresh ∧
      ∀ e ∈ fresh, ∀ k, checkedKey e = some k → seen.lookup k = none := by
  induction batch generalizing seen fresh with
  | nil =>
    cases h
    exact ⟨List.Sublist.slnil, ⟨by simp, by simp, by simp, by simp⟩, by simp⟩
  | cons e rest ih =>
    have hrest : (rest.map Envelope.id).Nodup := (List.nodup_cons.mp hids).2
    unfold classifyAll at h
    split at h
    · cases h
    · obtain ⟨hsub, hfresh, hseen⟩ := ih hrest h
      exact ⟨hsub.cons e, hfresh, hseen⟩
    · rename_i hkeep
      obtain ⟨habsent, hkey⟩ := classify_keep hkeep
      cases hcls : classifyAll now order db rest (noteKey e seen) with
      | error =>
        rw [hcls] at h
        cases h
      | ok =>
        rw [hcls] at h
        cases h
        obtain ⟨hsub, hfresh, hseen⟩ := ih hrest hcls
        refine ⟨hsub.cons_cons e, ⟨?_, ?_, ?_, ?_⟩, ?_⟩
        · exact ((hsub.cons_cons e).map Envelope.id).nodup hids
        · exact List.forall_mem_cons.mpr ⟨habsent, hfresh.absent⟩
        · exact List.forall_mem_cons.mpr ⟨fun k hk => (hkey k hk).2, hfresh.unheld⟩
        · -- a later envelope with this key would have met it among the seen ones
          intro x hx y hy hne k hkx hky
          rcases List.mem_cons.mp hx with rfl | hx'
          · rcases List.mem_cons.mp hy with rfl | hy'
            · exact hne rfl
            · exact (lookup_noteKey (hseen y hy' k hky)).2 hkx
          · rcases List.mem_cons.mp hy with rfl | hy'
            · exact (lookup_noteKey (hseen x hx' k hkx)).2 hky
            · exact hfresh.distinct x hx' y hy' hne k hkx hky
        · refine List.forall_mem_cons.mpr ⟨fun k hk => (hkey k hk).1, fun e' he' k hk => ?_⟩
          exact (lookup_noteKey (hseen e' he' k hk)).1

/-- A rejected envelope only updates the holder of its key. -/
theorem onHolder_keeps (now : Int) (e : Envelope) (holder : String) (db : Store) :
    Keeps noRow noRow db.jobs (onHolder now e holder db).1.jobs := by
  unfold onHolder
  split
  · split
    · exact .refl db.jobs
    · refine .updateJob fun j hj => .unfinishedBefore ⟨rfl, rfl, rfl⟩ ?_
      revert hj
      cases hst : j.state <;> simp [debouncable, hst, State.isUnfinished]
  · split
    · split
      · exact .refl db.jobs
      · exact .updateJob fun j _ => ⟨⟨rfl, rfl, rfl⟩, .inl⟩
    · exact .refl db.jobs

/-- Why an envelope is rejected, and what the rejection leaves. -/
inductive Rejected (now : Int) (order : SetOrder String) (db : Store)
    (seen : List (Bytes × String)) (e : Envelope) : Store → StoreError → Prop
  | conflict : Rejected now order db seen e db (.idConflict e.id)
  | quarantine : Rejected now order db seen e db (.quarantined e.fingerprint)
  | repeated {key : Bytes} {existing : String} (checked : checkedKey e = some key)
      (noted : seen.lookup key = some existing) :
      Rejected now order db seen e db (.duplicate existing false)
  | held {key : Bytes} {holder : String} (checked : checkedKey e = some key)
      (found : lookupHolder order now key db = some holder) :
      Rejected now order db seen e (onHolder now e holder db).1 (onHolder now e holder db).2

section Reject
variable {db' : Store} {err : StoreError}

theorem classify_reject (h : classify now order db seen e = .reject db' err) :
    Rejected now order db seen e db' err := by
  unfold classify at h
  split at h
  · split at h <;> cases h
    exact .conflict
  · split at h
    · cases h
      exact .quarantine
    · split at h
      · cases h
      · rename_i key hkey
        split at h
        · rename_i existing hseen
          cases h
          exact .repeated hkey hseen
        · split at h <;> cases h
          exact .held hkey ‹_›

/-- The first pass stops at a rejected envelope.  Unless the batch repeats keys, it has not noted
the key of that envelope on the way. -/
theorem classifyAll_error (h : classifyAll now order db batch seen = .error (db', err)) :
    ∃ e ∈ batch, ∃ seen', Rejected now order db seen' e db' err ∧
      ((batch.filterMap checkedKey).Nodup →
        ∀ k, checkedKey e = some k → seen.lookup k = none → seen'.lookup k = none) := by
  induction batch generalizing seen with
  | nil => cases h
  | cons e rest ih =>
    have hrest : ((e :: rest).filterMap checkedKey).Nodup → (rest.filterMap checkedKey).Nodup :=
      ((List.sublist_cons_self e rest).filterMap checkedKey).nodup
    unfold classifyAll at h
    split at h
    · rename_i hreject
      cases h
      exact ⟨e, List.mem_cons_self, seen, classify_reject hreject, fun _ _ _ hseen => hseen⟩
    · obtain ⟨e', he', seen', hrejected, hnoted⟩ := ih h
      exact ⟨e', List.mem_cons_of_mem e he', seen', hrejected, fun hkeys => hnoted (hrest hkeys)⟩
    · cases hcls : classifyAll now order db rest (noteKey e seen) with
      | ok =>
        rw [hcls] at h
        cases h
      | error =>
        rw [hcls] at h
        cases h
        obtain ⟨e', he', seen', hrejected, hnoted⟩ := ih hcls
        refine ⟨e', List.mem_cons_of_mem e he', seen', hrejected, fun hkeys k hk hseen => ?_⟩
        refine hnoted (hrest hkeys) k hk ?_
        unfold noteKey
        split
        · exact hseen
        · rename_i key hkey
          -- the keys of the batch are distinct
          have hne : key ≠ k := by
            rintro rfl
            rw [List.filterMap_cons_some hkey, List.nodup_cons] at hkeys
            exact hkeys.1 (List.mem_filterMap.mpr ⟨e', he', hk⟩)
          rw [List.lookup_cons, beq_false_of_ne hne.symm]
          exact hseen

theorem classifyAll_error_keeps (h : classifyAll now order db batch seen = .error (db', err)) :
    Keeps noRow noRow db.jobs db'.jobs := by
  obtain ⟨e, -, seen', hrejected, -⟩ := classifyAll_error h
  cases hrejected with
  | held => exact onHolder_keeps now e _ db
  | _ => exact .refl db.jobs

end Reject

end FirstPass

/-! ## Section 3: The inserted rows -/

/-- The rows of a list of envelopes. -/
def newRows (now : Int) (es : List Envelope) : List (String × Job) :=
  es.map fun e => (e.id, newJob now e)

/-- The insert loop inserts a first part of its list; without an error, all of it. -/
theorem insertAll_eq (now : Int) (es : List Envelope) (db : Store) :
    ∃ done, done.Sublist es ∧ ((insertAll now es db).2 = .ok () → done = es) ∧
      (insertAll now es db).1 = { db with jobs := db.jobs.insertRows (newRows now done) } := by
  induction es generalizing db with
  | nil => exact ⟨[], List.Sublist.slnil, fun _ => rfl, rfl⟩
  | cons e rest ih =>
    unfold insertAll
    split
    · obtain ⟨done, hsub, hall, heq⟩ := ih { db with jobs := db.jobs.insert e.id (newJob now e) }
      refine ⟨e :: done, hsub.cons_cons e, fun hok => ?_, heq⟩
      rw [hall hok]
    · exact ⟨[], List.nil_sublist _, nofun, rfl⟩

/-- The insert loop succeeds iff the table takes every row. -/
theorem insertAll_verdict (now : Int) (es : List Envelope) (db : Store) :
    ((insertAll now es db).2 = .ok () ↔
      ∀ e ∈ es, schemaVersionOk (effectiveSchemaVersion e.schemaVersion) = true) ∧
    ((insertAll now es db).2 = .ok () ∨ (insertAll now es db).2 = .error checkFailed) := by
  -- the table plays no part in the verdict, so it is left general
  induction es generalizing db with
  | nil => simp [insertAll]
  | cons e rest ih =>
    unfold insertAll
    split
    · rename_i hok
      obtain ⟨hiff, hor⟩ := ih { db with jobs := db.jobs.insert e.id (newJob now e) }
      refine ⟨hiff.trans ?_, hor⟩
      simp [hok]
    · rename_i hbad
      simp [hbad]

theorem Fresh.get_insertRows {now : Int} {order : SetOrder String} {db : Store} {es : List Envelope}
    (h : Fresh now order db es) {j : Job} :
    (db.jobs.insertRows (newRows now es)).get id = some j ↔
      (∃ e ∈ es, e.id = id ∧ newJob now e = j) ∨ db.jobs.get id = some j := by
  have hkeys : ((newRows now es).map Prod.fst).Nodup := by
    rw [newRows, List.map_map]
    exact h.nodup
  have hnew : ∀ e ∈ newRows now es, db.jobs.get e.1 = none := by
    intro row hrow
    obtain ⟨e, he, rfl⟩ := List.mem_map.mp hrow
    exact h.absent e he
  rw [Table.get_insertRows hkeys hnew, newRows, List.mem_map]
  simp only [Prod.mk.injEq]

/-! ## Section 4: The calls -/

/-- The envelopes an operation brings. -/
def Op.arriving : Op → List Envelope
  | .enqueue batch _ | .enqueueTx batch _ => batch
  | _ => []

/-- **An enqueue inserts fresh envelopes or keeps the rows.** -/
theorem enqueueOn_cases {now : Int} (order : SetOrder String) (db : Store)
    (hids : (batch.map Envelope.id).Nodup) :
    (∃ order' es, es.Sublist batch ∧ (batch.map Envelope.id).Nodup ∧ Fresh now order' db es ∧
      (enqueueOn now order batch db).1.jobs = db.jobs.insertRows (newRows now es)) ∨
    Keeps noRow noRow db.jobs (enqueueOn now order batch db).1.jobs := by
  unfold enqueueOn
  split
  · rename_i hcls
    exact .inr (classifyAll_error_keeps hcls)
  · rename_i fresh hcls
    obtain ⟨hsub, hfresh, -⟩ := classifyAll_fresh hids hcls
    split
    · exact .inr (.refl db.jobs)
    · -- a row that fails the check leaves those before it inserted
      obtain ⟨done, hdone, -, heq⟩ := insertAll_eq now fresh db
      refine .inl ⟨order, done, hdone.trans hsub, hids, hfresh.sublist hdone, ?_⟩
      rw [heq]

/-- The same for either way of calling it. -/
theorem enqueue_cases (db : Store) (c : Call) (h : c.op.isEnqueue) :
    (∃ order es, es.Sublist c.op.arriving ∧ (c.op.arriving.map Envelope.id).Nodup ∧
      Fresh c.now order db es ∧ (step db c).jobs = db.jobs.insertRows (newRows c.now es)) ∨
    Keeps noRow noRow db.jobs (step db c).jobs := by
  obtain ⟨now, op⟩ := c
  cases op with
  | enqueue batch order =>
    simp only [step, enqueue]
    split
    · exact .inr (.refl db.jobs)
    · split
      · exact .inr (.refl db.jobs)
      · rename_i hvalid
        split
        · exact enqueueOn_cases order db (validateEnqueue_ok hvalid).1
        · exact .inr (.refl db.jobs)
  | enqueueTx batch order =>
    simp only [step, enqueueTx]
    split
    · exact .inr (.refl db.jobs)
    · rename_i hvalid
      exact enqueueOn_cases order db (validateEnqueue_ok hvalid).1
  | _ => exact h.elim

end Headgate.Sqlite
