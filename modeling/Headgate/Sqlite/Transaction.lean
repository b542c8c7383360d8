import Headgate.Sqlite.Arrivals

/-!
# Plain and transactional enqueue on SQLite

The two share validation and key scoping.  They differ where a row is refused after others
have been inserted: the plain call rolls back, a transaction that is then
committed keeps the first rows.
-/

namespace Headgate.Sqlite

open Headgate.Core Data
open Sql (commits)

/-- The first pass and the depth check accept the batch, its first new row is inserted and a later
one has a schema version that the table refuses. -/
def StrandsInsert (now : Int) (order : SetOrder String) (batch : List Envelope) (db : Store) :
    Prop :=
  ∃ e rest, classifyAll now order db batch [] = .ok (e :: rest) ∧
    (demandQueues (e :: rest)).findSome? (backpressure db (e :: rest)) = none ∧
    schemaVersionOk (effectiveSchemaVersion e.schemaVersion) = true ∧
    ∃ e' ∈ rest, schemaVersionOk (effectiveSchemaVersion e'.schemaVersion) = false

section Rejected
variable {now : Int} {order : SetOrder String} {db db' : Store} {err : StoreError}

/-- A holder that is not replaced is not touched. -/
theorem onHolder_uncommitted {e : Envelope} {holder : String}
    (h : commits (.error (onHolder now e holder db).2) = false) :
    (onHolder now e holder db).1.jobs = db.jobs := by
  have hupdate : ∀ {p : Job → Bool} {f : Job → Job}, (db.jobs.get holder).any p = false →
      db.jobs.updateAt holder p f = db.jobs := by
    intro p f hany
    refine Table.update_eq_self fun id j hj => ?_
    by_cases hid : id = holder
    · rw [← hid, hj] at hany
      simpa [hid] using hany
    · simp [hid]
  unfold onHolder at h ⊢
  split
  · rename_i hdebounce
    rw [if_pos hdebounce] at h
    split
    · rfl
    · rename_i hrefuses
      rw [if_neg hrefuses] at h
      exact hupdate h
  · rename_i hdebounce
    rw [if_neg hdebounce] at h
    split
    · rename_i hreplace
      rw [if_pos hreplace] at h
      split
      · rfl
      · rename_i hrefuses
        rw [if_neg hrefuses] at h
        exact hupdate h
    · rfl

/-- What the first pass rejects without replacement leaves the rows alone. -/
theorem classifyAll_uncommitted {batch : List Envelope} {seen : List (Bytes × String)}
    (h : classifyAll now order db batch seen = .error (db', err))
    (hcommit : commits (.error err) = false) : db'.jobs = db.jobs := by
  obtain ⟨e, -, seen', hrejected, -⟩ := classifyAll_error h
  cases hrejected with
  | held => exact onHolder_uncommitted hcommit
  | _ => rfl

end Rejected

/-- The row inserted first is there in the end. -/
theorem insertAll_first {now : Int} {order : SetOrder String} {db : Store} {e : Envelope}
    {rest : List Envelope} (hfresh : Fresh now order db (e :: rest))
    (hok : schemaVersionOk (effectiveSchemaVersion e.schemaVersion) = true) :
    (insertAll now (e :: rest) db).1.jobs ≠ db.jobs := by
  intro heq
  rw [insertAll, if_pos hok] at heq
  obtain ⟨done, hsub, -, hdone⟩ :=
    insertAll_eq now rest { db with jobs := db.jobs.insert e.id (newJob now e) }
  rw [hdone] at heq
  have hpart := hfresh.sublist (hsub.cons_cons e)
  have hrow : (db.jobs.insertRows (newRows now (e :: done))).get e.id = some (newJob now e) :=
    hpart.get_insertRows.mpr (.inl ⟨e, List.mem_cons_self, rfl, rfl⟩)
  have hrow : db.jobs.get e.id = some (newJob now e) := by
    rw [← heq]
    exact hrow
  rw [hfresh.absent e List.mem_cons_self] at hrow
  cases hrow

/-- Rolling back an error makes a difference exactly if inserted rows are stranded. -/
theorem enqueueOn_rollback (now : Int) (order : SetOrder String) {batch : List Envelope}
    (hids : (batch.map Envelope.id).Nodup) (db : Store) :
    (if commits (enqueueOn now order batch db).2 then (enqueueOn now order batch db).1
        else db).jobs = (enqueueOn now order batch db).1.jobs ↔
      ¬ StrandsInsert now order batch db := by
  unfold enqueueOn
  cases hcls : classifyAll now order db batch [] with
  | error p =>
    obtain ⟨db', err⟩ := p
    refine ⟨fun _ ⟨e, rest, hok, _⟩ => (nomatch hcls.symm.trans hok), fun _ => ?_⟩
    dsimp only
    split
    · rfl
    · rename_i hcommit
      exact (classifyAll_uncommitted hcls (Bool.eq_false_iff.mpr hcommit)).symm
  | ok fresh =>
    have hsame : ∀ {fresh'}, classifyAll now order db batch [] = .ok fresh' → fresh' = fresh :=
      fun hok => Except.ok.inj (hok.symm.trans hcls)
    obtain ⟨-, hfresh, -⟩ := classifyAll_fresh hids hcls
    cases hdepth : (demandQueues fresh).findSome? (backpressure db fresh) with
    | some =>
      refine ⟨fun _ ⟨e, rest, hok, hnone, _⟩ => ?_, fun _ => by simp [hdepth]⟩
      obtain rfl := hsame hok
      exact nomatch hdepth.symm.trans hnone
    | none =>
      simp only [hdepth]
      obtain ⟨hiff, hor⟩ := insertAll_verdict now fresh db
      rcases hor with hok | hfailed
      · -- everything was inserted
        rw [hok]
        refine ⟨fun _ ⟨e, rest, hcls', _, _, e', he', hbad⟩ => ?_, fun _ => rfl⟩
        obtain rfl := hsame hcls'
        rw [hiff.mp hok e' (List.mem_cons_of_mem e he')] at hbad
        cases hbad
      · rw [hfailed]
        have hrefused : ∃ e ∈ fresh,
            schemaVersionOk (effectiveSchemaVersion e.schemaVersion) = false := by
          by_contra hnone
          refine absurd (hiff.mpr fun e he => ?_) (by rw [hfailed]; exact nofun)
          exact Bool.eq_true_of_not_eq_false fun hbad => hnone ⟨e, he, hbad⟩
        have hcommit : commits (.error checkFailed) = false := rfl
        rw [hcommit]
        cases fresh with
        | nil =>
          obtain ⟨e, he, -⟩ := hrefused
          cases he
        | cons e rest =>
          cases hhead : schemaVersionOk (effectiveSchemaVersion e.schemaVersion) with
          | true =>
            have hstrands : StrandsInsert now order batch db := by
              obtain ⟨e', he', hbad⟩ := hrefused
              refine ⟨e, rest, hcls, hdepth, hhead, e', ?_, hbad⟩
              refine (List.mem_cons.mp he').resolve_left fun heq => ?_
              rw [heq, hhead] at hbad
              cases hbad
            have hdiffer := insertAll_first hfresh hhead
            exact ⟨fun heq => absurd heq.symm hdiffer, fun hnot => absurd hstrands hnot⟩
          | false =>
            -- the first row was refused
            refine ⟨fun _ ⟨e', rest', hcls', _, hok, _⟩ => ?_, fun _ => ?_⟩
            · cases hsame hcls'
              rw [hhead] at hok
              cases hok
            · rw [insertAll, hhead]
              rfl

/-- Both ways of enqueueing give the same verdict and leave the same rows. -/
def SamePaths (now : Int) (order : SetOrder String) (batch : List Envelope) (db : Store) : Prop :=
  (enqueue now order batch db).2 = (enqueueTx now order batch db).2 ∧
    (enqueue now order batch db).1.jobs = (enqueueTx now order batch db).1.jobs

/-- The two calls differ only by what a failed transaction leaves. -/
theorem samePaths_iff (now : Int) (order : SetOrder String) (batch : List Envelope) (db : Store) :
    (enqueue now order batch db).2 = (enqueueTx now order batch db).2 ∧
      (SamePaths now order batch db ↔
        ¬ (validateEnqueue batch = .ok () ∧ StrandsInsert now order batch db)) := by
  cases hvalid : validateEnqueue batch with
  | error =>
    have hnonempty : batch.isEmpty = false := by
      cases batch with
      | nil => cases hvalid
      | cons => rfl
    have hsame : enqueue now order batch db = enqueueTx now order batch db := by
      simp only [enqueue, enqueueTx, hvalid, hnonempty]
      rfl
    simp [SamePaths, hsame]
  | ok =>
    have htx : enqueueTx now order batch db = enqueueOn now order batch db := by
      simp only [enqueueTx, hvalid]
    have hplain : enqueue now order batch db =
        (if commits (enqueueOn now order batch db).2 then (enqueueOn now order batch db).1 else db,
          (enqueueOn now order batch db).2) := by
      unfold enqueue
      split
      · rename_i hempty
        rw [List.isEmpty_iff.mp hempty]
        rfl
      · simp only [hvalid]
    rw [SamePaths, hplain, htx]
    refine ⟨rfl, ?_⟩
    simp only [true_and]
    exact enqueueOn_rollback now order (validateEnqueue_ok hvalid).1 db

end Headgate.Sqlite
