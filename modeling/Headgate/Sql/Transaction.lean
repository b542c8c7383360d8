import Headgate.Sql.Arrivals
import Headgate.Sqlite.Transaction

/-!
# Plain and transactional enqueue

`enqueue` runs `enqueue_on` in a transaction of its own; `enqueue_tx` runs it in the
caller's, here one that is committed right afterwards.  The two differ in two
places.  A plain enqueue rolls back after most errors, so what a failed attempt
wrote stays only in a transaction; on MySQL that includes the jobs themselves, when
one of their tags collides.  And three of the adapters scope unique keys in the
plain call alone.
-/

namespace Headgate.Sql

open Headgate.Core Data

variable {a : Adapter}

/-! ## Section 1: What a failed enqueue leaves -/

/-- The insert collides, ended windows of its keys are released, and the second attempt fails as
well without replacing a holder. -/
structure StrandsRelease (d : Dialect) (now : Int) (order : SetOrder String)
    (fresh : List Envelope) (db : Db) : Prop where
  collides : insertLoop d now fresh db.jobs = .error .taken
  ended : ∃ id j, db.jobs.get id = some j ∧ j.releasable now (candidates fresh) = true
  releases : indexed (releaseKeys now (candidates fresh) db.jobs) = true
  fails : ∀ t, insertLoop d now fresh (releaseKeys now (candidates fresh) db.jobs) ≠ .ok t
  keeps : insertLoop d now fresh (releaseKeys now (candidates fresh) db.jobs) = .error .taken →
    ∀ id, anyId order (holdersOf (candidates fresh) (releaseKeys now (candidates fresh) db.jobs)) =
      some id → fresh.head?.bind (fun e => ((releaseKeys now (candidates fresh) db.jobs).get id).bind
        (d.replaceHolder now e)) = none

section Leftovers
variable {d : Dialect} {now : Int} {order : SetOrder String} {fresh : List Envelope} {db : Db}

/-- A rejection is without replacement iff no holder can be replaced. -/
theorem onTaken_commits : commits (onTaken d now order fresh db).2 = false ↔
    ∀ id, anyId order (holdersOf (candidates fresh) db.jobs) = some id →
      fresh.head?.bind (fun e => (db.jobs.get id).bind (d.replaceHolder now e)) = none := by
  cases hid : anyId order (holdersOf (candidates fresh) db.jobs) with
  -- nobody holds the key any more: the error is answered and nothing is kept
  | none => simp only [onTaken, hid, commits, reduceCtorEq, false_implies, implies_true]
  | some id =>
    cases hrow : fresh.head?.bind fun e => (db.jobs.get id).bind (d.replaceHolder now e) with
    | none =>
      simp only [onTaken, hid, hrow, commits, true_iff]
      rintro id' heq
      rw [← Option.some.inj heq]
      exact hrow
    | some =>
      simp only [onTaken, hid, hrow, commits, Bool.true_eq_false, false_iff]
      intro hall
      rw [hall id rfl] at hrow
      cases hrow

/-- Such a rejection writes nothing. -/
theorem onTaken_uncommitted (h : commits (onTaken d now order fresh db).2 = false) :
    (onTaken d now order fresh db).1 = db := by
  have hkept := onTaken_commits.mp h
  cases hid : anyId order (holdersOf (candidates fresh) db.jobs) with
  | none => simp only [onTaken, hid]
  | some id => simp only [onTaken, hid, hkept id hid]

/-- Releasing a key that has ended changes the table. -/
theorem releaseKeys_ne {keys : List Bytes} {t : Table String Job} {id : String} {j : Job}
    (hj : t.get id = some j) (hrel : j.releasable now keys = true) : releaseKeys now keys t ≠ t := by
  intro heq
  have hrow : (releaseKeys now keys t).get id = some { j with uniqueExpiresAtMs := none } := by
    rw [releaseKeys, Table.get_update, hj, Option.map_some, if_pos hrel]
  rw [heq, hj, Option.some.injEq] at hrow
  obtain ⟨-, u, -, -, hu, -⟩ := Job.releasable_iff.mp hrel
  rw [hrow] at hu
  cases hu

/-- **What an uncommitted insert leaves**: nothing, unless it strands a release. -/
theorem insertFresh_uncommitted (h : commits (insertFresh d now order fresh db).2 = false) :
    (insertFresh d now order fresh db).1.jobs = db.jobs ↔
      ¬ StrandsRelease d now order fresh db := by
  unfold insertFresh at h ⊢
  cases hfirst : insertLoop d now fresh db.jobs with
  | ok => simp [hfirst, commits] at h
  | error err =>
    cases err with
    -- a refused row is no collision, so nothing was released
    | refused =>
      refine ⟨fun _ hs => ?_, fun _ => rfl⟩
      rw [hs.collides] at hfirst
      cases hfirst
    | taken =>
      simp only [hfirst] at h ⊢
      split
      · -- no window has ended: nothing to release, and the answer comes from the holder
        rename_i hcount
        rw [if_pos hcount] at h
        refine ⟨fun _ hs => ?_, fun _ => by rw [onTaken_uncommitted h]⟩
        exact Table.count_ne_zero.mpr hs.ended hcount
      · rename_i hcount
        rw [if_neg hcount] at h
        obtain ⟨id, j, hj, hrel⟩ := Table.count_ne_zero.mp hcount
        unfold Db.write at h ⊢
        by_cases hidx : indexed (releaseKeys now (candidates fresh) db.jobs) = true
        · rw [if_pos hidx] at h ⊢
          -- keys are released before the second try; if that fails too, the release is stranded
          have hne := releaseKeys_ne hj hrel
          dsimp only at h ⊢
          cases hsecond : insertLoop d now fresh
              (db.setJobs (releaseKeys now (candidates fresh) db.jobs)).jobs with
          | ok t => simp [hsecond, commits] at h
          | error err =>
            cases err with
            | refused =>
              refine ⟨fun heq => absurd heq hne, fun hs => absurd ?_ hs⟩
              refine ⟨hfirst, ⟨id, j, hj, hrel⟩, hidx, fun t ht => ?_, fun htaken => ?_⟩
              · exact nomatch hsecond.symm.trans ht
              · exact nomatch hsecond.symm.trans htaken
            | taken =>
              simp only [hsecond] at h ⊢
              rw [onTaken_uncommitted h]
              refine ⟨fun heq => absurd heq hne, fun hs => absurd ?_ hs⟩
              refine ⟨hfirst, ⟨id, j, hj, hrel⟩, hidx, fun t ht => ?_, fun _ => ?_⟩
              · exact nomatch hsecond.symm.trans ht
              · exact onTaken_commits.mp h
        · -- the release collided
          rw [if_neg hidx] at h ⊢
          dsimp only at h ⊢
          refine ⟨fun _ hs => hidx hs.releases, fun _ => ?_⟩
          split
          · rfl
          · rename_i haborts
            rw [if_neg haborts] at h
            rw [onTaken_uncommitted h]

/-- A stranded release ends in an error that a plain enqueue rolls back. -/
theorem StrandsRelease.uncommitted (h : StrandsRelease d now order fresh db) :
    commits (insertFresh d now order fresh db).2 = false := by
  have hcount := Table.count_ne_zero.mpr h.ended
  simp only [insertFresh, h.collides, if_neg hcount, Db.write, h.releases, if_true]
  cases hsecond : insertLoop d now fresh
      (db.setJobs (releaseKeys now (candidates fresh) db.jobs)).jobs with
  | ok t => exact absurd hsecond (h.fails t)
  | error err =>
    cases err with
    | refused => rfl
    | taken => exact onTaken_commits.mpr (h.keeps hsecond)

/-- The batch passes the checks and its insert strands a release. -/
def Strands (d : Dialect) (now : Int) (order : SetOrder String) (batch : List Envelope) (db : Db) :
    Prop :=
  ∃ fresh, Checked d order batch db fresh ∧ StrandsRelease d now order fresh db

/-- Rolling back an error makes a difference exactly if a release is stranded. -/
theorem enqueueScoped_rollback (d : Dialect) (now : Int) (order : SetOrder String)
    (batch : List Envelope) (db : Db) :
    (rolledBack db (enqueueScoped d now order batch db)).1.jobs =
        (enqueueScoped d now order batch db).1.jobs ↔
      ¬ Strands d now order batch db := by
  unfold rolledBack
  rcases enqueueScoped_cases d now order batch db with ⟨fresh, hchecked, heq⟩ | ⟨hnot, hkept, -⟩
  · -- the batch that comes to the insert is determined by the ids in store
    have hiff : Strands d now order batch db ↔ StrandsRelease d now order fresh db := by
      refine ⟨fun ⟨fresh', hc, hs⟩ => ?_, fun hs => ⟨fresh, hchecked, hs⟩⟩
      obtain rfl : fresh' = fresh := Except.ok.inj (hc.ids.symm.trans hchecked.ids)
      exact hs
    rw [hiff, heq]
    cases hcommit : commits (insertFresh d now order fresh db).2 with
    | true =>
      refine ⟨fun _ hs => ?_, fun _ => rfl⟩
      rw [hs.uncommitted] at hcommit
      cases hcommit
    | false => exact eq_comm.trans (insertFresh_uncommitted hcommit)
  · -- an outcome before the insert leaves the database alone
    rw [hkept, ite_self]
    exact ⟨fun _ ⟨fresh, hchecked, _⟩ => hnot fresh hchecked, fun _ => rfl⟩

end Leftovers

/-! ## Section 2: Adapters that scope keys inside -/

/-- Both ways of enqueueing give the same verdict and leave the same rows. -/
def SamePaths (a : Adapter) (now : Int) (order : SetOrder String) (batch : List Envelope)
    (db : Db) : Prop :=
  (enqueue a now order batch db).2 = (enqueueTx a now order batch db).2 ∧
    (enqueue a now order batch db).1.jobs = (enqueueTx a now order batch db).1.jobs

/-- An adapter that scopes inside differs only by what a failed transaction leaves. -/
theorem samePaths_of_scopesInside (ha : a.scopesInside = true) (htags : a.dialect.tagKey = none)
    (now : Int) (order : SetOrder String) (batch : List Envelope) (db : Db) :
    (enqueue a now order batch db).2 = (enqueueTx a now order batch db).2 ∧
      (SamePaths a now order batch db ↔ ¬ (validateEnqueue batch = .ok () ∧
        Strands a.dialect now order (batch.map scopeKey) db)) := by
  cases hvalid : validateEnqueue batch with
  | error => simp [SamePaths, enqueueTx, enqueue_invalid hvalid]
  | ok =>
    simp only [SamePaths, enqueueTx, enqueue_valid hvalid, enqueueOn_valid hvalid, ha, if_true,
      true_and, withTags, htags]
    refine ⟨rfl, and_iff_right rfl |>.trans ?_⟩
    exact enqueueScoped_rollback a.dialect now order (batch.map scopeKey) db

/-! ## Section 3: Adapters that scope keys in the plain call -/

/-- No envelope that could be stored carries a key. -/
def KeysIdle (d : Dialect) (batch : List Envelope) : Prop :=
  ∀ e ∈ batch, e.uniqueKey = none ∨
    ∃ message, d.refuses e = some message ∧ d.refuses (scopeKey e) = some message

/-- The tags of the envelope stay apart where they are inserted one by one. -/
def TagsApart (d : Dialect) (e : Envelope) : Prop :=
  ∀ key ∈ d.tagKey, ((canonicalTags e.tags).map key).Nodup

/-- No envelope that could be stored has tags that collide. -/
def TagsIdle (d : Dialect) (batch : List Envelope) : Prop :=
  ∀ e ∈ batch, d.refuses e = none → TagsApart d e

theorem scopeKey_of_unkeyed {e : Envelope} (h : e.uniqueKey = none) : scopeKey e = e := by
  have hkey : effectiveUniqueKey e = e.uniqueKey := by rw [effectiveUniqueKey, h, Option.map_none]
  rw [scopeKey, hkey]

/-- A scoped key is longer than the raw one. -/
theorem scopeKey_uniqueKey_ne {e : Envelope} (h : e.uniqueKey ≠ none) :
    (scopeKey e).uniqueKey ≠ e.uniqueKey := by
  obtain ⟨k, hk⟩ := Option.ne_none_iff_exists'.mp h
  intro heq
  have hlen := congrArg (Option.map List.length) heq
  simp only [scopeKey, effectiveUniqueKey, hk, Option.map_some, Option.some.injEq] at hlen
  split at hlen <;> simp only [List.length_cons, List.length_append] at hlen <;> omega

theorem classifyIds_scopeKey (db : Db) (batch : List Envelope) :
    classifyIds db (batch.map scopeKey) = (classifyIds db batch).map (List.map scopeKey) := by
  induction batch with
  | nil => rfl
  | cons e rest ih =>
    rw [List.map_cons, classifyIds, classifyIds, ih]
    -- neither the id nor the content of a job depends on its key
    rw [show (scopeKey e).id = e.id from rfl]
    cases db.jobs.get e.id with
    | none => cases classifyIds db rest <;> rfl
    | some j =>
      change (if sameJobContent e j.kind j.fingerprint j.queue then _ else _) = _
      dsimp only
      split <;> rfl

section Tags
variable {d : Dialect} {now : Int} {order : SetOrder String} {es batch : List Envelope} {db : Db}
  {r : Db × Except StoreError Unit} {e : Envelope}

/-- Tags that stay apart are the ones the rows were inserted with. -/
theorem withTags_apart (h : r.2 = .ok () → ∀ e ∈ es, TagsApart d e) : withTags d es r = r := by
  obtain ⟨db, verdict⟩ := r
  -- tags without a collision are all inserted
  have hloop : ∀ {key : String → String} {t : Table String Job} {es : List Envelope},
      (∀ e ∈ es, ((canonicalTags e.tags).map key).Nodup) → insertTags key es t = (t, .ok ()) := by
    intro key t es hes
    induction es with
    | nil => rfl
    | cons e rest ih =>
      obtain ⟨he, hrest⟩ := List.forall_mem_cons.mp hes
      rw [insertTags, if_pos he, ih hrest]
  cases hkey : d.tagKey with
  | none => simp only [withTags, hkey]
  | some key =>
    cases verdict with
    | error => simp only [withTags, hkey]
    | ok =>
      simp only [withTags, hkey]
      rw [hloop fun e he => h rfl e he key hkey]

theorem withTags_verdict (d : Dialect) (es : List Envelope) (r : Db × Except StoreError Unit) :
    (withTags d es r).2 = r.2 ∨ (withTags d es r).2 = .error duplicateTag := by
  have hloop : ∀ (key : String → String) (es : List Envelope) (t : Table String Job),
      (insertTags key es t).2 = .ok () ∨ (insertTags key es t).2 = .error duplicateTag := by
    intro key es t
    induction es with
    | nil => exact .inl rfl
    | cons e rest ih =>
      unfold insertTags
      split
      · exact ih
      · exact .inr rfl
  unfold withTags
  split
  · rename_i hok
    rw [hok]
    exact hloop _ _ _
  · exact .inl rfl

/-- A collision of tags leaves the row in the transaction. -/
theorem withTags_collision (h : ¬ TagsApart d e) (hok : r.2 = .ok ()) :
    (withTags d [e] r).2 = .error duplicateTag ∧
      ((withTags d [e] r).1.jobs.get e.id).isSome = (r.1.jobs.get e.id).isSome := by
  unfold TagsApart at h
  push Not at h
  obtain ⟨key, hkey, hdup⟩ := h
  have hkey : d.tagKey = some key := hkey
  simp only [withTags, hkey, hok, insertTags, if_neg hdup, Table.get_update, Option.isSome_map,
    and_self]

/-- Every row of an accepted batch could be stored. -/
theorem tagsApart_of_ok (htags : TagsIdle d batch)
    (hok : (enqueueScoped d now order batch db).2 = .ok ()) :
    ∀ e ∈ unstored db batch, TagsApart d e := by
  intro e he
  refine htags e (List.mem_of_mem_filter he) ?_
  rcases enqueueScoped_cases d now order batch db with ⟨fresh, hchecked, heq⟩ | ⟨-, -, hnone⟩
  · rw [← classifyIds_ok hchecked.ids] at he
    rw [heq] at hok
    have htaken : ∀ db : Db, (onTaken d now order fresh db).2 ≠ .ok () := by
      intro db
      unfold onTaken
      split
      · split <;> exact nofun
      · exact nofun
    -- one of the two attempts inserted the rows
    unfold insertFresh at hok
    split at hok
    · exact insertLoop_accepts ‹_› e he
    · cases hok
    · split at hok
      · exact absurd hok (htaken db)
      · split at hok
        · split at hok
          · cases hok
          · exact absurd hok (htaken db)
        · rename_i db' _
          split at hok
          · exact insertLoop_accepts ‹_› e he
          · cases hok
          · exact absurd hok (htaken db')
  · rw [← classifyIds_ok (hnone hok)] at he
    cases he

end Tags

section Idle
variable {d : Dialect} {now : Int} {order : SetOrder String} {es : List Envelope} {db : Db}
  {t : Table String Job}
variable (hd : d.Regular) (hidle : KeysIdle d es) (hids : (es.map Envelope.id).Nodup)
include hd hidle hids

/-- Idle keys change nothing about an insert, which does not collide either. -/
theorem insertLoop_idle (habsent : ∀ e ∈ es, t.get e.id = none)
    (hidx : indexed t = true) :
    insertLoop d now (es.map scopeKey) t = insertLoop d now es t ∧
      insertLoop d now es t ≠ .error .taken := by
  induction es generalizing t with
  | nil => exact ⟨rfl, nofun⟩
  | cons e rest ih =>
    obtain ⟨hnot, hrest⟩ := List.nodup_cons.mp hids
    rw [List.map_cons, insertLoop, insertLoop]
    -- an envelope is unkeyed, and scoping changes nothing, or refused with and without scope
    rcases hidle e List.mem_cons_self with hnone | ⟨message, hraw, hscoped⟩
    · rw [scopeKey_of_unkeyed hnone]
      cases hrefuses : d.refuses e with
      | some => exact ⟨rfl, nofun⟩
      | none =>
        have hcandidates : candidates [e] = [] := List.filterMap_cons_none hnone
        -- a row without key enters neither index
        have hidx' : indexed (t.insertRows (newRows d now [e])) = true := by
          refine indexed_insertRows hd (by simp) (by simpa using habsent e) hidx ?_ ?_ ?_
          · rw [hcandidates]
            exact List.nodup_nil
          · simp [hnone]
          · simp [hcandidates]
        have hidx' : indexed (t.insert e.id (d.newJob now e)) = true := hidx'
        rw [if_pos hidx', if_pos hidx']
        refine ih (fun e' he' => hidle e' (List.mem_cons_of_mem e he')) hrest (fun e' he' => ?_) hidx'
        have hne : e'.id ≠ e.id := fun heq => hnot (heq ▸ List.mem_map_of_mem he')
        rw [Table.get_insert (habsent e List.mem_cons_self), if_neg hne]
        exact habsent e' (List.mem_cons_of_mem e he')
    · rw [hraw, hscoped]
      exact ⟨rfl, nofun⟩

/-- Idle keys make no difference to an enqueue, and none of its errors leaves anything. -/
theorem enqueueScoped_idle (hidx : indexed db.jobs = true) :
    enqueueScoped d now order (es.map scopeKey) db = enqueueScoped d now order es db ∧
      (commits (enqueueScoped d now order es db).2 = false →
        (enqueueScoped d now order es db).1 = db) := by
  unfold enqueueScoped
  rw [classifyIds_scopeKey]
  cases hcls : classifyIds db es with
  | error => exact ⟨rfl, fun _ => rfl⟩
  | ok fresh =>
    obtain rfl : fresh = unstored db es := classifyIds_ok hcls
    have hsub : (unstored db es).Sublist es := List.filter_sublist
    have habsent : ∀ e ∈ unstored db es, db.jobs.get e.id = none := by
      intro e he
      simpa using (List.mem_filter.mp he).2
    obtain ⟨hsame, hfree⟩ : insertLoop d now ((unstored db es).map scopeKey) db.jobs =
        insertLoop d now (unstored db es) db.jobs ∧ _ :=
      insertLoop_idle hd (fun e he => hidle e (hsub.subset he))
        ((hsub.map Envelope.id).nodup hids) habsent hidx
    -- the checks before the insert read queues and fingerprints, which scoping leaves alone
    have hqueues : (List.map scopeKey (unstored db es)).map enqueueQueue =
        (unstored db es).map enqueueQueue := List.map_map
    have hprints : (List.map scopeKey (unstored db es)).map Envelope.fingerprint =
        (unstored db es).map Envelope.fingerprint := List.map_map
    have hdepth : backpressure db (List.map scopeKey (unstored db es)) =
        backpressure db (unstored db es) := by
      funext queue
      rw [backpressure, backpressure, hqueues]
    have hinsert : insertFresh d now order (List.map scopeKey (unstored db es)) db =
          insertFresh d now order (unstored db es) db ∧
        (commits (insertFresh d now order (unstored db es) db).2 = false →
          (insertFresh d now order (unstored db es) db).1 = db) := by
      rw [insertFresh, insertFresh, hsame]
      cases hins : insertLoop d now (unstored db es) db.jobs with
      | ok => exact ⟨rfl, by rintro ⟨⟩⟩
      | error err =>
        cases err with
        | refused => exact ⟨rfl, fun _ => rfl⟩
        | taken => exact absurd hins hfree
    simp only [Except.map, quarantinedIn, hprints, hqueues, hdepth, hinsert.1, List.isEmpty_map]
    refine ⟨trivial, ?_⟩
    split
    · exact fun _ => rfl
    · split
      · exact fun _ => rfl
      · split
        · exact fun _ => rfl
        · exact hinsert.2

end Idle

/-- A database without limits and quarantine. -/
def plainDb (jobs : Table String Job) : Db where
  jobs := jobs
  enqueuePolicy := fun _ => none
  entered := fun _ => 0
  exited := fun _ => 0
  quarantine := .empty

/-- A stored replay of an envelope, without its key. -/
def keylessRow (e : Envelope) : Job := baseJob 0 { e with uniqueKey := none }

/-- The other envelopes of a batch are stored, without keys. -/
def storedRest (batch : List Envelope) (e : Envelope) : Table String Job :=
  Table.empty.insertRows ((batch.filter fun e' => e'.id ≠ e.id).map fun e' => (e'.id, keylessRow e'))

section Distinguish
variable {d : Dialect} {now : Int} {order : SetOrder String} {batch : List Envelope} {e : Envelope}

section
variable (hids : (batch.map Envelope.id).Nodup)
include hids

theorem get_storedRest {id : String} {j : Job} :
    (storedRest batch e).get id = some j ↔
      ∃ e' ∈ batch, e'.id ≠ e.id ∧ e'.id = id ∧ keylessRow e' = j := by
  have hkeys : (((batch.filter fun e' => e'.id ≠ e.id).map fun e' =>
      (e'.id, keylessRow e')).map Prod.fst).Nodup := by
    rw [List.map_map]
    exact (List.filter_sublist.map Envelope.id).nodup hids
  rw [storedRest, Table.get_insertRows hkeys (fun _ _ => rfl)]
  simp [and_assoc]

theorem storedRest_self : (storedRest batch e).get e.id = none := by
  refine Option.eq_none_iff_forall_not_mem.mpr fun j hj => ?_
  obtain ⟨e', -, hne, heq, -⟩ := (get_storedRest hids).mp hj
  exact hne heq

theorem storedRest_keyless {id : String} {j : Job} (hj : (storedRest batch e).get id = some j) :
    j.uniqueKey = none := by
  obtain ⟨e', -, -, -, rfl⟩ := (get_storedRest hids).mp hj
  rfl

theorem filter_id_eq (he : e ∈ batch) :
    batch.filter (fun e' => e'.id = e.id) = [e] := by
  induction batch with
  | nil => cases he
  | cons x rest ih =>
    obtain ⟨hnot, hrest⟩ := List.nodup_cons.mp hids
    by_cases hid : x.id = e.id
    · -- ids are distinct, so the one found is the envelope itself
      have hx : x = e := (List.inj_on_of_nodup_map hids he List.mem_cons_self hid.symm).symm
      rw [List.filter_cons_of_pos (by simpa using hid), hx, List.filter_eq_nil_iff.mpr]
      intro y hy hyid
      refine hnot (List.mem_map.mpr ⟨y, hy, ?_⟩)
      rw [hid]
      simpa using hyid
    · rw [List.filter_cons_of_neg (by simpa using hid)]
      refine ih hrest ((List.mem_cons.mp he).resolve_left fun heq => hid ?_)
      rw [heq]

/-- Only the envelope that is left out is new. -/
theorem classifyIds_storedRest (he : e ∈ batch) :
    classifyIds (plainDb (storedRest batch e)) batch = .ok [e] := by
  -- a part of the batch is classified by what of it is left out
  have hpart : ∀ part : List Envelope, part ⊆ batch →
      classifyIds (plainDb (storedRest batch e)) part = .ok (part.filter fun e' => e'.id = e.id) := by
    intro part hpart
    induction part with
    | nil => rfl
    | cons e' rest ih =>
      obtain ⟨hmem, hrest⟩ := List.cons_subset.mp hpart
      rw [classifyIds, ih hrest]
      by_cases hid : e'.id = e.id
      · have habsent : (plainDb (storedRest batch e)).jobs.get e'.id = none :=
          hid ▸ storedRest_self hids
        rw [habsent, List.filter_cons_of_pos (by simpa using hid)]
        rfl
      · have hstored : (plainDb (storedRest batch e)).jobs.get e'.id = some (keylessRow e') :=
          (get_storedRest hids).mpr ⟨e', hmem, hid, rfl, rfl⟩
        have hcontent : sameJobContent e' (keylessRow e').kind (keylessRow e').fingerprint
            (keylessRow e').queue = true := by
          simp [sameJobContent, keylessRow, baseJob, enqueueQueue]
        rw [hstored, List.filter_cons_of_neg (by simpa using hid)]
        dsimp only
        rw [if_pos hcontent]
  rw [hpart batch (List.Subset.refl batch), filter_id_eq hids he]

end

/-- Without limits and quarantine an enqueue is its insert. -/
theorem enqueueScoped_plainDb {jobs : Table String Job} {fresh : List Envelope}
    (hcls : classifyIds (plainDb jobs) batch = .ok fresh) (hne : fresh ≠ []) :
    enqueueScoped d now order batch (plainDb jobs) =
      insertFresh d now order fresh (plainDb jobs) := by
  -- a plain database has no quarantine entry and no depth limit
  have hquar : quarantinedIn d order (plainDb jobs) fresh = none := by
    have hnone : (fresh.map Envelope.fingerprint).filter (fun f => (d.quarantinesEmpty || f ≠ "") &&
        ((plainDb jobs).quarantine.get f).isSome) = [] :=
      List.filter_eq_nil_iff.mpr fun f _ => by simp [plainDb]
    rw [quarantinedIn, hnone, List.head?_eq_none_iff]
    refine List.eq_nil_iff_forall_not_mem.mpr fun f hf => ?_
    have hf := (order.mem_list _ f).mp hf
    simp at hf
  have hdepth : (orderBy id (fresh.map enqueueQueue).dedup).findSome?
      (backpressure (plainDb jobs) fresh) = none :=
    List.findSome?_eq_none_iff.mpr fun queue _ => rfl
  exact enqueueScoped_checked ⟨hcls, hne, hquar, hdepth⟩

/-- At most one row carries a key. -/
theorem indexed_of_one {t : Table String Job} (id : String)
    (h : ∀ i j, t.get i = some j → i = id ∨ j.uniqueKey = none) : indexed t = true := by
  have hself : ∀ {entry : Job → Option Bytes}, (∀ j, j.uniqueKey = none → entry j = none) →
      Exclusive entry t.get := by
    intro entry hnone i i' r r' k hr hr' hk hk'
    have hid : ∀ {i r}, t.get i = some r → entry r = some k → i = id := by
      intro i r hr hk
      refine (h i r hr).resolve_right fun hkey => ?_
      rw [hnone r hkey] at hk
      cases hk
    rw [hid hr hk, hid hr' hk']
  refine indexed_iff.mpr ⟨hself fun j hj => ?_, hself fun j hj => ?_⟩
  · simp [Job.lifecycleEntry, hj]
  · simp [Job.throttleEntry, hj]

/-- The insert of one envelope beside rows without keys. -/
theorem insertFresh_alone (hids : (batch.map Envelope.id).Nodup) (x : Envelope) (hx : x.id = e.id) :
    insertFresh d now order [x] (plainDb (storedRest batch e)) =
      match d.refuses x with
      | some message => (plainDb (storedRest batch e), .error (.backend message))
      | none => ((plainDb (storedRest batch e)).setJobs
          ((storedRest batch e).insert e.id (d.newJob now x)), .ok ()) := by
  -- the rows already stored carry no key
  have hidx : indexed ((storedRest batch e).insert e.id (d.newJob now x)) = true := by
    refine indexed_of_one e.id fun i j hj => ?_
    rw [Table.get_insert (storedRest_self hids)] at hj
    split at hj
    · exact .inl ‹_›
    · exact .inr (storedRest_keyless hids hj)
  cases hrefuses : d.refuses x with
  | some => simp only [insertFresh, insertLoop, hrefuses]
  | none =>
    have hloop : insertLoop d now [x] (plainDb (storedRest batch e)).jobs =
        .ok ((storedRest batch e).insert e.id (d.newJob now x)) := by
      simp only [insertLoop, hrefuses, hx, plainDb, hidx, if_true]
    simp only [insertFresh, hloop]

/-- What the insert of `x` leaves beside the rest of the batch. -/
def insertedAlone (d : Dialect) (batch : List Envelope) (e x : Envelope) :
    Db × Except StoreError Unit :=
  withTags d [x] (insertFresh d 0 .increasing [x] (plainDb (storedRest batch e)))

/-- Both ways treat one envelope of the batch alike. -/
structure AloneAlike (d : Dialect) (batch : List Envelope) (e : Envelope) : Prop where
  verdict : (insertedAlone d batch e (scopeKey e)).2 = (insertedAlone d batch e e).2
  rows : (rolledBack (plainDb (storedRest batch e)) (insertedAlone d batch e (scopeKey e))).1.jobs
    = (insertedAlone d batch e e).1.jobs

section Alone
variable (h : AloneAlike d batch e) (hids : (batch.map Envelope.id).Nodup)
include h hids

theorem AloneAlike.tagsApart (hraw : d.refuses e = none) : TagsApart d e := by
  by_contra hcollide
  have hinsert : insertFresh d 0 .increasing [e] (plainDb (storedRest batch e)) = _ :=
    insertFresh_alone (e := e) hids e rfl
  rw [hraw] at hinsert
  obtain ⟨hdup, hrow⟩ := withTags_collision (e := e) hcollide (congrArg Prod.snd hinsert)
  -- the transaction keeps the row that the plain call rolls back
  have hkept : (insertedAlone d batch e e).1.jobs = storedRest batch e := by
    rw [← h.rows, rolledBack, h.verdict.trans hdup]
    rfl
  rw [show (withTags d [e] _).1.jobs = _ from hkept, storedRest_self hids, hinsert] at hrow
  simp [Db.setJobs, Table.get_insert (storedRest_self hids)] at hrow

/-- A keyed envelope would be stored under different keys. -/
theorem AloneAlike.refused (hd : d.Regular) (hkey : e.uniqueKey ≠ none) :
    ∃ message, d.refuses e = some message ∧ d.refuses (scopeKey e) = some message := by
  have hverdict := h.verdict
  have hrows := h.rows
  unfold insertedAlone at hverdict hrows
  rw [insertFresh_alone hids e rfl, insertFresh_alone (e := e) hids (scopeKey e) rfl]
    at hverdict hrows
  cases hraw : d.refuses e with
  | some message =>
    rw [hraw, withTags_apart (r := (_, .error _)) nofun] at hverdict
    cases hsc : d.refuses (scopeKey e) with
    | some =>
      rw [hsc, withTags_apart (r := (_, .error _)) nofun] at hverdict
      simp only [Except.error.injEq, StoreError.backend.injEq] at hverdict
      exact ⟨message, rfl, by rw [hverdict]⟩
    | none =>
      rw [hsc] at hverdict
      rcases withTags_verdict d [scopeKey e] (_, .ok ()) with hok | hdup
      · cases hok.symm.trans hverdict
      · exact absurd (Except.error.inj (hverdict.symm.trans hdup)) (hd.refusal e message hraw).2
  | none =>
    have hapart : TagsApart d e := h.tagsApart hids hraw
    rw [hraw, withTags_apart (r := (_, .ok ())) fun _ => List.forall_mem_singleton.mpr hapart]
      at hverdict hrows
    cases hsc : d.refuses (scopeKey e) with
    | some =>
      rw [hsc, withTags_apart (r := (_, .error _)) nofun] at hverdict
      cases hverdict
    | none =>
      -- both are stored; then the rows differ in their keys
      have hapart' : TagsApart d (scopeKey e) := hapart
      rw [hsc, withTags_apart (r := (_, .ok ())) fun _ => List.forall_mem_singleton.mpr hapart']
        at hrows
      simp only [rolledBack, commits, if_true, Db.setJobs] at hrows
      have hrow := congrArg (fun t => (t.get e.id).bind Job.uniqueKey) hrows
      simp only [Table.get_insert (storedRest_self hids), if_true, Option.bind_some, hd.newKey]
        at hrow
      exact absurd hrow (scopeKey_uniqueKey_ne hkey)

end Alone

/-- On an empty database no verdict is one of the boundary. -/
theorem enqueueScoped_empty_verdict (d : Dialect) (now : Int) (order : SetOrder String)
    (batch : List Envelope) : FailsWith (fun err => ¬ BoundaryError err)
      (enqueueScoped d now order batch (plainDb .empty)).2 := by
  have hcls : classifyIds (plainDb .empty) batch = .ok batch := by
    induction batch with
    | nil => rfl
    | cons e rest ih =>
      rw [classifyIds, ih]
      rfl
  cases batch with
  | nil => rintro err ⟨⟩
  | cons e rest =>
    rw [enqueueScoped_plainDb hcls (List.cons_ne_nil e rest)]
    intro err herr
    unfold insertFresh at herr
    split at herr
    · cases herr
    · cases herr
      simp [BoundaryError]
    · -- there is nobody to name
      have hnobody : ∀ rows : List (String × Job), rows = [] → anyId order rows = none := by
        rintro rows rfl
        rw [anyId, List.head?_eq_none_iff]
        refine List.eq_nil_iff_forall_not_mem.mpr fun id hid => ?_
        simpa using (order.mem_list _ id).mp hid
      have hcount : (plainDb .empty).jobs.count
          (fun _ j => j.releasable now (candidates (e :: rest))) = 0 := rfl
      have hholders : anyId order (holdersOf (candidates (e :: rest)) (plainDb .empty).jobs) = none :=
        hnobody _ rfl
      have hraced : anyId order ((plainDb .empty).jobs.select fun id _ =>
          ((e :: rest).map Envelope.id).contains id) = none := hnobody _ rfl
      simp only [hcount, if_true, onTaken, hholders, hraced, Except.error.injEq] at herr
      rw [← herr]
      simp [BoundaryError]

end Distinguish

/-- The plain call validates the scoped batch as well, and no row is stored under a raw key or
rolled back for its tags. -/
def PathsAgree (d : Dialect) (batch : List Envelope) : Prop :=
  validateEnqueue batch = .ok () →
    validateEnqueue (batch.map scopeKey) = .ok () ∧ KeysIdle d batch ∧ TagsIdle d batch

/-- An adapter that scopes outside treats a batch alike in all databases exactly if keys and tags
do not matter to it. -/
theorem samePaths_of_scopesOutside (hd : a.dialect.Regular) (ha : a.scopesInside = false)
    (batch : List Envelope) :
    (∀ now order db, indexed db.jobs = true → SamePaths a now order batch db) ↔
      PathsAgree a.dialect batch := by
  have htx : ∀ {now order db}, validateEnqueue batch = .ok () → enqueueTx a now order batch db =
      withTags a.dialect (unstored db batch) (enqueueScoped a.dialect now order batch db) := by
    intro now order db hvalid
    rw [enqueueTx, enqueueOn_valid hvalid, ha]
    rfl
  have hplain : ∀ {now order db}, validateEnqueue batch = .ok () →
      validateEnqueue (batch.map scopeKey) = .ok () → enqueue a now order batch db =
        rolledBack db (withTags a.dialect (unstored db (batch.map scopeKey))
          (enqueueScoped a.dialect now order (batch.map scopeKey) db)) := by
    intro now order db hvalid hscoped
    simp only [enqueue_valid hvalid, ha, Bool.false_eq_true, if_false, enqueueOn_valid hscoped]
  constructor
  · intro hall hvalid
    have hids := (validateEnqueue_ok hvalid).1
    have hscoped : validateEnqueue (batch.map scopeKey) = .ok () := by
      cases hscoped : validateEnqueue (batch.map scopeKey) with
      | ok => rfl
      | error err =>
        -- the plain call rejects what the other one hands to the database
        have hverdict := (hall 0 .increasing (plainDb .empty) rfl).1
        rw [enqueue_valid hvalid, ha, if_neg Bool.false_ne_true, (enqueue_invalid hscoped).2,
          htx hvalid] at hverdict
        have hboundary := validateEnqueue_failsWith _ err hscoped
        rcases withTags_verdict a.dialect (unstored (plainDb .empty) batch)
          (enqueueScoped a.dialect 0 .increasing batch (plainDb .empty)) with hsame | hdup
        · exact absurd hboundary
            (enqueueScoped_empty_verdict _ _ _ _ err (hsame.symm.trans hverdict.symm))
        · rw [hdup] at hverdict
          rw [Except.error.inj hverdict] at hboundary
          simp [BoundaryError, duplicateTag] at hboundary
    -- with everything else stored, only one envelope is inserted
    have halike : ∀ e ∈ batch, AloneAlike a.dialect batch e := by
      intro e he
      have hidx : indexed (plainDb (storedRest batch e)).jobs = true :=
        indexed_of_one e.id fun i j hj => .inr (storedRest_keyless hids hj)
      have hcls := classifyIds_storedRest hids he
      have hcls' : classifyIds (plainDb (storedRest batch e)) (batch.map scopeKey) =
          .ok [scopeKey e] := by
        rw [classifyIds_scopeKey, hcls]
        rfl
      have hsame := hall 0 .increasing (plainDb (storedRest batch e)) hidx
      rw [SamePaths, hplain hvalid hscoped, htx hvalid,
        enqueueScoped_plainDb hcls (List.cons_ne_nil _ _),
        enqueueScoped_plainDb hcls' (List.cons_ne_nil _ _),
        ← classifyIds_ok hcls, ← classifyIds_ok hcls'] at hsame
      exact ⟨hsame.1, hsame.2⟩
    refine ⟨hscoped, fun e he => ?_, fun e he hraw => (halike e he).tagsApart hids hraw⟩
    by_cases hkey : e.uniqueKey = none
    · exact .inl hkey
    · exact .inr ((halike e he).refused hids hd hkey)
  · intro hagree now order db hidx
    cases hvalid : validateEnqueue batch with
    | error => simp [SamePaths, enqueueTx, enqueue_invalid hvalid]
    | ok =>
      obtain ⟨hscoped, hidle, htags⟩ := hagree hvalid
      obtain ⟨hsame, hkept⟩ : enqueueScoped a.dialect now order (batch.map scopeKey) db =
          enqueueScoped a.dialect now order batch db ∧ _ :=
        enqueueScoped_idle hd hidle (validateEnqueue_ok hvalid).1 hidx
      rw [SamePaths, hplain hvalid hscoped, htx hvalid, hsame, withTags_apart (tagsApart_of_ok htags),
        unstored_scopeKey, withTags_apart, rolledBack]
      · refine ⟨rfl, ?_⟩
        split
        · rfl
        · rename_i hcommit
          rw [hkept (Bool.eq_false_iff.mpr hcommit)]
      · -- scoping leaves the tags alone
        intro hok e' he'
        obtain ⟨e, he, rfl⟩ := List.mem_map.mp he'
        exact tagsApart_of_ok htags hok e he

/-! ## Section 4: All adapters -/

/-- A job without key and with tags that stay apart. -/
def keyless : Envelope := { id := "a", kind := "k", tags := ["Foo", "bar"] }

/-- A job of the given kind under the key 7. -/
def keyed (id kind : String) : Envelope := { id := id, kind := kind, uniqueKey := some [7] }

/-- The two ways store different rows; jobs of one kind that come by different ways do not exclude
each other, and jobs of two kinds do. -/
def PathsDiffer (a : Adapter) : Prop :=
  ¬ SamePaths a 0 .increasing [keyed "a" "k"] (plainDb .empty) ∧
    (enqueueTx a 1 .increasing [keyed "b" "k"]
      (enqueue a 0 .increasing [keyed "a" "k"] (plainDb .empty)).1).2 = .ok () ∧
    (enqueueTx a 1 .increasing [keyed "b" "other"]
      (enqueueTx a 0 .increasing [keyed "a" "k"] (plainDb .empty)).1).2 =
        .error (.duplicate "a" false)

end Headgate.Sql
