import Headgate.Sql.Gate

/-!
# What the gate draws

Every drawn row is a row of the job table under its own serial id, and the draw
of a partition is the front of one fixed list: its rows in order, numbered.  So
windows of different size differ only behind the end of the shorter one.
-/

namespace Headgate.Sql

open Headgate.Core Data

variable {p : Part} {c c' : Candidate} {j : Job}

variable {d : GateDialect} {now : Int} {req : AdmitRequest} {db : GateDb}

/-! ## Section 1: Drawn rows are rows of the table -/

/-- The row of the job table that a candidate was read from. -/
structure Candidate.Reads (db : GateDb) (c : Candidate) (j : Job) : Prop where
  row : db.jobs.entries[c.id]? = some (c.ulid, j)
  available : j.state = .available
  queue : j.queue = c.queue
  partitionKey : j.partitionKey = c.partitionKey
  rateClass : j.rateClass = c.rateClass
  weight : j.weight = c.weight
  fingerprint : j.fingerprint = c.fingerprint
  priority : j.priority = c.priority
  scheduledAtMs : j.scheduledAtMs = c.scheduledAtMs

theorem mem_routeRows {stream : Nat} {sticky : String} (h : c ∈ routeRows now db p stream sticky) :
    (∃ j, c.Reads db j) ∧ c.part = p ∧ c.stream = stream := by
  obtain ⟨⟨⟨ulid, j⟩, id⟩, hrow, hc⟩ := List.mem_filterMap.mp h
  dsimp only at hc
  split at hc
  case isTrue hcond =>
    obtain ⟨hstate, hqueue, hpart, -, -⟩ := hcond
    cases hc
    refine ⟨⟨j, ?_, hstate, rfl, rfl, rfl, rfl, rfl, rfl, rfl⟩, Prod.ext hqueue hpart, rfl⟩
    exact List.mem_zipIdx_iff_getElem?.mp hrow
  case isFalse => cases hc

/-- A route draws every row that is its own. -/
theorem exists_routeRows (stream : Nat) {u : String} (hget : db.jobs.get u = some j)
    (havail : j.state = .available) (hpart : inPart p j = true)
    (htime : j.scheduledAtMs ≤ now ∨ j.priority > 0) :
    ∃ c ∈ routeRows now db p stream j.stickyWorker, c.ulid = u := by
  obtain ⟨id, hid⟩ := List.getElem?_of_mem (Table.mem_entries.mpr hget)
  have hrow : ((u, j), id) ∈ db.jobs.entries.zipIdx := List.mem_zipIdx_iff_getElem?.mpr hid
  simp only [inPart, Bool.and_eq_true, decide_eq_true_eq] at hpart
  have hcond : j.state = .available ∧ j.queue = p.1 ∧ j.partitionKey = p.2
      ∧ j.stickyWorker = j.stickyWorker ∧ (j.scheduledAtMs ≤ now ∨ j.priority > 0) :=
    ⟨havail, hpart.1, hpart.2, rfl, htime⟩
  refine ⟨_, List.mem_filterMap.mpr ⟨((u, j), id), hrow, if_pos hcond⟩, rfl⟩

/-- The worker that a route's rows are pinned to. -/
theorem routeRows_sticky {stream : Nat} {sticky : String} (h : c ∈ routeRows now db p stream sticky)
    (hread : c.Reads db j) :
    j.stickyWorker = sticky := by
  obtain ⟨⟨⟨u, j'⟩, id⟩, hrow, hc⟩ := List.mem_filterMap.mp h
  dsimp only at hc
  split at hc
  case isTrue hcond =>
    cases hc
    have hsame := hread.row
    rw [List.mem_zipIdx_iff_getElem?.mp hrow, Option.some_inj, Prod.mk.injEq] at hsame
    rw [← hsame.2]
    exact hcond.2.2.2.1
  case isFalse => cases hc

theorem mem_pinnedRows (h : c ∈ pinnedRows d now req db p) :
    (∃ j, c.Reads db j) ∧ c.part = p ∧ c.stream = 1 := by
  unfold pinnedRows at h
  split at h
  · cases h
  · exact mem_routeRows h

/-- The serial ids of a route are distinct. -/
theorem routeRows_nodup (p : Part) (stream : Nat) (sticky : String) :
    ((routeRows now db p stream sticky).map Candidate.key).Nodup := by
  have hids : ((routeRows now db p stream sticky).map Candidate.id).Nodup := by
    have hindices : (db.jobs.entries.zipIdx.map Prod.snd).Nodup := by
      rw [List.zipIdx_map_snd]
      exact List.nodup_range'
    apply List.Nodup.sublist _ hindices
    unfold routeRows
    rw [List.map_filterMap]
    -- a kept row keeps its place
    have hsome : db.jobs.entries.zipIdx.map Prod.snd
        = db.jobs.entries.zipIdx.filterMap fun row => some row.2 := by
      rw [List.filterMap_eq_map']
    rw [hsome]
    induction db.jobs.entries.zipIdx with
    | nil => exact List.Sublist.refl _
    | cons row rows ih =>
      rw [List.filterMap_cons, List.filterMap_cons]
      dsimp only
      split
      · simpa using List.Sublist.cons _ ih
      next b hb =>
        split at hb
        · cases hb
          exact ih.cons_cons _
        · cases hb
  rw [List.Nodup, List.pairwise_map] at hids ⊢
  exact hids.imp fun hne heq => hne (by
    simp only [Candidate.key, EmbeddingLike.apply_eq_iff_eq, Prod.mk.injEq] at heq
    exact heq.2.2.1)

/-- All rows of a partition that the worker may draw. -/
def partRows (d : GateDialect) (now : Int) (req : AdmitRequest) (db : GateDb) (p : Part) :
    List Candidate :=
  routeRows now db p 0 "" ++ pinnedRows d now req db p

theorem mem_partRows (h : c ∈ partRows d now req db p) :
    (∃ j, c.Reads db j) ∧ c.part = p := by
  rcases List.mem_append.mp h with h | h
  · exact ⟨(mem_routeRows h).1, (mem_routeRows h).2.1⟩
  · exact ⟨(mem_pinnedRows h).1, (mem_pinnedRows h).2.1⟩

theorem partRows_nodup (d : GateDialect) (now : Int) (req : AdmitRequest) (db : GateDb) (p : Part) :
    ((partRows d now req db p).map Candidate.key).Nodup := by
  have hpinned : ((pinnedRows d now req db p).map Candidate.key).Nodup := by
    unfold pinnedRows
    split
    · exact List.nodup_nil
    · exact routeRows_nodup p 1 req.worker
  unfold partRows
  rw [List.map_append, List.nodup_append]
  refine ⟨routeRows_nodup p 0 "", hpinned, ?_⟩
  intro a ha b hb hab
  obtain ⟨x, hx, rfl⟩ := List.mem_map.mp ha
  obtain ⟨y, hy, rfl⟩ := List.mem_map.mp hb
  -- the stream is part of the key
  have hx := (mem_routeRows hx).2.2
  have hy := (mem_pinnedRows hy).2.2
  simp only [Candidate.key, EmbeddingLike.apply_eq_iff_eq, Prod.mk.injEq] at hab
  omega

/-- One row of the table under two serial ids is impossible. -/
theorem id_eq_of_ulid {j' : Job} (h : c.Reads db j) (h' : c'.Reads db j') (hulid : c.ulid = c'.ulid) :
    c.id = c'.id := by
  have hkeys := db.jobs.nodup
  have hc : (db.jobs.entries.map Prod.fst)[c.id]? = some c.ulid := by
    rw [List.getElem?_map, h.row]
    rfl
  have hc' : (db.jobs.entries.map Prod.fst)[c'.id]? = some c.ulid := by
    rw [List.getElem?_map, h'.row, hulid]
    rfl
  obtain ⟨hlt, -⟩ := List.getElem?_eq_some_iff.mp hc
  exact (List.getElem?_inj hlt hkeys).mp (hc.trans hc'.symm)

/-- A row is drawn once, unless an unnamed worker reads the unpinned rows on both routes. -/
theorem key_eq_of_ulid (hguard : d.guardsWorker = true ∨ req.worker ≠ "") {p' : Part}
    (hc : c ∈ partRows d now req db p) (hc' : c' ∈ partRows d now req db p')
    (hulid : c.ulid = c'.ulid) : c.key = c'.key := by
  obtain ⟨⟨j, hj⟩, -⟩ := mem_partRows hc
  obtain ⟨⟨j', hj'⟩, -⟩ := mem_partRows hc'
  have hid := id_eq_of_ulid hj hj' hulid
  have hrow := hj.row
  rw [hid, hj'.row, Option.some_inj, Prod.mk.injEq] at hrow
  obtain rfl := hrow.2
  -- the two routes differ in the worker that a row is pinned to
  have hworker : ∀ {q : Part} {x : Candidate}, x ∈ pinnedRows d now req db q → x.Reads db j' →
      j'.stickyWorker ≠ "" := by
    intro q x hx hxj
    unfold pinnedRows at hx
    split at hx
    · cases hx
    next hnamed =>
      rw [routeRows_sticky hx hxj]
      rcases hguard with hguard | hguard
      · intro hempty
        exact hnamed ⟨hguard, hempty⟩
      · exact hguard
  have hstream : c.stream = c'.stream := by
    rcases List.mem_append.mp hc with hc | hc <;> rcases List.mem_append.mp hc' with hc' | hc'
    · rw [(mem_routeRows hc).2.2, (mem_routeRows hc').2.2]
    · exact absurd (routeRows_sticky hc hj) (hworker hc' hj')
    · exact absurd (routeRows_sticky hc' hj') (hworker hc hj)
    · rw [(mem_pinnedRows hc).2.2, (mem_pinnedRows hc').2.2]
  unfold Candidate.key
  rw [← hj.priority, ← hj'.priority, ← hj.scheduledAtMs, ← hj'.scheduledAtMs, hid, hstream]

/-! ## Section 2: One list for each partition -/

/-- What does not read the rank is as before. -/
theorem numbered_map {β : Type*} {f : Candidate → β}
    (hf : ∀ c rank, f { c with rankPart := rank } = f c) (l : List Candidate) :
    (numbered l).map f = l.map f := by
  unfold numbered
  rw [List.map_map]
  conv_rhs => rw [← List.zipIdx_map_fst 0 l, List.map_map]
  apply List.map_congr_left
  intro e _
  exact hf e.1 (e.2 + 1)

theorem numbered_key (l : List Candidate) : (numbered l).map Candidate.key = l.map Candidate.key :=
  numbered_map (fun _ _ => rfl) l

theorem numbered_take (l : List Candidate) (n : Nat) :
    numbered (l.take n) = (numbered l).take n := by
  have htake : ∀ (l : List Candidate) (n k : Nat), (l.take n).zipIdx k = (l.zipIdx k).take n := by
    intro l
    induction l with
    | nil => intro n k; simp
    | cons c l ih =>
      intro n k
      cases n with
      | zero => rfl
      | succ => simp only [List.take_succ_cons, List.zipIdx_cons, ih]
  unfold numbered
  rw [htake, List.map_take]

theorem mem_numbered {l : List Candidate} (h : c ∈ numbered l) :
    ∃ x ∈ l, ∃ i < l.length, c = { x with rankPart := i + 1 } := by
  obtain ⟨⟨x, i⟩, hmem, rfl⟩ := List.mem_map.mp h
  have hget := List.mem_zipIdx_iff_getElem?.mp hmem
  exact ⟨x, List.mem_of_getElem? hget, i, (List.getElem?_eq_some_iff.mp hget).1, rfl⟩

/-- The rows of a partition in order, numbered. -/
def rankedRows (d : GateDialect) (now : Int) (req : AdmitRequest) (db : GateDb) (p : Part) :
    List Candidate :=
  numbered (orderBy Candidate.key (partRows d now req db p))

/-- A draw is the front of the partition's list. -/
theorem drawPart_eq (lim : Int) (p : Part) :
    drawPart d now req db lim p = (rankedRows d now req db p).take lim.toNat := by
  unfold drawPart rankedRows
  rw [first_append_first (partRows_nodup d now req db p), ← numbered_take]
  rfl

theorem rankedRows_strict (p : Part) :
    (rankedRows d now req db p).Pairwise fun a b => a.key < b.key := by
  have hstrict := orderBy_strict (partRows_nodup d now req db p)
  rw [← List.pairwise_map (f := Candidate.key) (R := (· < ·))] at hstrict ⊢
  rwa [rankedRows, numbered_key]

theorem mem_rankedRows (h : c ∈ rankedRows d now req db p) :
    (∃ j, c.Reads db j) ∧ c.part = p := by
  obtain ⟨x, hx, i, -, rfl⟩ := mem_numbered h
  obtain ⟨⟨j, hj⟩, hpart⟩ := mem_partRows (mem_orderBy.mp hx)
  exact ⟨⟨j, hj.row, hj.available, hj.queue, hj.partitionKey, hj.rateClass, hj.weight,
    hj.fingerprint, hj.priority, hj.scheduledAtMs⟩, hpart⟩

/-- A ranked row is a row of the partition with its rank. -/
theorem mem_rankedRows_partRows (h : c ∈ rankedRows d now req db p) :
    ∃ x ∈ partRows d now req db p, x.ulid = c.ulid ∧ x.key = c.key := by
  obtain ⟨x, hx, i, -, rfl⟩ := mem_numbered h
  exact ⟨x, mem_orderBy.mp hx, rfl, rfl⟩

theorem rankedRows_length (p : Part) :
    (rankedRows d now req db p).length = (partRows d now req db p).length := by
  unfold rankedRows numbered
  rw [List.length_map, List.length_zipIdx, (orderBy_perm _ _).length_eq]

theorem mem_drawPart {lim : Int} (h : c ∈ drawPart d now req db lim p) :
    (∃ j, c.Reads db j) ∧ c.part = p := by
  rw [drawPart_eq] at h
  exact mem_rankedRows (List.mem_of_mem_take h)

/-- Rows with one key are one row of the table. -/
theorem part_eq_of_key {j' : Job} (h : c.Reads db j) (h' : c'.Reads db j') (hkey : c.key = c'.key) :
    c.part = c'.part := by
  simp only [Candidate.key, EmbeddingLike.apply_eq_iff_eq, Prod.mk.injEq] at hkey
  have hrow := h.row
  rw [hkey.2.2.1, h'.row, Option.some_inj, Prod.mk.injEq] at hrow
  obtain rfl := hrow.2
  exact Prod.ext (h.queue.symm.trans h'.queue) (h.partitionKey.symm.trans h'.partitionKey)

/-- The candidates of several partitions have distinct keys. -/
theorem drawParts_nodup {parts : List Part} (hparts : parts.Nodup) (lim : Part → Int) :
    ((parts.flatMap fun p => drawPart d now req db (lim p) p).map Candidate.key).Nodup := by
  rw [List.map_flatMap, List.nodup_flatMap]
  constructor
  · intro p _
    rw [drawPart_eq, List.Nodup, List.pairwise_map]
    exact ((rankedRows_strict p).sublist (List.take_sublist _ _)).imp fun hlt => ne_of_lt hlt
  · refine hparts.imp fun {p q} hne => ?_
    intro k hk hk'
    obtain ⟨c, hc, rfl⟩ := List.mem_map.mp hk
    obtain ⟨c', hc', hkey⟩ := List.mem_map.mp hk'
    obtain ⟨⟨j, hj⟩, hp⟩ := mem_drawPart hc
    obtain ⟨⟨j', hj'⟩, hq⟩ := mem_drawPart hc'
    exact hne (hp.symm.trans ((part_eq_of_key hj hj' hkey.symm).trans hq))

/-- The candidates of several partitions are distinct rows. -/
theorem drawParts_ulids_nodup (hguard : d.guardsWorker = true ∨ req.worker ≠ "")
    {parts : List Part} (hparts : parts.Nodup) (lim : Part → Int) :
    ((parts.flatMap fun p => drawPart d now req db (lim p) p).map Candidate.ulid).Nodup := by
  -- one row in two streams would need a worker without a name
  have hkeys : ((parts.flatMap fun p => drawPart d now req db (lim p) p).map
      Candidate.key).Nodup := drawParts_nodup hparts lim
  rw [List.Nodup, List.pairwise_map] at hkeys ⊢
  apply hkeys.imp_of_mem
  intro c c' hc hc' hne hulid
  obtain ⟨p, -, hp⟩ := List.mem_flatMap.mp hc
  obtain ⟨p', -, hp'⟩ := List.mem_flatMap.mp hc'
  rw [drawPart_eq] at hp hp'
  obtain ⟨x, hx, hxu, hxk⟩ := mem_rankedRows_partRows (List.mem_of_mem_take hp)
  obtain ⟨x', hx', hxu', hxk'⟩ := mem_rankedRows_partRows (List.mem_of_mem_take hp')
  have hkey := key_eq_of_ulid hguard hx hx' (by rw [hxu, hxu', hulid])
  exact hne (by rw [← hxk, ← hxk', hkey])

/-! ## Section 3: What the policies keep -/

theorem eligFree_cands (cands : List Candidate) :
    (eligFree cands).map Decision.cand = cands := by
  unfold eligFree
  rw [List.map_map]
  exact List.map_id cands

/-- A decision keeps its row. -/
theorem eligPolicy_cands (now : Int) (req : AdmitRequest) (db : GateDb) (cands : List Candidate) :
    ((eligPolicy now req db cands).map Decision.cand).Sublist cands := by
  have hsub : ∀ ready rows : List Candidate,
      ((rows.filterMap (ceilingDecision db ready)).map Decision.cand).Sublist rows := by
    intro ready rows
    -- the ceiling drops candidates and reorders none
    induction rows with
    | nil => exact List.Sublist.refl _
    | cons c rows ih =>
      rw [List.filterMap_cons]
      cases hc : ceilingDecision db ready c with
      | none => exact ih.cons _
      | some =>
        obtain ⟨action, -, rfl⟩ := Option.map_eq_some_iff.mp hc
        exact ih.cons_cons _
  exact (hsub _ _).trans List.filter_sublist

/-- A row that reaches the ceiling has passed the clauses before it. -/
theorem policyReady_of_mem_eligPolicy {cands : List Candidate} {e : Decision}
    (h : e ∈ eligPolicy now req db cands) : policyReady now req db cands e.cand = true := by
  obtain ⟨c, hc, he⟩ := List.mem_filterMap.mp h
  obtain ⟨action, -, rfl⟩ := Option.map_eq_some_iff.mp he
  exact (List.mem_filter.mp hc).2

theorem eligible_subperm (pool : List Decision) : (eligible req db pool).Subperm pool :=
  (first_sublist _ _ _).subperm.trans (orderBy_perm _ _).subperm

/-! ## Section 4: The partitions that are drawn from -/

/-- The listed partitions of one queue have distinct sort keys. -/
theorem listedParts_nodup (queue : String) :
    ((db.activePartitions.select fun p _ => decide (p.1 = queue)).map
      fun e : Part × Unit => db.texts.sortKey e.1.2).Nodup := by
  have hkeys := db.activePartitions.select_nodup fun p _ => decide (p.1 = queue)
  rw [List.Nodup, List.pairwise_map] at hkeys ⊢
  apply hkeys.imp_of_mem
  rintro ⟨p, u⟩ ⟨q, v⟩ hp hq hne heq
  have hp := (Table.mem_select.mp hp).2
  have hq := (Table.mem_select.mp hq).2
  simp only [decide_eq_true_eq] at hp hq
  exact hne (Prod.ext (hp.trans hq.symm) (db.texts.injective heq))

/-- A partition is drawn from if its queue is asked for and runs, and if few enough listed
partitions of the queue have a smaller key. -/
theorem mem_activeParts {overfetch : Int} :
    p ∈ activeParts req db overfetch ↔
      p.1 ∈ normalizeQueues req.queues ∧ paused db p.1 = false ∧
      (db.activePartitions.get p).isSome ∧
      db.activePartitions.count (fun q _ => decide (q.1 = p.1) &&
        decide (db.texts.sortKey q.2 < db.texts.sortKey p.2))
        < (req.capacity * overfetch).toNat := by
  -- being among the first is having few before it
  have hcount : ∀ queue, ((db.activePartitions.select fun q _ => decide (q.1 = queue)).filter
      fun e => decide (db.texts.sortKey e.1.2 < db.texts.sortKey p.2)).length
      = db.activePartitions.count fun q _ =>
          decide (q.1 = queue) && decide (db.texts.sortKey q.2 < db.texts.sortKey p.2) := by
    intro queue
    unfold Table.count Table.select
    rw [List.filter_filter]
    simp only [Bool.and_comm]
  unfold activeParts
  rw [List.mem_flatMap]
  constructor
  · rintro ⟨queue, hqueue, hmem⟩
    split at hmem
    case isTrue => cases hmem
    case isFalse hpaused =>
      obtain ⟨⟨q, u⟩, hfirst, rfl⟩ := List.mem_map.mp hmem
      rw [mem_first (listedParts_nodup queue)] at hfirst
      obtain ⟨hget, hown⟩ := Table.mem_select.mp hfirst.1
      have hown : q.1 = queue := by simpa using hown
      subst hown
      refine ⟨hqueue, by simpa using hpaused, by simp [hget], ?_⟩
      rw [← hcount]
      exact hfirst.2
  · rintro ⟨hqueue, hpaused, hlisted, hlt⟩
    refine ⟨p.1, hqueue, ?_⟩
    rw [hpaused, if_neg (by decide)]
    obtain ⟨u, hget⟩ := Option.isSome_iff_exists.mp hlisted
    refine List.mem_map.mpr ⟨(p, u), ?_, rfl⟩
    rw [mem_first (listedParts_nodup p.1)]
    refine ⟨Table.mem_select.mpr ⟨hget, by simp⟩, ?_⟩
    rw [hcount]
    exact hlt

theorem activeParts_nodup (overfetch : Int) : (activeParts req db overfetch).Nodup := by
  unfold activeParts
  rw [List.nodup_flatMap]
  constructor
  · intro queue _
    split
    · exact List.nodup_nil
    · have hselect := db.activePartitions.select_nodup fun p _ => decide (p.1 = queue)
      have hperm := (orderBy_perm (fun e : Part × Unit => db.texts.sortKey e.1.2)
        (db.activePartitions.select fun p _ => decide (p.1 = queue))).map Prod.fst
      exact ((first_sublist _ _ _).map Prod.fst).nodup (hperm.nodup_iff.mpr hselect)
  · have hqueues : (normalizeQueues req.queues).Nodup := List.nodup_dedup _
    refine hqueues.imp fun {q r} hne => ?_
    intro p hp hp'
    have hqueue : ∀ {queue : String}, p ∈ (if paused db queue then [] else
        (first (fun e : Part × Unit => db.texts.sortKey e.1.2) (req.capacity * overfetch).toNat
          (db.activePartitions.select fun p _ => p.1 = queue)).map Prod.fst) → p.1 = queue := by
      intro queue hmem
      split at hmem
      · cases hmem
      · obtain ⟨⟨p', u⟩, hfirst, rfl⟩ := List.mem_map.mp hmem
        simpa [Table.select] using (List.mem_filter.mp (mem_of_mem_first hfirst)).2
    exact hne ((hqueue hp).symm.trans (hqueue hp'))

end Headgate.Sql
