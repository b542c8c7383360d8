import Headgate.Redis.Writes

/-!
# Enqueue is all or nothing

A batch is written as a whole or not at all.  The one reply that changes the store
without accepting the batch is `DUPR`, and its writes stay with the holder it names.
A batch that was accepted can be sent again: as long as its jobs keep kind,
fingerprint and queue, the id pass skips every envelope, so neither the unique keys
nor the quarantine nor the limits are asked about them.
-/

namespace Headgate.Redis

open Headgate.Core Data

variable {s : Store} {batch fresh : List Envelope} {a : String} {x : Index} {b : Bool}
  {f : Store → Store} {p : Store × Bool} {e : Envelope} {now : Int}

/-! ## Section 1: Indexes that differ in one id -/

/-- The indexes say the same of every id but one. -/
structure Index.Agrees (id : String) (x x' : Index) : Prop where
  idx : ∀ queue st y, y ≠ id → (x'.idx queue st).score y = (x.idx queue st).score y
  sched : ∀ y, y ≠ id → x'.sched.score y = x.sched.score y
  ret : ∀ y, y ≠ id → x'.ret.score y = x.ret.score y
  fpi : ∀ fp y, y ≠ id → (y ∈ x'.fpi fp ↔ y ∈ x.fpi fp)
  qjobs : ∀ fp y, y ≠ id → (y ∈ x'.qjobs fp ↔ y ∈ x.qjobs fp)
  tag : ∀ tag y, y ≠ id → (y ∈ x'.tag tag ↔ y ∈ x.tag tag)

namespace Index.Agrees

variable {id : String} {y z : Index}

theorem refl (id : String) (x : Index) : x.Agrees id x :=
  ⟨fun _ _ _ _ => rfl, fun _ _ => rfl, fun _ _ => rfl, fun _ _ _ => Iff.rfl, fun _ _ _ => Iff.rfl,
    fun _ _ _ => Iff.rfl⟩

theorem trans (h : x.Agrees id y) (h' : y.Agrees id z) : x.Agrees id z where
  idx queue st a ha := (h'.idx queue st a ha).trans (h.idx queue st a ha)
  sched a ha := (h'.sched a ha).trans (h.sched a ha)
  ret a ha := (h'.ret a ha).trans (h.ret a ha)
  fpi fp a ha := (h'.fpi fp a ha).trans (h.fpi fp a ha)
  qjobs fp a ha := (h'.qjobs fp a ha).trans (h.qjobs fp a ha)
  tag t a ha := (h'.tag t a ha).trans (h.tag t a ha)

section
variable (x : Index) (queue : String) (st : State) (score : Int) (fp : String) (tags : List String)

/-- Rewriting one zset of the state index. -/
theorem setIdx {zs : ZSet String} (hz : ∀ a, a ≠ id → zs.score a = (x.idx queue st).score a) :
    x.Agrees id { x with
      idx := Function.update x.idx queue (Function.update (x.idx queue) st zs) } := by
  refine { refl id x with idx := fun queue' st' a ha => ?_ }
  by_cases hqueue : queue' = queue
  · subst hqueue
    by_cases hst : st' = st
    · subst hst
      simpa using hz a ha
    · simp [hst]
  · simp [hqueue]

theorem addIdx :
    x.Agrees id (x.addIdx queue st score id) :=
  setIdx x queue st fun a ha => by simp [ha]

theorem remIdx : x.Agrees id (x.remIdx queue st id) :=
  setIdx x queue st fun a ha => by simp [ha]

theorem addSched : x.Agrees id (x.addSched score id) :=
  { refl id x with sched := fun a ha => by simp [Index.addSched, ha] }

/-- Rewriting one set of a family of sets of ids. -/
theorem mem_update {t : String → Finset String} {key : String} {S : Finset String}
    (hS : a ∈ S ↔ a ∈ t key) (k : String) : a ∈ Function.update t key S k ↔ a ∈ t k := by
  by_cases hk : k = key
  · subst hk
    simpa using hS
  · simp [hk]

theorem addFpi : x.Agrees id (x.addFpi fp id) := by
  unfold Index.addFpi
  split
  · exact { refl id x with fpi := fun k a ha => mem_update (by simp [ha]) k }
  · exact refl id x

theorem remFpi : x.Agrees id (x.remFpi fp id) := by
  unfold Index.remFpi
  split
  · exact { refl id x with fpi := fun k a ha => mem_update (by simp [ha]) k }
  · exact refl id x

/-- Rewriting the sets of several keys, one after another. -/
theorem mem_foldl_update {f : Finset String → Finset String} (hf : ∀ S, a ∈ f S ↔ a ∈ S)
    (keys : List String) (t : String → Finset String) (k : String) :
    a ∈ keys.foldl (fun t key => Function.update t key (f (t key))) t k ↔ a ∈ t k := by
  induction keys generalizing t with
  | nil => exact Iff.rfl
  | cons key rest ih =>
    rw [List.foldl_cons, ih]
    exact mem_update (hf (t key)) k

theorem addTags : x.Agrees id (x.addTags tags id) :=
  { refl id x with
    tag := fun k a ha => mem_foldl_update (f := insert id) (fun S => by simp [ha]) tags x.tag k }

theorem remTags : x.Agrees id (x.remTags tags id) :=
  { refl id x with
    tag := fun k a ha =>
      mem_foldl_update (f := fun S => S.erase id) (fun S => by simp [ha]) tags x.tag k }

end

end Index.Agrees

/-! ## Section 2: The writes of `DUPR` -/

/-- Only the job under `id` differs: its hash and its own entries in the indexes and among the
waiting jobs.  It keeps its route, and at most that route is announced to the gate. -/
structure TouchesOnly (id : String) (s s' : Store) : Prop where
  rows : ∀ x, x ≠ id → s'.job? x = s.job? x
  route : ∀ j', s'.job? id = some j' → ∃ j, s.job? id = some j ∧ j'.queue = j.queue ∧
    j'.partitionKey = j.partitionKey ∧ j'.stickyWorker = j.stickyWorker
  pending : ∀ key x, x ≠ id → (s'.waiting.pending key).score x = (s.waiting.pending key).score x
  routesKept : ∀ key, s.waiting.routes key ⊆ s'.waiting.routes key
  routesNew : ∀ key token, token ∈ s'.waiting.routes key → token ∈ s.waiting.routes key ∨
    ∃ j, s.job? id = some j ∧ key = partKey j.queue j.partitionKey ∧
      token = routeToken j.stickyWorker
  partsKept : ∀ queue, s.waiting.parts queue ⊆ s'.waiting.parts queue
  partsNew : ∀ queue part, part ∈ s'.waiting.parts queue → part ∈ s.waiting.parts queue ∨
    ∃ j, s.job? id = some j ∧ queue = j.queue ∧ part = j.partitionKey
  running : s'.running = s.running
  holders : s'.holders = s.holders
  index : s.index.Agrees id s'.index
  policy : s'.policy = s.policy
  history : s'.history = s.history

namespace TouchesOnly

variable {id : String} {t u : Store}

theorem refl (id : String) (s : Store) : TouchesOnly id s s where
  rows _ _ := rfl
  route j' row := ⟨j', row, rfl, rfl, rfl⟩
  pending _ _ _ := rfl
  routesKept _ := Finset.Subset.refl _
  routesNew _ _ hmem := .inl hmem
  partsKept _ := Finset.Subset.refl _
  partsNew _ _ hmem := .inl hmem
  running := rfl
  holders := rfl
  index := .refl id s.index
  policy := rfl
  history := rfl

theorem trans (h : TouchesOnly id s t) (h' : TouchesOnly id t u) : TouchesOnly id s u where
  rows x hx := (h'.rows x hx).trans (h.rows x hx)
  route j'' row := by
    obtain ⟨j', hj', hqueue', hpart', hsticky'⟩ := h'.route j'' row
    obtain ⟨j, hj, hqueue, hpart, hsticky⟩ := h.route j' hj'
    exact ⟨j, hj, hqueue'.trans hqueue, hpart'.trans hpart, hsticky'.trans hsticky⟩
  pending key x hx := (h'.pending key x hx).trans (h.pending key x hx)
  routesKept key := (h.routesKept key).trans (h'.routesKept key)
  routesNew key token hmem := by
    rcases h'.routesNew key token hmem with hold | ⟨j', hj', hkey, htoken⟩
    · exact h.routesNew key token hold
    · -- the route of the job is the one it had at first
      obtain ⟨j, hj, hqueue, hpart, hsticky⟩ := h.route j' hj'
      rw [hqueue, hpart] at hkey
      rw [hsticky] at htoken
      exact .inr ⟨j, hj, hkey, htoken⟩
  partsKept queue := (h.partsKept queue).trans (h'.partsKept queue)
  partsNew queue part hmem := by
    rcases h'.partsNew queue part hmem with hold | ⟨j', hj', hqueue', hpart'⟩
    · exact h.partsNew queue part hold
    · obtain ⟨j, hj, hqueue, hpart, -⟩ := h.route j' hj'
      exact .inr ⟨j, hj, hqueue'.trans hqueue, hpart'.trans hpart⟩
  running := h'.running.trans h.running
  holders := h'.holders.trans h.holders
  index := h.index.trans h'.index
  policy := h'.policy.trans h.policy
  history := h'.history.trans h.history

section
variable {j j' : Job} (row : s.job? id = some j) (queue : j'.queue = j.queue)
  (part : j'.partitionKey = j.partitionKey) (sticky : j'.stickyWorker = j.stickyWorker)
include row queue part sticky

/-- The row is rewritten, its index entries with it. -/
theorem set (index : s.index.Agrees id x) :
    TouchesOnly id s { s.setJob id j' with index := x } := by
  have hrows : ∀ y, ({ s.setJob id j' with index := x } : Store).job? y
      = if y = id then some j' else s.job? y := fun y => Store.job?_setJob s id y j'
  refine { refl id s with rows := ?_, route := ?_, index := index }
  · intro y hy
    rw [hrows, if_neg hy]
  · intro j'' hj''
    rw [hrows, if_pos rfl] at hj''
    cases hj''
    exact ⟨j, row, queue, part, sticky⟩

/-- The row is rewritten and waits again. -/
theorem setWaiting (index : s.index.Agrees id x) (score : Int) :
    TouchesOnly id s { s.setJob id j' with
      index := x
      waiting := s.waiting.add id j.queue j.partitionKey j.stickyWorker score } := by
  have hset := set row queue part sticky index
  refine { hset with
    pending := ?_
    routesKept := ?_
    routesNew := ?_
    partsKept := ?_
    partsNew := ?_ }
  · intro key y hy
    by_cases hkey : key = pendingKey j.queue j.partitionKey j.stickyWorker
    · subst hkey
      simp [Waiting.add, hy]
    · simp [Waiting.add, hkey]
  · intro key token hmem
    by_cases hkey : key = partKey j.queue j.partitionKey
    · subst hkey
      simp [Waiting.add, hmem]
    · simpa [Waiting.add, hkey] using hmem
  · intro key token hmem
    by_cases hkey : key = partKey j.queue j.partitionKey
    · subst hkey
      -- the one new token is that of the job's own route
      have hcases : token = routeToken j.stickyWorker ∨
          token ∈ s.waiting.routes (partKey j.queue j.partitionKey) := by
        simpa [Waiting.add] using hmem
      exact hcases.symm.imp_right fun htoken => ⟨j, row, rfl, htoken⟩
    · exact .inl (by simpa [Waiting.add, hkey] using hmem)
  · intro q p hmem
    by_cases hq : q = j.queue
    · subst hq
      simp [Waiting.add, hmem]
    · simpa [Waiting.add, hq] using hmem
  · intro q p hmem
    by_cases hq : q = j.queue
    · subst hq
      have hcases : p = j.partitionKey ∨ p ∈ s.waiting.parts j.queue := by
        simpa [Waiting.add] using hmem
      exact hcases.symm.imp_right fun hp => ⟨j, row, rfl, hp⟩
    · exact .inl (by simpa [Waiting.add, hq] using hmem)

end

theorem applyWhen (h : TouchesOnly id s p.1) (hf : ∀ s, TouchesOnly id s (f s)) :
    TouchesOnly id s (applyWhen b f p).1 := by
  unfold Redis.applyWhen
  split
  · exact h.trans (hf p.1)
  · exact h

end TouchesOnly

section
variable (now : Int) (e : Envelope) (holder : String) (s : Store)

theorem debounceHolder_touches (old : State) :
    TouchesOnly holder s (debounceHolder now e holder old s) := by
  unfold debounceHolder
  cases row : s.job? holder with
  | none => exact .refl holder s
  | some =>
    refine .setWaiting row ?_ ?_ ?_ ?_ (now + e.uniqueDebounceMs)
    · rfl
    · rfl
    · rfl
    -- tags, state index, fingerprint sets and `sched`, in the order of the script
    · exact (Index.Agrees.remTags _ _).trans <| (Index.Agrees.addTags _ _).trans <|
        (Index.Agrees.remIdx _ _ _).trans <| (Index.Agrees.remFpi _ _).trans <|
        (Index.Agrees.addFpi _ _).trans <| (Index.Agrees.addSched _ _).trans <|
        Index.Agrees.addIdx _ _ _ _

theorem replacePayload_touches : TouchesOnly holder s (replacePayload e holder s) := by
  unfold replacePayload
  cases row : s.job? holder with
  | none => exact .refl holder s
  | some =>
    refine .set row ?_ ?_ ?_ ((Index.Agrees.remFpi _ _).trans (Index.Agrees.addFpi _ _)) <;> rfl

theorem replaceScheduledAt_touches : TouchesOnly holder s (replaceScheduledAt now e holder s) := by
  unfold replaceScheduledAt
  cases row : s.job? holder with
  | none => exact .refl holder s
  | some =>
    refine .setWaiting row ?_ ?_ ?_
      ((Index.Agrees.addSched _ _).trans (Index.Agrees.addIdx _ _ _ _)) _ <;> rfl

theorem replacePriority_touches : TouchesOnly holder s (replacePriority e holder s) := by
  unfold replacePriority
  cases row : s.job? holder with
  | none => exact .refl holder s
  | some => refine .set row ?_ ?_ ?_ (.refl holder s.index) <;> rfl

theorem replaceMaxAttempts_touches : TouchesOnly holder s (replaceMaxAttempts e holder s) := by
  unfold replaceMaxAttempts
  cases row : s.job? holder with
  | none => exact .refl holder s
  | some => refine .set row ?_ ?_ ?_ (.refl holder s.index) <;> rfl

theorem replaceHolder_touches : TouchesOnly holder s (replaceHolder now e holder s).1 := by
  unfold replaceHolder
  split
  · exact .refl holder s
  · split
    · apply TouchesOnly.applyWhen _ fun s => replaceMaxAttempts_touches e holder s
      apply TouchesOnly.applyWhen _ fun s => replacePriority_touches e holder s
      apply TouchesOnly.applyWhen _ fun s => replaceScheduledAt_touches now e holder s
      apply TouchesOnly.applyWhen _ fun s => replacePayload_touches e holder s
      exact TouchesOnly.applyWhen (.refl holder s) fun s => debounceHolder_touches now e holder s _
    · exact .refl holder s

/-- Without the `changed` flag nothing was written. -/
theorem applyWhen_unchanged {s : Store} (hp : p.2 = false → p.1 = s) :
    (applyWhen b f p).2 = false → (applyWhen b f p).1 = s := by
  unfold applyWhen
  split
  · intro hflag
    cases hflag
  · exact hp

theorem replaceHolder_unchanged :
    (replaceHolder now e holder s).2 = false → (replaceHolder now e holder s).1 = s := by
  unfold replaceHolder
  split
  · exact fun _ => rfl
  · split
    · apply applyWhen_unchanged
      apply applyWhen_unchanged
      apply applyWhen_unchanged
      apply applyWhen_unchanged
      exact applyWhen_unchanged fun _ => rfl
    · exact fun _ => rfl

theorem onHolder_touches : TouchesOnly holder s (onHolder now e holder s).1 := by
  unfold onHolder
  split
  · exact replaceHolder_touches now e holder s
  · exact .refl holder s

theorem onHolder_dup {id : String} :
    (onHolder now e holder s).2 = .dup id → (onHolder now e holder s).1 = s := by
  unfold onHolder
  split
  · dsimp only
    split
    · intro hreply
      cases hreply
    · rename_i hflag
      intro _
      apply replaceHolder_unchanged
      simpa using hflag
  · exact fun _ => rfl

end

/-! ## Section 3: The script -/

/-- What the script does, by its reply: nothing, writes about the holder it names, or the write
pass, as far as it comes. -/
theorem enqueueScript_frame (now : Int) (batch : List Envelope) (s : Store) :
    ((∀ e ∈ batch, Envelope.raises e = false) → (∀ n, (enqueueScript now batch s).2 ≠ .ok n) →
      (∀ id, (enqueueScript now batch s).2 ≠ .dupr id) → (enqueueScript now batch s).1 = s) ∧
    ∀ id, (enqueueScript now batch s).2 = .dupr id →
      TouchesOnly id s (enqueueScript now batch s).1 := by
  unfold enqueueScript
  split
  · rename_i reply hids
    refine ⟨fun _ _ _ => rfl, fun id hreply => ?_⟩
    exact .refl id s
  · rename_i fresh hids
    split
    · rename_i s' reply hpass
      -- a rejection writes nothing, unless it comes with a replaced holder
      rcases validatePass_rejects hpass with ⟨rfl, -⟩ | ⟨e, -, holder, -, rfl, rfl⟩
      · exact ⟨fun _ _ _ => rfl, fun id _ => .refl id s'⟩
      · constructor
        · intro _ _ hdupr
          rcases onHolder_reply now e holder s with hdup | hreplaced
          · exact onHolder_dup now e holder s hdup
          · exact absurd hreplaced (hdupr holder)
        · intro id hreply
          rcases onHolder_reply now e holder s with hdup | hreplaced
          · rw [hdup] at hreply
            cases hreply
          · rw [hreplaced] at hreply
            cases hreply
            exact onHolder_touches now e holder s
    · rename_i s' hpass
      obtain ⟨rfl, -, -⟩ := validatePass_none hpass
      split
      · exact ⟨fun _ _ _ => rfl, fun id _ => .refl id s'⟩
      · refine ⟨fun htaken hok _ => ?_, fun id hreply => ?_⟩
        · have hnone : ¬ fresh.any Envelope.raises = true := by
            rw [Bool.not_eq_true, List.any_eq_false]
            intro e he
            rw [htaken e ((idPass_ok hids).1.subset he)]
            exact Bool.false_ne_true
          exact absurd (if_neg hnone) (hok _)
        · dsimp only at hreply
          split at hreply
          · cases hreply
          · cases hreply

/-! ## Section 4: Sending a batch again -/

/-- What the id pass compares. -/
def Job.content (j : Job) : String × String × String := (j.kind, j.fingerprint, j.queue)

def contentOf (e : Envelope) : String × String × String := (e.kind, e.fingerprint, e.queue)

/-- Every envelope is stored with its content, so every envelope is a replay. -/
theorem idPass_replays (nonempty : ∀ e ∈ batch, e.id ≠ "")
    (stored : ∀ e ∈ batch, (s.job? e.id).map Job.content = some (contentOf e)) :
    idPass s batch = .ok [] := by
  induction batch with
  | nil => rfl
  | cons e rest ih =>
    obtain ⟨j, row, hcontent⟩ := Option.map_eq_some_iff.mp (stored e List.mem_cons_self)
    have hsame : j.kind = e.kind ∧ j.fingerprint = e.fingerprint ∧ j.queue = e.queue := by
      simpa [Job.content, contentOf] using hcontent
    unfold idPass
    rw [if_neg (nonempty e List.mem_cons_self), row]
    dsimp only
    rw [if_pos hsame]
    exact ih (fun e' he' => nonempty e' (List.mem_cons_of_mem _ he'))
      fun e' he' => stored e' (List.mem_cons_of_mem _ he')

/-- The id pass lets an envelope through as new, or finds it stored with its content. -/
theorem idPass_stored (h : idPass s batch = .ok fresh) (mem : e ∈ batch) :
    e.id ≠ "" ∧ (e ∈ fresh ∨ (s.job? e.id).map Job.content = some (contentOf e)) := by
  -- an accepted envelope is new or a replay; every other one stops the pass
  induction batch generalizing fresh with
  | nil => cases mem
  | cons f rest ih =>
    unfold idPass at h
    split at h
    · cases h
    · rename_i hid
      split at h
      · cases hrest : idPass s rest with
        | error =>
          rw [hrest] at h
          cases h
        | ok =>
          rw [hrest] at h
          cases h
          rcases List.mem_cons.mp mem with rfl | hin
          · exact ⟨hid, .inl List.mem_cons_self⟩
          · exact (ih hrest hin).imp_right (.imp_left (List.mem_cons_of_mem _))
      · rename_i j row
        split at h
        · rename_i hsame
          rcases List.mem_cons.mp mem with rfl | hin
          · refine ⟨hid, .inr ?_⟩
            rw [row]
            simp [Job.content, contentOf, hsame]
          · exact ih h hin
        · cases h

/-- An accepted batch is stored: new envelopes as they are, replays as they were. -/
theorem Accepted.stored {s' : Store} (h : Accepted now batch fresh s s') (mem : e ∈ batch) :
    e.id ≠ "" ∧ (s'.job? e.id).map Job.content = some (contentOf e) := by
  obtain ⟨hid, hstored⟩ := idPass_stored h.replays mem
  refine ⟨hid, ?_⟩
  rw [h.written]
  by_cases hfresh : e ∈ fresh
  · rw [job?_writePass_mem h.nodup hfresh]
    rfl
  · have hother : ∀ e' ∈ fresh, e'.id ≠ e.id := by
      intro e' he' heq
      -- ids of the batch are distinct, so the new envelope would be this one
      have hsub := (idPass_ok h.replays).1.subset he'
      exact hfresh (List.inj_on_of_nodup_map h.ids hsub mem heq ▸ he')
    rw [job?_writePass hother]
    exact hstored.resolve_left hfresh

theorem enqueueScript_replays (nonempty : ∀ e ∈ batch, e.id ≠ "")
    (stored : ∀ e ∈ batch, (s.job? e.id).map Job.content = some (contentOf e)) :
    enqueueScript now batch s = (s, .ok 0) := by
  unfold enqueueScript
  rw [idPass_replays nonempty stored]
  rfl

def keyedJob : Envelope :=
  { id := "b", kind := "k", queue := "q", fingerprint := "f", uniqueKey := some [1] }

/-- A sibling of the job waits, the job is enqueued, the sibling crashes at the limit and the queue
is closed. -/
def closedSince : List Call :=
  [⟨0, .enqueue [{ id := "a", kind := "k", queue := "q", fingerprint := "f" }]⟩,
    ⟨1, .enqueue [keyedJob]⟩,
    ⟨2, .admission ⟨"w", "l", ["q"], 1, 10, 1⟩ .increasing⟩,
    ⟨20, .reclaim 10 1 1 1⟩,
    ⟨21, .setEnqueueLimit "q" (some 0)⟩]

end Headgate.Redis
