import Headgate.Data.Mirror
import Headgate.Redis.Selection

/-!
# One id in the indexes

The inspection and sweep indexes hold ids, and a write to a job changes what they say
about that job only.  `Face` is what they go by in a hash and `Listing` what they say
about one id.  `Change` lists what a call can do to the two, and `step_touches` cuts
every call into such changes, each at one id: that an index is exact is then shown
change by change.
-/

namespace Headgate.Redis

open Headgate.Core Data Relation

/-! ## Section 1: A job and its entries -/

/-- What the indexes go by in a job hash. -/
structure Face where
  queue : String
  partitionKey : String
  state : State
  scheduledAtMs : Int
  claimedAtMs : Option Int
  finalizedAtMs : Option Int
  fingerprint : String
  retentionMs : Int

def Job.face (j : Job) : Face :=
  ⟨j.queue, j.partitionKey, j.state, j.scheduledAtMs, j.lease.map Lease.claimedAtMs,
    j.finalizedAtMs, j.fingerprint, j.retentionMs⟩

/-- What the indexes say about one id. -/
@[ext] structure Listing where
  idx : String → State → Option Int
  sched : Option Int
  ret : Option Int
  fpi : String → Prop
  qjobs : String → Prop

namespace Listing

variable (x : Listing) (queue fp : String) (st to_ : State) (sc : Int)

def addIdx : Listing :=
  { x with idx := fun q st' => if q = queue ∧ st' = st then some sc else x.idx q st' }

def remIdx : Listing :=
  { x with idx := fun q st' => if q = queue ∧ st' = st then none else x.idx q st' }

def moveIdx : Listing := (x.remIdx queue st).addIdx queue to_ sc

def retain (now retention : Int) : Listing :=
  { x with ret := if retention > 0 then some (now + retention) else x.ret }

def putFpi : Listing := { x with fpi := fun f => x.fpi f ∨ f = fp }

def cutFpi : Listing := { x with fpi := fun f => x.fpi f ∧ f ≠ fp }

def putQjobs : Listing := { x with qjobs := fun f => x.qjobs f ∨ f = fp }

def cutQjobs : Listing := { x with qjobs := fun f => x.qjobs f ∧ f ≠ fp }

def addFpi : Listing := { x with fpi := fun f => x.fpi f ∨ fp ≠ "" ∧ f = fp }

def remFpi : Listing := { x with fpi := fun f => x.fpi f ∧ ¬ (fp ≠ "" ∧ f = fp) }

def addQjobs : Listing := { x with qjobs := fun f => x.qjobs f ∨ fp ≠ "" ∧ f = fp }

def remQjobs : Listing := { x with qjobs := fun f => x.qjobs f ∧ ¬ (fp ≠ "" ∧ f = fp) }

end Listing

section
variable {t : String → Finset String} {fp id f y : String}

theorem mem_update_erase :
    y ∈ Function.update t fp ((t fp).erase id) f ↔ y ∈ t f ∧ ¬ (y = id ∧ f = fp) := by
  by_cases hf : f = fp
  · subst hf
    simp [and_comm]
  · simp [hf]

end

namespace Index

def listing (x : Index) (id : String) : Listing :=
  ⟨fun q st => (x.idx q st).score id, x.sched.score id, x.ret.score id, (id ∈ x.fpi ·),
    (id ∈ x.qjobs ·)⟩

variable (x : Index) (queue fp id : String) (st to_ : State) (sc : Int)

/-- One zset changes, for one id. -/
private theorem listing_zset (z : ZSet String) (score : Option Int) (hid : z.score id = score)
    (others : ∀ y, y ≠ id → z.score y = (x.idx queue st).score y) :
    listing { x with idx := Function.update x.idx queue (Function.update (x.idx queue) st z) }
      = Function.update x.listing id { x.listing id with
        idx := fun q st' => if q = queue ∧ st' = st then score else (x.listing id).idx q st' } := by
  have hz : ∀ q st' y,
      (Function.update x.idx queue (Function.update (x.idx queue) st z) q st').score y =
        if q = queue ∧ st' = st then z.score y else (x.idx q st').score y := by
    intro q st' y
    by_cases hq : q = queue
    · subst hq
      by_cases hst : st' = st <;> simp [hst]
    · simp [hq]
  refine Function.eq_update_iff.mpr ⟨?_, fun y hy => ?_⟩
  · simp [listing, hz, hid]
  · have hidx : ∀ q st', (if q = queue ∧ st' = st then z.score y else (x.idx q st').score y)
        = (x.idx q st').score y := by
      intro q st'
      split
      · rename_i h
        rw [others y hy, h.1, h.2]
      · rfl
    simp [listing, hz, hidx]

@[simp] theorem listing_addIdx : (x.addIdx queue st sc id).listing
    = Function.update x.listing id ((x.listing id).addIdx queue st sc) :=
  x.listing_zset queue id st _ _ (by simp) fun y hy => by simp [hy]

@[simp] theorem listing_remIdx : (x.remIdx queue st id).listing
    = Function.update x.listing id ((x.listing id).remIdx queue st) :=
  x.listing_zset queue id st _ _ (by simp) fun y hy => by simp [hy]

@[simp] theorem listing_moveIdx : (x.moveIdx queue st to_ sc id).listing
    = Function.update x.listing id ((x.listing id).moveIdx queue st to_ sc) := by
  simp [moveIdx, Listing.moveIdx]

@[simp] theorem listing_addSched : (x.addSched sc id).listing
    = Function.update x.listing id { x.listing id with sched := some sc } := by
  refine Function.eq_update_iff.mpr ⟨?_, fun y hy => ?_⟩
  · simp [listing, addSched]
  · simp [listing, addSched, hy]

@[simp] theorem listing_remSched : (x.remSched id).listing
    = Function.update x.listing id { x.listing id with sched := none } := by
  refine Function.eq_update_iff.mpr ⟨?_, fun y hy => ?_⟩
  · simp [listing, remSched]
  · simp [listing, remSched, hy]

@[simp] theorem listing_addRet : listing { x with ret := x.ret.add sc id }
    = Function.update x.listing id { x.listing id with ret := some sc } := by
  refine Function.eq_update_iff.mpr ⟨?_, fun y hy => ?_⟩
  · simp [listing]
  · simp [listing, hy]

@[simp] theorem listing_remRet : (x.remRet id).listing
    = Function.update x.listing id { x.listing id with ret := none } := by
  refine Function.eq_update_iff.mpr ⟨?_, fun y hy => ?_⟩
  · simp [listing, remRet]
  · simp [listing, remRet, hy]

@[simp] theorem listing_retain (now retention : Int) : (x.retain now retention id).listing
    = Function.update x.listing id ((x.listing id).retain now retention) := by
  unfold retain Listing.retain
  split
  · exact x.listing_addRet id (now + retention)
  · simp

@[simp] theorem listing_putFpi : (x.putFpi fp id).listing
    = Function.update x.listing id ((x.listing id).putFpi fp) := by
  refine Function.eq_update_iff.mpr ⟨?_, fun y hy => ?_⟩
  · simp [listing, putFpi, Listing.putFpi, mem_update_insert]
  · simp [listing, putFpi, mem_update_insert, hy]

@[simp] theorem listing_cutFpi : (x.cutFpi fp id).listing
    = Function.update x.listing id ((x.listing id).cutFpi fp) := by
  refine Function.eq_update_iff.mpr ⟨?_, fun y hy => ?_⟩
  · simp [listing, cutFpi, Listing.cutFpi, mem_update_erase]
  · simp [listing, cutFpi, mem_update_erase, hy]

@[simp] theorem listing_putQjobs : (x.putQjobs fp id).listing
    = Function.update x.listing id ((x.listing id).putQjobs fp) := by
  refine Function.eq_update_iff.mpr ⟨?_, fun y hy => ?_⟩
  · simp [listing, putQjobs, Listing.putQjobs, mem_update_insert]
  · simp [listing, putQjobs, mem_update_insert, hy]

@[simp] theorem listing_cutQjobs : (x.cutQjobs fp id).listing
    = Function.update x.listing id ((x.listing id).cutQjobs fp) := by
  refine Function.eq_update_iff.mpr ⟨?_, fun y hy => ?_⟩
  · simp [listing, cutQjobs, Listing.cutQjobs, mem_update_erase]
  · simp [listing, cutQjobs, mem_update_erase, hy]

-- without a fingerprint there is no set
@[simp] theorem listing_addFpi : (x.addFpi fp id).listing
    = Function.update x.listing id ((x.listing id).addFpi fp) := by
  unfold addFpi Listing.addFpi
  split <;> simp [Listing.putFpi, *]

@[simp] theorem listing_remFpi : (x.remFpi fp id).listing
    = Function.update x.listing id ((x.listing id).remFpi fp) := by
  unfold remFpi Listing.remFpi
  split <;> simp [Listing.cutFpi, *]

@[simp] theorem listing_addQjobs : (x.addQjobs fp id).listing
    = Function.update x.listing id ((x.listing id).addQjobs fp) := by
  unfold addQjobs Listing.addQjobs
  split <;> simp [Listing.putQjobs, *]

@[simp] theorem listing_remQjobs : (x.remQjobs fp id).listing
    = Function.update x.listing id ((x.listing id).remQjobs fp) := by
  unfold remQjobs Listing.remQjobs
  split <;> simp [Listing.cutQjobs, *]

@[simp] theorem listing_addTags (tags : List String) : (x.addTags tags id).listing = x.listing := rfl

@[simp] theorem listing_remTags (tags : List String) : (x.remTags tags id).listing = x.listing := rfl

end Index

/-! ## Section 2: What can happen to one id -/

/-- What a write can do to a job with the face `f` and the entries `x`. -/
inductive Change (op : Op) (now : Int) (f : Face) (x : Listing) : Option Face → Listing → Prop where
  | same : Change op now f x (some f) x
  | debounce (fp : String) (due : Int) (idle : State.isMutable f.state = true) :
      Change op now f x
        (some { f with fingerprint := fp, state := .scheduled, scheduledAtMs := due })
        ({ ((x.remIdx f.queue f.state).remFpi f.fingerprint).addFpi fp with
          sched := some due }.addIdx f.queue .scheduled due)
  | reprint (fp : String) (idle : State.isMutable f.state = true) :
      Change op now f x (some { f with fingerprint := fp }) ((x.remFpi f.fingerprint).addFpi fp)
  | due (at_ : Int) (delayed : f.state = .scheduled ∨ f.state = .retryable) :
      Change op now f x (some { f with scheduledAtMs := at_ })
        ({ x with sched := some at_ }.addIdx f.queue f.state at_)
  -- the way through the lifecycle
  | activate (to_ : State) (at_ : Int) (sched : Option Int) (pending : f.state = .pending)
      (waiting : to_.isWaiting = true) (timely : to_ = .available ∨ sched = some at_) :
      Change op now f x (some { f with state := to_, scheduledAtMs := at_ })
        ({ x with sched := sched }.moveIdx f.queue .pending to_ at_)
  | promote (delayed : f.state = .scheduled ∨ f.state = .retryable) :
      Change op now f x (some { f with state := .available })
        ({ x with sched := none }.moveIdx f.queue f.state .available f.scheduledAtMs)
  | claim (waiting : f.state.isWaiting = true) :
      Change op now f x (some { f with state := .running, claimedAtMs := some now })
        (x.moveIdx f.queue f.state .running now)
  | requeue (to_ : State) (sc : Int) (sched : Option Int) (running : f.state = .running)
      (waiting : to_.isWaiting = true)
      (timely : op.isTimely → to_ = .available ∨ sched = some sc) :
      Change op now f x (some { f with state := to_, scheduledAtMs := sc, claimedAtMs := none })
        ({ x with sched := sched }.moveIdx f.queue .running to_ sc)
  | finish (to_ : State) (sched claimed : Option Int) (live : f.state.isUnfinished = true)
      (terminal : to_.isTerminal = true) (out : to_ ≠ .quarantined) :
      Change op now f x
        (some { f with state := to_, finalizedAtMs := some now, claimedAtMs := claimed })
        ((({ x with sched := sched }.moveIdx f.queue f.state to_ now).remFpi f.fingerprint).retain
          now f.retentionMs)
  | retry (retriable : State.isRetriable f.state = true) :
      Change op now f x
        (some { f with state := .available, scheduledAtMs := now, finalizedAtMs := none })
        { (x.moveIdx f.queue f.state .available now).addFpi f.fingerprint with ret := none }
  -- quarantine
  | crash (running : f.state = .running) (prints : op.movesPrints) :
      Change op now f x
        (some { f with state := .quarantined, finalizedAtMs := some now, claimedAtMs := none })
        (((x.moveIdx f.queue .running .quarantined now).remFpi f.fingerprint).addQjobs
          f.fingerprint)
  | sweep (fp : String) (waiting : f.state.isWaiting = true) (listed : x.fpi fp) :
      Change op now f x (some { f with state := .quarantined, finalizedAtMs := some now })
        ((({ x with sched := none }.moveIdx f.queue f.state .quarantined now).cutFpi fp).putQjobs fp)
  | release (fp : String) (quarantined : f.state = .quarantined) (held : x.qjobs fp) :
      Change op now f x
        (some { f with state := .available, scheduledAtMs := now, finalizedAtMs := none })
        (((x.moveIdx f.queue .quarantined .available now).putFpi fp).cutQjobs fp)
  | edit (fp : String) (other : f.fingerprint ≠ fp) (edits : op.edits fp) :
      Change op now f x (some { f with fingerprint := fp })
        (if f.state = .quarantined then
          ((x.remFpi f.fingerprint).remQjobs f.fingerprint).addQjobs fp
        else ((x.remFpi f.fingerprint).remQjobs f.fingerprint).addFpi fp)
  -- leaving the keyspace
  | finishDelete (running : f.state = .running) :
      Change op now f x none ((x.remIdx f.queue .running).remFpi f.fingerprint)
  | delete (sched : Option Int) (idle : f.state ≠ .running) :
      Change op now f x none
        { (({ x with sched := sched }.remIdx f.queue f.state).remFpi f.fingerprint).remQjobs
          f.fingerprint with ret := none }
  | evict (evictable : State.isEvictable f.state = true) (prints : op.movesPrints) :
      Change op now f x none { x.remIdx f.queue f.state with ret := none }
  -- entries only
  | retain (evictable : State.isEvictable f.state = true) (final : f.finalizedAtMs = some now) :
      Change op now f x (some f) { x with ret := some (now + f.retentionMs) }
  | unsched (idle : ¬ (f.state = .scheduled ∨ f.state = .retryable)) :
      Change op now f x (some f) { x with sched := none }
  | unret (idle : ¬ State.isEvictable f.state = true) :
      Change op now f x (some f) { x with ret := none }
  | unheld (fp : String) (out : f.state ≠ .quarantined) :
      Change op now f x (some f) (x.cutQjobs fp)

/-- What a write can do to one id. -/
inductive Touch (op : Op) (now : Int) : Option Face × Listing → Option Face × Listing → Prop where
  | row {f : Face} {x x' : Listing} {f' : Option Face} (change : Change op now f x f' x') :
      Touch op now (some f, x) (f', x')
  | arrive (e : Envelope) (f : Face) {x : Listing} (mem : e ∈ op.batch)
      (new : f = (newJob now e).face) :
      Touch op now (none, x) (some f,
        ({ x with sched := if f.state = State.scheduled then some f.scheduledAtMs else x.sched }.addIdx
          f.queue f.state f.scheduledAtMs).addFpi f.fingerprint)
  /-- Entries without a job. -/
  | stray {x x' : Listing} (idx : x'.idx = x.idx) (fpi : x'.fpi = x.fpi)
      (qjobs : ∀ fp, x'.qjobs fp → x.qjobs fp) (sched : x'.sched = x.sched ∨ x'.sched = none)
      (ret : x'.ret = x.ret ∨ x'.ret = none) : Touch op now (none, x) (none, x')

/-- A job keeps its queue and its partition, and a new one has them from the batch. -/
theorem Touch.rooted {op : Op} {now : Int} {v v' : Option Face × Listing} (c : Touch op now v v')
    {f' : Face} (h : v'.1 = some f') :
    (∃ f, v.1 = some f ∧ f'.queue = f.queue ∧ f'.partitionKey = f.partitionKey) ∨
      ∃ e ∈ op.batch, f'.queue = e.queue ∧ f'.partitionKey = e.partitionKey := by
  cases c with
  | row change =>
    cases change <;> cases h <;> exact .inl ⟨_, rfl, rfl, rfl⟩
  | arrive e f mem new =>
    cases h
    rw [new]
    exact .inr ⟨e, mem, rfl, rfl⟩
  | stray => cases h

/-! ## Section 3: Every write -/

/-- The job and the entries of an id. -/
def Store.about (s : Store) (id : String) : Option Face × Listing :=
  ((s.job? id).map Job.face, s.index.listing id)

/-- A write changes what the keyspace has about `id`. -/
def Touches (op : Op) (now : Int) (id : String) (s t : Store) : Prop :=
  ∃ v, Touch op now (s.about id) v ∧ t.about = Function.update s.about id v

theorem about_update {s t : Store} {id : String} {y : Listing} (new : Option Job)
    (rows : ∀ x, t.job? x = if x = id then new else s.job? x)
    (index : t.index.listing = Function.update s.index.listing id y) :
    t.about = Function.update s.about id (new.map Job.face, y) := by
  refine Function.eq_update_iff.mpr ⟨?_, fun x hx => ?_⟩
  · simp [Store.about, rows, index]
  · simp [Store.about, rows, index, hx]

namespace Touches

variable {op : Op} {now : Int} {s t : Store} {id : String} {j j' : Job} {y : Listing}

/-- The row and the entries of one id are replaced. -/
theorem of (new : Option Job) (rows : ∀ x, t.job? x = if x = id then new else s.job? x)
    (index : t.index.listing = Function.update s.index.listing id y)
    (touch : Touch op now (s.about id) (new.map Job.face, y)) : Touches op now id s t :=
  ⟨_, touch, about_update new rows index⟩

/-- Only entries are written. -/
theorem mark (jobs : t.jobs = s.jobs)
    (index : t.index.listing = Function.update s.index.listing id y)
    (touch : Touch op now (s.about id) ((s.job? id).map Job.face, y)) : Touches op now id s t := by
  refine of (s.job? id) (fun x => ?_) index touch
  simp only [Store.job?, jobs]
  split
  · rename_i hx
    rw [hx]
  · rfl

/-- Neither hashes nor indexes are written. -/
theorem still (jobs : t.jobs = s.jobs) (index : t.index = s.index) : Touches op now id s t := by
  refine mark jobs (y := s.index.listing id) ?_ ?_
  · rw [index, Function.update_eq_self]
  · unfold Store.about
    cases s.job? id with
    | none => exact .stray rfl rfl (fun _ h => h) (.inl rfl) (.inl rfl)
    | some => exact .row .same

section
variable (row : s.job? id = some j)
include row

/-- A hash is rewritten. -/
theorem set (jobs : t.jobs = s.jobs.insert id j')
    (index : t.index.listing = Function.update s.index.listing id y)
    (change : Change op now j.face (s.index.listing id) (some j'.face) y) : Touches op now id s t := by
  refine of (some j') (Store.job?_of_insert jobs) index ?_
  rw [Store.about, row]
  exact .row change

/-- A hash changes in fields that the indexes do not go by. -/
theorem keep (jobs : t.jobs = s.jobs.insert id j') (index : t.index = s.index)
    (face : j'.face = j.face) : Touches op now id s t := by
  refine set row jobs (y := s.index.listing id) ?_ ?_
  · rw [index, Function.update_eq_self]
  · rw [face]
    exact .same

/-- A hash is deleted. -/
theorem del (rows : ∀ x, t.job? x = if x = id then none else s.job? x)
    (index : t.index.listing = Function.update s.index.listing id y)
    (change : Change op now j.face (s.index.listing id) none y) : Touches op now id s t := by
  refine of none rows index ?_
  rw [Store.about, row]
  exact .row change

end

end Touches

section
variable {op : Op} {now : Int} {s t : Store} {id : String} {j : Job}

theorem reconcile_touches (actual : Int) (row : s.job? id = some j) :
    Touches op now id s (reconcile now id j actual s) := by
  unfold reconcile
  dsimp only
  split
  · exact .keep row rfl rfl rfl
  · split
    · exact .keep row rfl rfl rfl
    · exact .keep row rfl rfl rfl

theorem doCancel_touches (row : s.job? id = some j) (live : j.state.isUnfinished = true) :
    Touches op now id s (doCancel now id j s) := by
  unfold doCancel
  by_cases hrun : j.state = .running
  · rw [if_pos hrun]
    refine .set row rfl ?_ (.finish .cancelled (s.index.listing id).sched _ live rfl (by decide))
    simp [Store.setJob, Store.record, Job.face]
  · rw [if_neg hrun]
    split
    · refine .set row rfl ?_ (.finish .cancelled none _ live rfl (by decide))
      simp [dropWaiting, Store.setJob, Store.record, Job.face]
    · refine .set row rfl ?_ (.finish .cancelled (s.index.listing id).sched _ live rfl (by decide))
      simp [Store.setJob, Store.record, Job.face]

theorem doDelete_touches (row : s.job? id = some j) (idle : j.state ≠ .running) :
    Touches op now id s (doDelete id j s) := by
  unfold doDelete
  split
  · refine .del row (Store.job?_delJob s id) ?_ (.delete none idle)
    simp [dropWaiting, Store.delJob, Store.record, Job.face]
  · refine .del row (Store.job?_delJob s id) ?_ (.delete (s.index.listing id).sched idle)
    simp [Store.delJob, Store.record, Job.face]

theorem writeJob_touches (e : Envelope) (mem : e ∈ op.batch) (absent : s.job? e.id = none) :
    Touches op now e.id s (writeJob now s e) := by
  have habout : s.about e.id = (none, s.index.listing e.id) := by rw [Store.about, absent, Option.map]
  have htouch : Touch op now (none, s.index.listing e.id) _ := .arrive e _ mem rfl
  refine .of (some (newJob now e)) (Store.job?_setJob s e.id · _) ?_ (habout ▸ htouch)
  by_cases hst : initialState now e = .scheduled <;>
    simp [writeJob, Store.setJob, Job.face, newJob, hst]

theorem editPayload_touches (payload : Bytes) (sv : Nat) {fp : String} (edits : op.edits fp) :
    Touches op now id s (editPayload id payload sv fp s).1 := by
  unfold editPayload
  cases row : s.job? id with
  | none => exact .still rfl rfl
  | some j =>
    dsimp only
    split
    · exact .still rfl rfl
    · split
      · -- another fingerprint moves the id between the sets; the same one leaves them
        rename_i hother
        refine .set row rfl ?_ (.edit fp hother edits)
        split <;> simp [Job.face, *]
      · rename_i hsame
        refine .keep row rfl rfl ?_
        rw [not_not] at hsame
        simp [Job.face, hsame]

/-- One member of a quarantined fingerprint's set. -/
theorem sweepOne_touches (limit : Int) (p : Store × Int) {fp : String}
    (listed : id ∈ p.1.index.fpi fp) : Touches op now id p.1 (sweepOne now limit fp p id).1 := by
  unfold sweepOne
  -- past the limit, without a row or no longer waiting: nothing is written
  split
  · exact .still rfl rfl
  · cases row : p.1.job? id with
    | none => exact .still rfl rfl
    | some j =>
      dsimp only
      split
      · rename_i waiting
        refine .set row rfl ?_ (.sweep fp waiting listed)
        simp [dropWaiting, Store.setJob, Job.face]
      · exact .still rfl rfl

theorem Write.touches (w : Write op now s t) : ∃ id, Touches op now id s t := by
  cases w with
  | debounce e holder j row idle =>
    unfold debounceHolder
    rw [row]
    refine ⟨_, .set row rfl ?_ (.debounce _ _ idle)⟩
    simp [Store.setJob, Job.face]
  | payload e holder j row idle =>
    unfold replacePayload
    rw [row]
    refine ⟨_, .set row rfl ?_ (.reprint _ idle)⟩
    simp [Store.setJob, Job.face]
  | due e holder j row scheduled =>
    unfold replaceScheduledAt
    rw [row]
    refine ⟨_, .set row rfl ?_ (.due _ (.inl scheduled))⟩
    simp [Store.setJob, Job.face, scheduled]
  | refit holder j priority maxAttempts row | fenced id j checkpoint output progress row =>
    exact ⟨_, .keep row rfl rfl rfl⟩
  | arrive e mem absent => exact ⟨_, writeJob_touches e mem absent⟩
  | reconcile id j actual row => exact ⟨_, reconcile_touches actual row⟩
  | finishKeep id j attempt errors result to_ e row running terminal out =>
    have live : j.state.isUnfinished = true := by
      rw [running]
      rfl
    refine ⟨_, .set row rfl ?_ (.finish to_ (s.index.listing id).sched none live terminal out)⟩
    simp [Redis.finishKeep, dropLease, Store.setJob, Store.record, Job.face, running]
  | finishDelete id j e row running =>
    refine ⟨_, .del row (fun x => ?_) ?_ (.finishDelete running)⟩
    · show ((s.setJob id { j with lease := none }).delJob id).job? x = _
      simp only [Store.job?_delJob, Store.job?_setJob]
      split <;> rfl
    · simp [Redis.finishDelete, dropLease, Store.setJob, Store.delJob, Store.record, Job.face]
  -- only a job due later gets an entry among the scheduled ones
  | requeue id j attempt errors score to_ e row running waiting ends rule timely =>
    refine ⟨_, .set row rfl ?_ (.requeue to_ score (if score > now then some score
      else (s.index.listing id).sched) running waiting fun hop => (timely hop).imp_right
        fun hlate => if_pos hlate)⟩
    unfold Redis.requeue
    split <;> simp [dropLease, Store.setJob, Store.record, Job.face, *]
  | renew ref j leaseMs row held =>
    unfold renewOne
    rw [row]
    dsimp only
    rw [if_pos held]
    refine ⟨_, .keep row rfl rfl ?_⟩
    simp [Job.face, Function.comp_def]
  | crash id j row running prints =>
    refine ⟨_, .set row rfl ?_ (.crash running prints)⟩
    simp [quarantineCrashed, Store.setJob, Store.record, Job.face]
  | retryCrash base cap id j row running =>
    refine ⟨_, .set row rfl ?_ (.requeue .retryable _
      (some (now + backoff base cap (j.crashAttempt + 1))) running rfl fun _ => .inr rfl)⟩
    simp [retryCrashed, Store.setJob, Store.record, Job.face]
  | stray | policy => exact ⟨"", .still rfl rfl⟩
  | promote id j row due =>
    refine ⟨_, .set row rfl ?_ (.promote due)⟩
    simp [Job.face]
  | evict id j row evictable prints =>
    refine ⟨_, .del row (Store.job?_delJob s id) ?_ (.evict evictable prints)⟩
    simp [Job.face]
  | sweep limit fp id j n row waiting listed => exact ⟨_, sweepOne_touches limit (s, n) listed⟩
  | cancel id j row unfinished => exact ⟨_, doCancel_touches row unfinished⟩
  | retry id j row retriable =>
    unfold doRetry
    split
    · exact ⟨id, .still rfl rfl⟩
    · refine ⟨_, .set row rfl ?_ (.retry retriable)⟩
      simp [Store.setJob, Job.face]
  | delete id j row idle => exact ⟨_, doDelete_touches row idle⟩
  | activate id j to_ at_ x row pending waiting rule sched =>
    rcases sched with ⟨rfl, hto⟩ | rfl
    · refine ⟨_, .set row rfl ?_
        (.activate to_ at_ (s.index.listing id).sched pending waiting (.inl hto))⟩
      simp [activatePending, Job.face]
    · refine ⟨_, .set row rfl ?_ (.activate to_ at_ (some at_) pending waiting (.inr rfl))⟩
      simp [activatePending, Job.face]
  | reschedule id j at_ row delayed =>
    refine ⟨_, .set row rfl ?_ (.due at_ delayed)⟩
    simp [Job.face]
  | edit id j payload sv fp row idle edits => exact ⟨_, editPayload_touches payload sv edits⟩
  | retain id j due row evictable final lapse =>
    refine ⟨_, .mark rfl (s.index.listing_addRet id due) ?_⟩
    rw [Store.about, row, lapse]
    exact .row (.retain evictable final)
  -- entries without a row may be removed at any time
  | unsched id idle =>
    refine ⟨_, .mark rfl (s.index.listing_remSched id) ?_⟩
    unfold Store.about
    cases row : s.job? id with
    | none => exact .stray rfl rfl (fun _ h => h) (.inr rfl) (.inl rfl)
    | some j => exact .row (.unsched (idle j row))
  | unret id idle =>
    refine ⟨_, .mark rfl (s.index.listing_remRet id) ?_⟩
    unfold Store.about
    cases row : s.job? id with
    | none => exact .stray rfl rfl (fun _ h => h) (.inl rfl) (.inr rfl)
    | some j => exact .row (.unret (idle j row))

theorem GateWrite.touches (w : GateWrite now s t) : ∃ id, Touches op now id s t := by
  cases w with
  | side jobs index => exact ⟨"", .still jobs index⟩
  | claim id j req charge row waiting jobs index =>
    refine ⟨_, .set row jobs ?_ (.claim waiting)⟩
    rw [index]
    simp [Job.face]
  | finish id j fence to_ x row live rule out jobs sched index =>
    have hlive : j.state.isUnfinished = true := by
      rcases live with hwaiting | hrunning
      · exact State.isUnfinished_of_isWaiting hwaiting
      · rw [hrunning]
        rfl
    -- the gate ends a job as archived or cancelled, never as quarantined
    have hto : to_.isTerminal = true ∧ to_ ≠ .quarantined := by
      rcases out with rfl | rfl <;> decide
    rcases sched with rfl | rfl
    · refine ⟨_, .set row jobs ?_ (.finish to_ (s.index.listing id).sched none hlive hto.1 hto.2)⟩
      rw [index]
      simp [Job.face]
    · refine ⟨_, .set row jobs ?_ (.finish to_ none none hlive hto.1 hto.2)⟩
      rw [index]
      simp [Job.face]

/-- One id of the release worklist. -/
theorem releaseOne_touches (fp : String) (p : Store × Nat) (held : id ∈ p.1.index.qjobs fp) :
    Touches op now id p.1 (releaseOne now fp p id).1 := by
  unfold releaseOne
  cases row : p.1.job? id with
  | none =>
    refine .mark rfl (p.1.index.listing_cutQjobs fp id) ?_
    rw [Store.about, row]
    exact .stray rfl rfl (fun _ h => h.1) (.inl rfl) (.inl rfl)
  | some j =>
    dsimp only
    split
    · rename_i hquarantined
      refine .set row rfl ?_ (.release fp hquarantined held)
      simp [Store.setJob, Job.face]
    · rename_i hout
      refine .mark rfl (p.1.index.listing_cutQjobs fp id) ?_
      rw [Store.about, row]
      exact .row (.unheld fp hout)

end

/-! ## Section 4: Every call -/

section
variable {op : Op} {now : Int} {id : String} {s t : Store}

/-- The other ids are left alone. -/
theorem Touches.other (h : Touches op now id s t) {x : String} (hx : x ≠ id) :
    t.about x = s.about x := by
  obtain ⟨v, -, heq⟩ := h
  rw [heq, Function.update_of_ne hx]

/-- A sequence of changes, each to one id. -/
def TouchedBy (op : Op) (now : Int) : Store → Store → Prop :=
  ReflTransGen fun s t => ∃ id, Touches op now id s t

private theorem releaseLoop_touches (fp : String) {ids : List String} (p : Store × Nat)
    (hnodup : ids.Nodup) (hin : ∀ id ∈ ids, id ∈ p.1.index.qjobs fp) :
    TouchedBy op now p.1 (ids.foldl (releaseOne now fp) p).1 := by
  induction ids generalizing p with
  | nil => exact .refl
  | cons id rest ih =>
    rw [List.nodup_cons] at hnodup
    have hone : Touches op now id p.1 (releaseOne now fp p id).1 :=
      releaseOne_touches fp p (hin id List.mem_cons_self)
    refine .head ⟨id, hone⟩ (ih (releaseOne now fp p id) hnodup.2 fun x hx => ?_)
    have hsame := hone.other (x := x) fun heq => hnodup.1 (heq ▸ hx)
    exact (congrArg (fun v => v.2.qjobs fp) hsame).mpr (hin x (List.mem_cons_of_mem _ hx))

/-- Every call is a sequence of changes, each to one id. -/
theorem step_touches (s : Store) (c : Call) (hentries : EntriesOk s) :
    TouchedBy c.op c.now s (step s c) := by
  -- the two calls that are not plain loop over ids, or over candidates
  by_cases hplain : c.op.isPlain
  · exact .mono (fun _ _ => Write.touches) _ _ (step_writes s c hplain)
  · obtain ⟨now, op⟩ := c
    cases op with
    | quarantineRelease fp order =>
      have herase : ∃ id, Touches (.quarantineRelease fp order) now id s
          { s with policy := { s.policy with quarantine := s.policy.quarantine.erase fp } } :=
        ⟨"", .still rfl rfl⟩
      exact .head herase (releaseLoop_touches fp (_, 0) (order.nodup _) fun id hid =>
        (order.mem_list _ _).mp hid)
    | admission req order =>
      exact .mono (fun _ _ => GateWrite.touches) _ _ (admitCall_writes now req order hentries)
    | _ => exact absurd trivial hplain

/-- What a change keeps about its id, it keeps about all. -/
theorem Touches.keeps {P : Option Face × Listing → Prop} (h : Touches op now id s t)
    (touch : ∀ v', Touch op now (s.about id) v' → P (s.about id) → P v')
    (hs : ∀ x, P (s.about x)) (x : String) : P (t.about x) := by
  obtain ⟨v, htouch, heq⟩ := h
  rw [heq]
  by_cases hx : x = id
  · subst hx
    rw [Function.update_self]
    exact touch v htouch (hs x)
  · rw [Function.update_of_ne hx]
    exact hs x

theorem TouchedBy.keeps {P : Option Face × Listing → Prop} (h : TouchedBy op now s t)
    (touch : ∀ v v', Touch op now v v' → P v → P v') (hs : ∀ id, P (s.about id)) :
    ∀ id, P (t.about id) := by
  induction h with
  | refl => exact hs
  | tail _ step ih =>
    obtain ⟨id, step⟩ := step
    exact step.keeps (touch _) ih

/-- **Run rule** for what the keyspace has about one id. -/
theorem exec_about {P : Option Face × Listing → Prop} {C : Store → Call → Prop}
    (init : ∀ id, P (Store.init.about id))
    (touch : ∀ s c, C s c → ∀ v v', Touch c.op c.now v v' → P v → P v') {calls : List Call}
    (h : EachStep step C Store.init calls) : ∀ id, P ((exec calls).about id) := by
  refine @exec_invariant (fun s => ∀ id, P (s.about id)) C init
    (fun calls c hc hs => ?_) calls h
  exact (step_touches _ c (exec_entriesOk calls)).keeps (touch _ c hc) hs

end

end Headgate.Redis
