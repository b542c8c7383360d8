import Headgate.Redis.Store

/-!
# The helpers the scripts share

Every script opens with the same local functions over the keyspace
(`pending_key`, `add_waiting`, `remove_waiting`, `drop_lease`, `release_unique`,
...).  They are translated once here, first on the group of keys they touch and
then on the whole store, so that a script reads as the list of its writes.
-/

namespace Headgate.Redis

open Headgate.Core Data

/-! ## Section 1: Key names -/

def pendingKey (queue part sticky : String) : String :=
  let k := queue ++ ":" ++ part
  if sticky ≠ "" then k ++ ":worker:" ++ sticky else k

def routeToken (sticky : String) : String := if sticky ≠ "" then sticky else "*"

/-- The suffix of `pending-routes:` and of `runningp:`. -/
def partKey (queue part : String) : String := queue ++ ":" ++ part

/-! ## Section 2: Waiting jobs -/

namespace Waiting

def setPending (w : Waiting) (key : String) (z : ZSet String) : Waiting :=
  { w with pending := Function.update w.pending key z }

def setRoutes (w : Waiting) (key : String) (rs : Finset String) : Waiting :=
  { w with routes := Function.update w.routes key rs }

def setParts (w : Waiting) (queue : String) (ps : Finset String) : Waiting :=
  { w with parts := Function.update w.parts queue ps }

def add (w : Waiting) (id queue part sticky : String) (score : Int) : Waiting :=
  let pk := pendingKey queue part sticky
  let rk := partKey queue part
  { pending := Function.update w.pending pk ((w.pending pk).add score id)
    routes := Function.update w.routes rk (insert (routeToken sticky) (w.routes rk))
    parts := Function.update w.parts queue (insert part (w.parts queue)) }

/-- The first half of `remove_waiting`: the entry, and its route token when the
stream is empty. -/
def dropEntry (w : Waiting) (id queue part sticky : String) : Waiting :=
  let pk := pendingKey queue part sticky
  let rk := partKey queue part
  let w' := w.setPending pk ((w.pending pk).remove id)
  if (w'.pending pk).card = 0 then
    w'.setRoutes rk ((w'.routes rk).erase (routeToken sticky))
  else w'

/-- The second half of `remove_waiting`: a partition without routes leaves
`parts:{queue}`, unless an ordinary stream without its token is still there. -/
def tidyPart (w : Waiting) (queue part : String) : Waiting :=
  let rk := partKey queue part
  if (w.routes rk).card = 0 then
    if (w.pending (pendingKey queue part "")).card > 0 then
      w.setRoutes rk (insert "*" (w.routes rk))
    else w.setParts queue ((w.parts queue).erase part)
  else w

def remove (w : Waiting) (id queue part sticky : String) : Waiting :=
  (w.dropEntry id queue part sticky).tidyPart queue part

/-- The reply of `ZREM`: was the id in the stream? -/
def holds (w : Waiting) (id queue part sticky : String) : Bool :=
  ((w.pending (pendingKey queue part sticky)).score id).isSome

end Waiting

/-! ## Section 3: Running jobs -/

namespace Running

/-- `HINCRBY` by minus one, clamped at zero. -/
def decInflight (r : Running) (queue part : String) : Running :=
  let left := r.inflight queue part - 1
  { r with
    inflight := Function.update r.inflight queue
      (Function.update (r.inflight queue) part (if left < 0 then 0 else left)) }

def incInflight (r : Running) (queue part : String) : Running :=
  { r with
    inflight := Function.update r.inflight queue
      (Function.update (r.inflight queue) part (r.inflight queue part + 1)) }

/-- A claim: lease entry, running set and counter.  `runningp` is written only
when the selection is over. -/
def claim (r : Running) (id queue part : String) (expires : Int) : Running :=
  let r' := r.incInflight queue part
  { r' with
    lease := r.lease.add expires id
    running := Function.update r.running queue (insert id (r.running queue)) }

def addRunningp (r : Running) (id queue part : String) (now : Int) : Running :=
  let k := partKey queue part
  { r with runningp := Function.update r.runningp k ((r.runningp k).add now id) }

def purgeRunningp (r : Running) (key id : String) : Running :=
  { r with runningp := Function.update r.runningp key ((r.runningp key).remove id) }

/-- `drop_lease` on the running keys. -/
def drop (r : Running) (id queue part : String) : Running :=
  let k := partKey queue part
  let r' := r.decInflight queue part
  { r' with
    lease := r.lease.remove id
    running := Function.update r.running queue ((r.running queue).erase id)
    runningp := Function.update r.runningp k ((r.runningp k).remove id) }

end Running

theorem mem_update_insert {t : String → Finset String} {a b x y : String} :
    y ∈ Function.update t a (insert b (t a)) x ↔ y ∈ t x ∨ y = b ∧ x = a := by
  by_cases hx : x = a
  · subst hx
    simp [or_comm]
  · simp [hx]

/-! ## Section 4: Unique keys -/

namespace Holders

/-- Release a lifecycle key, only if it still points at this job. -/
def release (u : Holders) (id : String) (j : Job) : Holders :=
  if j.hasLifecycleKey ∧ u.unique j.uniqueKey = some id then
    { u with unique := Function.update u.unique j.uniqueKey none }
  else u

def acquire (u : Holders) (key : Bytes) (id : String) : Holders :=
  { u with unique := Function.update u.unique key (some id) }

/-- `SET uniquet:{key} id PX window`. -/
def throttle (u : Holders) (key : Bytes) (id : String) (until_ : Int) : Holders :=
  { u with uniquet := Function.update u.uniquet key (some (id, until_)) }

/-- `GET uniquet:{key}`: the holder up to the instant its TTL ends. -/
def throttledBy (u : Holders) (key : Bytes) (now : Int) : Option String :=
  match u.uniquet key with
  | some (id, until_) => if now ≤ until_ then some id else none
  | none => none

end Holders

/-! ## Section 5: Indexes -/

namespace Index

def addIdx (x : Index) (queue : String) (st : State) (score : Int) (id : String) : Index :=
  { x with
    idx := Function.update x.idx queue
      (Function.update (x.idx queue) st ((x.idx queue st).add score id)) }

def remIdx (x : Index) (queue : String) (st : State) (id : String) : Index :=
  { x with
    idx := Function.update x.idx queue
      (Function.update (x.idx queue) st ((x.idx queue st).remove id)) }

/-- Leave one state's zset for another's. -/
def moveIdx (x : Index) (queue : String) (from_ to_ : State) (score : Int) (id : String) : Index :=
  (x.remIdx queue from_ id).addIdx queue to_ score id

def addSched (x : Index) (score : Int) (id : String) : Index :=
  { x with sched := x.sched.add score id }

def remSched (x : Index) (id : String) : Index := { x with sched := x.sched.remove id }

/-- `if retention > 0 then ZADD ret (now + retention)`. -/
def retain (x : Index) (now retention : Int) (id : String) : Index :=
  if retention > 0 then { x with ret := x.ret.add (now + retention) id } else x

def remRet (x : Index) (id : String) : Index := { x with ret := x.ret.remove id }

def putFpi (x : Index) (fp id : String) : Index :=
  { x with fpi := Function.update x.fpi fp (insert id (x.fpi fp)) }

def cutFpi (x : Index) (fp id : String) : Index :=
  { x with fpi := Function.update x.fpi fp ((x.fpi fp).erase id) }

def putQjobs (x : Index) (fp id : String) : Index :=
  { x with qjobs := Function.update x.qjobs fp (insert id (x.qjobs fp)) }

def cutQjobs (x : Index) (fp id : String) : Index :=
  { x with qjobs := Function.update x.qjobs fp ((x.qjobs fp).erase id) }

-- a job without a fingerprint is in no fingerprint set: `if fp ~= '' then ...`
def addFpi (x : Index) (fp id : String) : Index := if fp ≠ "" then x.putFpi fp id else x

def remFpi (x : Index) (fp id : String) : Index := if fp ≠ "" then x.cutFpi fp id else x

def addQjobs (x : Index) (fp id : String) : Index := if fp ≠ "" then x.putQjobs fp id else x

def remQjobs (x : Index) (fp id : String) : Index := if fp ≠ "" then x.cutQjobs fp id else x

def addTags (x : Index) (tags : List String) (id : String) : Index :=
  { x with tag := tags.foldl (fun t k => Function.update t k (insert id (t k))) x.tag }

def remTags (x : Index) (tags : List String) (id : String) : Index :=
  { x with tag := tags.foldl (fun t k => Function.update t k ((t k).erase id)) x.tag }

end Index

/-! ## Section 6: Depth counters -/

namespace Policy

def setEnqueue (p : Policy) (queue : String) (c : EnqueueCounters) : Policy :=
  { p with enqueue := Function.update p.enqueue queue c }

def enterUnfinished (p : Policy) (queue : String) : Policy :=
  p.setEnqueue queue { p.enqueue queue with entered := (p.enqueue queue).entered + 1 }

def leaveUnfinished (p : Policy) (queue : String) : Policy :=
  p.setEnqueue queue { p.enqueue queue with exited := (p.enqueue queue).exited + 1 }

def setRate (p : Policy) (name : String) (b : Bucket) : Policy :=
  { p with rate := Function.update p.rate name (some b) }

end Policy

/-! ## Section 7: The store -/

namespace Store

def job? (s : Store) (id : String) : Option Job := s.jobs.lookup id

def setJob (s : Store) (id : String) (j : Job) : Store := { s with jobs := s.jobs.insert id j }

def delJob (s : Store) (id : String) : Store := { s with jobs := s.jobs.erase id }

def record (s : Store) (e : Event) : Store := { s with history := e :: s.history }

section
variable (s : Store) (id id' : String)

@[simp] theorem job?_init : Store.init.job? id = none := by
  simp [job?, Store.init]

@[simp] theorem job?_setJob (j : Job) :
    (s.setJob id j).job? id' = if id' = id then some j else s.job? id' := by
  unfold job? setJob
  by_cases h : id' = id
  · subst h
    simp
  · simp [h, Finmap.lookup_insert_of_ne]

theorem job?_of_insert {s t : Store} {id : String} {j : Job} (jobs : t.jobs = s.jobs.insert id j)
    (x : String) : t.job? x = if x = id then some j else s.job? x := by
  rw [← job?_setJob s id x j]
  simp only [job?, setJob, jobs]

@[simp] theorem job?_delJob : (s.delJob id).job? id' = if id' = id then none else s.job? id' := by
  unfold job? delJob
  by_cases h : id' = id
  · subst h
    simp
  · simp [h, Finmap.lookup_erase_ne]

/-- The ids that own a hash. -/
def ids (s : Store) : Finset String := s.jobs.keys

@[simp] theorem mem_ids : id ∈ s.ids ↔ ∃ j, s.job? id = some j := by
  rw [ids, Finmap.mem_keys, Finmap.mem_iff]
  rfl

end

end Store

/-- The attempt timeline keeps its last fifty entries. -/
def pushEntry (errors : List AttemptEntry) (e : AttemptEntry) : List AttemptEntry :=
  (if errors.length ≥ 50 then errors.drop 1 else errors) ++ [e]

/-- Exponential backoff with a cap: `min(cap, base * 2 ^ min(n - 1, 20))`. -/
def backoff (base cap : Int) (n : Nat) : Int := min cap (base * 2 ^ min (n - 1) 20)

end Headgate.Redis
