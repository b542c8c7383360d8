import Headgate.Redis.Listing

/-!
# The state index

Inspection and bulk operations find jobs through `idx:{queue}:{state}`.  The
contract in the header of `admin.lua` says under which score: the due time while
a job waits, the time of its claim while it runs, the time it was finalized once
it is terminal.  Every script moves the entries by hand; `Indexed` says that after
each of them the zsets are exactly what the contract makes of the job hashes.
-/

namespace Headgate.Redis

open Headgate.Core Data

/-! ## Section 1: The contract -/

/-- The score of a job in the index. -/
def Job.indexScore (j : Job) : Option Int :=
  match j.state with
  | .pending | .scheduled | .available | .retryable => some j.scheduledAtMs
  | .running => j.lease.map Lease.claimedAtMs
  | .completed | .archived | .cancelled | .quarantined | .undecodable => j.finalizedAtMs

/-- What the zset of a queue and a state says about a job. -/
def Job.cell (queue : String) (st : State) (j : Job) : Option Int :=
  if j.queue = queue ∧ j.state = st then j.indexScore else none

/-- The zsets mirror the job hashes, and every job has a score. -/
structure Indexed (s : Store) : Prop where
  cells : ∀ queue st, Mirrors (Job.cell queue st) s.job? (s.index.idx queue st).score
  scored : ∀ id j, s.job? id = some j → ∃ sc, j.indexScore = some sc

/-! ## Section 2: One id -/

namespace Face

/-- The score by what the index goes by. -/
def score (f : Face) : Option Int :=
  match f.state with
  | .pending | .scheduled | .available | .retryable => some f.scheduledAtMs
  | .running => f.claimedAtMs
  | .completed | .archived | .cancelled | .quarantined | .undecodable => f.finalizedAtMs

variable {f : Face}

theorem score_of_mutable (h : State.isMutable f.state = true) : f.score = some f.scheduledAtMs := by
  unfold score
  cases hst : f.state <;> simp_all [State.isMutable]

theorem score_of_terminal (h : f.state.isTerminal = true) : f.score = f.finalizedAtMs := by
  unfold score
  cases hst : f.state <;> simp_all [State.isTerminal]

end Face

/-- The entries of an id in the zsets are those of its job. -/
def IndexedAt : Option Face × Listing → Prop
  | (none, x) => ∀ queue st, x.idx queue st = none
  | (some f, x) => ∃ sc, f.score = some sc ∧
      ∀ queue st, x.idx queue st = if queue = f.queue ∧ st = f.state then some sc else none

section
variable {op : Op} {now : Int} {f f' : Face} {x x' : Listing}

/-- A job changes state, or its score in the same state, and its entry moves. -/
theorem IndexedAt.move {sc : Int} (h : IndexedAt (some f, x)) (queue : f'.queue = f.queue)
    (score : f'.score = some sc) (idx : ∀ q st, x'.idx q st =
      if q = f.queue ∧ st = f'.state then some sc
      else if q = f.queue ∧ st = f.state then none else x.idx q st) : IndexedAt (some f', x') := by
  obtain ⟨old, -, hold⟩ := h
  refine ⟨sc, score, fun q st => ?_⟩
  rw [idx, hold, queue]
  split
  · rfl
  · -- it was in no other zset than its own
    split <;> rfl

theorem IndexedAt.delete (h : IndexedAt (some f, x))
    (idx : ∀ q st, x'.idx q st = if q = f.queue ∧ st = f.state then none else x.idx q st) :
    IndexedAt (none, x') := by
  obtain ⟨old, -, hold⟩ := h
  intro q st
  rw [idx, hold]
  split <;> rfl

theorem Change.indexed {f' : Option Face} (c : Change op now f x f' x')
    (h : IndexedAt (some f, x)) : IndexedAt (f', x') := by
  cases c with
  | same | reprint | retain | unsched | unret | unheld => exact h
  | edit =>
    split
    · exact h
    · exact h
  | due at_ delayed =>
    refine h.move rfl (Face.score_of_mutable (isMutable_of_isWaiting (isWaiting_of_due delayed)))
      fun q st => ?_
    simp only [Listing.addIdx]
    split <;> rfl
  | activate to_ at_ sched was waiting | requeue to_ at_ sched was waiting =>
    refine h.move rfl (Face.score_of_mutable (isMutable_of_isWaiting waiting)) ?_
    rw [was]
    exact fun _ _ => rfl
  | finish to_ sched claimed live terminal =>
    exact h.move rfl (Face.score_of_terminal terminal) fun _ _ => rfl
  | debounce | promote | claim | retry | sweep => exact h.move rfl rfl fun _ _ => rfl
  | crash was | release fp was =>
    refine h.move rfl rfl ?_
    rw [was]
    exact fun _ _ => rfl
  | finishDelete was =>
    refine h.delete ?_
    rw [was]
    exact fun _ _ => rfl
  | delete | evict => exact h.delete fun _ _ => rfl

theorem isMutable_initialState (now : Int) (e : Envelope) :
    State.isMutable (initialState now e) = true := by
  unfold initialState
  split
  · rfl
  · split <;> rfl

theorem Touch.indexed {v v' : Option Face × Listing} (c : Touch op now v v') (h : IndexedAt v) :
    IndexedAt v' := by
  cases c with
  | row change => exact change.indexed h
  | arrive e f mem new =>
    -- nothing was indexed under an id without a hash
    refine ⟨_, Face.score_of_mutable (new ▸ isMutable_initialState now e), fun q st => ?_⟩
    simp only [Listing.addFpi, Listing.addIdx, h q st]
  | stray idx =>
    intro q st
    rw [idx]
    exact h q st

end

/-! ## Section 3: Along every run -/

theorem exec_indexedAt (calls : List Call) (id : String) : IndexedAt ((exec calls).about id) :=
  exec_about (fun _ _ _ => rfl) (fun _ _ _ _ _ => Touch.indexed) (.trivial calls _) id

/-- **The index is exact.**  In every reachable store a job stands in the one zset of its
queue and state, under the score of the contract, and nothing else stands anywhere. -/
theorem exec_state_index (calls : List Call) :
    (∀ id j, (exec calls).job? id = some j → ∃ sc, j.indexScore = some sc ∧
      ∀ queue st, ((exec calls).index.idx queue st).score id =
        if queue = j.queue ∧ st = j.state then some sc else none) ∧
    ∀ id queue st, (exec calls).job? id = none →
      ((exec calls).index.idx queue st).score id = none := by
  have hindexed := exec_indexedAt calls
  refine ⟨fun id j row => ?_, fun id queue st absent => ?_⟩
  · have hid := hindexed id
    rw [Store.about, row] at hid
    exact hid
  · have hid := hindexed id
    rw [Store.about, absent] at hid
    exact hid queue st

theorem exec_indexed (calls : List Call) : Indexed (exec calls) := by
  have hindexed := exec_indexedAt calls
  refine ⟨fun queue st id => ?_, fun id j row => ?_⟩
  · have hid := hindexed id
    unfold Store.about at hid
    cases row : (exec calls).job? id with
    | none =>
      rw [row] at hid
      exact hid queue st
    | some j =>
      rw [row] at hid
      obtain ⟨sc, hsc, hcells⟩ := hid
      have hscore : j.indexScore = some sc := hsc
      refine (hcells queue st).trans ?_
      show _ = Job.cell queue st j
      rw [Job.cell, hscore]
      exact if_congr (by simp [Job.face, eq_comm]) rfl rfl
  · have hid := hindexed id
    rw [Store.about, row] at hid
    obtain ⟨sc, hsc, -⟩ := hid
    exact ⟨sc, hsc⟩

end Headgate.Redis
