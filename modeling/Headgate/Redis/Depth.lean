import Headgate.Redis.StateIndex
import Headgate.Redis.Transitions

/-!
# Depth counters

The hash `enqueue:{queue}` counts the jobs of a queue that became unfinished and
those that stopped being so.  The producer limit and the deletion of a queue read
the difference.  Every write to a job hash moves the counters of its queue by what
the write does to the number of unfinished jobs, so the difference is exact until
the first `qlimit` on a queue rebases it: that sum leaves the pending jobs out.
-/

namespace Headgate.Redis

open Headgate.Core Data Relation

variable {s s' : Store} {queue : String} {batch fresh : List Envelope} {row : Option Job}
  {rule : String → Lifecycle → Option Lifecycle → Prop} {limit : Int}

/-! ## Section 1: The unfinished jobs of a queue -/

/-- The ids of a queue's jobs with the given property. -/
def Store.idsIn (s : Store) (queue : String) (P : State → Bool) : Finset String :=
  s.ids.filter fun id => (s.job? id).any fun j => j.queue = queue && P j.state

def Store.unfinishedIn (s : Store) (queue : String) : Finset String :=
  s.idsIn queue State.isUnfinished

def Store.pendingIn (s : Store) (queue : String) : Finset String :=
  s.idsIn queue fun st => st = .pending

/-- A job of the queue with the given property. -/
abbrev InQueue (queue : String) (P : State → Bool) (j : Job) : Prop :=
  j.queue = queue ∧ P j.state = true

theorem Store.idsIn_lists (s : Store) (queue : String) (P : State → Bool) :
    Lists (InQueue queue P) s.job? (s.idsIn queue P) := by
  intro id
  rw [Store.idsIn, Finset.mem_filter, Store.mem_ids]
  cases hrow : s.job? id with
  | none | some => simp

theorem unfinishedIn_of_jobs (jobs : s'.jobs = s.jobs) (queue : String) :
    s'.unfinishedIn queue = s.unfinishedIn queue := by
  unfold Store.unfinishedIn Store.idsIn Store.ids Store.job?
  rw [jobs]

/-- What the counters of a queue say. -/
def EnqueueCounters.depth (c : EnqueueCounters) : Int := c.entered - c.exited

/-- The counters of every queue count its unfinished jobs. -/
def DepthExact (s : Store) : Prop :=
  ∀ queue, (s.policy.enqueue queue).depth = (s.unfinishedIn queue).card

theorem depthExact_init : DepthExact Store.init := by
  intro queue
  have hempty : Store.init.unfinishedIn queue = ∅ := by
    apply Finset.eq_empty_of_forall_notMem
    intro id hid
    obtain ⟨j, row, -⟩ := (Store.init.idsIn_lists queue _ id).mp hid
    simp at row
  rw [hempty]
  rfl

/-! ## Section 2: One write -/

theorem depth_shiftDepth (depth : String → EnqueueCounters) (queue other : String)
    (before after : Bool) :
    (shiftDepth depth queue before after other).depth =
      (depth other).depth + if other = queue then (after.toNat : Int) - before.toNat else 0 := by
  by_cases hother : other = queue
  · subst hother
    cases before <;> cases after <;> simp [shiftDepth, EnqueueCounters.depth] <;> omega
  · cases before <;> cases after <;> simp [shiftDepth, hother]

/-- What a row adds to the unfinished jobs of a queue. -/
theorem tally_inQueue {other : String} (hqueue : ∀ j ∈ row, j.queue = queue) :
    tally (InQueue other State.isUnfinished) row
      = if other = queue then ((unfinished row).toNat : Int) else 0 := by
  cases row with
  | none => simp [tally, unfinished]
  | some j =>
    have hj : j.queue = queue := hqueue j rfl
    by_cases hother : other = queue
    · cases hst : j.state.isUnfinished <;> simp [tally, unfinished, hj, hother, hst]
    · have hne : ¬ queue = other := fun h => hother h.symm
      simp [tally, hj, hother, hne]

/-- A write that replaces a row and moves the counters by what the rows say keeps them exact. -/
theorem DepthExact.replace (h : DepthExact s) (queue : String) {id : String}
    (rows : ∀ x, s'.job? x = if x = id then row else s.job? x)
    (before : ∀ j ∈ s.job? id, j.queue = queue) (after : ∀ j ∈ row, j.queue = queue)
    (depth : s'.policy.enqueue
      = shiftDepth s.policy.enqueue queue (unfinished (s.job? id)) (unfinished row)) :
    DepthExact s' := by
  intro other
  -- one row is exchanged, so the count changes by that row alone
  have hcard := (s.idsIn_lists other State.isUnfinished).card_replace
    (s'.idsIn_lists other State.isUnfinished) rows
  rw [tally_inQueue after, tally_inQueue before] at hcard
  have hold := h other
  unfold Store.unfinishedIn at hold ⊢
  rw [depth, depth_shiftDepth, hold, hcard]
  split <;> omega

theorem LifeWrite.depthExact (t : LifeWrite batch rule s s') (h : DepthExact s) : DepthExact s' := by
  cases t with
  | still jobs depth =>
    intro queue
    rw [depth, unfinishedIn_of_jobs jobs]
    exact h queue
  | arrive now e mem absent retention rows depth =>
    refine h.replace e.queue rows ?_ ?_ ?_
    · simp [absent]
    · intro j hj
      cases hj
      rfl
    · -- a new job is unfinished in each of its three initial states
      have hstate : unfinished (some (newJob now e)) = true := by
        show (initialState now e).isUnfinished = true
        unfold initialState
        split
        · rfl
        · split <;> rfl
      rw [absent, hstate]
      exact depth
  | change id j new row rows queue hrule depth =>
    refine h.replace j.queue rows ?_ queue ?_
    · intro k hk
      rw [row] at hk
      cases hk
      rfl
    · rw [row]
      exact depth

theorem LifeWrites.depthExact (t : LifeWrites batch rule s s') (h : DepthExact s) : DepthExact s' := by
  induction t with
  | refl => exact h
  | tail _ hstep ih => exact hstep.depthExact ih

/-! ## Section 3: The calls that set the counters -/

/-- The index of a state lists the jobs of the queue in that state. -/
theorem Indexed.idsIn (h : Indexed s) (queue : String) (st : State) :
    (s.index.idx queue st).members.toFinset = s.idsIn queue fun x => x = st := by
  refine Lists.unique (s.idsIn_lists queue _) fun id => ?_
  rw [List.mem_toFinset, ZSet.mem_members]
  have hcell := h.cells queue st id
  constructor
  · rintro ⟨sc, hsc⟩
    rw [hsc] at hcell
    obtain ⟨j, row, hentry⟩ := Option.bind_eq_some_iff.mp hcell.symm
    refine ⟨j, row, ?_⟩
    unfold Job.cell at hentry
    split at hentry
    · rename_i hj
      exact ⟨hj.1, by simpa using hj.2⟩
    · cases hentry
  · rintro ⟨j, row, hqueue, hstate⟩
    -- every row has a score, so none of the state is missing from the zset
    obtain ⟨sc, hsc⟩ := h.scored id j row
    refine ⟨sc, ?_⟩
    rw [hcell, row]
    show Job.cell queue st j = some sc
    rw [Job.cell, if_pos ⟨hqueue, by simpa using hstate⟩]
    exact hsc

theorem Indexed.card (h : Indexed s) (queue : String) (st : State) :
    (s.index.idx queue st).card = (s.idsIn queue fun x => x = st).card := by
  rw [← h.idsIn queue st, ZSet.card_members]

/-- The unfinished jobs of a queue, state by state. -/
theorem card_unfinishedIn (s : Store) (queue : String) :
    (s.unfinishedIn queue).card = (s.pendingIn queue).card
      + (s.idsIn queue fun x => x = .scheduled).card + (s.idsIn queue fun x => x = .available).card
      + (s.idsIn queue fun x => x = .running).card
      + (s.idsIn queue fun x => x = .retryable).card := by
  let stateOfId : String → Option State := fun id => (s.job? id).map Job.state
  let states : Finset (Option State) :=
    {some .pending, some .scheduled, some .available, some .running, some .retryable}
  have hmaps : ∀ id ∈ s.unfinishedIn queue, stateOfId id ∈ states := by
    intro id hid
    obtain ⟨j, row, -, hstate⟩ := (s.idsIn_lists queue _ id).mp hid
    show (s.job? id).map Job.state ∈ states
    rw [row]
    cases hst : j.state <;> simp_all [State.isUnfinished, states]
  have hfiber : ∀ st : State, st.isUnfinished = true →
      (s.unfinishedIn queue).filter (fun id => stateOfId id = some st)
        = s.idsIn queue fun x => x = st := by
    intro st hst
    refine Lists.unique (s.idsIn_lists queue _) fun id => ?_
    rw [Finset.mem_filter, Store.unfinishedIn, s.idsIn_lists queue State.isUnfinished id]
    show ((∃ j, s.job? id = some j ∧ InQueue queue State.isUnfinished j)
      ∧ (s.job? id).map Job.state = some st) ↔ _
    cases hrow : s.job? id with
    | none => simp
    | some =>
      simp only [Option.some.injEq, exists_eq_left', Option.map_some, InQueue, decide_eq_true_eq]
      constructor
      · rintro ⟨⟨hqueue, -⟩, hstate⟩
        exact ⟨hqueue, hstate⟩
      · rintro ⟨hqueue, hstate⟩
        exact ⟨⟨hqueue, by rw [hstate]; exact hst⟩, hstate⟩
  rw [Finset.card_eq_sum_card_fiberwise hmaps]
  rw [Finset.sum_insert (by decide), Finset.sum_insert (by decide), Finset.sum_insert (by decide),
    Finset.sum_insert (by decide), Finset.sum_singleton, hfiber _ rfl, hfiber _ rfl, hfiber _ rfl,
    hfiber _ rfl, hfiber _ rfl]
  unfold Store.pendingIn
  omega

/-- A rebase of the counters finds no pending job. -/
def RebaseOk (s : Store) (c : Call) : Prop :=
  match c.op with
  | .setEnqueueLimit queue _ => (s.policy.enqueue queue).counted = true ∨ s.pendingIn queue = ∅
  | _ => True

instance (s : Store) (c : Call) : Decidable (RebaseOk s c) := by
  unfold RebaseOk
  split <;> infer_instance

/-- A queue's counters after `qlimit`: the pending jobs are lost by the first one. -/
theorem setEnqueueLimit_depth (hindexed : Indexed s) (h : DepthExact s) (queue other : String)
    (limit : Option Int) :
    ((setEnqueueLimit queue limit s).policy.enqueue other).depth = (s.unfinishedIn other).card
      - if other = queue ∧ (s.policy.enqueue queue).counted = false
        then ((s.pendingIn queue).card : Int) else 0 := by
  have hcounters : (setEnqueueLimit queue limit s).policy.enqueue
      = Function.update s.policy.enqueue queue
        ((setEnqueueLimit queue limit s).policy.enqueue queue) := by
    funext q
    by_cases hq : q = queue
    · subst hq
      simp
    · simp [setEnqueueLimit, Policy.setEnqueue, hq]
  by_cases hother : other = queue
  · subst hother
    have hold := h other
    have hsum := card_unfinishedIn s other
    -- a queue that is counted already keeps its counters; otherwise four zsets are added up
    cases hcounted : (s.policy.enqueue other).counted with
    | true =>
      simp only [setEnqueueLimit, Policy.setEnqueue, Function.update_self, hcounted, if_true]
      simpa [EnqueueCounters.depth] using hold
    | false =>
      simp only [setEnqueueLimit, Policy.setEnqueue, Function.update_self, hcounted,
        EnqueueCounters.depth, Bool.false_eq_true, if_false, hindexed.card]
      simp only [and_self, if_true]
      omega
  · rw [hcounters, Function.update_of_ne hother, if_neg fun hc => hother hc.1, h other]
    omega

theorem setEnqueueLimit_depthExact_iff (hindexed : Indexed s) (h : DepthExact s) (queue : String)
    (limit : Option Int) :
    DepthExact (setEnqueueLimit queue limit s) ↔
      (s.policy.enqueue queue).counted = true ∨ s.pendingIn queue = ∅ := by
  have hjobs : ∀ other, (setEnqueueLimit queue limit s).unfinishedIn other = s.unfinishedIn other :=
    fun other => unfinishedIn_of_jobs (s := s) rfl other
  constructor
  · -- the first limit leaves the pending jobs out of the sum
    intro hexact
    have hqueue := hexact queue
    rw [hjobs, setEnqueueLimit_depth hindexed h] at hqueue
    cases hcounted : (s.policy.enqueue queue).counted with
    | true => exact .inl rfl
    | false =>
      rw [if_pos ⟨rfl, hcounted⟩] at hqueue
      refine .inr (Finset.card_eq_zero.mp ?_)
      omega
  · intro hok other
    rw [hjobs, setEnqueueLimit_depth hindexed h]
    split
    · rename_i hc
      rcases hok with hcounted | hnone
      · rw [hc.2] at hcounted
        cases hcounted
      · rw [hnone]
        simp
    · omega

theorem deleteQueue_depthExact (h : DepthExact s) (queue : String) (force : Bool) :
    DepthExact { s with policy := deleteQueue queue force s.policy } := by
  intro other
  have hjobs : ({ s with policy := deleteQueue queue force s.policy } : Store).unfinishedIn other
      = s.unfinishedIn other := unfinishedIn_of_jobs (s := s) rfl other
  rw [hjobs]
  have hold := h other
  unfold deleteQueue
  dsimp only
  split
  · exact hold
  · by_cases hother : other = queue
    · subst hother
      split
      · -- counters at zero: nothing is unfinished, so the deleted hash is exact too
        simp only [Policy.setEnqueue, Function.update_self]
        unfold EnqueueCounters.depth at hold ⊢
        dsimp only
        omega
      · simp only [Policy.setEnqueue, Function.update_self]
        exact hold
    · split <;> simpa [Policy.setEnqueue, hother] using hold

/-! ## Section 4: Runs -/

theorem step_depthExact {c : Call} (hentries : EntriesOk s) (hretention : RetentionOk s)
    (hindexed : Indexed s) (hrebase : RebaseOk s c) (h : DepthExact s) : DepthExact (step s c) := by
  by_cases hreset : c.op.resetsDepth
  · obtain ⟨now, op⟩ := c
    cases op with
    | setEnqueueLimit queue limit =>
      exact (setEnqueueLimit_depthExact_iff hindexed h queue limit).mpr hrebase
    | deleteQueue queue force => exact deleteQueue_depthExact h queue force
    | _ => exact hreset.elim
  · exact (step_lifeWrites c hentries hretention hreset).depthExact h

theorem exec_depthExact {calls : List Call} (h : EachStep step RebaseOk Store.init calls) :
    DepthExact (exec calls) :=
  exec_invariant depthExact_init (fun calls _ => step_depthExact (exec_entriesOk calls)
    (exec_retentionOk calls) (exec_indexed calls)) h

/-! ## Section 5: What the counters decide -/

/-- The answers of `queue_delete`. -/
inductive QueueDeleteReply where
  | nonempty (depth : Int)
  | empty
  | queued
  deriving DecidableEq, Repr

/-- `queue_delete` with its answer. -/
def queueDelete (queue : String) (force : Bool) (p : Policy) : Policy × QueueDeleteReply :=
  let c := p.enqueue queue
  let depth := max 0 (c.entered - c.exited)
  (deleteQueue queue force p,
    if depth > 0 ∧ force = false then .nonempty depth
    else if depth = 0 then .empty
    else .queued)

theorem queueDelete_empty {force : Bool} {p : Policy} (h : (queueDelete queue force p).2 = .empty) :
    (p.enqueue queue).depth ≤ 0 := by
  unfold queueDelete at h
  dsimp only at h
  split at h
  · cases h
  · split at h
    · rename_i hdepth
      unfold EnqueueCounters.depth
      omega
    · cases h

theorem depthPass_none {queues : List String} (h : depthPass s fresh queues = none)
    (mem : queue ∈ queues) (hlimit : (s.policy.enqueue queue).limit = some limit) :
    (s.policy.enqueue queue).depth + demand fresh queue ≤ limit := by
  induction queues with
  | nil => cases mem
  | cons q rest ih =>
    unfold depthPass at h
    dsimp only at h
    -- the pass went on behind this queue, so its demand fitted
    rcases List.mem_cons.mp mem with rfl | hin
    · rw [hlimit] at h
      dsimp only at h
      split at h
      · cases h
      · rename_i hroom
        unfold EnqueueCounters.depth
        omega
    · split at h
      · exact ih h hin
      · split at h
        · cases h
        · exact ih h hin

theorem mem_demandQueues :
    queue ∈ demandQueues fresh ↔ ∃ e ∈ fresh, e.queue = queue := by
  simp [demandQueues, List.mem_insertionSort]

/-- The write pass enters every envelope once, into its own queue. -/
theorem depth_writePass (now : Int) (fresh : List Envelope) (s : Store) (queue : String) :
    ((fresh.foldl (writeJob now) s).policy.enqueue queue).depth
      = (s.policy.enqueue queue).depth + demand fresh queue := by
  induction fresh generalizing s with
  | nil => simp [demand]
  | cons e rest ih =>
    rw [List.foldl_cons, ih]
    have hone : ((writeJob now s e).policy.enqueue queue).depth
        = (s.policy.enqueue queue).depth + if e.queue = queue then 1 else 0 := by
      by_cases hqueue : e.queue = queue
      · subst hqueue
        simp [writeJob, Policy.enterUnfinished, Policy.setEnqueue, EnqueueCounters.depth,
          Store.setJob]
        omega
      · have hne : queue ≠ e.queue := fun h => hqueue h.symm
        simp [writeJob, Policy.enterUnfinished, Policy.setEnqueue, hqueue, hne, Store.setJob]
    have hdemand : demand (e :: rest) queue
        = demand rest queue + if e.queue = queue then 1 else 0 := by
      unfold demand
      rw [List.filter_cons]
      by_cases hqueue : e.queue = queue
      · simp [hqueue]
      · simp [hqueue]
    rw [hone, hdemand]
    omega

/-- An accepted batch that adds a job to a queue leaves the queue within its limit. -/
theorem Accepted.within_limit {now : Int} (h : Accepted now batch fresh s s')
    (hexact : DepthExact s') (hlimit : (s.policy.enqueue queue).limit = some limit) {e : Envelope}
    (mem : e ∈ fresh) (hqueue : e.queue = queue) :
    ((s'.unfinishedIn queue).card : Int) ≤ limit := by
  have hroom := depthPass_none h.room (mem_demandQueues.mpr ⟨e, mem, hqueue⟩) hlimit
  rw [← hexact queue, h.written, depth_writePass]
  exact hroom

/-- **Backpressure.**  In a run whose first `qlimit` on a queue never finds a pending job there,
the counters of every queue count its unfinished jobs.  So an accepted enqueue that adds a job to a
queue with a limit keeps within the limit, and a queue is deleted at once only if it has no
unfinished job. -/
theorem depth_counters (calls : List Call) (h : EachStep step RebaseOk Store.init calls) :
    (∀ queue, ((exec calls).policy.enqueue queue).entered
        - ((exec calls).policy.enqueue queue).exited = ((exec calls).unfinishedIn queue).card) ∧
    (∀ now batch queue limit id j,
      ((exec calls).policy.enqueue queue).limit = some limit →
      (enqueue now batch (exec calls)).2 = .ok () →
      (exec calls).job? id = none → (enqueue now batch (exec calls)).1.job? id = some j →
      j.queue = queue →
      (((enqueue now batch (exec calls)).1.unfinishedIn queue).card : Int) ≤ limit) ∧
    ∀ queue force, (queueDelete queue force (exec calls).policy).2 = .empty →
      (exec calls).unfinishedIn queue = ∅ := by
  have hexact := exec_depthExact h
  refine ⟨hexact, ?_, ?_⟩
  · intro now batch queue limit id j hlimit hok absent row hqueue
    obtain ⟨fresh, haccepted⟩ := enqueue_accepted hok
    obtain ⟨e, he, -, rfl⟩ := haccepted.added absent row
    -- the counter after the batch is the number of unfinished jobs, and it was checked
    have hafter : DepthExact (enqueue now batch (exec calls)).1 :=
      ((enqueue_writes now batch (exec calls)).lifeWrites (exec_retentionOk calls)
        not_false).depthExact hexact
    exact haccepted.within_limit hafter hlimit he hqueue
  · intro queue force hempty
    have hdepth := queueDelete_empty hempty
    rw [hexact queue] at hdepth
    apply Finset.card_eq_zero.mp
    omega

/-! ## Section 6: A pending job is left out -/

/-- Two jobs under a limit of two. -/
def limitedQueue : List Call :=
  [⟨0, .setEnqueueLimit "q" (some 2)⟩,
    ⟨1, .enqueue [{ id := "a", kind := "k", queue := "q", pending := true }]⟩]

theorem depth_counters_limited :
    EachStep step RebaseOk Store.init limitedQueue ∧
    (((enqueue 2 [{ id := "b", kind := "k", queue := "q" }] (exec limitedQueue)).1.unfinishedIn
      "q").card : Int) ≤ 2 := by
  have hrebase : EachStep step RebaseOk Store.init limitedQueue := by decide +kernel
  refine ⟨hrebase, ?_⟩
  have hafter : ∃ j, (enqueue 2 [{ id := "b", kind := "k", queue := "q" }]
      (exec limitedQueue)).1.job? "b" = some j ∧ j.queue = "q" := ⟨_, rfl, rfl⟩
  obtain ⟨j, row, hqueue⟩ := hafter
  exact (depth_counters limitedQueue hrebase).2.1 2 _ "q" 2 "b" j (by decide +kernel)
    (by decide +kernel) (by decide +kernel) row hqueue

/-- A pending job, then the first limit on its queue. -/
def rebasedQueue : List Call :=
  [⟨0, .enqueue [{ id := "a", kind := "k", queue := "q", pending := true }]⟩,
    ⟨1, .setEnqueueLimit "q" (some 1)⟩]

/-- The limit of one lets a second job in, and the deletion of the queue finds it empty. -/
theorem rebase_loses_pending :
    ((exec rebasedQueue).policy.enqueue "q").entered
      - ((exec rebasedQueue).policy.enqueue "q").exited = 0 ∧
    (exec rebasedQueue).unfinishedIn "q" = {"a"} ∧
    (enqueue 2 [{ id := "b", kind := "k", queue := "q" }] (exec rebasedQueue)).2 = .ok () ∧
    ((exec rebasedQueue).policy.enqueue "q").limit = some 1 ∧
    ((enqueue 2 [{ id := "b", kind := "k", queue := "q" }] (exec rebasedQueue)).1.unfinishedIn
      "q").card = 2 ∧
    (queueDelete "q" false (exec rebasedQueue).policy).2 = .empty := by
  decide +kernel

end Headgate.Redis
