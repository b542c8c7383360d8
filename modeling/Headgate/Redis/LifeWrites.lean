import Headgate.Redis.Selection

/-!
# Writes to a job's lifecycle

Every call is a sequence of writes to one job hash at a time, and each of them follows the
rule of its call.  `step_lifeWrites` reads this off the cuts of the calls, and records the depth
counters of the job's queue next to it: `entered` is raised by the writes that make a job
unfinished, `exited` by those that finish it.
-/

namespace Headgate.Redis

open Headgate.Core Data Relation

/-! ## Section 1: One write and many -/

/-- The depth counters of a queue after a job of it was written. -/
def shiftDepth (depth : String → EnqueueCounters) (queue : String) (before after : Bool) :
    String → EnqueueCounters :=
  if before = after then depth
  else if before then
    Function.update depth queue { depth queue with exited := (depth queue).exited + 1 }
  else Function.update depth queue { depth queue with entered := (depth queue).entered + 1 }

/-- Is there an unfinished job? -/
def unfinished (j : Option Job) : Bool := j.any fun j => j.state.isUnfinished

/-- One write of a call that may enqueue jobs of `batch`, as its rule allows. -/
inductive LifeWrite (batch : List Envelope) (rule : String → Lifecycle → Option Lifecycle → Prop)
    (s s' : Store) : Prop where
  | still (jobs : s'.jobs = s.jobs) (depth : s'.policy.enqueue = s.policy.enqueue)
  | arrive (now : Int) (e : Envelope) (mem : e ∈ batch) (absent : s.job? e.id = none)
      (retention : 0 ≤ e.retentionMs)
      (rows : ∀ x, s'.job? x = if x = e.id then some (newJob now e) else s.job? x)
      (depth : s'.policy.enqueue = shiftDepth s.policy.enqueue e.queue false true)
  | change (id : String) (j : Job) (new : Option Job) (row : s.job? id = some j)
      (rows : ∀ x, s'.job? x = if x = id then new else s.job? x)
      (queue : ∀ j' ∈ new, j'.queue = j.queue)
      (rule : new.map Job.lifecycle = some j.lifecycle ∨
        rule id j.lifecycle (new.map Job.lifecycle))
      (depth : s'.policy.enqueue
        = shiftDepth s.policy.enqueue j.queue j.state.isUnfinished (unfinished new))

/-- A sequence of writes. -/
def LifeWrites (batch : List Envelope) (rule : String → Lifecycle → Option Lifecycle → Prop) :
    Store → Store → Prop :=
  ReflTransGen (LifeWrite batch rule)

variable {op : Op} {id : String} {batch : List Envelope} {s t : Store}
  {rule : String → Lifecycle → Option Lifecycle → Prop} {st : State}

section
variable {s' u : Store} {j j' : Job}

/-- One hash is written, as the rule allows. -/
structure Rewrites (rule : String → Lifecycle → Option Lifecycle → Prop) (s s' : Store)
    (id : String) (j j' : Job) : Prop where
  row : s.job? id = some j
  jobs : s'.jobs = s.jobs.insert id j'
  queue : j'.queue = j.queue
  rule : rule id j.lifecycle (some j'.lifecycle)

theorem Rewrites.lifeWrite (h : Rewrites rule s s' id j j') (depth : s'.policy.enqueue
      = shiftDepth s.policy.enqueue j.queue j.state.isUnfinished j'.state.isUnfinished) :
    LifeWrite batch rule s s' := by
  refine .change id j (some j') h.row (Store.job?_of_insert h.jobs) (fun k hk => ?_) (.inr h.rule)
    depth
  cases hk
  exact h.queue

/-- A write that finishes a job. -/
theorem LifeWrite.leave (h : Rewrites rule s s' id j j') (before : j.state.isUnfinished = true)
    (after : j'.state.isUnfinished = false)
    (depth : s'.policy.enqueue = (s.policy.leaveUnfinished j.queue).enqueue) :
    LifeWrite batch rule s s' := by
  apply h.lifeWrite
  rw [before, after]
  exact depth

/-- A write that brings a finished job back. -/
theorem LifeWrite.enter (h : Rewrites rule s s' id j j') (before : j.state.isUnfinished = false)
    (after : j'.state.isUnfinished = true)
    (depth : s'.policy.enqueue = (s.policy.enterUnfinished j.queue).enqueue) :
    LifeWrite batch rule s s' := by
  apply h.lifeWrite
  rw [before, after]
  exact depth

/-- A write to a job that stays unfinished. -/
theorem LifeWrite.stay (h : Rewrites rule s s' id j j') (before : j.state.isUnfinished = true)
    (after : j'.state.isUnfinished = true) (depth : s'.policy.enqueue = s.policy.enqueue) :
    LifeWrite batch rule s s' := by
  apply h.lifeWrite
  rw [before, after]
  exact depth

/-- A write that leaves the lifecycle alone. -/
theorem LifeWrite.keep (row : s.job? id = some j) (jobs : s'.jobs = s.jobs.insert id j')
    (lifecycle : j'.lifecycle = j.lifecycle) (depth : s'.policy.enqueue = s.policy.enqueue) :
    LifeWrite batch rule s s' := by
  have hstate : j'.state = j.state := congrArg Lifecycle.state lifecycle
  refine .change id j (some j') row (Store.job?_of_insert jobs) (fun k hk => ?_)
    (.inl (congrArg some lifecycle)) ?_
  · cases hk
    exact congrArg Lifecycle.queue lifecycle
  · rw [unfinished, Option.any_some, hstate, shiftDepth, if_pos rfl]
    exact depth

/-- A job is deleted. -/
theorem LifeWrite.del (row : s.job? id = some j)
    (rows : ∀ x, s'.job? x = if x = id then none else s.job? x)
    (hrule : rule id j.lifecycle none)
    (depth : s'.policy.enqueue
      = if j.state.isUnfinished then (s.policy.leaveUnfinished j.queue).enqueue
        else s.policy.enqueue) : LifeWrite batch rule s s' := by
  refine .change id j none row rows (fun _ hk => by cases hk) (.inr hrule) (depth.trans ?_)
  cases j.state.isUnfinished with
  | true | false => rfl

theorem LifeWrites.refl (s : Store) : LifeWrites batch rule s s := ReflTransGen.refl

theorem LifeWrites.one (h : LifeWrite batch rule s t) : LifeWrites batch rule s t :=
  ReflTransGen.single h

theorem LifeWrites.trans (h : LifeWrites batch rule s t) (h' : LifeWrites batch rule t u) :
    LifeWrites batch rule s u :=
  ReflTransGen.trans h h'

theorem LifeWrites.still (jobs : s'.jobs = s.jobs) (depth : s'.policy.enqueue = s.policy.enqueue) :
    LifeWrites batch rule s s' := .one (.still jobs depth)

end

/-! ## Section 2: Retention -/

/-- No job has a negative retention. -/
def RetentionOk (s : Store) : Prop := ∀ id j, s.job? id = some j → 0 ≤ j.retentionMs

section
variable {k k' : Lifecycle}

/-- No rule touches the retention of a job. -/
theorem Op.rule_retention (h : op.rule id k (some k')) :
    k'.retentionMs = k.retentionMs := by
  -- neither an event nor an outcome changes the retention
  have hfires : ∀ ev, Fires ev k (some k') → k'.retentionMs = k.retentionMs := by
    rintro ev ⟨_, heq, hk⟩
    cases heq
    unfold Lifecycle.afterEvent at hk
    rw [Option.map_eq_some_iff] at hk
    obtain ⟨st, -, rfl⟩ := hk
    rfl
  have houtcome : ∀ crashLimit on, some k' = k.afterOutcome crashLimit on →
      k'.retentionMs = k.retentionMs := by
    intro crashLimit on hk
    have hk := hk.symm
    unfold Lifecycle.afterOutcome at hk
    rw [Option.map_eq_some_iff] at hk
    obtain ⟨st, -, rfl⟩ := hk
    rfl
  cases op with
  | enqueue =>
    obtain ⟨st, m, -, heq⟩ := h
    cases heq
    rfl
  | admission =>
    rcases h with ⟨-, heq | heq⟩ | ⟨-, heq⟩ <;> cases heq <;> rfl
  | ack => exact houtcome _ _ h.2.2
  | reclaim => exact houtcome _ _ h.2
  | promote => exact h.elim (hfires _) (hfires _)
  | operatorCancel | operatorRetry | promoteJob => exact hfires _ h.2
  | quarantineRelease => exact hfires _ h
  | schedulePendingJob =>
    cases h.2.2
    rfl
  | quarantineSweep =>
    cases h.2
    rfl
  | deleteJob => cases h.2.2
  | evict => cases h.2
  | bulk args =>
    have hrule : ∀ action : BulkAction, action.rule k (some k') →
        k'.retentionMs = k.retentionMs := by
      intro action
      cases action with
      | cancel | retry => exact hfires _
      | delete => exact fun h => by cases h.2
    exact hrule args.action h
  | _ => exact h.elim

end

theorem LifeWrite.retentionOk (h : LifeWrite batch op.rule s t) (hs : RetentionOk s) :
    RetentionOk t := by
  intro id j row
  cases h with
  | still jobs =>
    unfold Store.job? at row
    rw [jobs] at row
    exact hs id j row
  | arrive now e mem absent retention rows =>
    rw [rows] at row
    split at row
    · cases row
      exact retention
    · exact hs id j row
  | change x k new hk rows queue hrule =>
    rw [rows] at row
    split at row
    · subst row
      have hbefore : 0 ≤ k.lifecycle.retentionMs := hs x k hk
      show 0 ≤ j.lifecycle.retentionMs
      -- the row is as before or changed by a rule, which keeps the retention
      rcases hrule with hsame | hrule
      · rw [Option.some.inj hsame]
        exact hbefore
      · rw [Op.rule_retention hrule]
        exact hbefore
    · exact hs id j row

theorem LifeWrites.retentionOk (h : LifeWrites batch op.rule s t) (hs : RetentionOk s) :
    RetentionOk t := by
  induction h with
  | refl => exact hs
  | tail _ hwrite ih => exact hwrite.retentionOk ih

/-! ## Section 3: The writes of a plain call -/

section
variable {now : Int} {j : Job}

private theorem reconcile_lifeWrite (actual : Int) (row : s.job? id = some j) :
    LifeWrite batch rule s (reconcile now id j actual s) := by
  unfold reconcile
  dsimp only
  split
  · exact .keep row rfl rfl rfl
  · split
    · exact .keep row rfl rfl rfl
    · exact .keep row rfl rfl rfl

private theorem isUnfinished_of_running (h : j.state = .running) : j.state.isUnfinished = true := by
  rw [h]
  rfl

theorem isUnfinished_of_isTerminal (h : st.isTerminal = true) :
    st.isUnfinished = false := by
  cases st <;> simp_all [State.isTerminal, State.isUnfinished]

private theorem doCancel_lifeWrite (row : s.job? id = some j)
    (hunfinished : j.state.isUnfinished = true)
    (hrule : rule id j.lifecycle (some { j.lifecycle with state := .cancelled })) :
    LifeWrite batch rule s (doCancel now id j s) := by
  unfold doCancel
  by_cases hrun : j.state = .running
  · rw [if_pos hrun]
    exact .leave ⟨row, rfl, rfl, hrule⟩ hunfinished rfl rfl
  · rw [if_neg hrun]
    split
    · exact .leave ⟨row, rfl, rfl, hrule⟩ hunfinished rfl rfl
    · exact .leave ⟨row, rfl, rfl, hrule⟩ hunfinished rfl rfl

private theorem doDelete_lifeWrite (row : s.job? id = some j) (hidle : j.state ≠ .running)
    (hrule : rule id j.lifecycle none) :
    LifeWrite batch rule s (doDelete id j s) := by
  have hdepth : (if j.state = State.pending ∨ j.state.isWaiting = true then
      s.policy.leaveUnfinished j.queue else s.policy).enqueue
        = if j.state.isUnfinished then (s.policy.leaveUnfinished j.queue).enqueue
          else s.policy.enqueue := by
    cases hst : j.state <;> simp_all [State.isWaiting, State.isUnfinished]
  unfold doDelete
  split
  · exact .del row (Store.job?_delJob s id) hrule hdepth
  · exact .del row (Store.job?_delJob s id) hrule hdepth

theorem Write.lifeWrite (w : Write op now s t) (hretention : RetentionOk s)
    (hdepth : ¬ op.resetsDepth) :
    LifeWrite op.batch op.rule s t := by
  cases w with
  | debounce e holder j row idle rule =>
    unfold debounceHolder
    rw [row]
    exact .stay ⟨row, rfl, rfl, rule⟩ (isUnfinished_of_isMutable idle) rfl rfl
  | payload e holder j row =>
    unfold replacePayload
    rw [row]
    exact .keep row rfl rfl rfl
  | due e holder j row =>
    unfold replaceScheduledAt
    rw [row]
    exact .keep row rfl rfl rfl
  | refit holder j priority maxAttempts row idle rule =>
    have hunfinished := isUnfinished_of_isMutable idle
    exact .stay ⟨row, rfl, rfl, rule⟩ hunfinished hunfinished rfl
  | arrive e mem absent window retention =>
    exact .arrive now e mem absent retention (Store.job?_setJob s e.id · (newJob now e)) rfl
  | reconcile id j actual row => exact reconcile_lifeWrite actual row
  | finishKeep id j attempt errors result to_ e row running terminal out ends rule =>
    exact .leave ⟨row, rfl, rfl, (rule (hretention id j row))⟩ (isUnfinished_of_running running)
      (isUnfinished_of_isTerminal terminal) rfl
  -- the lease is dropped first, but the row is gone afterwards
  | finishDelete id j e row running ends rule =>
    refine .del row (fun x => ?_) (rule (hretention id j row)) ?_
    · show ((s.setJob id { j with lease := none }).delJob id).job? x = _
      simp only [Store.job?_delJob, Store.job?_setJob]
      split <;> rfl
    · rw [running]
      rfl
  | requeue id j attempt errors score to_ e row running waiting ends rule =>
    exact .stay ⟨row, rfl, rfl, rule⟩ (isUnfinished_of_running running)
      (State.isUnfinished_of_isWaiting waiting) rfl
  | renew ref j leaseMs row held =>
    unfold renewOne
    rw [row]
    dsimp only
    rw [if_pos held]
    exact .keep row rfl rfl rfl
  | fenced id j checkpoint output progress row | reschedule id j at_ row =>
    exact .keep row rfl rfl rfl
  | crash id j row running prints rule =>
    exact .leave ⟨row, rfl, rfl, rule⟩ (isUnfinished_of_running running) rfl rfl
  | retryCrash base cap id j row running rule =>
    exact .stay ⟨row, rfl, rfl, rule⟩ (isUnfinished_of_running running) rfl rfl
  | stray | retain | unsched | unret => exact .still rfl rfl
  | promote id j row due rule =>
    exact .stay ⟨row, rfl, rfl, rule⟩ (State.isUnfinished_of_isWaiting (isWaiting_of_due due)) rfl rfl
  | evict id j row evictable prints rule =>
    refine .del row (Store.job?_delJob s id) rule ?_
    rw [isUnfinished_of_isTerminal (isTerminal_of_isEvictable evictable)]
    rfl
  | sweep limit fp id j n row waiting listed rule =>
    unfold sweepOne
    split
    · exact .still rfl rfl
    · rw [row]
      dsimp only
      rw [if_pos waiting]
      exact .leave ⟨row, rfl, rfl, rule⟩ (State.isUnfinished_of_isWaiting waiting) rfl rfl
  | cancel id j row unfinished rule => exact doCancel_lifeWrite row unfinished rule
  | retry id j row retriable rule =>
    unfold doRetry
    split
    · exact .still rfl rfl
    · exact .enter ⟨row, rfl, rfl, rule⟩
        (isUnfinished_of_isTerminal (isTerminal_of_isRetriable retriable)) rfl rfl
  | delete id j row idle rule => exact doDelete_lifeWrite row idle rule
  | activate id j to_ at_ x row pending waiting rule =>
    exact .stay ⟨row, rfl, rfl, rule⟩ (isUnfinished_of_isMutable (isMutable_iff.mpr (.inl pending)))
      (State.isUnfinished_of_isWaiting waiting) rfl
  | edit id j payload sv fp row idle =>
    unfold editPayload
    rw [row]
    dsimp only
    rw [if_neg idle]
    exact .keep row rfl rfl rfl
  | policy p quarantine deficit depth => exact .still rfl (depth hdepth)

theorem Writes.lifeWrites (h : Writes op now s t) (hretention : RetentionOk s)
    (hdepth : ¬ op.resetsDepth) : LifeWrites op.batch op.rule s t := by
  induction h with
  | refl => exact .refl s
  | tail _ w ih => exact ih.trans (.one (w.lifeWrite (ih.retentionOk hretention) hdepth))

end

/-- Eviction leaves the other jobs alone. -/
theorem job?_evictOne (s : Store) {x : String} (hx : x ≠ id) :
    (evictOne s id).job? x = s.job? x := by
  unfold evictOne
  split
  · rfl
  · split
    · exact (Store.job?_delJob s id x).trans (if_neg hx)
    · rfl

/-! ## Section 4: Release and admission -/

section
variable {now : Int}

private theorem releaseOne_lifeWrite (fp : String) (order : SetOrder String) (p : Store × Nat)
    (id : String) :
    LifeWrite [] (Op.quarantineRelease fp order).rule p.1 (releaseOne now fp p id).1 := by
  unfold releaseOne
  cases row : p.1.job? id with
  | none => exact .still rfl rfl
  | some =>
    dsimp only
    split
    case isFalse => exact .still rfl rfl
    case isTrue h =>
      refine .enter ⟨row, rfl, rfl, ⟨_, rfl, ?_⟩⟩ (by rw [h]; rfl) rfl rfl
      simp [Lifecycle.afterEvent, Job.lifecycle, h, lifecycleTransition]

private theorem GateWrite.lifeWrite (req : AdmitRequest) (order : SetOrder String)
    (w : GateWrite now s t) : LifeWrite [] (Op.admission req order).rule s t := by
  cases w with
  | side jobs index enqueue => exact .still jobs enqueue
  | claim id j req charge row waiting jobs index policy =>
    exact .stay ⟨row, jobs, rfl, (.inl ⟨waiting, .inl rfl⟩)⟩ (State.isUnfinished_of_isWaiting waiting)
      rfl (congrArg Policy.enqueue policy)
  | finish id j fence to_ x row live rule out jobs sched index policy =>
    refine .leave ⟨row, jobs, rfl, rule⟩ ?_ ?_ (congrArg Policy.enqueue policy)
    · exact live.elim State.isUnfinished_of_isWaiting isUnfinished_of_running
    · rcases out with rfl | rfl
      · rfl
      · rfl

end

/-! ## Section 5: Every call -/

theorem step_lifeWrites (c : Call) (hentries : EntriesOk s) (hretention : RetentionOk s)
    (hdepth : ¬ c.op.resetsDepth) : LifeWrites c.op.batch c.op.rule s (step s c) := by
  by_cases hplain : c.op.isPlain
  · exact (step_writes s c hplain).lifeWrites hretention hdepth
  · obtain ⟨now, op⟩ := c
    cases op with
    | admission req order =>
      exact .mono (fun _ _ => GateWrite.lifeWrite req order) s _
        (admitCall_writes now req order hentries)
    | quarantineRelease fp order =>
      have herase : LifeWrites [] (Op.quarantineRelease fp order).rule s
          { s with policy := { s.policy with quarantine := s.policy.quarantine.erase fp } } :=
        .still rfl rfl
      exact herase.trans (lift_foldl .refl (fun _ _ _ => .trans) Prod.fst
        (fun p id => .one (releaseOne_lifeWrite fp order p id)) _ (_, 0))
    | _ => exact absurd trivial hplain

end Headgate.Redis
