import Headgate.Redis.Listing
import Headgate.Redis.Transitions

/-!
# The due-time index

`promote.lua` finds the jobs that have become due through `sched` alone.  The scripts
that put a job into `scheduled` or `retryable` add it there under its due time, with
one exception: `ack.lua` adds a retried job only if it is due later than now.  After a
retry without a delay the job is retryable and in no index that a sweep reads.
-/

namespace Headgate.Redis

open Headgate.Core Data

/-! ## Section 1: One id -/

/-- A job that waits for its time is in `sched` under it. -/
def SchedAt : Option Face × Listing → Prop
  | (none, _) => True
  | (some f, x) => f.state = .scheduled ∨ f.state = .retryable → x.sched = some f.scheduledAtMs

section
variable {op : Op} {now : Int}

theorem Change.schedAt {f : Face} {f' : Option Face} {x x' : Listing} (c : Change op now f x f' x')
    (hop : op.isTimely) (h : SchedAt (some f, x)) : SchedAt (f', x') := by
  cases c <;> simp only [SchedAt, Listing.moveIdx, Listing.addIdx, Listing.remIdx, Listing.retain,
    Listing.addFpi, Listing.remFpi, Listing.addQjobs, Listing.remQjobs, Listing.cutQjobs] at h ⊢
  -- a terminal state is none of the two
  case finish => grind [State.isTerminal]
  all_goals grind

theorem Touch.schedAt {v v' : Option Face × Listing} (c : Touch op now v v') (hop : op.isTimely)
    (h : SchedAt v) : SchedAt v' := by
  cases c with
  | row change => exact change.schedAt hop h
  | arrive e f mem new =>
    have hstate : f.state ≠ .retryable := by
      rw [new]
      show initialState now e ≠ _
      unfold initialState
      split
      · decide
      · split <;> decide
    simp only [SchedAt, Listing.addIdx, Listing.addFpi]
    grind
  | stray => trivial

end

/-! ## Section 2: The sweep -/

theorem sched_promoteOne (s : Store) (id : String) :
    (promoteOne s id).index.sched = s.index.sched.remove id := by
  unfold promoteOne
  dsimp only
  split
  · rfl
  · split <;> rfl

/-- A sweep takes what it finds out of the index. -/
theorem sched_promoteLoop (ids : List String) (s : Store) (x : String) :
    (ids.foldl promoteOne s).index.sched.score x
      = if x ∈ ids then none else s.index.sched.score x := by
  induction ids generalizing s with
  | nil => simp
  | cons id rest ih =>
    rw [List.foldl_cons, ih, sched_promoteOne, ZSet.score_remove]
    by_cases hx : x = id <;> simp [hx]

/-! ## Section 3: Runs -/

/-- The call retries no job without a delay. -/
def Delays (_ : Store) (c : Call) : Prop := c.op.isTimely

instance (s : Store) (c : Call) : Decidable (Delays s c) := by
  obtain ⟨now, op⟩ := c
  apply Op.casesOn (motive := fun op => Decidable (Delays s ⟨now, op⟩)) op <;> intros <;>
    dsimp only [Delays, Op.isTimely] <;> infer_instance

theorem exec_schedAt {calls : List Call} (h : EachStep step Delays Store.init calls) (id : String) :
    SchedAt ((exec calls).about id) :=
  exec_about (fun _ => trivial) (fun _ _ hc _ _ htouch => htouch.schedAt hc) h id

/-- **Nothing due is left behind.**  In a run that retries no job without a delay, a scheduled or
retryable job is in `sched` under its due time, and a sweep that is not cut off by its limit leaves
none that is due. -/
theorem due_indexed (calls : List Call) (h : EachStep step Delays Store.init calls) :
    (∀ id j, (exec calls).job? id = some j → j.state = .scheduled ∨ j.state = .retryable →
      (exec calls).index.sched.score id = some j.scheduledAtMs) ∧
    ∀ now limit, ((exec calls).index.sched.card : Int) ≤ limit → ∀ id j,
      (step (exec calls) ⟨now, .promote limit⟩).job? id = some j →
      j.state = .scheduled ∨ j.state = .retryable → now < j.scheduledAtMs := by
  have hsched : ∀ calls, EachStep step Delays Store.init calls → ∀ id j,
      (exec calls).job? id = some j → j.state = .scheduled ∨ j.state = .retryable →
        (exec calls).index.sched.score id = some j.scheduledAtMs := by
    intro calls h id j row delayed
    have hid := exec_schedAt h id
    rw [Store.about, row] at hid
    exact hid delayed
  refine ⟨hsched calls h, fun now limit hlimit id j row delayed => ?_⟩
  by_contra hdue
  have hafter := hsched (calls ++ [⟨now, .promote limit⟩])
    (by rw [eachStep_append]; exact ⟨h, trivial, trivial⟩) id j
  rw [exec_snoc] at hafter
  -- an entry that is left was there before and was not in the range
  have hentry : (((exec calls).index.sched.rangeByScore now limit).foldl promoteOne
      (exec calls)).index.sched.score id = some j.scheduledAtMs := hafter row delayed
  rw [sched_promoteLoop] at hentry
  split at hentry
  · cases hentry
  · rename_i hout
    refine hout (ZSet.mem_rangeByScore_of_card_le _ _ _ _ (fun a sc ha _ =>
      List.mem_toFinset.mpr ((ZSet.mem_members _ a).mpr ⟨sc, ha⟩)) ?_ hentry (by omega))
    rw [ZSet.card_members]
    exact hlimit

/-- A job is retried without a delay, or after one of `delay`. -/
def retriedRun (delay : Int) : List Call :=
  [⟨0, .enqueue [{ id := "a", kind := "k", queue := "q", maxAttempts := 3 }]⟩,
    ⟨1, .admission ⟨"w", "l", ["q"], 1, 10, 1⟩ .increasing⟩,
    ⟨2, .ack ⟨"a", "l", 1⟩
      { outcome := .retry, delayMs := delay, retryBaseMs := 1, retryCapMs := 1 }⟩]

theorem due_indexed_delayed : EachStep step Delays Store.init (retriedRun 5) ∧
    (exec (retriedRun 5)).index.sched.score "a" = some 7 := by
  have hok : EachStep step Delays Store.init (retriedRun 5) := by decide +kernel
  have hrow : ∃ j, (exec (retriedRun 5)).job? "a" = some j ∧ j.state = .retryable ∧
      j.scheduledAtMs = 7 := ⟨_, rfl, rfl, rfl⟩
  obtain ⟨j, row, retryable, hdue⟩ := hrow
  have hentry := (due_indexed (retriedRun 5) hok).1 "a" j row (.inr retryable)
  rw [hdue] at hentry
  exact ⟨hok, hentry⟩

/-- After a retry without a delay the job is retryable, due and in no entry of `sched`, and no
sweep finds it. -/
theorem due_unindexed : stateOf (retriedRun 0) "a" = some .retryable ∧
    (∃ j, (exec (retriedRun 0)).job? "a" = some j ∧ j.scheduledAtMs = 2) ∧
    (exec (retriedRun 0)).index.sched.score "a" = none ∧
    stateOf (retriedRun 0 ++ [⟨3, .promote 10⟩]) "a" = some .retryable := by
  refine ⟨by decide +kernel, ⟨_, rfl, rfl⟩, by decide +kernel, by decide +kernel⟩

end Headgate.Redis
