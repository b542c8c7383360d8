import Headgate.Redis.Replay
import Headgate.Redis.Transitions

/-!
# Pending jobs on Redis

A job enqueued as pending is in no waiting zset and stays pending until an operator or
a workflow calls for it.  The one other way out is the debounce branch of an enqueue:
it writes `scheduled` over the state of a mutable holder, and a pending holder counts
as mutable.
-/

namespace Headgate.Redis

open Headgate.Core Data

variable {j : Job} {id : String}

/-! ## Section 1: Enqueues that meet a holder -/

/-- The job under `id` is still there, in the same state. -/
def KeepsState (id : String) (s s' : Store) : Prop :=
  ∀ j, s.job? id = some j → ∃ j', s'.job? id = some j' ∧ j'.state = j.state

namespace KeepsState

variable {s t u : Store}

theorem refl (id : String) (s : Store) : KeepsState id s s := fun j row => ⟨j, row, rfl⟩

theorem trans (h : KeepsState id s t) (h' : KeepsState id t u) : KeepsState id s u := by
  intro j row
  obtain ⟨j', row', hstate⟩ := h j row
  obtain ⟨j'', row'', hstate'⟩ := h' j' row'
  exact ⟨j'', row'', hstate'.trans hstate⟩

theorem setJob {j' : Job} (row : s.job? id = some j) (jobs : t.jobs = (s.setJob id j').jobs)
    (state : j'.state = j.state) : KeepsState id s t := by
  intro k hk
  rw [row] at hk
  cases hk
  exact ⟨j', (Store.job?_of_insert jobs id).trans (if_pos rfl), state⟩

theorem applyWhen {b : Bool} {f : Store → Store} {p : Store × Bool} (h : KeepsState id s p.1)
    (hf : b = true → ∀ s, KeepsState id s (f s)) : KeepsState id s (applyWhen b f p).1 := by
  unfold Redis.applyWhen
  split
  · rename_i hb
    exact h.trans (hf hb p.1)
  · exact h

end KeepsState

section
variable (now : Int) (e : Envelope) (holder : String) (s : Store)

theorem replacePayload_keepsState : KeepsState holder s (replacePayload e holder s) := by
  unfold replacePayload
  cases row : s.job? holder with
  | none => exact .refl holder s
  | some => exact .setJob row rfl rfl

theorem replaceScheduledAt_keepsState :
    KeepsState holder s (replaceScheduledAt now e holder s) := by
  unfold replaceScheduledAt
  cases row : s.job? holder with
  | none => exact .refl holder s
  | some => exact .setJob row rfl rfl

theorem replacePriority_keepsState : KeepsState holder s (replacePriority e holder s) := by
  unfold replacePriority
  cases row : s.job? holder with
  | none => exact .refl holder s
  | some => exact .setJob row rfl rfl

theorem replaceMaxAttempts_keepsState : KeepsState holder s (replaceMaxAttempts e holder s) := by
  unfold replaceMaxAttempts
  cases row : s.job? holder with
  | none => exact .refl holder s
  | some => exact .setJob row rfl rfl

/-- Every replacement but the debounce leaves the state of the holder alone. -/
theorem replaceHolder_keepsState (hdebounce : ¬ 0 < e.uniqueDebounceMs) :
    KeepsState holder s (replaceHolder now e holder s).1 := by
  unfold replaceHolder
  split
  · exact .refl holder s
  · split
    · -- five edits, and only the debounce among them sets the state
      refine .applyWhen (.applyWhen (.applyWhen (.applyWhen (.applyWhen (.refl holder s) ?_) ?_)
        ?_) ?_) ?_
      · intro hb
        exact absurd (of_decide_eq_true hb) hdebounce
      · exact fun _ s => replacePayload_keepsState e holder s
      · exact fun _ s => replaceScheduledAt_keepsState now e holder s
      · exact fun _ s => replacePriority_keepsState e holder s
      · exact fun _ s => replaceMaxAttempts_keepsState e holder s
    · exact .refl holder s

end

/-- An enqueue keeps the state of a stored job that holds no key of a debouncing envelope. -/
theorem enqueueScript_keepsState {now : Int} {batch : List Envelope} {s : Store}
    (hfree : ∀ e ∈ batch, 0 < e.uniqueDebounceMs → holderOf s now e ≠ some id) :
    KeepsState id s (enqueueScript now batch s).1 := by
  unfold enqueueScript
  split
  · exact .refl id s
  · rename_i fresh hids
    obtain ⟨hsub, habsent⟩ := idPass_ok hids
    split
    · rename_i s' reply hpass
      rcases validatePass_rejects hpass with ⟨rfl, -⟩ | ⟨e, he, holder, hholder, rfl, -⟩
      · exact .refl id s'
      · -- the script edits one row before the write pass, that of the holder
        by_cases hid : holder = id
        · subst hid
          have hdebounce : ¬ 0 < e.uniqueDebounceMs :=
            fun hpos => hfree e (hsub.subset he) hpos hholder
          unfold onHolder
          split
          · exact replaceHolder_keepsState now e holder s hdebounce
          · exact .refl holder s
        · intro j row
          refine ⟨j, ?_, rfl⟩
          rw [(onHolder_touches now e holder s).rows id fun heq => hid heq.symm]
          exact row
    · rename_i s' hpass
      obtain ⟨rfl, -, -⟩ := validatePass_none hpass
      split
      · exact .refl id s'
      · -- the write pass writes ids that were free
        intro j row
        refine ⟨j, ?_, rfl⟩
        rw [job?_writePass fun e he heq => ?_]
        · exact row
        · have hnone := habsent e (List.mem_of_mem_take he)
          rw [heq, row] at hnone
          cases hnone

theorem enqueue_keepsState {now : Int} {batch : List Envelope} {s : Store}
    (hfree : ∀ e ∈ batch.map prepare, 0 < e.uniqueDebounceMs → holderOf s now e ≠ some id) :
    KeepsState id s (enqueue now batch s).1 := by
  unfold enqueue
  split
  · exact .refl id s
  · split
    · exact .refl id s
    · exact enqueueScript_keepsState hfree

/-! ## Section 2: Runs -/

/-- An operator's call about this job, or a bulk operation. -/
def Op.aimsAt (id : String) : Op → Bool
  | .promoteJob x | .schedulePendingJob x _ | .operatorCancel x | .operatorRetry x
  | .deleteJob x => x = id
  | .bulk _ _ _ => true
  | _ => false

/-- The call is not about the job, and no debouncing envelope of it finds the job holding its
unique key. -/
def Undisturbed (id : String) (s : Store) (c : Call) : Prop :=
  c.op.aimsAt id = false ∧ match c.op with
    | .enqueue batch =>
      ∀ e ∈ batch.map prepare, 0 < e.uniqueDebounceMs → holderOf s c.now e ≠ some id
    | _ => True

instance (id : String) (s : Store) (c : Call) : Decidable (Undisturbed id s c) := by
  obtain ⟨now, op⟩ := c
  apply Op.casesOn (motive := fun op => Decidable (Undisturbed id s ⟨now, op⟩)) op <;> intros <;>
    dsimp only [Undisturbed] <;> infer_instance

/-- Apart from enqueues and calls about the job, no rule applies to a pending job. -/
theorem Op.rule_pending {op : Op} {k : Lifecycle} {new : Option Lifecycle}
    (haim : op.aimsAt id = false) (henqueue : ∀ batch, op ≠ .enqueue batch)
    (hpending : k.state = .pending) : ¬ op.rule id k new := by
  have hfires : ∀ ev, lifecycleTransition .pending ev = none → ¬ Fires ev k new := by
    rintro ev hnone ⟨k', -, hafter⟩
    rw [Lifecycle.afterEvent, hpending, hnone] at hafter
    cases hafter
  intro hrule
  cases op with
  | enqueue batch => exact henqueue batch rfl
  | admission =>
    rcases hrule with ⟨hwaiting, -⟩ | ⟨hwaiting | hrunning, -⟩
    · rw [hpending] at hwaiting
      cases hwaiting
    · rw [hpending] at hwaiting
      cases hwaiting
    · rw [hpending] at hrunning
      cases hrunning
  | ack =>
    obtain ⟨-, hrunning, -⟩ := hrule
    rw [hpending] at hrunning
    cases hrunning
  | reclaim =>
    obtain ⟨hrunning, -⟩ := hrule
    rw [hpending] at hrunning
    cases hrunning
  | promote =>
    rcases hrule with hdue | hdue
    · exact hfires _ rfl hdue
    · exact hfires _ rfl hdue
  | quarantineRelease => exact hfires _ rfl hrule
  | quarantineSweep =>
    obtain ⟨hwaiting, -⟩ := hrule
    rw [hpending] at hwaiting
    cases hwaiting
  | evict =>
    obtain ⟨hevictable, -⟩ := hrule
    rw [hpending] at hevictable
    cases hevictable
  | bulk => cases haim
  | operatorCancel x | operatorRetry x | deleteJob x | promoteJob x | schedulePendingJob x _ =>
    exact absurd hrule.1.symm (of_decide_eq_false haim)
  | _ => exact hrule

theorem step_keepsPending {calls : List Call} {c : Call} (h : Undisturbed id (exec calls) c)
    (row : (exec calls).job? id = some j) (hpending : j.state = .pending) :
    ∃ j', (step (exec calls) c).job? id = some j' ∧ j'.state = .pending := by
  obtain ⟨haim, hdebounce⟩ := h
  -- an enqueue may edit the row, so its lifecycle alone does not settle it
  by_cases henqueue : ∃ batch, c.op = .enqueue batch
  · obtain ⟨now, op⟩ := c
    obtain ⟨batch, hop⟩ := henqueue
    subst hop
    obtain ⟨j', row', hstate⟩ := enqueue_keepsState hdebounce j row
    exact ⟨j', row', hstate.trans hpending⟩
  · rcases (step_rewritten calls c).old id j row with hsame | hrule
    · obtain ⟨j', row', hlife⟩ := Option.map_eq_some_iff.mp hsame
      refine ⟨j', row', ?_⟩
      have hstate : j'.lifecycle.state = j.lifecycle.state := by rw [hlife]
      exact hstate.trans hpending
    · exact absurd hrule (Op.rule_pending haim (fun batch hop => henqueue ⟨batch, hop⟩) hpending)

/-- A pending job stays pending along a run that leaves it alone. -/
theorem run_keepsPending {pre calls : List Call} (row : (exec pre).job? id = some j)
    (hpending : j.state = .pending) (h : EachStep step (Undisturbed id) (exec pre) calls) :
    ∃ j', (exec (pre ++ calls)).job? id = some j' ∧ j'.state = .pending := by
  -- the job may be edited on the way, so row and prefix stay general
  induction calls generalizing pre j with
  | nil =>
    rw [List.append_nil]
    exact ⟨j, row, hpending⟩
  | cons c rest ih =>
    obtain ⟨hc, hrest⟩ := h
    have hnext : exec (pre ++ [c]) = step (exec pre) c := exec_snoc pre c
    obtain ⟨j', row', hpending'⟩ := step_keepsPending hc row hpending
    rw [← hnext] at row' hrest
    have hall := ih row' hpending' hrest
    rw [List.append_assoc] at hall
    exact hall

end Headgate.Redis
