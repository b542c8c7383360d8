import Headgate.Redis.LifeWrites

/-!
# The scripts and the core state machine

What a whole call does to a job is one change that its rule allows: no call
changes a job twice in a way the rule does not give at once.  For acks, the
reclaimer, the promoter and the operators the rule is the core state machine.
Scheduling a pending job, sweeping a quarantined fingerprint and discarding a
saturated candidate are not in its table.
-/

namespace Headgate.Redis

open Headgate.Core Data Relation

variable {k k' : Lifecycle} {new : Option Lifecycle}

/-! ## Section 1: Changes by a whole call -/

/-- What a sequence of writes has done to every job. -/
structure Rewritten (batch : List Envelope) (rule : String → Lifecycle → Option Lifecycle → Prop)
    (s s' : Store) : Prop where
  old : ∀ id j, s.job? id = some j → (s'.job? id).map Job.lifecycle = some j.lifecycle ∨
    rule id j.lifecycle ((s'.job? id).map Job.lifecycle)
  new : batch = [] → ∀ id, s.job? id = none → s'.job? id = none

section
variable {batch : List Envelope} {rule : String → Lifecycle → Option Lifecycle → Prop}
  {s t u : Store}

theorem Rewritten.of_jobs (h : t.jobs = s.jobs) : Rewritten batch rule s t := by
  have hrow : ∀ id, t.job? id = s.job? id := fun id => by unfold Store.job?; rw [h]
  refine ⟨fun id j row => .inl ?_, fun _ id habsent => (hrow id).trans habsent⟩
  rw [hrow, row]
  rfl

theorem LifeWrite.rewritten (h : LifeWrite batch rule s t) : Rewritten batch rule s t := by
  cases h with
  | still jobs => exact .of_jobs jobs
  | arrive now e mem absent retention rows =>
    refine ⟨fun id j row => .inl ?_, fun hempty => ?_⟩
    · have hne : id ≠ e.id := fun heq => by rw [heq, absent] at row; cases row
      rw [rows, if_neg hne, row]
      rfl
    · rw [hempty] at mem
      cases mem
  | change id j new row rows queue hrule =>
    constructor
    · intro x k hk
      rw [rows]
      by_cases hx : x = id
      · subst hx
        rw [row] at hk
        cases hk
        rw [if_pos rfl]
        exact hrule
      · rw [if_neg hx, hk]
        exact .inl rfl
    · intro _ x hx
      have hne : x ≠ id := fun heq => by rw [heq, row] at hx; cases hx
      rw [rows, if_neg hne]
      exact hx

section
variable (hclosed : ∀ id k k' new, rule id k (some k') → rule id k' new → rule id k new)
  (hlast : batch = [] ∨ ∀ id k, ¬ rule id k none)
include hclosed hlast

/-- Changes of one call compose, if its rule is closed and deleted jobs stay deleted. -/
theorem Rewritten.trans (h : Rewritten batch rule s t)
    (h' : Rewritten batch rule t u) : Rewritten batch rule s u := by
  refine ⟨fun id j row => ?_, fun hempty id habsent => h'.new hempty id (h.new hempty id habsent)⟩
  cases hmid : t.job? id with
  | none =>
    -- deleted by the first part
    have hgone := h.old id j row
    rw [hmid] at hgone
    rcases hgone with hsame | hrule
    · cases hsame
    · rcases hlast with hempty | hnever
      · rw [h'.new hempty id hmid]
        exact .inr hrule
      · exact absurd hrule (hnever id _)
  | some j' =>
    have hfirst := h.old id j row
    rw [hmid] at hfirst
    rcases h'.old id j' hmid with hsame | hrule
    · rw [hsame]
      exact hfirst
    · rcases hfirst with heq | hrule'
      · rw [← Option.some.inj heq]
        exact .inr hrule
      · exact .inr (hclosed id _ _ _ hrule' hrule)

theorem LifeWrites.rewritten (h : LifeWrites batch rule s t) :
    Rewritten batch rule s t := by
  induction h with
  | refl => exact .of_jobs rfl
  | tail _ hwrite ih => exact ih.trans hclosed hlast hwrite.rewritten

end

end

/-! ## Section 2: The rules are closed -/

/-- No event is valid in the state it leads to. -/
theorem fires_once {ev : LifecycleEvent} (h : Fires ev k (some k')) : ¬ Fires ev k' new := by
  have honce : ∀ st st', lifecycleTransition st ev = some st' →
      lifecycleTransition st' ev = none := by
    intro st st' hst
    cases ev <;> cases st <;> cases hst <;> rfl
  rintro ⟨k'', -, hnext⟩
  obtain ⟨_, heq, hfirst⟩ := h
  cases heq
  unfold Lifecycle.afterEvent at hfirst hnext
  rw [Option.map_eq_some_iff] at hfirst hnext
  obtain ⟨st, hst, rfl⟩ := hfirst
  obtain ⟨st', hst', -⟩ := hnext
  cases (honce _ _ hst).symm.trans hst'

theorem afterOutcome_ne_running {on : Outcome} {crashLimit : Int} (h : k.state = .running)
    (hk : k.afterOutcome crashLimit on = some k') :
    k'.state ≠ .running := by
  unfold Lifecycle.afterOutcome at hk
  rw [h, Option.map_eq_some_iff] at hk
  obtain ⟨st, hst, rfl⟩ := hk
  intro hrunning
  subst hrunning
  cases on <;> simp [transition] at hst
  all_goals split at hst <;> cases hst

theorem promote_once (h : Fires .scheduleDue k (some k') ∨ Fires .backoffDue k (some k')) :
    ¬ (Fires .scheduleDue k' new ∨ Fires .backoffDue k' new) := by
  -- a promoted job is available, and no timer fires from there
  have havailable : k'.state = .available := by
    rcases h with ⟨_, heq, hfirst⟩ | ⟨_, heq, hfirst⟩
    all_goals
      cases heq
      unfold Lifecycle.afterEvent at hfirst
      rw [Option.map_eq_some_iff] at hfirst
      obtain ⟨st, hst, rfl⟩ := hfirst
      cases hk : k.state <;> simp_all [lifecycleTransition]
  rintro (⟨k'', -, hnext⟩ | ⟨k'', -, hnext⟩)
  all_goals
    unfold Lifecycle.afterEvent at hnext
    rw [havailable] at hnext
    cases hnext

theorem gateRule_closed (h : gateRule k (some k')) (h' : gateRule k' new) : gateRule k new := by
  rcases h with ⟨hwaiting, hclaimed | hdiscarded⟩ | ⟨hbefore, hcancelled⟩
  · -- claimed: only a displacement can follow
    cases hclaimed
    rcases h' with ⟨hwaiting', -⟩ | ⟨-, rfl⟩
    · cases hwaiting'
    · exact .inr ⟨.inl hwaiting, rfl⟩
  · cases hdiscarded
    rcases h' with ⟨hwaiting', -⟩ | ⟨hbefore', -⟩
    · cases hwaiting'
    · rcases hbefore' with hcase | hcase <;> cases hcase
  · cases hcancelled
    rcases h' with ⟨hwaiting', -⟩ | ⟨hbefore', -⟩
    · cases hwaiting'
    · rcases hbefore' with hcase | hcase <;> cases hcase

theorem Op.rule_closed (op : Op) (id : String) (k k' : Lifecycle) (new : Option Lifecycle)
    (h : op.rule id k (some k')) (h' : op.rule id k' new) : op.rule id k new := by
  cases op with
  -- a second debounce ends where the first one did
  | enqueue =>
    obtain ⟨st, m, hst, heq⟩ := h
    obtain ⟨st', m', hst', rfl⟩ := h'
    cases heq
    refine ⟨st', m', ?_, rfl⟩
    rcases hst' with rfl | ⟨hmutable', rfl⟩
    · exact hst
    · rcases hst with rfl | ⟨hmutable, rfl⟩
      · exact .inr ⟨hmutable', rfl⟩
      · exact .inr ⟨hmutable, rfl⟩
  | admission => exact gateRule_closed h h'
  | ack =>
    exact absurd h'.2.1 (afterOutcome_ne_running h.2.1 h.2.2.symm)
  | reclaim =>
    exact absurd h'.1 (afterOutcome_ne_running h.1 h.2.symm)
  | promote => exact absurd h' (promote_once h)
  | operatorCancel | operatorRetry | promoteJob => exact absurd h'.2 (fires_once h.2)
  | quarantineRelease => exact absurd h' (fires_once h)
  | schedulePendingJob =>
    cases h.2.2
    cases h'.2.1
  | quarantineSweep =>
    cases h.2
    cases h'.1
  | deleteJob => cases h.2.2
  | evict => cases h.2
  | bulk args =>
    -- no bulk action applies to what it has itself produced
    have hboth : ∀ action : BulkAction, action.rule k (some k') → action.rule k' new →
        action.rule k new := by
      intro action
      cases action with
      | cancel | retry => exact fun h h' => absurd h' (fires_once h)
      | delete => exact fun h _ => by cases h.2
    exact hboth args.action h h'
  | _ => exact h.elim

theorem Op.rule_lasting (op : Op) : op.batch = [] ∨ ∀ id k, ¬ op.rule id k none := by
  cases op with
  | enqueue =>
    right
    rintro id k ⟨st, m, -, heq⟩
    cases heq
  | _ => exact .inl rfl

/-! ## Section 3: Retention -/

/-- A call that sets the counters of a queue touches no job. -/
theorem step_jobs_of_resetsDepth {s : Store} {c : Call} (h : c.op.resetsDepth) :
    (step s c).jobs = s.jobs := by
  obtain ⟨now, op⟩ := c
  cases op with
  | setEnqueueLimit | deleteQueue => rfl
  | _ => exact h.elim

instance (op : Op) : Decidable op.resetsDepth := by
  cases op <;> unfold Op.resetsDepth <;> infer_instance

theorem exec_retentionOk (calls : List Call) : RetentionOk (exec calls) := by
  refine exec_invariant (fun id j row => ?_) (fun calls c _ h => ?_) (.trivial calls _)
  · rw [Store.job?_init] at row
    cases row
  · by_cases hreset : c.op.resetsDepth
    · intro id j row
      unfold Store.job? at row
      rw [step_jobs_of_resetsDepth hreset] at row
      exact h id j row
    · exact (step_lifeWrites c (exec_entriesOk calls) h hreset).retentionOk h

/-! ## Section 4: Whole calls -/

theorem step_rewritten (calls : List Call) (c : Call) :
    Rewritten c.op.batch c.op.rule (exec calls) (step (exec calls) c) := by
  by_cases hreset : c.op.resetsDepth
  · exact .of_jobs (step_jobs_of_resetsDepth hreset)
  · exact (step_lifeWrites c (exec_entriesOk calls) (exec_retentionOk calls) hreset).rewritten
      c.op.rule_closed c.op.rule_lasting

/-- **The scripts and the core.**  A call leaves the lifecycle of a job alone or changes it by its
rule: acks and reclaims by the core transition of the outcome, the promoter and the operators by
that of their event.  An acked retry archives exactly when the attempts reach their maximum and
counts no crash; a crash quarantines exactly when the crashes reach their limit and counts no
attempt. -/
theorem transitions_follow_core (calls : List Call) (now : Int) (id : String) (j : Job)
    (row : (exec calls).job? id = some j) :
    let k := j.lifecycle
    let after := fun op => ((step (exec calls) ⟨now, op⟩).job? id).map Job.lifecycle
    (∀ op, after op = some k ∨ op.rule id k (after op)) ∧
    (∀ ref a, a.outcome = .retry → after (.ack ref a) ≠ some k →
      ∃ k', after (.ack ref a) = some k' ∧ k'.attempt = k.attempt + 1 ∧
        k'.crashAttempt = k.crashAttempt ∧
        k'.state = if k.maxAttempts ≤ k'.attempt then .archived else .retryable) ∧
    ∀ limit crashLimit base cap, after (.reclaim limit crashLimit base cap) ≠ some k →
      ∃ k', after (.reclaim limit crashLimit base cap) = some k' ∧ k'.attempt = k.attempt ∧
        k'.crashAttempt = k.crashAttempt + 1 ∧
        k'.state = if crashLimit ≤ k'.crashAttempt then .quarantined else .retryable := by
  intro k after
  have hrule : ∀ op, after op = some k ∨ op.rule id k (after op) :=
    fun op => (step_rewritten calls ⟨now, op⟩).old id j row
  refine ⟨hrule, ?_, ?_⟩
  · intro ref a hretry hchanged
    obtain ⟨-, hrunning, hafter⟩ := (hrule (.ack ref a)).resolve_left hchanged
    rw [hretry, Lifecycle.afterOutcome_retry hrunning] at hafter
    refine ⟨_, hafter, rfl, rfl, ?_⟩
    dsimp only
    -- core asks whether attempts are left, the statement whether they are used up
    by_cases hleft : k.attempt + 1 < k.maxAttempts
    · rw [if_pos hleft, if_neg (by omega)]
    · rw [if_neg hleft, if_pos (by omega)]
  · intro limit crashLimit base cap hchanged
    obtain ⟨hrunning, hafter⟩ :=
      (hrule (.reclaim limit crashLimit base cap)).resolve_left hchanged
    rw [Lifecycle.afterOutcome_leaseLost hrunning] at hafter
    exact ⟨_, hafter, rfl, rfl, rfl⟩

/-! ## Section 5: Beside the table -/

/-- The core leads from one state to the other by some outcome or event. -/
def CoreEdge (from_ to_ : State) : Prop :=
  (∃ on ctx, transition from_ on ctx = some to_) ∨ ∃ ev, lifecycleTransition from_ ev = some to_

def pendingJob : List Call :=
  [⟨0, .enqueue [{ id := "a", kind := "k", queue := "q", pending := true }]⟩]

/-- Job `a` crashes at the limit; job `b` has the same fingerprint. -/
def crashedSibling : List Call :=
  [⟨0, .enqueue [
      { id := "a", kind := "k", queue := "q", fingerprint := "f" },
      { id := "b", kind := "k", queue := "q", fingerprint := "f" }]⟩,
    ⟨1, .admission ⟨"w", "l", ["q"], 1, 10, 1⟩ .increasing⟩,
    ⟨20, .reclaim 10 1 1 1⟩]

/-- Job `a` fills the queue. -/
def fullQueue : List Call :=
  [⟨0, .upsertConcurrencyLimit "one" ⟨"q", 1, .discard⟩⟩,
    ⟨0, .enqueue [{ id := "a", kind := "k", queue := "q" }, { id := "b", kind := "k", queue := "q" }]⟩,
    ⟨1, .admission ⟨"w", "l", ["q"], 1, 10, 1⟩ .increasing⟩]

def stateOf (calls : List Call) (id : String) : Option State :=
  ((exec calls).job? id).map Job.state

/-- The reclaimer retries a job whose first crash is below the limit. -/
theorem transitions_follow_core_crash :
    ∃ j, (exec (crashedSibling.take 2)).job? "a" = some j ∧
      ∃ k', ((step (exec (crashedSibling.take 2)) ⟨20, .reclaim 10 3 1 1⟩).job? "a").map Job.lifecycle
        = some k' ∧ k'.attempt = 0 ∧ k'.crashAttempt = 1 ∧ k'.state = .retryable := by
  refine ⟨_, rfl, ?_⟩
  obtain ⟨k', hafter, hattempt, hcrash, hstate⟩ :=
    (transitions_follow_core (crashedSibling.take 2) 20 "a" _ rfl).2.2 10 3 1 1 (by decide +kernel)
  refine ⟨k', hafter, hattempt, hcrash, ?_⟩
  rw [hstate, hcrash]
  rfl

/-- Scheduling a pending job, sweeping a sibling of a quarantined job and discarding a saturated
candidate are no transitions of the core. -/
theorem transitions_beside_core :
    (stateOf pendingJob "a" = some .pending ∧
      stateOf (pendingJob ++ [⟨1, .schedulePendingJob "a" 5⟩]) "a" = some .scheduled ∧
      ¬ CoreEdge .pending .scheduled) ∧
    (stateOf crashedSibling "b" = some .available ∧
      stateOf (crashedSibling ++ [⟨21, .quarantineSweep 10 .increasing⟩]) "b" = some .quarantined ∧
      ¬ CoreEdge .available .quarantined) ∧
    (stateOf fullQueue "b" = some .available ∧
      stateOf (fullQueue ++ [⟨2, .admission ⟨"w", "m", ["q"], 1, 10, 1⟩ .increasing⟩]) "b"
        = some .archived ∧
      ¬ CoreEdge .available .archived) := by
  -- core leaves a job that is not running where it is, for every outcome
  have hnone : ∀ from_ to_ : State, from_ ≠ .running → from_ ≠ to_ →
      (∀ ev, lifecycleTransition from_ ev ≠ some to_) → ¬ CoreEdge from_ to_ := by
    rintro from_ to_ hidle hne hevent (⟨on, ctx, heq⟩ | ⟨ev, heq⟩)
    · have hstays : transition from_ on ctx = some from_ := by
        cases from_ <;> first | exact absurd rfl hidle | (cases on <;> rfl)
      rw [hstays] at heq
      exact hne (Option.some.inj heq)
    · exact hevent ev heq
  refine ⟨⟨by decide +kernel, by decide +kernel, ?_⟩, ⟨by decide +kernel, by decide +kernel, ?_⟩,
    by decide +kernel, by decide +kernel, ?_⟩
  all_goals
    apply hnone
    · decide
    · decide
    · intro ev
      cases ev <;> decide

/-! ## Section 6: Jobs that leave -/

/-- The call takes the job away: an ack under its lease whose outcome keeps nothing, a deletion
while it does not run, or the eviction of a finished job. -/
def Op.removes (id : String) (j : Job) : Op → Prop
  | .ack ref a => id = ref.jobId ∧ j.heldBy ref = true ∧
      (a.outcome = .success ∧ j.retentionMs = 0 ∨ a.outcome = .revoke)
  | .deleteJob x => id = x ∧ j.state ≠ .running
  | .evict _ => State.isEvictable j.state = true
  | .bulk args _ _ => args.action = .delete ∧ j.state ≠ .running
  | _ => False

theorem step_removes (calls : List Call) (c : Call) {id : String} {j : Job}
    (row : (exec calls).job? id = some j) (gone : (step (exec calls) c).job? id = none) :
    c.op.removes id j := by
  have hrule := (step_rewritten calls c).old id j row
  rw [gone] at hrule
  replace hrule := hrule.resolve_left (Option.some_ne_none _).symm
  obtain ⟨now, op⟩ := c
  cases op with
  | ack ref a =>
    obtain ⟨rfl, running, hafter⟩ := hrule
    -- an ack under a stale lease changes nothing, and the row is gone
    have hheld : j.heldBy ref = true := by
      by_contra hstale
      have hsame : step (exec calls) ⟨now, .ack ref a⟩ = exec calls := by
        simp only [step, ack, ackScript, row, if_neg hstale]
        split <;> rfl
      rw [hsame, row] at gone
      cases gone
    refine ⟨rfl, hheld, ?_⟩
    cases hon : a.outcome with
    | revoke => exact .inr rfl
    | success =>
      rw [hon, Lifecycle.afterOutcome_success running] at hafter
      have hnone : j.retentionMs ≤ 0 := by
        by_contra hkept
        cases hafter.trans (if_pos (not_le.mp hkept))
      exact .inl ⟨rfl, hnone.antisymm (exec_retentionOk calls _ j row)⟩
    | retry => simp [hon, Lifecycle.afterOutcome_retry running] at hafter
    | leaseLost => simp [hon, Lifecycle.afterOutcome_leaseLost running] at hafter
    | _ => simp [hon, Lifecycle.afterOutcome_of_transition running, transition] at hafter
  | deleteJob => exact ⟨hrule.1, hrule.2.1⟩
  | evict => exact hrule.1
  | bulk args =>
    cases haction : args.action <;>
      simp_all [Op.rule, Op.removes, BulkAction.rule, Fires, Job.lifecycle]
  | reclaim => simp [Op.rule, Lifecycle.afterOutcome_leaseLost hrule.1] at hrule
  | _ => simp [Op.rule, gateRule, Fires] at hrule

/-- **No job is lost.**  Over every run, a job that was stored and no longer is was taken away by
a call of the run: it was there before the call and is gone right after it. -/
theorem gone_removed (pre more : List Call) (id : String) (j : Job)
    (row : (exec pre).job? id = some j) (gone : (exec (pre ++ more)).job? id = none) :
    ∃ mid c post k, more = mid ++ c :: post ∧ (exec (pre ++ mid)).job? id = some k ∧
      (exec (pre ++ mid ++ [c])).job? id = none ∧ c.op.removes id k := by
  -- by the calls from the end: the last one removed the row, or an earlier one did
  induction more using List.reverseRecOn with
  | nil =>
    rw [List.append_nil, row] at gone
    cases gone
  | append_singleton more c ih =>
    cases hmid : (exec (pre ++ more)).job? id with
    | none =>
      obtain ⟨mid, d, post, k, rfl, hk, hafter, hremoves⟩ := ih hmid
      exact ⟨mid, d, post ++ [c], k, by simp, hk, hafter, hremoves⟩
    | some k =>
      rw [← List.append_assoc] at gone
      refine ⟨more, c, [], k, rfl, hmid, gone, ?_⟩
      rw [exec_snoc] at gone
      exact step_removes _ c hmid gone

theorem gone_removed_deleted :
    ∃ mid c post k, [(⟨1, .deleteJob "a"⟩ : Call)] = mid ++ c :: post ∧
      (exec (pendingJob ++ mid)).job? "a" = some k ∧
      (exec (pendingJob ++ mid ++ [c])).job? "a" = none ∧ c.op.removes "a" k :=
  gone_removed pendingJob _ "a" _ rfl (by decide +kernel)

end Headgate.Redis
