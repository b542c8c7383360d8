import Headgate.Redis.Fencing
import Headgate.Redis.Transitions
import Headgate.Schedule.Scheduler

/-!
# Ticks fire at most once

A tick's job is told apart from a repeated enqueue by its id and its unique key, and
both are gone once the job is deleted.  So a tick fires at most once in the runs that
delete no tick's job while a node may still enqueue the tick: while the schedule's next
run has not passed it, or while some node has it in its work list.  The next run moves
forward because a node writes only a later tick, and only over the value it read.
-/

namespace Headgate.Schedule

open Headgate.Core Data Redis

variable {id : String} {now : Int} {w : Firing} {sch sch' : Schedule} {k : Schedules} {n : Nat}

/-! ## Section 1: Calls that delete a job -/

/-- May the call delete the job under this id? -/
def mayDelete (s : Store) (c : Call) (id : String) : Bool :=
  match s.job? id with
  | none => false
  | some j =>
    match c.op with
    | .ack ref a => id = ref.jobId && j.heldBy ref &&
        (a.outcome = .revoke || (a.outcome = .success && j.retentionMs ≤ 0))
    | .deleteJob x => id = x && j.state ≠ .running
    | .evict limit => id ∈ s.index.ret.rangeByScore c.now limit
    | .bulk args _ _ => args.action = .delete && j.state ≠ .running
    | _ => false

theorem job?_evictLoop {ids : List String} (h : id ∉ ids) (s : Store) :
    (ids.foldl evictOne s).job? id = s.job? id := by
  induction ids generalizing s with
  | nil => rfl
  | cons x ids ih =>
    obtain ⟨hne, hrest⟩ := not_or.mp (mt List.mem_cons.mpr h)
    exact (ih hrest (evictOne s x)).trans (job?_evictOne s hne)

/-- The outcomes that delete a running job. -/
theorem afterOutcome_eq_none {k : Lifecycle} {limit : Int} {on : Outcome} (h : k.state = .running)
    (hnone : k.afterOutcome limit on = none) :
    on = .revoke ∨ on = .success ∧ k.retentionMs ≤ 0 := by
  -- every other outcome leaves a row behind, finished or waiting again
  cases on with
  | success =>
    rw [Lifecycle.afterOutcome_success h] at hnone
    split at hnone
    · cases hnone
    · rename_i hkept
      exact .inr ⟨rfl, not_lt.mp hkept⟩
  | revoke => exact .inl rfl
  | retry =>
    rw [Lifecycle.afterOutcome_retry h] at hnone
    cases hnone
  | leaseLost =>
    rw [Lifecycle.afterOutcome_leaseLost h] at hnone
    cases hnone
  | _ =>
    rw [Lifecycle.afterOutcome_of_transition h (by decide) (by decide)] at hnone
    cases hnone

/-- A job is gone after a call only if the call may delete it. -/
theorem mayDelete_of_gone {calls : List Call} {c : Call} (row : (Redis.exec calls).job? id ≠ none)
    (hgone : (Redis.step (Redis.exec calls) c).job? id = none) :
    mayDelete (Redis.exec calls) c id = true := by
  obtain ⟨j, hj⟩ := Option.ne_none_iff_exists'.mp row
  have hrule := (step_rewritten calls c).old id j hj
  rw [hgone] at hrule
  replace hrule : c.op.rule id j.lifecycle none := hrule.resolve_left (by simp)
  obtain ⟨now, op⟩ := c
  simp only [mayDelete, hj]
  cases op with
  | enqueue =>
    obtain ⟨st, m, -, heq⟩ := hrule
    cases heq
  | admission =>
    rcases hrule with ⟨-, heq | heq⟩ | ⟨-, heq⟩ <;> cases heq
  | ack ref a =>
    obtain ⟨rfl, hrunning, hnone⟩ := hrule
    have houtcome := afterOutcome_eq_none hrunning hnone.symm
    -- an ack without the lease leaves the store as it is
    have hheld : j.heldBy ref = true := by
      by_contra hfree
      have hunheld : Unheld (Redis.exec calls) ref := by
        intro hclaim
        exact hfree ((j.heldBy_iff_claim ref).mpr ((Store.claim_eq hj).symm.trans hclaim))
      have hsame : Redis.step (Redis.exec calls) ⟨now, .ack ref a⟩ = Redis.exec calls :=
        ack_of_unheld hunheld
      rw [hsame] at hgone
      exact row hgone
    rcases houtcome with hrevoke | ⟨hsuccess, hretention⟩
    · simp [hheld, hrevoke]
    · have hkept : j.retentionMs ≤ 0 := hretention
      simp [hheld, hsuccess, hkept]
  | reclaim =>
    obtain ⟨hrunning, hnone⟩ := hrule
    rw [Lifecycle.afterOutcome_leaseLost hrunning] at hnone
    cases hnone
  | promote =>
    rcases hrule with ⟨k, heq, -⟩ | ⟨k, heq, -⟩ <;> cases heq
  | operatorCancel | operatorRetry | promoteJob =>
    obtain ⟨-, k, heq, -⟩ := hrule
    cases heq
  | deleteJob =>
    obtain ⟨rfl, hidle, -⟩ := hrule
    have hstate : j.state ≠ .running := hidle
    simp [hstate]
  | schedulePendingJob =>
    obtain ⟨-, -, heq⟩ := hrule
    cases heq
  | quarantineRelease =>
    obtain ⟨k, heq, -⟩ := hrule
    cases heq
  | quarantineSweep => cases hrule.2
  | evict limit =>
    by_contra hout
    have hout' : id ∉ (Redis.exec calls).index.ret.rangeByScore now limit := by simpa using hout
    exact row ((job?_evictLoop hout' (Redis.exec calls)).symm.trans hgone)
  | bulk args =>
    dsimp only [Op.rule] at hrule
    cases haction : args.action with
    | cancel | retry =>
      rw [haction] at hrule
      obtain ⟨k, heq, -⟩ := hrule
      cases heq
    | delete =>
      rw [haction] at hrule
      have hstate : j.state ≠ .running := hrule.1
      simp [haction, hstate]
  | _ => exact hrule.elim

/-- An enqueue deletes no job. -/
theorem job?_enqueue_ne_none {calls : List Call} (now : Int) (batch : List Envelope)
    (row : (Redis.exec calls).job? id ≠ none) :
    (enqueue now batch (Redis.exec calls)).1.job? id ≠ none := by
  intro hgone
  obtain ⟨j, hj⟩ := Option.ne_none_iff_exists'.mp row
  have hmay := mayDelete_of_gone (c := ⟨now, .enqueue batch⟩) row hgone
  simp [mayDelete, hj] at hmay

/-! ## Section 2: Work in progress -/

/-- The node is at work on the firing. -/
def Cluster.Holds (s : Cluster) (w : Firing) : Prop := ∃ node ∈ s.nodes, w ∈ node.work

/-- Nobody will enqueue the tick again: it is in no work list, and the schedule has moved
past it or is gone. -/
def Settled (s : Cluster) (p : String × Int) : Prop :=
  (∀ node ∈ s.nodes, ∀ w ∈ node.work, w.schedule.id = p.1 → p.2 ∉ w.ticks) ∧
    ∀ sch ∈ s.schedules.hash p.1, p.2 < sch.nextRunMs

instance (s : Cluster) (p : String × Int) : Decidable (Settled s p) := by
  unfold Settled
  infer_instance

variable {eng : CronEngine} {fingerprint : String → Bytes → String}

/-- The next run moves forward, to a tick of the spec. -/
structure Forward (eng : CronEngine) (spec : String) (old new : Int) : Prop where
  later : old < new
  tick : IsTick eng spec new

/-- The spec has its ticks up to `now`, so that a sweep does not park the schedule. -/
def Answers (eng : CronEngine) (s : Schedule) (now : Int) : Bool :=
  (dueTicks eng s.spec s.nextRunMs now (max s.backfillLimit 1)).isOk

/-- The ticks of a firing are not before the next run it read, and the next run it will
write lies ahead. -/
structure Firing.Sound (eng : CronEngine) (w : Firing) : Prop where
  ticks : ∀ t ∈ w.ticks, w.schedule.nextRunMs ≤ t
  next : Forward eng w.schedule.spec w.schedule.nextRunMs w.next

theorem plan_schedule {s : Schedule} (h : plan eng s now = some w) : w.schedule = s := by
  unfold plan at h
  split at h
  · cases h
    rfl
  · split at h
    · cases h
    · split at h <;> cases h
      rfl

theorem plan_sound {s : Schedule} (hanswers : Answers eng s now = true)
    (h : plan eng s now = some w) : w.Sound eng := by
  unfold Answers at hanswers
  unfold plan at h
  cases hdue : dueTicks eng s.spec s.nextRunMs now (max s.backfillLimit 1) with
  | error =>
    rw [hdue] at hanswers
    cases hanswers
  | ok ticks =>
    rw [hdue] at h
    dsimp only at h
    have hticks := dueTicks_le hdue
    cases hlast : ticks.getLast? with
    | none =>
      rw [hlast] at h
      cases h
    | some last =>
      rw [hlast] at h
      dsimp only at h
      have hmem : last ∈ ticks := List.mem_of_getLast? hlast
      cases hnext : nextAfter eng s.spec (max now last) with
      | error =>
        rw [hnext] at h
        cases h
      | ok =>
        rw [hnext] at h
        cases h
        refine ⟨?_, ⟨?_, ⟨_, hnext⟩⟩⟩
        · intro t ht
          -- skipping fires the latest tick only
          split at ht
          · exact List.mem_singleton.mp ht ▸ hticks last hmem
          · exact List.mem_singleton.mp ht ▸ hticks last hmem
          · exact hticks t ht
        · have hfirst := hticks last hmem
          have hlater := nextAfter_lt hnext
          dsimp only
          omega

/-! ## Section 3: The condition on a run -/

/-- A run is orderly if no job of a tick is deleted before the tick is settled, a new
spec starts after the ticks that fired and after the next runs that nodes have read under
another spec, and no node reads a schedule whose spec has no tick where it is due. -/
def Orderly (eng : CronEngine) (s : Cluster) : Event → Prop
  | .call c => ∀ p ∈ s.created, mayDelete s.store c (tickId p.1 p.2) = true → Settled s p
  | .upsert sch => (s.schedules.hash sch.id).map Schedule.spec = some sch.spec ∨
      ((∀ p ∈ s.created, p.1 = sch.id →
          s.store.job? (tickId p.1 p.2) ≠ none ∨ p.2 < sch.nextRunMs) ∧
        ∀ node ∈ s.nodes, ∀ w ∈ node.work, w.schedule.id = sch.id →
          w.schedule.spec = sch.spec ∨ w.schedule.nextRunMs < sch.nextRunMs)
  | .node n _ => ∀ id ∈ (s.node n).unread.head?, ∀ sch ∈ s.schedules.hash id,
      Answers eng sch (s.node n).now = true
  | _ => True

instance (s : Cluster) (e : Event) : Decidable (Orderly eng s e) := by
  cases e <;> unfold Orderly <;> infer_instance

/-- What holds in every state of an orderly run. -/
structure Invariant (eng : CronEngine) (s : Cluster) : Prop where
  reached : ∃ calls, s.store = Redis.exec calls
  once : s.created.Nodup
  /-- A tick that fired has its job, or is settled. -/
  kept : ∀ p ∈ s.created, s.store.job? (tickId p.1 p.2) ≠ none ∨ Settled s p
  sound : ∀ w, s.Holds w → w.Sound eng
  /-- A next run that was read under another spec has been passed. -/
  fresh : ∀ w, s.Holds w → ∀ sch ∈ s.schedules.hash w.schedule.id,
    w.schedule.spec = sch.spec ∨ w.schedule.nextRunMs < sch.nextRunMs

/-! ## Section 4: One step -/

section
variable {s s' : Cluster} {node : Node}

theorem holds_of_node (hw : w ∈ (s.node n).work) : s.Holds w := by
  unfold Cluster.node at hw
  rw [List.getD_eq_getElem?_getD] at hw
  cases hn : s.nodes[n]? with
  | none =>
    rw [hn] at hw
    cases hw
  | some node =>
    rw [hn] at hw
    exact ⟨node, List.mem_of_getElem? hn, hw⟩

theorem holds_setNode (hw : (s.setNode n node).Holds w) : s.Holds w ∨ w ∈ node.work := by
  obtain ⟨node', hnode', hw⟩ := hw
  rcases List.mem_or_eq_of_mem_set hnode' with hold | rfl
  · exact .inl ⟨node', hold, hw⟩
  · exact .inr hw

/-- Every firing in progress was in progress before, with no more ticks. -/
def Shrinks (s s' : Cluster) : Prop :=
  ∀ w', s'.Holds w' → ∃ w, s.Holds w ∧ w'.schedule = w.schedule ∧ w'.next = w.next ∧
    w'.ticks ⊆ w.ticks

/-- Every schedule was there before, with the same spec and no later next run. -/
def Advances (s s' : Cluster) : Prop :=
  ∀ id, ∀ sch' ∈ s'.schedules.hash id, ∃ sch ∈ s.schedules.hash id,
    sch'.spec = sch.spec ∧ sch.nextRunMs ≤ sch'.nextRunMs

theorem Shrinks.of_nodes (h : s'.nodes = s.nodes) : Shrinks s s' := by
  intro w' ⟨node, hnode, hw'⟩
  rw [h] at hnode
  exact ⟨w', ⟨node, hnode, hw'⟩, rfl, rfl, List.Subset.refl _⟩

/-- A node that only drops work. -/
theorem Shrinks.setNode (h : ∀ w' ∈ node.work, ∃ w ∈ (s.node n).work,
    w'.schedule = w.schedule ∧ w'.next = w.next ∧ w'.ticks ⊆ w.ticks) :
    Shrinks s (s.setNode n node) := by
  intro w' hw'
  rcases holds_setNode hw' with hold | hmine
  · exact ⟨w', hold, rfl, rfl, List.Subset.refl _⟩
  · obtain ⟨w, hw, hrest⟩ := h w' hmine
    exact ⟨w, holds_of_node hw, hrest⟩

theorem Shrinks.setNode_of_subset (h : node.work ⊆ (s.node n).work) :
    Shrinks s (s.setNode n node) :=
  .setNode fun w' hw' => ⟨w', h hw', rfl, rfl, List.Subset.refl _⟩

theorem Advances.of_hash (h : s'.schedules.hash = s.schedules.hash) : Advances s s' := by
  intro id sch' hsch'
  rw [h] at hsch'
  exact ⟨sch', hsch', rfl, le_rfl⟩

theorem Settled.mono {p : String × Int} (h : Settled s p) (hwork : Shrinks s s')
    (hnext : Advances s s') : Settled s' p := by
  constructor
  · intro node hnode w' hw' hid hmem
    obtain ⟨w, ⟨node₀, hnode₀, hw⟩, hsch, -, hticks⟩ := hwork w' ⟨node, hnode, hw'⟩
    exact h.1 node₀ hnode₀ w hw (hsch ▸ hid) (hticks hmem)
  · intro sch' hsch'
    obtain ⟨sch, hsch, -, hle⟩ := hnext p.1 sch' hsch'
    exact (h.2 sch hsch).trans_le hle

/-- The invariant survives a step that drops work, moves next runs forward and deletes only the
jobs of settled ticks. -/
theorem Invariant.mono (h : Invariant eng s) (hcreated : s'.created = s.created)
    (hreached : ∃ calls, s'.store = Redis.exec calls)
    (hrows : ∀ p ∈ s.created, s.store.job? (tickId p.1 p.2) ≠ none →
      s'.store.job? (tickId p.1 p.2) ≠ none ∨ Settled s p)
    (hwork : Shrinks s s') (hnext : Advances s s') : Invariant eng s' := by
  refine ⟨hreached, hcreated ▸ h.once, ?_, ?_, ?_⟩
  · intro p hp
    rw [hcreated] at hp
    -- a fired tick has its row, or no plan can fire it again
    rcases h.kept p hp with hrow | hsettled
    · exact (hrows p hp hrow).imp id fun hsettled => hsettled.mono hwork hnext
    · exact .inr (hsettled.mono hwork hnext)
  · intro w' hw'
    obtain ⟨w, hw, hsch, hnext', hticks⟩ := hwork w' hw'
    have hsound := h.sound w hw
    refine ⟨fun t ht => ?_, ?_⟩
    · rw [hsch]
      exact hsound.ticks t (hticks ht)
    · rw [hsch, hnext']
      exact hsound.next
  · intro w' hw' sch' hsch'
    obtain ⟨w, hw, hsch, -, -⟩ := hwork w' hw'
    rw [hsch] at hsch' ⊢
    obtain ⟨sch, hold, hspec, hle⟩ := hnext w.schedule.id sch' hsch'
    rcases h.fresh w hw sch hold with hsame | hpassed
    · exact .inl (hsame.trans hspec.symm)
    · exact .inr (hpassed.trans_le hle)

/-- A step of the nodes or of the schedules only. -/
theorem Invariant.local_ (h : Invariant eng s) (hstore : s'.store = s.store)
    (hcreated : s'.created = s.created) (hwork : Shrinks s s') (hnext : Advances s s') :
    Invariant eng s' := by
  refine h.mono hcreated (hstore ▸ h.reached) (fun p _ hrow => .inl ?_) hwork hnext
  rw [hstore]
  exact hrow

end

/-! ## Section 5: The schedules -/

theorem hash_upsert_self (sch : Schedule) (k : Schedules) :
    (k.upsert sch).hash sch.id = some { sch with
      nextRunMs := k.phase sch
      lastEnqueuedMs := (k.hash sch.id).bind Schedule.lastEnqueuedMs } :=
  Function.update_self ..

theorem hash_upsert_of_ne (h : id ≠ sch.id) (k : Schedules) :
    (k.upsert sch).hash id = k.hash id :=
  Function.update_of_ne h ..

theorem Schedules.phase_of_same {old : Schedule} (hold : k.hash sch.id = some old)
    (hspec : old.spec = sch.spec) : k.phase sch = old.nextRunMs := by
  simp [phase, hold, hspec]

theorem Schedules.phase_of_new (h : (k.hash sch.id).map Schedule.spec ≠ some sch.spec) :
    k.phase sch = sch.nextRunMs := by
  unfold phase
  cases hold : k.hash sch.id with
  | none => rfl
  | some old =>
    rw [hold] at h
    have hne : old.spec ≠ sch.spec := fun heq => h (congrArg some heq)
    exact if_neg hne

/-- What an advance does to the hash of a schedule. -/
theorem hash_advance {x : String} {from_ to_ : Int}
    (h : (k.advance now id from_ to_).hash x = some sch') :
    k.hash x = some sch' ∨ x = id ∧ ∃ sch, k.hash x = some sch ∧ sch.nextRunMs = from_ ∧
      sch'.spec = sch.spec ∧ sch'.nextRunMs = to_ := by
  unfold Schedules.advance at h
  cases hsch : k.hash id with
  | none =>
    rw [hsch] at h
    exact .inl h
  | some sch =>
    rw [hsch] at h
    dsimp only at h
    -- the advance is compare-and-set: it takes place if the next run is still the one read
    split at h
    · rename_i hfrom
      dsimp only at h
      by_cases hx : x = id
      · subst hx
        rw [Function.update_self] at h
        cases h
        exact .inr ⟨rfl, sch, hsch, hfrom, rfl, rfl⟩
      · rw [Function.update_of_ne hx] at h
        exact .inl h
    · exact .inl h

/-- What a delete leaves was there. -/
theorem hash_delete {x : String} (h : (k.delete id).hash x = some sch) : k.hash x = some sch := by
  unfold Schedules.delete at h
  split at h
  · exact h
  · dsimp only at h
    by_cases hx : x = id
    · subst hx
      rw [Function.update_self] at h
      cases h
    · rw [Function.update_of_ne hx] at h
      exact h

section
variable {s : Cluster}

section
variable (h : Invariant eng s)
include h

/-- An upsert keeps the invariant: an unchanged spec keeps its phase, and a new one starts after
everything that fired or was read. -/
theorem upsert_invariant (horderly : Orderly eng s (.upsert sch)) :
    Invariant eng (step eng fingerprint s (.upsert sch)) := by
  -- the same spec keeps its phase; a new one starts where the caller says
  by_cases hsame : (s.schedules.hash sch.id).map Schedule.spec = some sch.spec
  · obtain ⟨old, hold, hspec⟩ := Option.map_eq_some_iff.mp hsame
    refine h.local_ rfl rfl (.of_nodes rfl) fun id sch' hsch' => ?_
    by_cases hid : id = sch.id
    · subst hid
      have hstored := (hash_upsert_self sch s.schedules).symm.trans hsch'
      cases hstored
      exact ⟨old, hold, hspec.symm, (Schedules.phase_of_same hold hspec).ge⟩
    · have hkept := (hash_upsert_of_ne hid s.schedules).symm.trans hsch'
      exact ⟨sch', hkept, rfl, le_rfl⟩
  · obtain ⟨hfired, hread⟩ := horderly.resolve_left hsame
    have hphase := Schedules.phase_of_new hsame
    have hstored : ∀ sch' ∈ (s.schedules.upsert sch).hash sch.id,
        sch'.spec = sch.spec ∧ sch'.nextRunMs = sch.nextRunMs := by
      intro sch' hsch'
      have heq := (hash_upsert_self sch s.schedules).symm.trans hsch'
      cases heq
      exact ⟨rfl, hphase⟩
    refine ⟨h.reached, h.once, ?_, h.sound, ?_⟩
    · intro p hp
      rcases h.kept p hp with hrow | hsettled
      · exact .inl hrow
      · by_cases hid : p.1 = sch.id
        · refine (hfired p hp hid).imp id fun hlater => ⟨hsettled.1, fun sch' hsch' => ?_⟩
          rw [hid] at hsch'
          rw [(hstored sch' hsch').2]
          exact hlater
        · refine .inr ⟨hsettled.1, fun sch' hsch' => hsettled.2 sch' ?_⟩
          exact (hash_upsert_of_ne hid s.schedules).symm.trans hsch'
    · intro w hw sch' hsch'
      by_cases hid : w.schedule.id = sch.id
      · rw [hid] at hsch'
        obtain ⟨hspec, hnext⟩ := hstored sch' hsch'
        obtain ⟨node, hnode, hmem⟩ := hw
        rw [hspec, hnext]
        exact hread node hnode w hmem hid
      · exact h.fresh w hw sch' ((hash_upsert_of_ne hid s.schedules).symm.trans hsch')

/-- Reading a schedule adds a firing that starts at its next run. -/
theorem read_invariant {node : Node} (id : String)
    (hwork : ∀ w ∈ node.work, w ∈ (s.node n).work ∨ ∃ sch, s.schedules.hash id = some sch ∧
      w.schedule = scheduleFromHash id sch ∧ w.Sound eng) : Invariant eng (s.setNode n node) := by
  have hcases : ∀ w, (s.setNode n node).Holds w → s.Holds w ∨ ∃ sch,
      s.schedules.hash id = some sch ∧ w.schedule = scheduleFromHash id sch ∧ w.Sound eng := by
    intro w hw
    rcases holds_setNode hw with hold | hmine
    · exact .inl hold
    · exact (hwork w hmine).imp holds_of_node fun hplan => hplan
  refine ⟨h.reached, h.once, ?_, ?_, ?_⟩
  · intro p hp
    refine (h.kept p hp).imp (fun hrow => hrow) fun hsettled => ⟨?_, hsettled.2⟩
    intro node' hnode' w hw hid hmem
    rcases hcases w ⟨node', hnode', hw⟩ with ⟨node₀, hnode₀, hw₀⟩ | ⟨sch, hsch, hschedule, hsound⟩
    · exact hsettled.1 node₀ hnode₀ w hw₀ hid hmem
    · -- the plan starts at the next run, which has passed the tick
      have hstart := hsound.ticks p.2 hmem
      rw [hschedule] at hstart hid
      have hpassed := hsettled.2 sch (hid ▸ hsch)
      exact absurd hstart (not_le.mpr hpassed)
  · intro w hw
    rcases hcases w hw with hold | ⟨sch, -, -, hsound⟩
    · exact h.sound w hold
    · exact hsound
  · intro w hw sch' hsch'
    rcases hcases w hw with hold | ⟨sch, hsch, hschedule, -⟩
    · exact h.fresh w hold sch' hsch'
    · rw [hschedule] at hsch' ⊢
      cases hsch.symm.trans hsch'
      exact .inl rfl

/-- Enqueuing a tick creates a job only for a tick that has not fired. -/
theorem fireTick_invariant {tick : Int} {ticks : List Int} {rest : List Firing}
    (hwork : (s.node n).work = w :: rest) (hticks : w.ticks = tick :: ticks) :
    Invariant eng (s.fireTick fingerprint n now w tick ticks rest) := by
  obtain ⟨calls, hcalls⟩ := h.reached
  -- the step without its entry in the list of created ticks
  have hshrinks : Shrinks s (s.fireTick fingerprint n now w tick ticks rest) := by
    refine Shrinks.setNode fun w' hw' => ?_
    rw [hwork]
    dsimp only at hw'
    split at hw'
    · rcases List.mem_cons.mp hw' with rfl | hrest
      · refine ⟨w, List.mem_cons_self, rfl, rfl, ?_⟩
        rw [hticks]
        exact List.subset_cons_self tick ticks
      · exact ⟨w', List.mem_cons_of_mem w hrest, rfl, rfl, List.Subset.refl _⟩
    · exact ⟨w', List.mem_cons_of_mem w hw', rfl, rfl, List.Subset.refl _⟩
  have hreached : ∃ calls, (s.fireTick fingerprint n now w tick ticks rest).store
      = Redis.exec calls := by
    refine ⟨calls ++ [⟨now, .enqueue [tickEnvelope fingerprint w.schedule tick]⟩], ?_⟩
    rw [exec_snoc, ← hcalls]
    rfl
  have hrows : ∀ id, s.store.job? id ≠ none →
      (s.fireTick fingerprint n now w tick ticks rest).store.job? id ≠ none := by
    intro id hrow
    rw [hcalls] at hrow
    have hstays := job?_enqueue_ne_none now [tickEnvelope fingerprint w.schedule tick] hrow
    rw [← hcalls] at hstays
    exact hstays
  have hbase : Invariant eng
      { s.fireTick fingerprint n now w tick ticks rest with created := s.created } :=
    h.mono rfl hreached (fun p _ hrow => .inl (hrows _ hrow)) hshrinks (.of_hash rfl)
  by_cases hnew : s.store.job? (tickId w.schedule.id tick) = none ∧
      (s.fireTick fingerprint n now w tick ticks rest).store.job? (tickId w.schedule.id tick) ≠ none
  · have hcreated : (s.fireTick fingerprint n now w tick ticks rest).created
        = (w.schedule.id, tick) :: s.created := if_pos hnew
    have hfirst : (w.schedule.id, tick) ∉ s.created := by
      intro hfired
      rcases h.kept _ hfired with hrow | hsettled
      · exact hrow hnew.1
      · have hmem : w ∈ (s.node n).work := by rw [hwork]; exact List.mem_cons_self
        obtain ⟨node, hnode, hw⟩ := holds_of_node hmem
        refine hsettled.1 node hnode w hw rfl ?_
        rw [hticks]
        exact List.mem_cons_self
    refine ⟨hbase.reached, ?_, ?_, hbase.sound, hbase.fresh⟩
    · rw [hcreated]
      exact List.nodup_cons.mpr ⟨hfirst, h.once⟩
    · intro p hp
      rw [hcreated] at hp
      rcases List.mem_cons.mp hp with rfl | hold
      · exact .inl hnew.2
      · exact hbase.kept p hold
  · have hcreated : (s.fireTick fingerprint n now w tick ticks rest).created = s.created :=
      if_neg hnew
    exact h.mono hcreated hreached (fun p _ hrow => .inl (hrows _ hrow)) hshrinks (.of_hash rfl)

/-- An advance writes over the next run that the node read. -/
theorem advance_advances (hw : s.Holds w)
    (hsch' : (s.schedules.advance now w.schedule.id w.schedule.nextRunMs w.next).hash id
      = some sch') :
    ∃ sch, s.schedules.hash id = some sch ∧ sch'.spec = sch.spec ∧
      (sch'.nextRunMs = sch.nextRunMs ∨ Forward eng sch.spec sch.nextRunMs sch'.nextRunMs) := by
  rcases hash_advance hsch' with hsame | ⟨rfl, sch, hsch, hfrom, hspec, hto⟩
  · exact ⟨sch', hsame, rfl, .inl rfl⟩
  · refine ⟨sch, hsch, hspec, .inr ?_⟩
    rcases h.fresh w hw sch hsch with hread | hpassed
    · rw [← hread, hfrom, hto]
      exact (h.sound w hw).next
    · exact absurd hfrom (ne_of_gt hpassed)

theorem nodeStep_invariant (horderly : Orderly eng s (.node n now)) :
    Invariant eng (s.nodeStep eng fingerprint n now) := by
  unfold Cluster.nodeStep
  -- the node reads the next id, works off a plan, or lists the due schedules
  split
  · rename_i id unread hunread
    refine read_invariant h id fun w hw => ?_
    rcases List.mem_append.mp hw with hwork | hnew
    · exact .inl hwork
    · obtain ⟨sch, hsch, hplan⟩ := Option.bind_eq_some_iff.mp (Option.mem_toList.mp hnew)
      have hanswers := horderly id (by rw [hunread]; rfl) sch hsch
      exact .inr ⟨sch, hsch, plan_schedule hplan, plan_sound (s := scheduleFromHash id sch) hanswers
        hplan⟩
  · rename_i w rest _ hwork
    split
    · rename_i tick ticks hticks
      exact fireTick_invariant h hwork hticks
    · have hw : w ∈ (s.node n).work := by rw [hwork]; exact List.mem_cons_self
      refine h.local_ rfl rfl ?_ fun id sch' hsch' => ?_
      · refine Shrinks.setNode_of_subset (s := s) (n := n) ?_
        rw [hwork]
        exact List.subset_cons_self w rest
      · obtain ⟨sch, hsch, hspec, hmove⟩ := advance_advances h (holds_of_node hw) hsch'
        refine ⟨sch, hsch, hspec, ?_⟩
        rcases hmove with hsame | hforward
        · exact hsame.ge
        · exact hforward.later.le
  · exact h.local_ rfl rfl (Shrinks.setNode_of_subset (s := s) (n := n) (List.nil_subset _))
      (.of_hash rfl)

end

/-- **Step.**  An orderly step keeps the invariant. -/
theorem step_invariant {e : Event} (horderly : Orderly eng s e) (h : Invariant eng s) :
    Invariant eng (step eng fingerprint s e) := by
  cases e with
  | call c =>
    obtain ⟨calls, hcalls⟩ := h.reached
    refine h.mono rfl ⟨calls ++ [c], ?_⟩ ?_ (.of_nodes rfl) (.of_hash rfl)
    · rw [exec_snoc, ← hcalls]
      rfl
    · intro p hp hrow
      -- a call that removes the row of a tick must come after the tick is settled
      by_cases hgone : (Redis.step s.store c).job? (tickId p.1 p.2) = none
      · refine .inr (horderly p hp ?_)
        rw [hcalls] at hrow hgone ⊢
        exact mayDelete_of_gone hrow hgone
      · exact .inl hgone
  | upsert => exact upsert_invariant h horderly
  | delete =>
    refine h.local_ rfl rfl (.of_nodes rfl) fun x sch hsch => ?_
    exact ⟨sch, hash_delete hsch, rfl, le_rfl⟩
  | node => exact nodeStep_invariant h horderly
  | abandon =>
    dsimp only [step]
    split
    · exact h.local_ rfl rfl (.setNode_of_subset (List.tail_subset _)) (.of_hash rfl)
    · exact h.local_ rfl rfl (.setNode_of_subset (List.nil_subset _)) (.of_hash rfl)
  | crash => exact h.local_ rfl rfl (.setNode_of_subset (List.nil_subset _)) (.of_hash rfl)

end

theorem init_invariant (nodes : Nat) : Invariant eng (.init nodes) := by
  have hidle : ∀ w, ¬ (Cluster.init nodes).Holds w := by
    rintro w ⟨node, hnode, hw⟩
    rw [List.eq_of_mem_replicate hnode] at hw
    cases hw
  exact ⟨⟨[], rfl⟩, List.nodup_nil, fun p hp => (nomatch hp), fun w hw => absurd hw (hidle w),
    fun w hw => absurd hw (hidle w)⟩

/-- **Run.**  Every state of an orderly run meets the invariant. -/
theorem exec_invariant {nodes : Nat} {events : List Event}
    (h : EachStep (step eng fingerprint) (Orderly eng) (.init nodes) events) :
    Invariant eng (exec eng fingerprint nodes events) :=
  run_invariant (Invariant eng) (fun _ _ horderly hinv => step_invariant horderly hinv)
    (init_invariant nodes) h

/-! ## Section 6: Whole runs -/

/-- A step that leaves the spec of a schedule alone leaves its next run alone or moves it forward. -/
theorem step_forward {s : Cluster} {e : Event} (h : Invariant eng s)
    (hsch : s.schedules.hash id = some sch)
    (hsch' : (step eng fingerprint s e).schedules.hash id = some sch')
    (hspec : sch'.spec = sch.spec) :
    sch'.nextRunMs = sch.nextRunMs ∨ Forward eng sch.spec sch.nextRunMs sch'.nextRunMs := by
  have hkept : s.schedules.hash id = some sch' → sch'.nextRunMs = sch.nextRunMs := by
    intro hsame
    cases hsch.symm.trans hsame
    rfl
  cases e with
  | call | crash => exact .inl (hkept hsch')
  | upsert new =>
    by_cases hid : id = new.id
    · subst hid
      have hstored := (hash_upsert_self new s.schedules).symm.trans hsch'
      cases hstored
      exact .inl (Schedules.phase_of_same hsch hspec.symm)
    · exact .inl (hkept ((hash_upsert_of_ne hid s.schedules).symm.trans hsch'))
  | delete => exact .inl (hkept (hash_delete hsch'))
  | node n =>
    dsimp only [step, Cluster.nodeStep] at hsch'
    split at hsch'
    · exact .inl (hkept hsch')
    · rename_i w rest _ hwork
      split at hsch'
      · exact .inl (hkept hsch')
      · have hw : w ∈ (s.node n).work := by rw [hwork]; exact List.mem_cons_self
        obtain ⟨old, hold, -, hmove⟩ := advance_advances h (holds_of_node hw) hsch'
        cases hsch.symm.trans hold
        exact hmove
    · exact .inl (hkept hsch')
  | abandon =>
    dsimp only [step] at hsch'
    split at hsch'
    · exact .inl (hkept hsch')
    · exact .inl (hkept hsch')

/-- **Ticks fire at most once.**  In every orderly run of any number of nodes, at most one job is
created for each schedule and tick, and every step that leaves the spec of a schedule alone
leaves its next run alone or moves it forward, to a tick of the spec. -/
theorem ticks_fire_once (eng : CronEngine) (fingerprint : String → Bytes → String) (nodes : Nat)
    (events : List Event)
    (horderly : EachStep (step eng fingerprint) (Orderly eng) (.init nodes) events) :
    (exec eng fingerprint nodes events).created.Nodup ∧
    ∀ pre e post, events = pre ++ e :: post → ∀ id sch sch',
      (exec eng fingerprint nodes pre).schedules.hash id = some sch →
      (exec eng fingerprint nodes (pre ++ [e])).schedules.hash id = some sch' →
      sch'.spec = sch.spec →
      sch'.nextRunMs = sch.nextRunMs ∨ Forward eng sch.spec sch.nextRunMs sch'.nextRunMs := by
  refine ⟨(exec_invariant horderly).once, ?_⟩
  intro pre e post heq id sch sch' hsch hsch' hspec
  rw [heq, eachStep_append] at horderly
  have hinv := exec_invariant horderly.1
  have hlast : exec eng fingerprint nodes (pre ++ [e])
      = step eng fingerprint (exec eng fingerprint nodes pre) e := run_append ..
  rw [hlast] at hsch'
  exact step_forward hinv hsch hsch' hspec

/-! ## Section 7: Deleted before they are settled -/

/-- An engine for intervals only. -/
def everyOnly : CronEngine where
  Compiled := Empty
  fromStr _ := .error "no cron"
  after c _ := c.elim
  after_lt c := c.elim
  Tz := Empty
  tzFromStr _ := none
  naiveLocal tz _ := tz.elim
  earliest tz _ := tz.elim
  inRange _ := true

/-- Every second, and a finished job is deleted at once. -/
def everySecond : Schedule where
  id := "a"
  kind := "k"
  queue := "q"
  spec := "@every:1000"
  nextRunMs := 1000

def kindOnly (kind : String) (_ : Bytes) : String := kind

/-- A worker claims the job of the first tick and finishes it. -/
def finished (now : Int) : List Event :=
  [.call ⟨now, .admission ⟨"w", "l", ["q"], 1, 10, 1⟩ .increasing⟩,
    .call ⟨now, .ack ⟨"sched-a-1000", "l", 1⟩
      { outcome := .success, retryBaseMs := 1, retryCapMs := 1 }⟩]

/-- Both nodes fire the tick and advance before its job finishes. -/
def bothDone : List Event :=
  [.upsert everySecond, .node 0 1500, .node 0 1500, .node 1 1500, .node 1 1500,
    .node 0 1501, .node 1 1502, .node 0 1503, .node 1 1504] ++ finished 1505

theorem ticks_fire_once_both_done :
    (exec everyOnly kindOnly 2 bothDone).created.Nodup ∧
      (exec everyOnly kindOnly 2 bothDone).created = [("a", 1000)] :=
  ⟨(ticks_fire_once everyOnly kindOnly 2 bothDone (by decide +kernel)).1, by decide +kernel⟩

/-- Node 1 has read the schedule when node 0 fires the tick, and enqueues it after the job is
done. -/
def slowNode : List Event :=
  [.upsert everySecond, .node 0 1500, .node 0 1500, .node 1 1500, .node 1 1500, .node 0 1501]
    ++ finished 1502 ++ [.node 1 1503]

/-- The one node stops between the enqueue and the advance, and sweeps again after the job is
done. -/
def crashedNode : List Event :=
  [.upsert everySecond, .node 0 1500, .node 0 1500, .node 0 1501, .crash 0] ++ finished 1502
    ++ [.node 0 1503, .node 0 1503, .node 0 1504]

/-- A tick whose job is deleted early fires twice. -/
theorem ticks_fire_twice :
    (exec everyOnly kindOnly 2 slowNode).created = [("a", 1000), ("a", 1000)] ∧
      (exec everyOnly kindOnly 1 crashedNode).created = [("a", 1000), ("a", 1000)] := by
  constructor <;> decide +kernel

end Headgate.Schedule
