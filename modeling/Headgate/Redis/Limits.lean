import Headgate.Redis.Admin

/-!
# Concurrency limits by name and by queue

A limit is stored under its name and, for the gate, under its queue.  An upsert that
moves a limit to another queue takes the entry of the old queue away without asking
which limit wrote it, so another limit that points at that queue loses its entry.
-/

namespace Headgate.Redis

open Headgate.Core

/-- A limit under its name. -/
abbrev NamedLimit := String × ConcurrencyLimit

variable {u : NamedLimit} {older : List NamedLimit} {name : String} {cfg : ConcurrencyLimit}

/-- The policy after upserts, the last one first. -/
def upsertAll : List NamedLimit → Policy
  | [] => Store.init.policy
  | u :: older => upsertConcurrencyLimit u.1 u.2 (upsertAll older)

/-- The named limits as they were last written, the last one first. -/
def standing : List NamedLimit → List NamedLimit
  | [] => []
  | u :: older => u :: (standing older).filter fun v => v.1 ≠ u.1

/-- The entry of every queue is the last written of the limits that point at it, and there is one
if any limit does. -/
def InForce (ups : List NamedLimit) : Prop :=
  (∀ queue, (upsertAll ups).climitq queue
    = ((standing ups).find? fun v => v.2.queue = queue).map Prod.snd) ∧
  ∀ name cfg, (upsertAll ups).climits name = some cfg →
    ((upsertAll ups).climitq cfg.queue).isSome

/-- The upsert moves no limit away from a queue that another limit points at. -/
def MovesAlone (u : NamedLimit) (p : Policy) : Prop :=
  ∀ old, p.climits u.1 = some old → old.queue ≠ u.2.queue →
    ∀ name cfg, name ≠ u.1 → p.climits name = some cfg → cfg.queue ≠ old.queue

theorem mem_standing {ups : List NamedLimit} :
    (name, cfg) ∈ standing ups ↔ (upsertAll ups).climits name = some cfg := by
  induction ups with
  | nil => simp [standing, upsertAll, Store.init]
  | cons u older ih =>
    rw [standing, List.mem_cons, List.mem_filter, ih, upsertAll]
    by_cases hname : name = u.1
    · simp [upsertConcurrencyLimit, hname, Prod.ext_iff, eq_comm]
    · simp [upsertConcurrencyLimit, hname, Prod.ext_iff]

/-- The entries of two queues change: the limit's queue gets one, the queue it leaves has none. -/
theorem climitq_upsert (name : String) (cfg : ConcurrencyLimit) (p : Policy) (queue : String) :
    (upsertConcurrencyLimit name cfg p).climitq queue = if queue = cfg.queue then some cfg
      else if (p.climits name).any fun old => old.queue = queue then none else p.climitq queue := by
  unfold upsertConcurrencyLimit
  cases p.climits name with
  | none => simp [Function.update_apply]
  | some old =>
    by_cases hold : old.queue = cfg.queue
    · by_cases hqueue : queue = cfg.queue <;> grind [Function.update_apply]
    · simp [Function.update_apply, hold, eq_comm]

/-- One upsert keeps the entries in force if it moves its limit alone. -/
theorem InForce.cons (h : InForce older) (hmoves : MovesAlone u (upsertAll older)) :
    InForce (u :: older) := by
  have hentry : ∀ queue, (upsertAll (u :: older)).climitq queue
      = ((standing (u :: older)).find? fun v => v.2.queue = queue).map Prod.snd := by
    intro queue
    rw [standing, upsertAll, climitq_upsert, List.find?_cons]
    by_cases hqueue : u.2.queue = queue
    · simp [hqueue]
    · simp only [hqueue, Ne.symm hqueue, if_false, decide_false, List.find?_filter]
      split
      · -- no other limit points at the queue that the limit leaves
        rename_i hleft
        obtain ⟨old, hold, hat⟩ := (Option.any_eq_true _ _).mp hleft
        rw [decide_eq_true_eq] at hat
        rw [eq_comm, Option.map_eq_none_iff, List.find?_eq_none]
        rintro ⟨name, cfg⟩ hmem
        have halone := hmoves old hold (by rwa [hat, ne_comm]) name cfg
        simpa [hat] using fun hname => halone hname (mem_standing.mp hmem)
      · rename_i hstays
        rw [h.1 queue]
        congr 1
        apply List.find?_congr
        rintro ⟨name, cfg⟩ hmem
        -- the limit's own former configuration points elsewhere
        have hother : cfg.queue = queue → name ≠ u.1 := by
          rintro hcfg rfl
          rw [mem_standing.mp hmem] at hstays
          simp [hcfg] at hstays
        by_cases hcfg : cfg.queue = queue <;> simp [hcfg, hother]
  refine ⟨hentry, fun name cfg hcfg => ?_⟩
  rw [hentry, Option.isSome_map, List.find?_isSome]
  exact ⟨(name, cfg), mem_standing.mpr hcfg, decide_eq_true rfl⟩

/-- **Limits stay in force.**  At every point of a sequence of upserts the entry of each queue is
the last written of the limits that point at it, exactly if no upsert moves a limit away from a
queue that another one points at. -/
theorem limits_inForce_iff (ups : List NamedLimit) :
    (∀ past, past <:+ ups → InForce past) ↔
      ∀ u past, u :: past <:+ ups → MovesAlone u (upsertAll past) := by
  constructor
  · intro h u past hpast old hold hmoved name cfg hname hcfg hqueue
    have hgone : (upsertAll (u :: past)).climitq cfg.queue = none := by
      simp [upsertAll, climitq_upsert, hold, hqueue, hmoved]
    have hstays : (upsertAll (u :: past)).climits name = some cfg := by
      simpa [upsertAll, upsertConcurrencyLimit, hname] using hcfg
    have hsome := (h _ hpast).2 name cfg hstays
    rw [hgone] at hsome
    cases hsome
  · intro h past
    induction past with
    | nil => exact fun _ => ⟨fun _ => rfl, fun _ _ hcfg => nomatch hcfg⟩
    | cons u past ih =>
      intro hpast
      exact (ih ((List.suffix_cons u past).trans hpast)).cons (h u past hpast)

/-- Two limits point at a queue; when the first moves away, the second is no longer in force. -/
theorem moved_limit_unguards :
    let ups : List NamedLimit :=
      [("a", ⟨"p", 1, .queue⟩), ("b", ⟨"q", 1, .queue⟩), ("a", ⟨"q", 1, .queue⟩)]
    (upsertAll ups).climits "b" = some ⟨"q", 1, .queue⟩ ∧ (upsertAll ups).climitq "q" = none :=
  ⟨rfl, rfl⟩

end Headgate.Redis
