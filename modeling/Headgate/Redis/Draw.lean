import Headgate.Redis.Gate

/-!
# What the gate draws

The draw of `admit.lua` walks over queues and partitions and adds a route token
to ordinary streams on the way.  Nothing it reads depends on those tokens, so the
drawn lists are functions of the store the call starts in: `partCands` for one
partition, `queueCands` for one queue.
-/

namespace Headgate.Redis

open Headgate.Core Data Relation

variable {c : Candidate}

/-! ## Section 1: Stores that differ in route tokens -/

/-- The store with other route tokens. -/
def Store.withRoutes (s : Store) (routes : String → Finset String) : Store :=
  { s with waiting := { s.waiting with routes := routes } }

/-- Ordinary tokens were added. -/
def Healed : (String → Finset String) → (String → Finset String) → Prop :=
  ReflTransGen fun r r' => ∃ key, r' = Function.update r key (insert "*" (r key))

theorem healRoutes_eq (now : Int) (req : AdmitRequest) (queue part : String) (s : Store) :
    ∃ routes, Healed s.waiting.routes routes ∧
      healRoutes now req queue part s = s.withRoutes routes := by
  unfold healRoutes
  dsimp only
  split
  · exact ⟨_, .single ⟨_, rfl⟩, rfl⟩
  · exact ⟨s.waiting.routes, .refl, rfl⟩

/-! ## Section 2: One partition, one queue -/

/-- The candidates one partition contributes. -/
def partCands (now : Int) (req : AdmitRequest) (queue part : String) (s : Store) :
    List Candidate :=
  (sortCandidates ((drawIds now req queue part s).filterMap fun id =>
    candidate? req.worker id s)).take (deficit req.quantum queue part s).toNat

/-- The candidates of a queue, in the order the loop meets them. -/
def queueCands (now : Int) (req : AdmitRequest) (order : SetOrder String) (queue : String)
    (s : Store) : List Candidate :=
  if queue ∈ s.policy.paused then []
  else sortCandidates ((sortedParts order queue s).flatMap fun part =>
    partCands now req queue part s)

/-- The partitions of a queue that had something to draw. -/
def queueSeen (now : Int) (req : AdmitRequest) (order : SetOrder String) (queue : String)
    (s : Store) : List String :=
  if queue ∈ s.policy.paused then []
  else (sortedParts order queue s).filter fun part => drawIds now req queue part s ≠ []

private theorem drawParts_eq (now : Int) (req : AdmitRequest) (queue : String) (s : Store)
    (parts : List String) (routes : String → Finset String) (cands : List Candidate)
    (seen : List String) :
    ∃ routes', Healed routes routes' ∧
      parts.foldl (drawPart now req queue) ⟨s.withRoutes routes, cands, seen⟩ =
      ⟨s.withRoutes routes', cands ++ parts.flatMap fun part => partCands now req queue part s,
        seen ++ (parts.filter fun part => drawIds now req queue part s ≠ []).map
          (tableKey queue)⟩ := by
  induction parts generalizing routes cands seen with
  | nil => exact ⟨routes, .refl, by simp⟩
  | cons part parts ih =>
    obtain ⟨r, hheal, hr⟩ := healRoutes_eq now req queue part (s.withRoutes routes)
    -- the draw of the partition reads nothing that the tokens changed
    have hpart : drawPart now req queue ⟨s.withRoutes routes, cands, seen⟩ part =
        ⟨s.withRoutes r, cands ++ partCands now req queue part s,
          if drawIds now req queue part s ≠ [] then seen ++ [tableKey queue part] else seen⟩ := by
      unfold drawPart
      rw [hr]
      rfl
    rw [List.foldl_cons, hpart]
    obtain ⟨routes', hheals, hrest⟩ := ih r (cands ++ partCands now req queue part s)
      (if drawIds now req queue part s ≠ [] then seen ++ [tableKey queue part] else seen)
    refine ⟨routes', hheal.trans hheals, ?_⟩
    rw [hrest]
    by_cases hids : drawIds now req queue part s = []
    · simp [hids]
    · simp [hids]

theorem drawQueue_eq (now : Int) (req : AdmitRequest) (order : SetOrder String) (queue : String)
    (s : Store) (routes : String → Finset String) :
    ∃ routes', Healed routes routes' ∧ drawQueue now req order queue (s.withRoutes routes) =
      ⟨s.withRoutes routes', queueCands now req order queue s,
        (queueSeen now req order queue s).map (tableKey queue)⟩ := by
  unfold drawQueue queueCands queueSeen
  by_cases hpaused : queue ∈ s.policy.paused
  · refine ⟨routes, .refl, ?_⟩
    rw [if_pos hpaused, if_pos hpaused]
    exact if_pos hpaused
  · obtain ⟨routes', hheal, hparts⟩ := drawParts_eq now req queue s (sortedParts order queue s)
      routes [] []
    refine ⟨routes', hheal, ?_⟩
    rw [if_neg hpaused, if_neg hpaused]
    refine (if_neg hpaused).trans ?_
    have hsame : sortedParts order queue (s.withRoutes routes) = sortedParts order queue s := rfl
    simp only [hsame, hparts, List.nil_append]

/-! ## Section 3: All queues -/

section
variable (now : Int) (req : AdmitRequest) (order : SetOrder String) (s : Store)
  (queues : List String)

/-- The whole draw: only route tokens change, and each requested queue has its own list. -/
theorem drawAll_eq (routes : String → Finset String) (cands : String → List Candidate)
    (seen : List String) :
    ∃ routes', Healed routes routes' ∧
      drawAll now req order queues (s.withRoutes routes) cands seen =
      (s.withRoutes routes',
        fun q => if q ∈ queues then queueCands now req order q s else cands q,
        seen ++ queues.flatMap fun q => (queueSeen now req order q s).map (tableKey q)) := by
  induction queues generalizing routes cands seen with
  | nil => exact ⟨routes, .refl, by simp [drawAll]⟩
  | cons queue queues ih =>
    obtain ⟨r, hheal, hr⟩ := drawQueue_eq now req order queue s routes
    obtain ⟨routes', hheals, hrest⟩ :=
      ih r (Function.update cands queue (queueCands now req order queue s))
      (seen ++ (queueSeen now req order queue s).map (tableKey queue))
    refine ⟨routes', hheal.trans hheals, ?_⟩
    rw [drawAll, hr]
    rw [hrest]
    refine Prod.ext rfl (Prod.ext ?_ ?_)
    · funext q
      by_cases hq : q = queue
      · subst hq
        simp
      · simp [hq]
    · simp

/-- The drawn lists of a call. -/
def drawnCands (now : Int) (req : AdmitRequest) (order : SetOrder String) (queues : List String)
    (s : Store) (q : String) : List Candidate :=
  if q ∈ queues then queueCands now req order q s else []

/-- The partitions of a call that had something to draw, by their table keys. -/
def drawnSeen (now : Int) (req : AdmitRequest) (order : SetOrder String) (queues : List String)
    (s : Store) : List String :=
  queues.flatMap fun q => (queueSeen now req order q s).map (tableKey q)

/-- A call is the selection loop over the drawn lists, from a store with other tokens. -/
theorem selection_eq (s : Store) :
    ∃ routes, Healed s.waiting.routes routes ∧ selection now req order queues s =
      (selectLoop now req (qweight s) queues
        (queues.map fun q => (drawnCands now req order queues s q).length).sum
        (startSelection (s.withRoutes routes) (drawnCands now req order queues s)),
      drawnSeen now req order queues s) := by
  obtain ⟨routes, hheal, hdraw⟩ := drawAll_eq now req order s queues s.waiting.routes (fun _ => []) []
  have hstart : s.withRoutes s.waiting.routes = s := rfl
  rw [hstart] at hdraw
  refine ⟨routes, hheal, ?_⟩
  unfold selection
  rw [hdraw]
  simp only [List.nil_append]
  rfl

end

/-! ## Section 4: Where candidates come from -/

section
variable {s : Store} {now : Int} {req : AdmitRequest} {queues : List String} {queue part q : String}
  {order : SetOrder String}

theorem candidate?_eq_some {worker id : String} (h : candidate? worker id s = some c) :
    c.id = id ∧ s.job? id = some c.job ∧ c.job.state.isWaiting = true ∧
      (c.job.stickyWorker = "" ∨ c.job.stickyWorker = worker) := by
  unfold candidate? at h
  cases hj : s.job? id with
  | none => simp [hj] at h
  | some =>
    simp only [hj, Option.ite_none_right_eq_some, Bool.and_eq_true, Bool.or_eq_true,
      decide_eq_true_eq, Option.some.injEq] at h
    obtain ⟨⟨hw, hsticky⟩, rfl⟩ := h
    exact ⟨rfl, rfl, hw, hsticky⟩

theorem candidate?_of_row {worker id : String} {j : Job} (row : s.job? id = some j)
    (waiting : j.state.isWaiting = true) (mine : j.stickyWorker = "" ∨ j.stickyWorker = worker) :
    candidate? worker id s = some ⟨id, j⟩ := by
  unfold candidate?
  rw [row]
  simp [waiting, mine]

/-- A drawn id is due in the stream it was drawn from. -/
theorem mem_drawIds_stream {id : String} (h : id ∈ drawIds now req queue part s) :
    ∃ sticky sc, (sticky = "" ∨ sticky = req.worker ∧ req.worker ≠ "") ∧
      (s.waiting.pending (pendingKey queue part sticky)).score id = some sc ∧ sc ≤ now := by
  unfold drawIds at h
  rcases List.mem_append.mp h with hordinary | hpinned
  · obtain ⟨sc, hsc, hle⟩ := ZSet.mem_rangeByScore _ _ _ _ hordinary
    exact ⟨"", sc, .inl rfl, hsc, hle⟩
  · split at hpinned
    · rename_i hworker
      obtain ⟨sc, hsc, hle⟩ := ZSet.mem_rangeByScore _ _ _ _ hpinned
      exact ⟨req.worker, sc, .inr ⟨rfl, hworker⟩, hsc, hle⟩
    · cases hpinned

theorem mem_sortedParts : part ∈ sortedParts order queue s ↔ part ∈ s.waiting.parts queue :=
  (List.mem_insertionSort _).trans (order.mem_list _ _)

theorem sortedParts_nodup (order : SetOrder String) (queue : String) (s : Store) :
    (sortedParts order queue s).Nodup :=
  (List.perm_insertionSort _ _).nodup_iff.mpr (order.nodup _)

theorem mem_sortCandidates {cs : List Candidate} :
    c ∈ sortCandidates cs ↔ c ∈ cs :=
  (List.perm_insertionSort _ cs).mem_iff

theorem mem_partCands_ids (h : c ∈ partCands now req queue part s) :
    c.id ∈ drawIds now req queue part s ∧ candidate? req.worker c.id s = some c := by
  have hmem := mem_sortCandidates.mp (List.mem_of_mem_take h)
  obtain ⟨id, hid, hcand⟩ := List.mem_filterMap.mp hmem
  obtain ⟨rfl, -⟩ := candidate?_eq_some hcand
  exact ⟨hid, hcand⟩

/-- Where the candidates of a queue come from. -/
theorem mem_queueCands :
    c ∈ queueCands now req order queue s ↔
      queue ∉ s.policy.paused ∧ ∃ part ∈ s.waiting.parts queue,
        c ∈ partCands now req queue part s := by
  unfold queueCands
  split
  · rename_i hpaused
    simp [hpaused]
  · rename_i hpaused
    rw [mem_sortCandidates, List.mem_flatMap]
    simp [mem_sortedParts, hpaused]

/-- Where a drawn candidate comes from. -/
theorem mem_drawnCands (h : c ∈ drawnCands now req order queues s q) :
    q ∈ queues ∧ q ∉ s.policy.paused ∧ ∃ part ∈ s.waiting.parts q,
      c.id ∈ drawIds now req q part s ∧ candidate? req.worker c.id s = some c := by
  unfold drawnCands at h
  split at h
  · rename_i hq
    obtain ⟨hpaused, part, hpart, hc⟩ := mem_queueCands.mp h
    exact ⟨hq, hpaused, part, hpart, mem_partCands_ids hc⟩
  · cases h

theorem drawnCands_row (h : c ∈ drawnCands now req order queues s q) :
    s.job? c.id = some c.job := by
  obtain ⟨-, -, part, -, -, hcand⟩ := mem_drawnCands h
  exact (candidate?_eq_some hcand).2.1

end

end Headgate.Redis
