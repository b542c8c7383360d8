import Headgate.Data.Loop

/-!
# Topological peeling of a dependency graph

The queue algorithm that looks for a cycle: nodes without open dependencies are visited in
turn, each visit closes one dependency of every dependent.  All nodes are visited exactly if
the graph is acyclic (`peel_length_iff`), whatever the order of the first queue.
-/

namespace Headgate.Data

/-- The loop's state. -/
structure Peel (α : Type*) where
  ready : List α
  indegree : α → Nat
  visited : List α

section
variable {α : Type*} [DecidableEq α] (nodes : List α) (deps : α → List α)

/-- The nodes that name `d` as a dependency. -/
def dependents (d : α) : List α := nodes.filter fun a => decide (d ∈ deps a)

/-- One dependency of `child` is closed. -/
def release (p : Peel α) (child : α) : Peel α :=
  let degree := p.indegree child - 1
  { p with
    indegree := Function.update p.indegree child degree
    ready := if degree = 0 then p.ready ++ [child] else p.ready }

/-- The first of the queue is visited. -/
def visit (p : Peel α) : Peel α :=
  match p.ready with
  | [] => p
  | a :: rest =>
    (dependents nodes deps a).foldl release { p with ready := rest, visited := p.visited ++ [a] }

/-- The nodes visited, starting with the queue `start`. -/
def peel (start : List α) : List α :=
  (iterateUntil (fun p => p.ready.isEmpty) (visit nodes deps) nodes.length
    ⟨start, fun a => (deps a).length, []⟩).visited

/-- No path of dependencies comes back: some ranking falls along every dependency. -/
def Acyclic : Prop := ∃ rank : α → Nat, ∀ a ∈ nodes, ∀ d ∈ deps a, rank d < rank a

/-- A graph that `peel` can be run on: nodes and dependencies unrepeated, dependencies in it. -/
structure Wired : Prop where
  distinct : nodes.Nodup
  once : ∀ a ∈ nodes, (deps a).Nodup
  closed : ∀ a ∈ nodes, ∀ d ∈ deps a, d ∈ nodes

/-- Open dependencies of a node. -/
def openDeps (visited : List α) (a : α) : Nat := ((deps a).filter fun d => d ∉ visited).length

/-- The loop's invariant while the dependents in `cs` are still to be released. -/
structure Peel.Ok (cs : List α) (p : Peel α) : Prop where
  nodup : (p.visited ++ p.ready).Nodup
  mem : ∀ a ∈ p.visited ++ p.ready, a ∈ nodes
  degree : ∀ a ∈ nodes, p.indegree a = openDeps deps p.visited a + if a ∈ cs then 1 else 0
  /-- a node with nothing open is in the queue or behind it -/
  queued : ∀ a ∈ nodes, p.indegree a = 0 → a ∈ p.visited ++ p.ready
  free : ∀ a ∈ p.ready, p.indegree a = 0
  order : ∀ l₁ a l₂, p.visited = l₁ ++ a :: l₂ → ∀ d ∈ deps a, d ∈ l₁

variable {nodes deps} {p : Peel α} {cs first : List α} {a c d : α}

theorem mem_dependents : c ∈ dependents nodes deps a ↔ c ∈ nodes ∧ a ∈ deps c := by
  simp [dependents]

/-- A visited node has only visited dependencies. -/
theorem Peel.Ok.visited_deps (h : p.Ok nodes deps cs) (ha : a ∈ p.visited) (hd : d ∈ deps a) :
    d ∈ p.visited := by
  obtain ⟨l₁, l₂, heq⟩ := List.append_of_mem ha
  rw [heq]
  exact List.mem_append_left _ (h.order l₁ a l₂ heq d hd)

/-- A node with nothing open has all its dependencies visited. -/
theorem openDeps_eq_zero {visited : List α} :
    openDeps deps visited a = 0 ↔ ∀ d ∈ deps a, d ∈ visited := by
  simp [openDeps, List.filter_eq_nil_iff]

/-- Visiting `x` closes the dependency on it. -/
theorem openDeps_visit {visited : List α} {x : α} (hnodup : (deps a).Nodup) (hx : x ∉ visited) :
    openDeps deps visited a = openDeps deps (visited ++ [x]) a + if x ∈ deps a then 1 else 0 := by
  unfold openDeps
  generalize deps a = ds at hnodup ⊢
  induction ds with
  | nil => simp
  | cons d rest ih =>
    rw [List.nodup_cons] at hnodup
    have hrest := ih hnodup.2
    by_cases hdx : d = x
    · subst hdx
      have hin : d ∉ rest := hnodup.1
      simp [hin, hx] at hrest ⊢
      exact hrest
    · have hxd : x ≠ d := Ne.symm hdx
      by_cases hd : d ∈ visited
      · simpa [hd, hdx, hxd] using hrest
      · simp [hd, hdx, hxd] at hrest ⊢
        omega

/-- Releasing one dependent. -/
theorem Peel.Ok.release (h : p.Ok nodes deps (c :: cs)) (hc : c ∈ nodes) (hnot : c ∉ cs)
    (hunseen : c ∉ p.visited) : (Data.release p c).Ok nodes deps cs := by
  have hdegree : p.indegree c = openDeps deps p.visited c + 1 := by
    simpa using h.degree c hc
  have hunready : c ∉ p.ready := fun hin => by
    have hzero := h.free c hin
    omega
  have hready : ∀ a, a ∈ (Data.release p c).ready →
      a ∈ p.ready ∨ a = c ∧ openDeps deps p.visited c = 0 := by
    intro a ha
    unfold Data.release at ha
    dsimp only at ha
    split at ha
    · rename_i hzero
      rcases List.mem_append.mp ha with hold | hnew
      · exact .inl hold
      · exact .inr ⟨List.mem_singleton.mp hnew, by omega⟩
    · exact .inl ha
  have hkept : ∀ a, a ∈ p.ready → a ∈ (Data.release p c).ready := by
    intro a ha
    unfold Data.release
    dsimp only
    split
    · exact List.mem_append_left _ ha
    · exact ha
  refine ⟨?_, ?_, ?_, ?_, ?_, h.order⟩
  · unfold Data.release
    dsimp only
    split
    · rw [← List.append_assoc, List.nodup_append]
      refine ⟨h.nodup, List.nodup_singleton c, ?_⟩
      intro a ha b hb hab
      rw [List.mem_singleton] at hb
      rw [hab, hb] at ha
      exact (List.mem_append.mp ha).elim hunseen hunready
    · exact h.nodup
  · intro a ha
    rcases List.mem_append.mp ha with hv | hr
    · exact h.mem a (List.mem_append_left _ hv)
    · rcases hready a hr with hold | ⟨heq, -⟩
      · exact h.mem a (List.mem_append_right _ hold)
      · exact heq ▸ hc
  · intro a ha
    show Function.update p.indegree c (p.indegree c - 1) a = _
    by_cases hac : a = c
    · subst hac
      rw [Function.update_self, hdegree, if_neg hnot]
      simp [Data.release]
    · rw [Function.update_of_ne hac, h.degree a ha]
      simp [Data.release, hac]
  · intro a ha hzero
    change Function.update p.indegree c (p.indegree c - 1) a = 0 at hzero
    by_cases hac : a = c
    · subst hac
      rw [Function.update_self] at hzero
      refine List.mem_append_right _ ?_
      simp [Data.release, hzero]
    · rw [Function.update_of_ne hac] at hzero
      rcases List.mem_append.mp (h.queued a ha hzero) with hv | hr
      · exact List.mem_append_left _ hv
      · exact List.mem_append_right _ (hkept a hr)
  · intro a ha
    show Function.update p.indegree c (p.indegree c - 1) a = 0
    rcases hready a ha with hold | ⟨heq, hzero⟩
    · have hac : a ≠ c := fun heq => hunready (heq ▸ hold)
      rw [Function.update_of_ne hac]
      exact h.free a hold
    · rw [heq, Function.update_self]
      omega

/-- Releasing all dependents in turn. -/
theorem Peel.Ok.releaseAll (h : p.Ok nodes deps cs) (hcs : cs.Nodup)
    (hin : ∀ c ∈ cs, c ∈ nodes ∧ c ∉ p.visited) : (cs.foldl Data.release p).Ok nodes deps [] := by
  induction cs generalizing p with
  | nil => exact h
  | cons c rest ih =>
    rw [List.nodup_cons] at hcs
    have hc := hin c List.mem_cons_self
    refine ih (h.release hc.1 hcs.1 hc.2) hcs.2 ?_
    intro x hx
    exact hin x (List.mem_cons_of_mem _ hx)

/-- A visit keeps the invariant. -/
theorem Peel.Ok.visit (hw : Wired nodes deps) (h : p.Ok nodes deps []) :
    (Data.visit nodes deps p).Ok nodes deps [] := by
  unfold Data.visit
  cases hready : p.ready with
  | nil => exact h
  | cons x rest =>
    have hx : x ∈ p.ready := by rw [hready]; exact List.mem_cons_self
    have hxnodes : x ∈ nodes := h.mem x (List.mem_append_right _ hx)
    have hxfree : ∀ d ∈ deps x, d ∈ p.visited := by
      have hzero := h.free x hx
      rw [h.degree x hxnodes] at hzero
      exact openDeps_eq_zero.mp (by omega)
    have hnodup := h.nodup
    rw [hready] at hnodup
    have hxnew : x ∉ p.visited := fun hv => by
      have hdisjoint := (List.nodup_append.mp hnodup).2.2 x hv x List.mem_cons_self
      exact hdisjoint rfl
    have hmoved : (p.visited ++ [x]) ++ rest = p.visited ++ x :: rest := by simp
    refine Peel.Ok.releaseAll (p := { p with ready := rest, visited := p.visited ++ [x] }) ?_
      (hw.distinct.filter _) ?_
    · refine ⟨hmoved ▸ hnodup, ?_, ?_, ?_, ?_, ?_⟩
      · intro a ha
        have ha' : a ∈ p.visited ++ p.ready := by
          rw [hready, ← hmoved]
          exact ha
        exact h.mem a ha'
      · intro a ha
        rw [h.degree a ha, openDeps_visit (hw.once a ha) hxnew]
        simp [mem_dependents, ha]
      · intro a ha hzero
        have hin := h.queued a ha hzero
        rw [hready, ← hmoved] at hin
        exact hin
      · intro a ha
        exact h.free a (by rw [hready]; exact List.mem_cons_of_mem _ ha)
      · intro l₁ a l₂ heq d hd
        -- the node just visited is the last one, or the split is inside the old list
        rcases List.eq_nil_or_concat l₂ with rfl | ⟨l₃, y, rfl⟩
        · obtain ⟨heq₁, heq₂⟩ := List.append_inj'
            (heq : p.visited ++ [x] = l₁ ++ [a]) rfl
          rw [← heq₁]
          rw [← (List.cons.inj heq₂).1] at hd
          exact hxfree d hd
        · rw [List.concat_eq_append, ← List.cons_append, ← List.append_assoc] at heq
          have hsplit := (List.append_inj'
            (heq : p.visited ++ [x] = (l₁ ++ a :: l₃) ++ [y]) rfl).1
          exact h.order l₁ a l₃ hsplit d hd
    · intro c hc
      obtain ⟨hcnodes, hxc⟩ := mem_dependents.mp hc
      refine ⟨hcnodes, fun hcv => ?_⟩
      rcases List.mem_append.mp hcv with hold | hnew
      · exact hxnew (h.visited_deps hold hxc)
      · rw [List.mem_singleton.mp hnew] at hxc
        exact hxnew (hxfree x hxc)

/-- Before the first visit. -/
theorem Peel.Ok.start (hw : Wired nodes deps)
    (hstart : first.Perm (nodes.filter fun a => decide ((deps a).length = 0))) :
    Peel.Ok nodes deps [] ⟨first, fun a => (deps a).length, []⟩ := by
  have hmem : ∀ a, a ∈ first ↔ a ∈ nodes ∧ (deps a).length = 0 := by
    intro a
    rw [hstart.mem_iff]
    simp
  refine ⟨?_, ?_, ?_, ?_, ?_, ?_⟩
  · exact hstart.nodup_iff.mpr (hw.distinct.filter _)
  · exact fun a ha => ((hmem a).mp ha).1
  · intro a _
    simp [openDeps]
  · exact fun a ha hzero => (hmem a).mpr ⟨ha, hzero⟩
  · exact fun a ha => ((hmem a).mp ha).2
  · intro l₁ a l₂ heq
    simp at heq

theorem visit_visited {x : α} {rest : List α} (hready : p.ready = x :: rest) :
    (visit nodes deps p).visited = p.visited ++ [x] := by
  have hkeep : ∀ (cs : List α) (q : Peel α), (cs.foldl Data.release q).visited = q.visited := by
    intro cs
    induction cs with
    | nil => exact fun _ => rfl
    | cons c cs ih => exact fun q => (ih _).trans rfl
  unfold visit
  rw [hready]
  exact hkeep _ _

section
variable (hw : Wired nodes deps)
  (hstart : first.Perm (nodes.filter fun a => decide ((deps a).length = 0)))
include hw hstart

/-- The loop ends with an empty queue, and what it visited is in order. -/
theorem peel_ok :
    ∃ p : Peel α, p.Ok nodes deps [] ∧ p.ready = [] ∧ peel nodes deps first = p.visited := by
  have hkeep : ∀ p : Peel α, p.ready.isEmpty = false → p.Ok nodes deps [] →
      (visit nodes deps p).Ok nodes deps [] := fun p _ h => h.visit hw
  have hbegin := Peel.Ok.start hw hstart
  refine ⟨_, iterateUntil_induct hkeep nodes.length hbegin, ?_, rfl⟩
  refine List.isEmpty_iff.mp (iterateUntil_stops _ _ (fun p => nodes.length - p.visited.length) hkeep ?_
    hbegin (Nat.sub_le _ _))
  intro p hready h
  obtain ⟨x, rest, heq⟩ : ∃ x rest, p.ready = x :: rest := by
    cases hp : p.ready with
    | nil => rw [hp] at hready; cases hready
    | cons x rest => exact ⟨x, rest, rfl⟩
  -- visited nodes are distinct nodes, and the next one is not among them yet
  have hbound : (p.visited ++ p.ready).length ≤ nodes.length :=
    (List.subperm_of_subset h.nodup h.mem).length_le
  rw [heq] at hbound
  rw [visit_visited heq]
  simp only [List.length_append, List.length_cons, List.length_nil] at hbound ⊢
  omega

/-- **Cycle detection.**  All nodes are visited exactly if the graph is acyclic. -/
theorem peel_length_iff :
    (peel nodes deps first).length = nodes.length ↔ Acyclic nodes deps := by
  obtain ⟨p, hok, hempty, hvisited⟩ := peel_ok hw hstart
  rw [hvisited]
  have hnodup : p.visited.Nodup := by simpa [hempty] using hok.nodup
  have hsub : ∀ a ∈ p.visited, a ∈ nodes := fun a ha => hok.mem a (List.mem_append_left _ ha)
  constructor
  · intro hall
    have hperm := (List.subperm_of_subset hnodup hsub).perm_of_length_le hall.ge
    -- the place in the visiting order is a ranking
    refine ⟨fun a => p.visited.idxOf a, fun a ha d hd => ?_⟩
    obtain ⟨l₁, l₂, heq⟩ := List.append_of_mem (hperm.mem_iff.mpr ha)
    have hdl := hok.order l₁ a l₂ heq d hd
    rw [heq] at hnodup
    have hal : a ∉ l₁ := fun hin =>
      (List.nodup_append.mp hnodup).2.2 a hin a List.mem_cons_self rfl
    dsimp only
    rw [heq, List.idxOf_append_of_mem hdl, List.idxOf_append_of_notMem hal, List.idxOf_cons_self]
    exact lt_of_lt_of_le (List.idxOf_lt_length_of_mem hdl) (Nat.le_add_right _ _)
  · rintro ⟨rank, hrank⟩
    have hall : ∀ n, ∀ a ∈ nodes, rank a < n → a ∈ p.visited := by
      intro n
      induction n with
      | zero => exact fun _ _ hlt => absurd hlt (Nat.not_lt_zero _)
      | succ n ih =>
        intro a ha hlt
        -- all dependencies are visited, so nothing is open and the node left the queue
        have hdeps : ∀ d ∈ deps a, d ∈ p.visited := fun d hd =>
          ih d (hw.closed a ha d hd) (lt_of_lt_of_le (hrank a ha d hd) (Nat.lt_succ_iff.mp hlt))
        have hzero : p.indegree a = 0 := by
          rw [hok.degree a ha, openDeps_eq_zero.mpr hdeps]
          rfl
        simpa [hempty] using hok.queued a ha hzero
    refine le_antisymm (List.subperm_of_subset hnodup hsub).length_le ?_
    exact (List.subperm_of_subset hw.distinct fun a ha => hall (rank a + 1) a ha
      (Nat.lt_succ_self _)).length_le

end

end

end Headgate.Data
