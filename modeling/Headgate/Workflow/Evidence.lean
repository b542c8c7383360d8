import Headgate.Workflow.Tick

/-!
# What the fixpoints of a tick compute

Two loops of the tick run until nothing changes.  The first computes exactly the completed nodes
(`mem_evidence_iff`): recorded before, or with a completed job, and for virtual nodes with
completed dependencies.  The second computes exactly the shadow of the failures
(`mem_failedSet_iff`): the nodes that a failed node reaches along dependencies.
-/

namespace Headgate.Workflow

open Headgate.Core Data

/-! ## Section 1: Completed nodes -/

/-- The job of the node was read as completed. -/
def JobCompleted (state : Snapshot) (name : String) : Prop :=
  ∃ job, state name = some job ∧ job.state = .completed

/-- Which nodes count as completed, given the names recorded before and what was read. -/
inductive Completes (workflow : CoordinatorTask) (recorded : List String) (state : Snapshot) :
    String → Prop where
  | recorded {node : NodeSpec} (hnode : node ∈ workflow.nodes) (h : node.name ∈ recorded) :
      Completes workflow recorded state node.name
  | task {node : NodeSpec} (hnode : node ∈ workflow.nodes) (hkind : node.kind.isVirtual = false)
      (h : JobCompleted state node.name) : Completes workflow recorded state node.name
  | virtual {node : NodeSpec} (hnode : node ∈ workflow.nodes) (hkind : node.kind.isVirtual = true)
      (h : JobCompleted state node.name)
      (hdeps : ∀ d ∈ node.deps, Completes workflow recorded state d) :
      Completes workflow recorded state node.name

section
variable {workflow : CoordinatorTask} {recorded : List String} {state : Snapshot}
  {times : String → Option Int} {ev : Evidence} {node : NodeSpec} {name : String}

/-- Only what was read of the nodes counts. -/
theorem Completes.congr {state' : Snapshot}
    (h : ∀ node ∈ workflow.nodes, state node.name = state' node.name)
    (hname : Completes workflow recorded state name) :
    Completes workflow recorded state' name := by
  have hjob : ∀ node ∈ workflow.nodes, JobCompleted state node.name →
      JobCompleted state' node.name := by
    rintro node hnode ⟨job, hread, hdone⟩
    exact ⟨job, by rw [← h node hnode, hread], hdone⟩
  induction hname with
  | recorded hnode hrec => exact .recorded hnode hrec
  | task hnode hkind hdone => exact .task hnode hkind (hjob _ hnode hdone)
  | virtual hnode hkind hdone _ ih => exact .virtual hnode hkind (hjob _ hnode hdone) ih

theorem mem_completedSet : name ∈ completedSet workflow recorded ↔
    name ∈ recorded ∧ ∃ node ∈ workflow.nodes, node.name = name := by
  simp [completedSet]

theorem mem_eligible {completed : Finset String} : name ∈ eligible workflow state completed ↔
    ∃ node ∈ workflow.nodes, node.name = name ∧ node.kind.isVirtual = true ∧ name ∉ completed ∧
      (∀ d ∈ node.deps, d ∈ completed) ∧ JobCompleted state name := by
  unfold eligible JobCompleted
  rw [List.mem_map]
  constructor
  · rintro ⟨node, hnode, rfl⟩
    rw [List.mem_filter] at hnode
    simp only [Bool.and_eq_true, decide_eq_true_eq, List.all_eq_true, Option.any_eq_true] at hnode
    exact ⟨node, hnode.1, rfl, hnode.2.1.1.1, hnode.2.1.1.2, hnode.2.1.2, hnode.2.2⟩
  · rintro ⟨node, hnode, rfl, hkind, hnew, hdeps, hjob⟩
    refine ⟨node, ?_, rfl⟩
    rw [List.mem_filter]
    simp only [Bool.and_eq_true, decide_eq_true_eq, List.all_eq_true, Option.any_eq_true]
    exact ⟨hnode, ⟨⟨hkind, hnew⟩, hdeps⟩, hjob⟩

theorem mem_recordTask : name ∈ (recordTask state ev node).completed ↔
    name ∈ ev.completed ∨
      name = node.name ∧ node.kind.isVirtual = false ∧ JobCompleted state node.name := by
  unfold recordTask JobCompleted
  cases hjob : state node.name with
  | none => simp
  | some job =>
    -- virtual nodes are recorded elsewhere, even with a completed job
    by_cases hdone : (!node.kind.isVirtual && decide (job.state = .completed)) = true
    · have hboth : node.kind.isVirtual = false ∧ job.state = .completed := by simpa using hdone
      simp only [hdone, if_true]
      cases job.finalizedAtMs with
      | none | some => simp [hboth.1, hboth.2, or_comm]
    · have hnot : node.kind.isVirtual = false → job.state ≠ .completed := by simpa using hdone
      simp only [hdone]
      simp only [Bool.false_eq_true, if_false, Option.some.injEq, exists_eq_left']
      constructor
      · exact .inl
      · rintro (hin | ⟨-, hkind, hstate⟩)
        · exact hin
        · exact absurd hstate (hnot hkind)

theorem mem_recordTasks {nodes : List NodeSpec} :
    name ∈ (nodes.foldl (recordTask state) ev).completed ↔
      name ∈ ev.completed ∨ ∃ node ∈ nodes, name = node.name ∧ node.kind.isVirtual = false ∧
        JobCompleted state node.name := by
  induction nodes generalizing ev with
  | nil => simp
  | cons x rest ih =>
    rw [List.foldl_cons, ih, mem_recordTask]
    simp only [List.mem_cons, exists_eq_or_imp]
    tauto

/-- The nodes whose completion is still open. -/
def openNodes (workflow : CoordinatorTask) (completed : Finset String) : Nat :=
  (workflow.nodes.filter fun node => node.name ∉ completed).length

theorem openNodes_lt {completed : Finset String}
    (h : (eligible workflow state completed).isEmpty = false) :
    openNodes workflow (completed ∪ (eligible workflow state completed).toFinset)
      < openNodes workflow completed := by
  obtain ⟨name, hname⟩ : ∃ name, name ∈ eligible workflow state completed := by
    cases heq : eligible workflow state completed with
    | nil => rw [heq] at h; cases h
    | cons x => exact ⟨x, List.mem_cons_self⟩
  obtain ⟨node, hnode, rfl, -, hnew, -, -⟩ := mem_eligible.mp hname
  -- a node that was open is not any more, and none opens
  have hsub : (workflow.nodes.filter fun n =>
      decide (n.name ∉ completed ∪ (eligible workflow state completed).toFinset)).Sublist
      (workflow.nodes.filter fun n => decide (n.name ∉ completed)) := by
    have htwo : (workflow.nodes.filter fun n =>
        decide (n.name ∉ completed ∪ (eligible workflow state completed).toFinset))
        = (workflow.nodes.filter fun n => decide (n.name ∉ completed)).filter fun n =>
          decide (n.name ∉ eligible workflow state completed) := by
      rw [List.filter_filter]
      apply List.filter_congr
      intro n _
      simp [Bool.and_comm]
    rw [htwo]
    exact List.filter_sublist
  refine lt_of_le_of_ne hsub.length_le fun hlen => ?_
  have hsame := hsub.eq_of_length hlen
  have hin : node ∈ workflow.nodes.filter fun n => decide (n.name ∉ completed) := by
    simp [hnode, hnew]
  rw [← hsame] at hin
  simp [hname] at hin

/-- The loop ends with no eligible node left. -/
theorem evidence_stops : eligible workflow state
    (recordCompletionEvidence workflow state (completedSet workflow recorded) times).completed
      = [] := by
  refine List.isEmpty_iff.mp (iterateUntil_stops (P := fun _ => True)
    (fun ev : Evidence => (eligible workflow state ev.completed).isEmpty)
    (recordVirtual workflow state) (fun ev => openNodes workflow ev.completed)
    (fun _ _ _ => True.intro) ?_ True.intro ?_)
  · intro ev hstop _
    exact openNodes_lt hstop
  · exact List.length_filter_le _ _

/-- **Evidence.**  The tick counts exactly the nodes that are completed. -/
theorem mem_evidence_iff : name ∈
    (recordCompletionEvidence workflow state (completedSet workflow recorded) times).completed ↔
      Completes workflow recorded state name := by
  constructor
  · refine fun hin => (?_ : ∀ n, n ∈ (recordCompletionEvidence workflow state
      (completedSet workflow recorded) times).completed → Completes workflow recorded state n)
      name hin
    refine iterateUntil_induct
      (P := fun ev : Evidence => ∀ n, n ∈ ev.completed → Completes workflow recorded state n) ?_ _ ?_
    · intro ev _ hev n hn
      rcases Finset.mem_union.mp hn with hold | hnew
      · exact hev n hold
      · obtain ⟨node, hnode, rfl, hkind, -, hdeps, hjob⟩ :=
          mem_eligible.mp (List.mem_toFinset.mp hnew)
        exact .virtual hnode hkind hjob fun d hd => hev d (hdeps d hd)
    · intro n hn
      rcases mem_recordTasks.mp hn with hold | ⟨node, hnode, rfl, hkind, hjob⟩
      · obtain ⟨hrec, node, hnode, rfl⟩ := mem_completedSet.mp hold
        exact .recorded hnode hrec
      · exact .task hnode hkind hjob
  · intro h
    -- what the first loop found stays, and the second loop leaves nothing behind
    have hkept : ∀ n, n ∈ (workflow.nodes.foldl (recordTask state)
        ⟨completedSet workflow recorded, times, false⟩).completed →
        n ∈ (recordCompletionEvidence workflow state (completedSet workflow recorded)
          times).completed := by
      intro n hn
      exact iterateUntil_induct (P := fun ev : Evidence => n ∈ ev.completed)
        (fun ev _ hev => Finset.mem_union_left _ hev) _ hn
    induction h with
    | recorded hnode hrec =>
      exact hkept _ (mem_recordTasks.mpr (.inl (mem_completedSet.mpr ⟨hrec, _, hnode, rfl⟩)))
    | task hnode hkind hjob =>
      exact hkept _ (mem_recordTasks.mpr (.inr ⟨_, hnode, rfl, hkind, hjob⟩))
    | virtual hnode hkind hjob _ ih =>
      by_contra hout
      have helig := mem_eligible.mpr ⟨_, hnode, rfl, hkind, hout, ih, hjob⟩
      rw [evidence_stops] at helig
      cases helig

theorem gatherEvidence_ok {cursor cursor' : WorkflowCursor}
    (h : gatherEvidence workflow cursor state = .ok (cursor', ev)) :
    ev = recordCompletionEvidence workflow state (completedSet workflow cursor.completed)
      cursor.completedAtMs := by
  obtain ⟨_, -, hdone⟩ := (check_bind_ok _ _ _).mp h
  cases hdone
  rfl

end

/-! ## Section 2: The shadow of the failures -/

/-- `b` names `a` as a dependency. -/
def DependsOn (workflow : CoordinatorTask) (a b : String) : Prop :=
  ∃ node ∈ workflow.nodes, node.name = b ∧ a ∈ node.deps

/-- There is a path of dependencies from `a` down to `b`. -/
def Reaches (workflow : CoordinatorTask) : String → String → Prop :=
  Relation.ReflTransGen (DependsOn workflow)

/-- The node is archived, cancelled, quarantined, undecodable or missing, and its completion is
not recorded. -/
def FailsAlone (recorded : List String) (state : Snapshot) (node : NodeSpec) : Prop :=
  node.name ∉ recorded ∧ isFailure ((state node.name).map JobSummary.state) = true

section
variable {workflow : CoordinatorTask} {recorded : List String} {state : Snapshot}
  {completed failed : Finset String} {node : NodeSpec} {name : String}

/-- One pass adds only nodes that a failed node reaches. -/
theorem spreadFailure_induct {P : String → Prop} (hfailed : ∀ n ∈ failed, P n)
    (hstep : ∀ a b, DependsOn workflow a b → P a → P b) :
    ∀ n ∈ spreadFailure workflow failed, P n := by
  have hgo : ∀ (nodes : List NodeSpec) (acc : Finset String), (∀ x ∈ nodes, x ∈ workflow.nodes) →
      (∀ n ∈ acc, P n) → ∀ n ∈ nodes.foldl (fun failed node =>
        if node.deps.any (fun dep => decide (dep ∈ failed)) then insert node.name failed
        else failed) acc, P n := by
    intro nodes
    induction nodes with
    | nil => exact fun _ _ hacc => hacc
    | cons x rest ih =>
      intro acc hin hacc
      rw [List.foldl_cons]
      refine ih _ (fun y hy => hin y (List.mem_cons_of_mem _ hy)) ?_
      split
      · rename_i hany
        intro n hn
        rcases Finset.mem_insert.mp hn with rfl | hold
        · obtain ⟨d, hd, hdf⟩ := List.any_eq_true.mp hany
          exact hstep d _ ⟨x, hin x List.mem_cons_self, rfl, hd⟩ (hacc d (of_decide_eq_true hdf))
        · exact hacc n hold
      · exact hacc
  exact hgo workflow.nodes failed (fun _ hx => hx) hfailed

/-- One pass loses nothing and reaches every node with a failed dependency. -/
theorem spreadFailure_grows : failed ⊆ spreadFailure workflow failed ∧
    ∀ a b, DependsOn workflow a b → a ∈ failed → b ∈ spreadFailure workflow failed := by
  have hgo : ∀ (nodes : List NodeSpec) (acc : Finset String),
      acc ⊆ nodes.foldl (fun failed node =>
        if node.deps.any (fun dep => decide (dep ∈ failed)) then insert node.name failed
        else failed) acc ∧
      ∀ x ∈ nodes, ∀ d ∈ x.deps, d ∈ acc → x.name ∈ nodes.foldl (fun failed node =>
        if node.deps.any (fun dep => decide (dep ∈ failed)) then insert node.name failed
        else failed) acc := by
    intro nodes
    induction nodes with
    | nil => exact fun acc => ⟨Finset.Subset.refl _, nofun⟩
    | cons y rest ih =>
      intro acc
      rw [List.foldl_cons]
      set acc' := if y.deps.any (fun dep => decide (dep ∈ acc)) then insert y.name acc else acc
        with hacc'
      have hsub : acc ⊆ acc' := by
        rw [hacc']
        split
        · exact Finset.subset_insert _ _
        · exact Finset.Subset.refl _
      obtain ⟨hrest, hreach⟩ := ih acc'
      refine ⟨hsub.trans hrest, ?_⟩
      intro x hx d hd hda
      rcases List.mem_cons.mp hx with rfl | hin
      · apply hrest
        have hany : x.deps.any (fun dep => decide (dep ∈ acc)) = true :=
          List.any_eq_true.mpr ⟨d, hd, decide_eq_true hda⟩
        rw [hacc', if_pos hany]
        exact Finset.mem_insert_self _ _
      · exact hreach x hin d hd (hsub hda)
  obtain ⟨hsub, hreach⟩ := hgo workflow.nodes failed
  refine ⟨hsub, ?_⟩
  rintro a b ⟨x, hx, rfl, ha⟩ hfailed
  exact hreach x hx a ha hfailed

theorem spreadFailure_subset {U : Finset String} (hU : ∀ x ∈ workflow.nodes, x.name ∈ U)
    (h : failed ⊆ U) : spreadFailure workflow failed ⊆ U := by
  intro n hn
  refine spreadFailure_induct (P := (· ∈ U)) (fun x hx => h hx) ?_ n hn
  rintro a b ⟨x, hx, rfl, -⟩ _
  exact hU x hx

/-- The loop ends with a set that a pass leaves alone. -/
theorem failedSet_closed :
    spreadFailure workflow (failedSet workflow state completed)
      = failedSet workflow state completed := by
  set U := (workflow.nodes.map NodeSpec.name).toFinset with hU
  have hnames : ∀ x ∈ workflow.nodes, x.name ∈ U := by
    intro x hx
    rw [hU, List.mem_toFinset]
    exact List.mem_map_of_mem hx
  have hroots : failedRoots workflow state completed ⊆ U := by
    intro n hn
    simp only [failedRoots, List.mem_toFinset, List.mem_map, List.mem_filter] at hn
    obtain ⟨x, ⟨hx, -⟩, rfl⟩ := hn
    exact hnames x hx
  -- the set grows within the names of the nodes, so it stands still in time
  have hstop := iterateUntil_stops (P := (· ⊆ U))
    (fun failed => decide ((spreadFailure workflow failed).card = failed.card))
    (spreadFailure workflow) (fun failed => U.card - failed.card)
    (fun failed _ hsub => spreadFailure_subset hnames hsub) ?_ (n := workflow.nodes.length) hroots ?_
  · have hcard : (spreadFailure workflow (failedSet workflow state completed)).card
        = (failedSet workflow state completed).card := of_decide_eq_true hstop
    exact (Finset.eq_of_subset_of_card_le spreadFailure_grows.1 hcard.le).symm
  · intro failed hne hsub
    have hlt : failed.card < (spreadFailure workflow failed).card := by
      refine lt_of_le_of_ne (Finset.card_le_card spreadFailure_grows.1) fun heq => ?_
      exact absurd heq.symm (of_decide_eq_false hne)
    have hle := Finset.card_le_card (spreadFailure_subset hnames hsub)
    omega
  · have hlen : U.card ≤ workflow.nodes.length := by
      rw [hU]
      exact (List.toFinset_card_le _).trans (List.length_map _).le
    omega

theorem mem_failedSet_roots : name ∈ failedSet workflow state completed ↔
    ∃ root ∈ failedRoots workflow state completed, Reaches workflow root name := by
  constructor
  · refine fun hin => (?_ : ∀ n ∈ failedSet workflow state completed,
      ∃ root ∈ failedRoots workflow state completed, Reaches workflow root n) name hin
    refine iterateUntil_induct (P := fun failed => ∀ n ∈ failed,
      ∃ root ∈ failedRoots workflow state completed, Reaches workflow root n) ?_ _ ?_
    · intro failed _ hall
      refine spreadFailure_induct hall ?_
      rintro a b hab ⟨root, hroot, hreach⟩
      exact ⟨root, hroot, hreach.tail hab⟩
    · exact fun n hn => ⟨n, hn, .refl⟩
  · rintro ⟨root, hroot, hreach⟩
    induction hreach with
    | refl =>
      exact iterateUntil_induct (P := fun failed => root ∈ failed)
        (fun failed _ hin => spreadFailure_grows.1 hin) _ hroot
    -- the set is closed, so one more pass would already have found the next node
    | tail _ hab ih =>
      rw [← failedSet_closed]
      exact spreadFailure_grows.2 _ _ hab ih

section
variable (hcompleted : ∀ n, n ∈ completed ↔ Completes workflow recorded state n)
include hcompleted

/-- The failure of a node, seen through the completed set. -/
theorem isFailure_effectiveState (hnode : node ∈ workflow.nodes) :
    isFailure (effectiveState node (state node.name) completed) = true ↔
      FailsAlone recorded state node := by
  unfold effectiveState FailsAlone
  by_cases hin : node.name ∈ completed
  · rw [if_pos hin]
    constructor
    · exact nofun
    · rintro ⟨hrec, hfail⟩
      -- a completed node that is not recorded has a completed job
      have hjob : JobCompleted state node.name := by
        generalize hn : node.name = n at hin
        cases (hcompleted n).mp hin with
        | recorded hx h => exact absurd (hn ▸ h) hrec
        | task hx _ h | virtual hx _ h => exact h
      obtain ⟨job, hjob, hstate⟩ := hjob
      rw [hjob, Option.map_some, hstate] at hfail
      cases hfail
  · rw [if_neg hin]
    have hrec : node.name ∉ recorded := fun hr => hin ((hcompleted _).mpr (.recorded hnode hr))
    cases hjob : state node.name with
    | none => simp [hrec, isFailure]
    | some job =>
      by_cases hearly : (node.kind.isVirtual && decide (job.state = .completed)) = true
      · have hboth : node.kind.isVirtual = true ∧ job.state = .completed := by simpa using hearly
        simp [hrec, hboth.1, hboth.2, isFailure]
      · simp [hrec, hearly]

/-- A node that is seen completed is in the completed set: only a task is completed by its job
alone. -/
theorem mem_of_effectiveState (hnode : node ∈ workflow.nodes)
    (h : effectiveState node (state node.name) completed = some .completed) :
    node.name ∈ completed := by
  by_contra hout
  unfold effectiveState at h
  rw [if_neg hout] at h
  cases hjob : state node.name with
  | none => simp [hjob] at h
  | some job =>
    have htask : node.kind.isVirtual = false ∧ job.state = .completed := by
      cases hkind : node.kind.isVirtual <;> by_cases hdone : job.state = .completed <;> simp_all
    exact hout ((hcompleted _).mpr (.task hnode htask.1 ⟨job, hjob, htask.2⟩))

/-- **Failures.**  The tick takes exactly the nodes that a failing node reaches. -/
theorem mem_failedSet_iff :
    name ∈ failedSet workflow state completed ↔
      ∃ root ∈ workflow.nodes, FailsAlone recorded state root ∧
        Reaches workflow root.name name := by
  rw [mem_failedSet_roots]
  simp only [failedRoots, List.mem_toFinset, List.mem_map, List.mem_filter]
  constructor
  · rintro ⟨_, ⟨root, ⟨hroot, hfail⟩, rfl⟩, hreach⟩
    exact ⟨root, hroot, (isFailure_effectiveState hcompleted hroot).mp hfail, hreach⟩
  · rintro ⟨root, hroot, hfail, hreach⟩
    exact ⟨root.name, ⟨root, ⟨hroot, (isFailure_effectiveState hcompleted hroot).mpr hfail⟩,
      rfl⟩, hreach⟩

end

end

end Headgate.Workflow
