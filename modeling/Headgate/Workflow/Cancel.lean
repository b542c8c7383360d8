import Headgate.Workflow.Coordinator

/-!
# Cancelling a workflow

`cancel_workflow` walks over a workflow and its linked children, reads each graph from the
payload of the coordinator job, and cancels what is unfinished in it.  The nodes that were
grafted later stand in the coordinator's cursor, not in its payload.  So exactly the unfinished
jobs of the payload graphs are cancelled (`cancelWorkflow_ok`), and the jobs of the accepted
graphs are all taken care of exactly if those cover them (`cancel_leaves_none_iff`).
-/

namespace Headgate.Workflow

open Headgate.Core Data

/-! ## Section 1: `cancel_workflow` -/

structure CancelReceipt where
  workflows : Nat
  jobs : Nat
  deriving DecidableEq, Repr

variable {n : Nat} {receipt : CancelReceipt}

/-- Cancel one job unless it is finished or gone; 1 if it was cancelled. -/
def cancelJob (id : String) : Program Nat := do
  match ← getJob id false with
  | none => return 0
  | some job =>
    if job.state.isUnfinished then do
      .call (.operatorCancel id) ofReply
      return 1
    else return 0

/-- One workflow: the jobs of its payload graph, then its coordinator.  Returns the children. -/
def cancelOne (propagateChildren : Bool) (current : String) : Program (List String × Nat) := do
  let (_, task) ← readCoordinator current
  let cancelled ← Prog.collect cancelJob (task.nodes.map NodeSpec.jobId ++ [coordinatorId current])
  return (if propagateChildren then task.nodes.filterMap NodeSpec.childWorkflowId else [],
    cancelled.sum)

/-- The loop; `room` is what is left of the limit on visited workflows. -/
def cancelLoop (propagateChildren : Bool) :
    Nat → List String → List String → Nat → Program CancelReceipt
  | room, pending, visited, jobs =>
    match pending.dropWhile (· ∈ visited) with
    | [] => .done ⟨visited.length, jobs⟩
    | current :: rest =>
      match room with
      | 0 => refuse "workflow cancellation exceeds the bounded nested-workflow limit"
      | room + 1 => do
        let (children, cancelled) ← cancelOne propagateChildren current
        cancelLoop propagateChildren room (rest ++ children) (current :: visited) (jobs + cancelled)

/-- `cancel_workflow`. -/
def cancelWorkflow (workflowId : String) (propagateChildren : Bool) : Program CancelReceipt := do
  rejectIf workflowId.isEmpty "workflow id must not be empty"
  cancelLoop propagateChildren maxWorkflowNodes [workflowId] [] 0

/-! ## Section 2: Graphs by payload, graphs as accepted -/

namespace Store

/-- The task in the payload of a workflow's coordinator. -/
def payloadTask (s : Store) (workflowId : String) : Option CoordinatorTask :=
  (s.jobs (coordinatorId workflowId)).bind fun j => CoordinatorTask.decode j.content

/-- The graph the coordinator works on: with the grafts of its cursor. -/
def acceptedTask (s : Store) (workflowId : String) : Option CoordinatorTask :=
  (s.payloadTask workflowId).map fun task =>
    effectiveWorkflow task ((s.cursors (coordinatorId workflowId)).getD {})

end Store

/-- The jobs of a graph and its coordinator. -/
def graphJobs (workflowId : String) (task : Option CoordinatorTask) : List String :=
  (task.elim [] fun task => task.nodes.map NodeSpec.jobId) ++ [coordinatorId workflowId]

/-- The children a graph links to. -/
def graphLinks (task : Option CoordinatorTask) : List String :=
  task.elim [] fun task => task.nodes.filterMap NodeSpec.childWorkflowId

/-- Workflows linked, over any number of children, by graphs. -/
def Linked (graph : String → Option CoordinatorTask) : String → String → Prop :=
  Relation.ReflTransGen fun a b => b ∈ graphLinks (graph a)

/-- A job that could still run. -/
def Store.Unfinished (s : Store) (id : String) : Prop :=
  ∃ j, s.jobs id = some j ∧ j.state.isUnfinished = true

/-! ## Section 3: What a cancellation leaves -/

/-- Of the jobs in the list none is unfinished any more; the rest is as before. -/
structure CancelledIn (ids : List String) (s s' : Store) : Prop where
  inside : ∀ id ∈ ids, ¬ s'.Unfinished id
  outside : ∀ id, id ∉ ids → s'.jobs id = s.jobs id
  content : ∀ id, (s'.jobs id).map Job.content = (s.jobs id).map Job.content

section
variable {cel : Cel} {s s' s'' : Store} {ids ids' : List String} {id workflowId : String}

theorem CancelledIn.refl (s : Store) : CancelledIn [] s s := ⟨nofun, fun _ _ => rfl, fun _ => rfl⟩

theorem CancelledIn.append (h : CancelledIn ids s s') (h' : CancelledIn ids' s' s'') :
    CancelledIn (ids ++ ids') s s'' where
  inside := fun id hid => by
    by_cases hin : id ∈ ids'
    · exact h'.inside id hin
    · have hleft := (List.mem_append.mp hid).resolve_right hin
      rw [Store.Unfinished, h'.outside id hin]
      exact h.inside id hleft
  outside := fun id hout => by
    rw [List.mem_append, not_or] at hout
    rw [h'.outside id hout.2, h.outside id hout.1]
  content := fun id => (h'.content id).trans (h.content id)

theorem CancelledIn.payloadTask (h : CancelledIn ids s s') :
    s'.payloadTask workflowId = s.payloadTask workflowId := by
  have hcontent := h.content (coordinatorId workflowId)
  unfold Store.payloadTask
  cases hj : s.jobs (coordinatorId workflowId) with
  | none =>
    rw [hj, Option.map_none, Option.map_eq_none_iff] at hcontent
    rw [hcontent]
  | some =>
    rw [hj, Option.map_some] at hcontent
    obtain ⟨j', hj', hsame⟩ := Option.map_eq_some_iff.mp hcontent
    rw [hj', Option.bind_some, Option.bind_some, hsame]

/-- A store that answers every call at once. -/
abbrev Store.servedAlone (cel : Cel) (c : Call) (s : Store) : c.Reply × Store := s.perform cel c

theorem operatorCancel_ok (h : s.operatorCancel id = (.ok (), s')) : CancelledIn [id] s s' := by
  unfold Store.operatorCancel at h
  -- a cancelled job is finished; an error would not have answered `ok`
  rcases s.onJob_cases id _ _ with ⟨j, hj, -, heq⟩ | ⟨e, heq⟩
  · rw [heq] at h
    cases h
    refine ⟨?_, ?_, ?_⟩
    · intro x hx
      rw [List.mem_singleton.mp hx]
      rintro ⟨j', hj', hlive⟩
      rw [Store.setRow_jobs_self] at hj'
      cases hj'
      cases hlive
    · intro x hx
      exact Store.setRow_jobs_of_ne _ _ _ (by simpa using hx)
    · intro x
      by_cases hx : x = id
      · subst hx
        rw [Store.setRow_jobs_self, hj]
        rfl
      · rw [Store.setRow_jobs_of_ne _ _ _ hx]
  · rw [heq] at h
    cases h

theorem cancelJob_ok (h : (cancelJob id).alone (Store.servedAlone cel) s = (.ok n, s')) :
    CancelledIn [id] s s' := by
  obtain ⟨read, s₁, hread, hrest⟩ := Prog.alone_bind_ok h
  cases hread
  -- nothing to do if the job is not there or finished
  have hskip : ¬ s.Unfinished id → CancelledIn [id] s s := fun hdone =>
    ⟨fun x hx => by rw [List.mem_singleton.mp hx]; exact hdone, fun _ _ => rfl, fun _ => rfl⟩
  cases hj : s.jobs id with
  | none =>
    rw [hj] at hrest
    cases hrest
    exact hskip (by rintro ⟨j, hj', -⟩; rw [hj] at hj'; cases hj')
  | some =>
    rw [hj] at hrest
    dsimp only [Option.map_some, Job.summary] at hrest
    split at hrest
    · obtain ⟨_, s₂, hcancel, hdone⟩ := Prog.alone_bind_ok hrest
      cases hdone
      change Prog.alone _ (ofReply (s.operatorCancel id).1) (s.operatorCancel id).2 = _ at hcancel
      cases hreply : (s.operatorCancel id).1 with
      | error => rw [hreply] at hcancel; cases hcancel
      | ok =>
        rw [hreply] at hcancel
        have hafter : (s.operatorCancel id).2 = s' := congrArg Prod.snd hcancel
        exact operatorCancel_ok (Prod.ext hreply hafter)
    · rename_i hfinished
      cases hrest
      refine hskip ?_
      rintro ⟨j', hj', hlive⟩
      rw [hj] at hj'
      cases hj'
      exact hfinished hlive

theorem cancelJobs_ok {ns : List Nat}
    (h : (Prog.collect cancelJob ids).alone (Store.servedAlone cel) s = (.ok ns, s')) :
    CancelledIn ids s s' := by
  induction ids generalizing s ns with
  | nil =>
    cases h
    exact .refl _
  | cons id rest ih =>
    obtain ⟨n, s₁, hfirst, hrest⟩ := Prog.alone_bind_ok h
    obtain ⟨ms, s₂, hrest, hdone⟩ := Prog.alone_bind_ok hrest
    cases hdone
    exact (cancelJob_ok hfirst).append (ih hrest)

theorem readCoordinator_ok {row : JobSummary} {task : CoordinatorTask}
    (h : (readCoordinator workflowId).alone (Store.servedAlone cel) s = (.ok (row, task), s')) :
    s' = s ∧ s.payloadTask workflowId = some task := by
  obtain ⟨summary, s₁, hrequire, hrest⟩ := Prog.alone_bind_ok h
  obtain ⟨read, s₂, hread, hsome⟩ := Prog.alone_bind_ok hrequire
  cases hread
  unfold Store.payloadTask
  -- row, payload and its decoding are all needed for an answer
  cases hj : s.jobs (coordinatorId workflowId) with
  | none => rw [hj] at hsome; cases hsome
  | some =>
    rw [hj] at hsome
    cases hsome
    dsimp only [Job.summary, if_true] at hrest
    split at hrest
    · cases hrest
    · rename_i payload hpayload
      split at hrest
      · cases hrest
      · rename_i hdecode
        cases hrest
        cases hpayload
        exact ⟨rfl, hdecode⟩

/-- One workflow is cancelled by its payload. -/
theorem cancelOne_ok {children : List String}
    (h : (cancelOne true workflowId).alone (Store.servedAlone cel) s = (.ok (children, n), s')) :
    children = graphLinks (s.payloadTask workflowId) ∧
      CancelledIn (graphJobs workflowId (s.payloadTask workflowId)) s s' := by
  obtain ⟨⟨row, task⟩, s₁, hread, hrest⟩ := Prog.alone_bind_ok h
  obtain ⟨rfl, htask⟩ := readCoordinator_ok hread
  obtain ⟨ns, s₂, hcancel, hdone⟩ := Prog.alone_bind_ok hrest
  cases hdone
  rw [htask]
  exact ⟨rfl, cancelJobs_ok hcancel⟩

/-- What the loop has gone through: the pending workflows and, with each, the children of its
payload graph, as far as they were not visited before. -/
structure Walked (s : Store) (pending visited walked : List String) : Prop where
  start : ∀ w ∈ pending, w ∈ walked ∨ w ∈ visited
  closed : ∀ w ∈ walked, ∀ c ∈ graphLinks (s.payloadTask w), c ∈ walked ∨ c ∈ visited
  linked : ∀ w ∈ walked, ∃ p ∈ pending, Linked s.payloadTask p w

theorem walked_nothing {pending visited : List String}
    (h : (pending.dropWhile fun w => decide (w ∈ visited)) = []) : Walked s pending visited [] :=
  ⟨fun w hw => .inr (of_decide_eq_true (List.dropWhile_eq_nil_iff.mp h w hw)), nofun, nofun⟩

theorem cancelLoop_ok {room : Nat} {pending visited : List String}
    (h : (cancelLoop true room pending visited n).alone (Store.servedAlone cel) s
      = (.ok receipt, s')) :
    ∃ walked, Walked s pending visited walked ∧
      CancelledIn (walked.flatMap fun w => graphJobs w (s.payloadTask w)) s s' := by
  induction room generalizing pending visited n s with
  | zero =>
    unfold cancelLoop at h
    split at h
    · rename_i hnone
      cases h
      exact ⟨[], walked_nothing hnone, .refl _⟩
    · cases h
  | succ room ih =>
    unfold cancelLoop at h
    split at h
    · rename_i hnone
      cases h
      exact ⟨[], walked_nothing hnone, .refl _⟩
    · rename_i current rest hdrop
      obtain ⟨⟨children, m⟩, s₁, hone, hloop⟩ := Prog.alone_bind_ok h
      obtain ⟨rfl, hcancel⟩ := cancelOne_ok hone
      obtain ⟨walked, hwalked, hrest⟩ := ih hloop
      -- payload graphs do not change on the way
      have htask : ∀ w, s₁.payloadTask w = s.payloadTask w := fun w => hcancel.payloadTask
      simp only [htask] at hrest
      have hpending : ∀ w ∈ pending, w ∈ visited ∨ w = current ∨ w ∈ rest := by
        intro w hw
        rw [← List.takeWhile_append_dropWhile (p := fun x => decide (x ∈ visited)) (l := pending),
          hdrop] at hw
        rcases List.mem_append.mp hw with hbefore | hafter
        · have hseen := List.mem_takeWhile_imp hbefore
          exact .inl (of_decide_eq_true hseen)
        · exact .inr (List.mem_cons.mp hafter)
      have hmem : ∀ w, w = current ∨ w ∈ rest → w ∈ pending := by
        intro w hw
        have hin : w ∈ pending.dropWhile fun x => decide (x ∈ visited) := by
          rw [hdrop]
          exact List.mem_cons.mpr hw
        exact (List.dropWhile_sublist _).subset hin
      -- what the rest of the loop calls visited includes this one
      have hcover : ∀ w, w ∈ walked ∨ w ∈ current :: visited →
          w ∈ current :: walked ∨ w ∈ visited := by
        rintro w (hw | hw)
        · exact .inl (List.mem_cons_of_mem _ hw)
        · rcases List.mem_cons.mp hw with rfl | hw
          · exact .inl List.mem_cons_self
          · exact .inr hw
      refine ⟨current :: walked, ⟨?_, ?_, ?_⟩, ?_⟩
      · intro w hw
        rcases hpending w hw with hv | rfl | hr
        · exact .inr hv
        · exact .inl List.mem_cons_self
        · exact hcover w (hwalked.start w (List.mem_append_left _ hr))
      · intro w hw c hc
        rcases List.mem_cons.mp hw with rfl | hw
        · exact hcover c (hwalked.start c (List.mem_append_right _ hc))
        · refine hcover c (hwalked.closed w hw c ?_)
          rw [htask]
          exact hc
      · intro w hw
        rcases List.mem_cons.mp hw with rfl | hw
        · exact ⟨w, hmem w (.inl rfl), .refl⟩
        · obtain ⟨p, hp, hlink⟩ := hwalked.linked w hw
          have hlink : Linked s.payloadTask p w := by
            have hsame : s₁.payloadTask = s.payloadTask := funext htask
            rw [hsame] at hlink
            exact hlink
          rcases List.mem_append.mp hp with hr | hc
          · exact ⟨p, hmem p (.inr hr), hlink⟩
          · exact ⟨current, hmem current (.inl rfl), .head hc hlink⟩
      · exact hcancel.append hrest

/-- **What is cancelled.**  Exactly the unfinished jobs in the payload graphs of the workflow and
of its linked children are finished afterwards. -/
theorem cancelWorkflow_ok
    (h : (cancelWorkflow workflowId true).alone (Store.servedAlone cel) s = (.ok receipt, s')) :
    s'.Unfinished id ↔ s.Unfinished id ∧ ∀ w, Linked s.payloadTask workflowId w →
      id ∉ graphJobs w (s.payloadTask w) := by
  obtain ⟨_, s₁, hid, hloop⟩ := Prog.alone_bind_ok h
  have hsame : s₁ = s := by
    unfold rejectIf refuseWhen at hid
    split at hid
    · cases hid
    · exact (congrArg Prod.snd hid).symm
  subst hsame
  obtain ⟨walked, hwalked, hcancel⟩ := cancelLoop_ok hloop
  -- what the loop walked is what can be reached over links
  have hall : ∀ w, Linked s₁.payloadTask workflowId w ↔ w ∈ walked := by
    intro w
    constructor
    · intro hlink
      induction hlink with
      | refl => exact (hwalked.start _ List.mem_cons_self).resolve_right List.not_mem_nil
      | tail _ hstep ih => exact (hwalked.closed _ ih _ hstep).resolve_right List.not_mem_nil
    · intro hw
      obtain ⟨p, hp, hlink⟩ := hwalked.linked w hw
      rw [List.mem_singleton.mp hp] at hlink
      exact hlink
  have hcovered : id ∈ (walked.flatMap fun w => graphJobs w (s₁.payloadTask w)) ↔
      ∃ w, Linked s₁.payloadTask workflowId w ∧ id ∈ graphJobs w (s₁.payloadTask w) := by
    simp only [List.mem_flatMap, hall]
  by_cases hin : id ∈ walked.flatMap fun w => graphJobs w (s₁.payloadTask w)
  · obtain ⟨w, hlink, hid⟩ := hcovered.mp hin
    exact ⟨fun hlive => absurd hlive (hcancel.inside id hin),
      fun hlive => absurd hid (hlive.2 w hlink)⟩
  · rw [Store.Unfinished, hcancel.outside id hin]
    refine ⟨fun hlive => ⟨hlive, fun w hlink hid => ?_⟩, fun hlive => hlive.1⟩
    exact hin (hcovered.mpr ⟨w, hlink, hid⟩)

/-! ## Section 4: Cancelling all of a workflow -/

/-- Every unfinished job of the accepted graphs stands in a payload graph. -/
def Covered (s : Store) (workflowId : String) : Prop :=
  ∀ w, Linked s.acceptedTask workflowId w → ∀ id ∈ graphJobs w (s.acceptedTask w),
    s.Unfinished id → ∃ v, Linked s.payloadTask workflowId v ∧ id ∈ graphJobs v (s.payloadTask v)

/-- **Cancelling.**  A cancellation leaves no unfinished job in the accepted graph of the
workflow and of its children exactly if the payload graphs covered them. -/
theorem cancel_leaves_none_iff
    (h : (cancelWorkflow workflowId true).alone (Store.servedAlone cel) s = (.ok receipt, s')) :
    (∀ w, Linked s.acceptedTask workflowId w → ∀ id ∈ graphJobs w (s.acceptedTask w),
      ¬ s'.Unfinished id) ↔ Covered s workflowId := by
  constructor
  · intro hnone w hlink id hid hlive
    by_contra hout
    refine hnone w hlink id hid ((cancelWorkflow_ok h).mpr ⟨hlive, fun v hv hin => ?_⟩)
    exact hout ⟨v, hv, hin⟩
  · intro hcovered w hlink id hid hleft
    obtain ⟨hlive, hout⟩ := (cancelWorkflow_ok h).mp hleft
    obtain ⟨v, hv, hin⟩ := hcovered w hlink id hid hlive
    exact hout v hv hin

end

/-! ## Section 5: A grafted node is left -/

/-- A task beside a child workflow, and a task that is grafted later. -/
def parentTask : Draft where
  id := "w"
  nodes := [⟨"a", .task { kind := "t" }, []⟩, ⟨"c", .childWorkflow "v", []⟩]

def childTask : Draft where
  id := "v"
  nodes := [⟨"b", .task { kind := "t" }, []⟩]

def oneGraft : GraftDraft where
  workflowId := "w"
  expectedRevision := 1
  nodes := [⟨"g", .task { kind := "t" }, ["a"]⟩]

/-- An attempt at the coordinator, alone on the store. -/
def attemptAlone (u : Setup) (workflowId : String) (attempt : Nat) (s : Store) : Store :=
  let id := coordinatorId workflowId
  match s.jobs id, s.payloadTask workflowId with
  | some j, some task =>
    let running := s.setRow id (some { j with state := .running })
    ((coordinate u id task attempt j.queue (s.cursors id)).alone (Store.servedAlone u.cel) running).2
  | _, _ => s

def plainSetup : Setup := ⟨noConditions, plainCodec, 1000, fun _ => .inOrder⟩

def submit (batch : Except String (List Envelope)) (s : Store) : Store :=
  (s.enqueue (batch.toOption.getD [])).2

/-- The jobs of both workflows, before a first attempt. -/
def submittedStore : Store :=
  submit (childTask.prepare noConditions plainCodec)
    (submit (parentTask.prepare noConditions plainCodec) {})

/-- The parent is started, and the graft accepted. -/
def graftedStore : Store :=
  attemptAlone plainSetup "w" 2 (submit (oneGraft.prepare plainCodec)
    (attemptAlone plainSetup "w" 1 submittedStore))

/-- The grafted job has ended. -/
def graftEnded : Store := (graftedStore.operatorCancel "w:g2:g").2

theorem cancel_leaves_none_iff_ended :
    ((cancelWorkflow "w" true).alone (Store.servedAlone noConditions) graftEnded).1
      = .ok ⟨2, 5⟩ ∧
    ∀ w, Linked graftEnded.acceptedTask "w" w → ∀ id ∈ graphJobs w (graftEnded.acceptedTask w),
      ¬ ((cancelWorkflow "w" true).alone (Store.servedAlone noConditions)
        graftEnded).2.Unfinished id := by
  have hdone : ((cancelWorkflow "w" true).alone (Store.servedAlone noConditions)
      graftEnded).1 = .ok ⟨2, 5⟩ := by decide +kernel
  refine ⟨hdone, (cancel_leaves_none_iff (Prod.ext hdone rfl)).mpr ?_⟩
  have hlinked : ∀ u, Linked graftEnded.acceptedTask "w" u → u = "w" ∨ u = "v" := by
    intro u hlink
    induction hlink with
    | refl => exact .inl rfl
    | tail _ hstep ih =>
      rcases ih with rfl | rfl
      · rw [show graphLinks (graftEnded.acceptedTask "w") = ["v"] by decide +kernel] at hstep
        exact .inr (List.mem_singleton.mp hstep)
      · rw [show graphLinks (graftEnded.acceptedTask "v") = [] by decide +kernel] at hstep
        cases hstep
  -- the grafted job is the only one outside the stored graphs
  have hended : ¬ graftEnded.Unfinished "w:g2:g" := by
    rintro ⟨j, hj, hlive⟩
    have hnone : (graftEnded.jobs "w:g2:g").all (fun j => !j.state.isUnfinished) = true := by
      decide +kernel
    simp [hj, hlive] at hnone
  intro u hlink id hid hlive
  rcases hlinked u hlink with rfl | rfl
  · have hgraph : ∀ id ∈ graphJobs "w" (graftEnded.acceptedTask "w"),
        id ∈ graphJobs "w" (graftEnded.payloadTask "w") ∨ id = "w:g2:g" := by decide +kernel
    rcases hgraph id hid with hin | rfl
    · exact ⟨"w", .refl, hin⟩
    · exact absurd hlive hended
  · have hgraph : ∀ id ∈ graphJobs "v" (graftEnded.acceptedTask "v"),
        id ∈ graphJobs "v" (graftEnded.payloadTask "v") := by decide +kernel
    exact ⟨"v", .single (by decide +kernel), hgraph id hid⟩

/-- The cancellation succeeds and the grafted job is still pending. -/
theorem cancel_leaves_graft :
    ((cancelWorkflow "w" true).alone (Store.servedAlone noConditions) graftedStore).1
      = .ok ⟨2, 5⟩ ∧
    "w:g2:g" ∈ graphJobs "w" (graftedStore.acceptedTask "w") ∧
    (((cancelWorkflow "w" true).alone (Store.servedAlone noConditions) graftedStore).2.jobs
      "w:g2:g").map Job.state = some .pending := by
  decide +kernel

end Headgate.Workflow
