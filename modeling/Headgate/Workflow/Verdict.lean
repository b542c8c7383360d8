import Headgate.Workflow.Evidence

/-!
# What a tick answers

A tick that answers has read every node's job once.  Against that snapshot its answers are
sound: *succeeded* means that every node is completed, *failed* that the nodes outside the
shadow of the failures are completed and that nothing is left to delete in it.  A tick that
waits without writing anything waits for the outside: some node has its dependencies completed
and its job, its signal or its condition is not through.
-/

namespace Headgate.Workflow

open Headgate.Core Data

/-- The answers a tick is given. -/
abbrev Answers := (c : Call) → c.Reply

/-- The job of a node in a snapshot. -/
def jobOf (ans : Answers) (node : NodeSpec) : Option JobSummary :=
  match ans (.getJob node.jobId false) with
  | .ok job => job
  | .error _ => none

/-! ## Section 1: The parts of a tick -/

section
variable {ans : Answers} {calls : List Call}

theorem answered_ofCheck_ok {α : Type} {x : Except String α} {a : α}
    (h : (ofCheck x).answered ans = (calls, .ok a)) : calls = [] ∧ x = .ok a := by
  cases x with
  | error => cases h
  | ok =>
    cases h
    exact ⟨rfl, rfl⟩

theorem answered_ofReply_ok {α : Type} {x : Except StoreError α} {a : α}
    (h : (ofReply x).answered ans = (calls, .ok a)) : calls = [] ∧ x = .ok a := by
  cases x with
  | error => cases h
  | ok =>
    cases h
    exact ⟨rfl, rfl⟩

theorem answered_readJob_ok {read : String × String} {entry : String × Option JobSummary}
    (h : (readJob read).answered ans = (calls, .ok entry)) :
    entry.1 = read.1 ∧ ans (.getJob read.2 false) = .ok entry.2 := by
  obtain ⟨_, job, _, hget, hdone, -⟩ := Prog.answered_bind_ok h
  cases hdone
  obtain ⟨_, hreply, -⟩ := Prog.answered_call hget
  exact ⟨rfl, (answered_ofReply_ok hreply).2⟩

/-- A mutation is a write. -/
theorem answered_mutate_ok {mutation : String × Bool}
    (h : (mutate mutation).answered ans = (calls, .ok ())) : ∃ c ∈ calls, c.isRead = false := by
  unfold mutate deleteJob promoteJob at h
  split at h
  · obtain ⟨_, -, rfl⟩ := Prog.answered_call h
    exact ⟨_, List.mem_cons_self, rfl⟩
  · obtain ⟨_, -, rfl⟩ := Prog.answered_call h
    exact ⟨_, List.mem_cons_self, rfl⟩

end

/-- Nothing was to be done about the node. -/
structure Idle (v : View) (ans : Answers) (calls : List Call) (node : NodeSpec) : Prop where
  shadow : node.name ∈ v.failed → v.dropsFailed node = false
  ready : node.name ∉ v.failed → v.ready node = true →
    node.kind = .signal ∨ (node.kind = .timer ∧ node.delayMs = none) ∨
      (node.kind = .condition ∧ ∃ expression context, node.condition = some expression ∧
        Call.execute expression context ∈ calls ∧
        ans (.execute expression context) = .bool false)

section
variable {v : View} {ans : Answers} {calls : List Call} {node : NodeSpec}

theorem Idle.mono {calls' : List Call} (h : Idle v ans calls node)
    (hsub : ∀ c ∈ calls, c ∈ calls') : Idle v ans calls' node where
  shadow := h.shadow
  ready := fun hin hready => by
    rcases h.ready hin hready with hs | ht | ⟨hc, e, x, he, hcall, hans⟩
    · exact .inl hs
    · exact .inr (.inl ht)
    · exact .inr (.inr ⟨hc, e, x, he, hsub _ hcall, hans⟩)

/-- A condition that was evaluated. -/
theorem answered_evaluateCondition_ok {context : CelContext} {holds : Bool}
    (h : (evaluateCondition node context).answered ans = (calls, .ok holds)) :
    ∃ expression, node.condition = some expression ∧ Call.execute expression context ∈ calls ∧
      ans (.execute expression context) = .bool holds := by
  unfold evaluateCondition at h
  split at h
  · cases h
  · rename_i expression hcondition
    obtain ⟨_, hresult, rfl⟩ := Prog.answered_call h
    refine ⟨expression, hcondition, List.mem_cons_self, ?_⟩
    -- a value that is no boolean and an error both end the program
    split at hresult
    · rename_i value heq
      cases hresult
      exact heq
    · cases hresult
    · cases hresult

/-- What the loop over the nodes comes to: a timer was scheduled, or mutations were added; with
none added, nothing was to be done. -/
def Considered (v : View) (ans : Answers) (jobs : List (String × Bool)) (plan : TickPlan)
    (calls : List Call) (nodes : List NodeSpec) : Prop :=
  (plan = .scheduled ∧ ∃ c ∈ calls, c.isRead = false) ∨
    ∃ more, plan = .mutations (jobs ++ more) ∧
      (more = [] → ∀ node ∈ nodes, Idle v ans calls node)

theorem answered_considerNodes_ok {nodes : List NodeSpec} {jobs : List (String × Bool)}
    {plan : TickPlan} (h : (considerNodes v nodes jobs).answered ans = (calls, .ok plan)) :
    Considered v ans jobs plan calls nodes := by
  induction nodes generalizing jobs calls with
  | nil =>
    cases h
    exact .inr ⟨[], by simp, nofun⟩
  | cons x rest ih =>
    -- the rest of the loop, once the node has added `extra` and made the calls `first`
    have hgo : ∀ (extra : List (String × Bool)) {first second : List Call},
        (considerNodes v rest (jobs ++ extra)).answered ans = (second, .ok plan) →
        calls = first ++ second → (extra = [] → Idle v ans first x) →
        Considered v ans jobs plan calls (x :: rest) := by
      intro extra first second hrest hcalls hidle
      rcases ih hrest with ⟨hplan, c, hc, hwrite⟩ | ⟨more, hplan, hall⟩
      · exact .inl ⟨hplan, c, hcalls ▸ List.mem_append_right _ hc, hwrite⟩
      · refine .inr ⟨extra ++ more, by rw [hplan, List.append_assoc], fun hnone node hnode => ?_⟩
        obtain ⟨hextra, hmore⟩ := List.append_eq_nil_iff.mp hnone
        rcases List.mem_cons.mp hnode with rfl | hin
        · exact (hidle hextra).mono fun c hc => hcalls ▸ List.mem_append_left _ hc
        · exact (hall hmore node hin).mono fun c hc => hcalls ▸ List.mem_append_right _ hc
    have hskip : ∀ extra : List (String × Bool),
        (considerNodes v rest (jobs ++ extra)).answered ans = (calls, .ok plan) →
        (extra = [] → Idle v ans [] x) → Considered v ans jobs plan calls (x :: rest) :=
      fun extra hrest hidle => hgo extra hrest (List.nil_append _).symm hidle
    unfold considerNodes at h
    split at h
    · rename_i hfailed
      split at h
      · exact hskip _ h fun hnone => by cases hnone
      · rename_i hkept
        refine hskip [] (by simpa using h) fun _ => ⟨fun _ => by simpa using hkept, ?_⟩
        exact fun hin => absurd hfailed hin
    · rename_i hfailed
      have hnoshadow : x.name ∈ v.failed → v.dropsFailed x = false := fun hin => absurd hin hfailed
      have hwait (hready : ¬ v.ready x = true)
          (hrest : (considerNodes v rest jobs).answered ans = (calls, .ok plan)) :
          Considered v ans jobs plan calls (x :: rest) :=
        hskip [] (by simpa using hrest) fun _ => ⟨hnoshadow, fun _ hr => absurd hr hready⟩
      split at h
      · split at h
        · exact hskip _ h fun hnone => by cases hnone
        · rename_i hready
          exact hwait hready h
      · split at h
        · exact hskip _ h fun hnone => by cases hnone
        · rename_i hready
          exact hwait hready h
      · rename_i hkind
        split at h
        · obtain ⟨first, holds, second, heval, hrest, hcalls⟩ := Prog.answered_bind_ok h
          obtain ⟨expression, hcondition, hcall, hans⟩ := answered_evaluateCondition_ok heval
          cases holds with
          | true => exact hgo _ hrest hcalls fun hnone => by cases hnone
          | false =>
            refine hgo [] (by simpa using hrest) hcalls fun _ => ⟨hnoshadow, ?_⟩
            exact fun _ _ => .inr (.inr ⟨hkind, expression, _, hcondition, hcall, hans⟩)
        · rename_i hready
          exact hwait hready h
      · rename_i hkind
        split at h
        · rename_i hdelay
          exact hskip [] (by simpa using h) fun _ =>
            ⟨hnoshadow, fun _ _ => .inr (.inl ⟨hkind, hdelay⟩)⟩
        · split at h
          · -- the timer is scheduled, which is a write
            obtain ⟨_, wake, second, -, hrest, hcalls⟩ := Prog.answered_bind_ok h
            obtain ⟨third, _, _, hsched, hdone, hsecond⟩ := Prog.answered_bind_ok hrest
            cases hdone
            refine .inl ⟨rfl, .schedulePendingJob x.jobId wake, ?_, rfl⟩
            obtain ⟨_, -, hthird⟩ := Prog.answered_call hsched
            rw [hcalls, hsecond, hthird]
            exact List.mem_append_right _ (List.mem_append_left _ List.mem_cons_self)
          · rename_i hready
            exact hwait hready h
      · rename_i hkind
        exact hskip [] (by simpa using h) fun _ => ⟨hnoshadow, fun _ _ => .inl hkind⟩

/-- A tick acts and waits, or it does nothing and answers. -/
theorem answered_actOnNodes_ok {arr : Arrangement} {tick : Tick}
    (h : (actOnNodes arr v).answered ans = (calls, .ok tick)) :
    (tick = .waiting ∧ ∃ c ∈ calls, c.isRead = false) ∨
      (tick = answer v v.workflow.nodes false ∧
        ∀ node ∈ v.workflow.nodes, Idle v ans calls node) := by
  obtain ⟨first, plan, second, hplan, hrest, hcalls⟩ := Prog.answered_bind_ok h
  rcases answered_considerNodes_ok hplan with ⟨rfl, c, hc, hwrite⟩ | ⟨more, rfl, hidle⟩
  · cases hrest
    exact .inl ⟨rfl, c, hcalls ▸ List.mem_append_left _ hc, hwrite⟩
  · cases more with
    | nil =>
      cases hrest
      refine .inr ⟨rfl, fun node hnode => (hidle rfl node hnode).mono fun c hc => ?_⟩
      exact hcalls ▸ List.mem_append_left _ hc
    | cons job jobs =>
      obtain ⟨third, _, _, heach, hdone, hsecond⟩ := Prog.answered_bind_ok hrest
      cases hdone
      refine .inl ⟨rfl, ?_⟩
      -- some mutation comes first
      cases hwrites : arr.writes (job :: jobs) with
      | nil =>
        have hperm := arr.writes_perm (job :: jobs)
        rw [hwrites] at hperm
        exact absurd hperm.length_eq (by simp)
      | cons m ms =>
        have heach' : (Prog.each mutate (m :: ms)).answered ans = (third, .ok ()) := by
          rw [← hwrites]
          exact heach
        obtain ⟨firstCalls, hm, hsub⟩ := Prog.answered_each_ok heach'
        obtain ⟨c, hc, hwrite⟩ := answered_mutate_ok hm
        refine ⟨c, ?_, hwrite⟩
        rw [hcalls, hsecond]
        exact List.mem_append_right _ (List.mem_append_left _ (hsub c hc))

end

/-! ## Section 2: A tick as a whole -/

/-- What a tick that answers has found. -/
structure Found (cel : Cel) (ans : Answers) (workflow : CoordinatorTask) (cursor : WorkflowCursor)
    (calls : List Call) (tick : Tick) (v : View) : Prop where
  valid : ValidWorkflow cel workflow
  graph : v.workflow = workflow
  state : ∀ node ∈ workflow.nodes, v.state node.name = jobOf ans node
  completed : ∀ n, n ∈ v.completed ↔ Completes workflow cursor.completed v.state n
  failed : ∀ n, n ∈ v.failed ↔ ∃ root ∈ workflow.nodes,
    FailsAlone cursor.completed v.state root ∧ Reaches workflow root.name n
  acted : (tick = .waiting ∧ ∃ c ∈ calls, c.isRead = false) ∨
    (tick = answer v workflow.nodes false ∧ ∀ node ∈ workflow.nodes, Idle v ans calls node)

section
variable {cel : Cel} {ans : Answers} {arr : Arrangement} {job : String}
  {workflow : CoordinatorTask} {cursor cursor' : WorkflowCursor} {calls : List Call} {tick : Tick}

/-- The reads of a tick make up the snapshot. -/
theorem snapshot_of_reads {entries : List (String × Option JobSummary)}
    (hnames : (workflow.nodes.map NodeSpec.name).Nodup)
    (h : (Prog.collect readJob (arr.reads (workflow.nodes.map fun node =>
      (node.name, node.jobId)))).answered ans = (calls, .ok entries)) :
    ∀ node ∈ workflow.nodes, snapshot entries node.name = jobOf ans node := by
  intro node hnode
  have hperm := arr.reads_perm (workflow.nodes.map fun node => (node.name, node.jobId))
  generalize arr.reads (workflow.nodes.map fun node => (node.name, node.jobId)) = reads at h hperm
  have hforall := Prog.answered_collect_ok h
  have hread : (node.name, node.jobId) ∈ reads :=
    hperm.mem_iff.mpr (List.mem_map.mpr ⟨node, hnode, rfl⟩)
  -- the reads may come in any order, under distinct names
  have hkeys : (reads.map Prod.fst).Nodup := by
    have hmap := hperm.map Prod.fst
    rw [List.map_map] at hmap
    exact hmap.nodup_iff.mpr hnames
  clear hperm h
  unfold snapshot
  induction hforall with
  | nil => cases hread
  | @cons read entry reads' entries' hhead _ ih =>
    obtain ⟨_, hhead⟩ := hhead
    obtain ⟨hname, hreply⟩ := answered_readJob_ok hhead
    rw [List.map_cons, List.nodup_cons] at hkeys
    rcases List.mem_cons.mp hread with rfl | hrest
    · rw [List.find?_cons_of_pos (by simpa using hname)]
      unfold jobOf
      rw [hreply]
    · have hne : entry.1 ≠ node.name := by
        intro heq
        apply hkeys.1
        rw [← hname, heq]
        exact List.mem_map.mpr ⟨_, hrest, rfl⟩
      rw [List.find?_cons_of_neg (by simpa using hne)]
      exact ih hrest hkeys.2

section
variable
  (h : (tickWithEvidence cel arr job workflow cursor).answered ans = (calls, .ok (tick, cursor')))
include h

/-- The view a tick acts on. -/
theorem acts_of_answered :
    ∃ state ev last, ValidWorkflow cel workflow ∧
      (∀ node ∈ workflow.nodes, state node.name = jobOf ans node) ∧
      gatherEvidence workflow cursor state = .ok (cursor', ev) ∧
      (actOnNodes arr ⟨workflow, cursor', state, ev.completed,
        failedSet workflow state ev.completed⟩).answered ans = (last, .ok tick) ∧
      ∀ c ∈ last, c ∈ calls := by
  obtain ⟨first, _, calls₁, hvalid, h₁, hcalls₁⟩ := Prog.answered_bind_ok h
  have hvalid := validateCoordinator_ok (answered_ofCheck_ok hvalid).2
  obtain ⟨second, entries, calls₂, hreads, h₂, hcalls₂⟩ := Prog.answered_bind_ok h₁
  obtain ⟨third, ⟨kept, ev⟩, calls₃, hgather, h₃, hcalls₃⟩ := Prog.answered_bind_ok h₂
  have hgather := (answered_ofCheck_ok hgather).2
  have hsub : ∀ c ∈ calls₃, c ∈ calls := fun c hc => by
    rw [hcalls₁, hcalls₂, hcalls₃]
    exact List.mem_append_right _ (List.mem_append_right _ (List.mem_append_right _ hc))
  -- the cursor is written first if there is news
  obtain ⟨rest, hrest, hin⟩ : ∃ rest, (do
      let tick ← actOnNodes arr ⟨workflow, kept, snapshot entries, ev.completed,
        failedSet workflow (snapshot entries) ev.completed⟩
      return (tick, kept) : Program (Tick × WorkflowCursor)).answered ans
        = (rest, .ok (tick, cursor')) ∧ ∀ c ∈ rest, c ∈ calls₃ := by
    dsimp only at h₃
    split at h₃
    · obtain ⟨_, _, calls₄, -, h₄, hcalls₄⟩ := Prog.answered_bind_ok h₃
      exact ⟨calls₄, h₄, fun c hc => hcalls₄ ▸ List.mem_append_right _ hc⟩
    · exact ⟨calls₃, h₃, fun _ hc => hc⟩
  obtain ⟨last, _, _, hlast, hdone, hrestCalls⟩ := Prog.answered_bind_ok hrest
  cases hdone
  refine ⟨snapshot entries, ev, last, hvalid, snapshot_of_reads hvalid.names hreads, hgather,
    hlast, fun c hc => hsub c (hin c ?_)⟩
  rw [hrestCalls]
  exact List.mem_append_left _ hc

theorem found_of_answered : ∃ v, Found cel ans workflow cursor calls tick v := by
  obtain ⟨state, ev, last, hvalid, hstate, hgather, hact, hsub⟩ := acts_of_answered h
  have hcompleted : ∀ n, n ∈ ev.completed ↔ Completes workflow cursor.completed state n := by
    intro n
    rw [gatherEvidence_ok hgather]
    exact mem_evidence_iff
  refine ⟨⟨workflow, cursor', state, ev.completed, failedSet workflow state ev.completed⟩,
    hvalid, rfl, hstate, hcompleted, fun _ => mem_failedSet_iff hcompleted, ?_⟩
  rcases answered_actOnNodes_ok hact with ⟨hwait, c, hc, hwrite⟩ | ⟨htick, hidle⟩
  · exact .inl ⟨hwait, c, hsub c hc, hwrite⟩
  · exact .inr ⟨htick, fun node hnode => (hidle node hnode).mono hsub⟩

end

end

/-! ## Section 3: The answers -/

section
variable {v : View} {nodes : List NodeSpec} {failed : Bool}

theorem answer_succeeded (h : answer v nodes failed = .succeeded) :
    ∀ node ∈ nodes, v.current node = some .completed := by
  induction nodes generalizing failed with
  | nil => exact nofun
  | cons x rest ih =>
    -- a failure on the way leaves its mark until the end
    have hmark : ∀ l, answer v l true ≠ .succeeded := by
      intro l
      induction l with
      | nil => exact nofun
      | cons y l ih =>
        unfold answer
        split_ifs
        · exact ih
        · exact ih
        · exact ih
        · exact nofun
    unfold answer at h
    split_ifs at h with hin hdone hfail
    · exact absurd h (hmark rest)
    · intro node hnode
      rcases List.mem_cons.mp hnode with rfl | hrest
      · exact hdone
      · exact ih h node hrest
    · exact absurd h (hmark rest)

/-- The node is no matter of waiting any more. -/
def View.Settled (v : View) (node : NodeSpec) : Prop :=
  node.name ∈ v.failed ∨ v.current node = some .completed ∨ isFailure (v.current node) = true

theorem answer_failed (h : answer v nodes failed = .failed) :
    (∀ node ∈ nodes, v.Settled node) ∧ (failed = true ∨ ∃ node ∈ nodes, node.name ∈ v.failed ∨
      isFailure (v.current node) = true) := by
  induction nodes generalizing failed with
  | nil =>
    cases failed with
    | true => exact ⟨nofun, .inl rfl⟩
    | false => cases h
  | cons x rest ih =>
    unfold answer at h
    split_ifs at h with hin hdone hfail
    · exact ⟨List.forall_mem_cons.mpr ⟨.inl hin, (ih h).1⟩,
        .inr ⟨x, List.mem_cons_self, .inl hin⟩⟩
    · refine ⟨List.forall_mem_cons.mpr ⟨.inr (.inl hdone), (ih h).1⟩, ?_⟩
      rcases (ih h).2 with hmark | ⟨node, hnode, hwhy⟩
      · exact .inl hmark
      · exact .inr ⟨node, List.mem_cons_of_mem _ hnode, hwhy⟩
    · exact ⟨List.forall_mem_cons.mpr ⟨.inr (.inr hfail), (ih h).1⟩,
        .inr ⟨x, List.mem_cons_self, .inr hfail⟩⟩

theorem answer_waiting (h : answer v nodes failed = .waiting) :
    ∃ node ∈ nodes, ¬ v.Settled node := by
  induction nodes generalizing failed with
  | nil => cases failed <;> cases h
  | cons x rest ih =>
    have hrest : ∀ {failed}, answer v rest failed = .waiting → ∃ node ∈ x :: rest,
        ¬ v.Settled node := fun h =>
      (ih h).imp fun _ hnode => ⟨List.mem_cons_of_mem _ hnode.1, hnode.2⟩
    unfold answer at h
    split_ifs at h with hin hdone hfail
    · exact hrest h
    · exact hrest h
    · exact hrest h
    · exact ⟨x, List.mem_cons_self, by simp [View.Settled, hin, hdone, hfail]⟩

end

namespace Found

section
variable {cel : Cel} {ans : Answers} {workflow : CoordinatorTask} {cursor : WorkflowCursor}
  {calls : List Call} {tick : Tick} {v : View} {node : NodeSpec}
variable (hf : Found cel ans workflow cursor calls tick v)
include hf

section
variable (hnode : node ∈ workflow.nodes)
include hnode

theorem current_completed :
    v.current node = some .completed ↔ node.name ∈ v.completed := by
  constructor
  · exact mem_of_effectiveState hf.completed hnode
  · intro hin
    unfold View.current effectiveState
    rw [if_pos hin]

theorem current_failure (h : isFailure (v.current node) = true) :
    node.name ∈ v.failed :=
  (hf.failed _).mpr ⟨node, hnode, (isFailure_effectiveState hf.completed hnode).mp h, .refl⟩

theorem settled
    (h : v.Settled node) : node.name ∈ v.failed ∨ node.name ∈ v.completed := by
  rcases h with hin | hdone | hfail
  · exact .inl hin
  · exact .inr ((hf.current_completed hnode).mp hdone)
  · exact .inl (hf.current_failure hnode hfail)

/-- A node with a failed dependency fails. -/
theorem failed_of_dep {d : String} (hd : d ∈ node.deps) (hin : d ∈ v.failed) :
    node.name ∈ v.failed := by
  obtain ⟨root, hroot, hfail, hreach⟩ := (hf.failed d).mp hin
  exact (hf.failed _).mpr ⟨root, hroot, hfail, hreach.tail ⟨node, hnode, rfl, hd⟩⟩

/-- The completed dependencies are seen as such. -/
theorem dependencies_complete (hdeps : ∀ d ∈ node.deps, d ∈ v.completed) :
    dependenciesComplete v.workflow node v.state v.completed = true := by
  unfold dependenciesComplete
  rw [List.all_eq_true]
  intro d hd
  obtain ⟨up, hup, rfl⟩ := hf.valid.closed node hnode d hd
  rw [hf.graph]
  cases hfind : workflow.nodes.find? fun other => decide (other.name = up.name) with
  | none => exact absurd (List.find?_eq_none.mp hfind up hup) (by simp)
  | some other =>
    have hsame : other.name = up.name := by simpa using List.find?_some hfind
    simp [effectiveState, hsame, hdeps _ hd]

end

/-- Among the nodes that wait there is one with its dependencies completed. -/
theorem exists_ready
    (hopen : ∃ node ∈ workflow.nodes, ¬ v.Settled node) :
    ∃ node ∈ workflow.nodes, ¬ v.Settled node ∧ ∀ d ∈ node.deps, d ∈ v.completed := by
  obtain ⟨rank, hrank⟩ := hf.valid.acyclic
  -- take one of least rank
  obtain ⟨node, ⟨hnode, hwaits⟩, hleast⟩ := exists_minimalFor_of_wellFoundedLT
    (fun node => node ∈ workflow.nodes ∧ ¬ v.Settled node) (fun node => rank node.name) hopen
  refine ⟨node, hnode, hwaits, fun d hd => ?_⟩
  obtain ⟨up, hup, rfl⟩ := hf.valid.closed node hnode d hd
  have hlt : rank up.name < rank node.name := by
    apply hrank _ (List.mem_map_of_mem hnode)
    rw [depsOf_eq hf.valid.names hnode]
    exact hd
  have hup_settled : v.Settled up := by
    by_contra hup_open
    exact absurd (hleast ⟨hup, hup_open⟩ hlt.le) (not_le.mpr hlt)
  rcases hf.settled hup hup_settled with hfailed | hdone
  · exact absurd (.inl (hf.failed_of_dep hnode hd hfailed)) hwaits
  · exact hdone

/-- An open node outside the shadow that is not pending is at work. -/
theorem working_or_pending
    (hnode : node ∈ workflow.nodes) (hwaits : ¬ v.Settled node)
    (hdeps : ∀ d ∈ node.deps, d ∈ v.completed) :
    ∃ job, v.state node.name = some job ∧ v.current node = some job.state ∧
      (job.state = .pending ∨ job.state = .scheduled ∨ job.state = .available ∨
        job.state = .running ∨ job.state = .retryable) := by
  simp only [View.Settled, not_or, hf.current_completed hnode] at hwaits
  obtain ⟨-, hopen, hnofail⟩ := hwaits
  unfold View.current effectiveState at hnofail ⊢
  rw [if_neg hopen] at hnofail ⊢
  cases hjob : v.state node.name with
  | none => simp [hjob, isFailure] at hnofail
  | some job =>
    -- a completed job would have completed the node, its dependencies being completed
    have hrunning : job.state ≠ .completed := by
      intro hdone
      apply hopen
      rw [hf.completed]
      cases hkind : node.kind.isVirtual with
      | false => exact .task hnode hkind ⟨job, hjob, hdone⟩
      | true =>
        exact .virtual hnode hkind ⟨job, hjob, hdone⟩ fun d hd => (hf.completed d).mp (hdeps d hd)
    simp only [hjob, hrunning, decide_false, Bool.and_false, Bool.false_eq_true, if_false]
      at hnofail ⊢
    refine ⟨job, rfl, rfl, ?_⟩
    cases hstate : job.state <;> simp_all [isFailure]

end

end Found

/-! ## Section 4: Verdicts are sound, waits have a reason -/

section
variable {cel : Cel} {ans : Answers} {arr : Arrangement} {job : String}
  {workflow : CoordinatorTask} {cursor cursor' : WorkflowCursor} {calls : List Call} {tick : Tick}
  {state : Snapshot}

/-- The jobs of the nodes are answered as in the snapshot. -/
def Reads (ans : Answers) (workflow : CoordinatorTask) (state : Snapshot) : Prop :=
  ∀ node ∈ workflow.nodes, ans (.getJob node.jobId false) = .ok (state node.name)

theorem Reads.state_eq {v : View} (hread : Reads ans workflow state)
    (hf : Found cel ans workflow cursor calls tick v) :
    ∀ node ∈ workflow.nodes, v.state node.name = state node.name := by
  intro node hnode
  rw [hf.state node hnode, jobOf, hread node hnode]

/-- The tick that answers come to. -/
theorem answered_tick (x : List Call × Except JobError (Tick × WorkflowCursor)) (tick : Tick)
    (h : x.2.toOption.map Prod.fst = some tick) : ∃ cursor', x = (x.1, .ok (tick, cursor')) := by
  obtain ⟨made, result⟩ := x
  cases result with
  | error => cases h
  | ok r =>
    obtain ⟨t, kept⟩ := r
    cases h
    exact ⟨kept, rfl⟩

/-- A table of job states as a snapshot. -/
def snapshotFrom (states : String → Option State) : Snapshot := fun name =>
  (states name).map fun state => ⟨state, "", "", "", none, none⟩

/-- Answers by a table of job states; conditions are false. -/
def answersFrom (states : String → Option State) : Answers
  | .getJob id _ => .ok (snapshotFrom states id)
  | .getJobCheckpoint _ => .ok none
  | .execute _ _ => .bool false
  | .promoteJob _ | .deleteJob _ | .schedulePendingJob _ _ | .operatorRetry _
  | .operatorCancel _ | .editPayload _ _ _ | .quarantineRelease _ | .enqueue _
  | .setCursor _ _ | .persistOutput _ _ => .ok ()

theorem reads_answersFrom {states : String → Option State}
    (h : ∀ node ∈ workflow.nodes, node.jobId = node.name) :
    Reads (answersFrom states) workflow (snapshotFrom states) := by
  intro node hnode
  rw [h node hnode]
  rfl

/-- **Verdicts.**  A tick succeeds only with every node completed.  It fails only if some node
failed and every node outside the shadow of the failures is completed; without retry it then
leaves no job in that shadow that could still run, recorded nodes apart. -/
theorem tick_verdict_sound (hread : Reads ans workflow state)
    (h : (tickWithEvidence cel arr job workflow cursor).answered ans
      = (calls, .ok (tick, cursor'))) :
    (tick = .succeeded →
      ∀ node ∈ workflow.nodes, Completes workflow cursor.completed state node.name) ∧
    (tick = .failed →
      (∃ root ∈ workflow.nodes, FailsAlone cursor.completed state root) ∧
      (∀ node ∈ workflow.nodes, (∀ root ∈ workflow.nodes, FailsAlone cursor.completed state root →
        ¬ Reaches workflow root.name node.name) →
        Completes workflow cursor.completed state node.name) ∧
      (workflow.failedSubgraphRetry = false → ∀ root ∈ workflow.nodes,
        FailsAlone cursor.completed state root → ∀ node ∈ workflow.nodes,
        Reaches workflow root.name node.name → node.name ∉ cursor.completed →
        ∀ read, state node.name = some read → read.state ≠ .pending ∧ read.state ≠ .scheduled ∧
          read.state ≠ .available ∧ read.state ≠ .retryable)) := by
  obtain ⟨v, hf⟩ := found_of_answered h
  have hstate := hread.state_eq hf
  have hcompletes : ∀ node : NodeSpec, node.name ∈ v.completed →
      Completes workflow cursor.completed state node.name :=
    fun node hin => ((hf.completed _).mp hin).congr hstate
  have hfails : ∀ root ∈ workflow.nodes, FailsAlone cursor.completed v.state root ↔
      FailsAlone cursor.completed state root := by
    intro root hroot
    rw [FailsAlone, FailsAlone, hstate root hroot]
  refine ⟨fun hsucc => ?_, fun hfail => ?_⟩
  · rcases hf.acted with ⟨hwait, -⟩ | ⟨hanswer, -⟩
    · rw [hsucc] at hwait
      cases hwait
    · intro node hnode
      apply hcompletes
      rw [← hf.current_completed hnode]
      exact answer_succeeded (hanswer.symm.trans hsucc) node hnode
  · rcases hf.acted with ⟨hwait, -⟩ | ⟨hanswer, hidle⟩
    · rw [hfail] at hwait
      cases hwait
    obtain ⟨hsettled, hsome⟩ := answer_failed (hanswer.symm.trans hfail)
    refine ⟨?_, ?_, ?_⟩
    · rcases hsome with hmark | ⟨node, hnode, hwhy⟩
      · cases hmark
      · have hin : node.name ∈ v.failed := hwhy.elim id (hf.current_failure hnode)
        obtain ⟨root, hroot, hfailroot, -⟩ := (hf.failed _).mp hin
        exact ⟨root, hroot, (hfails root hroot).mp hfailroot⟩
    · intro node hnode hclear
      rcases hf.settled hnode (hsettled node hnode) with hin | hdone
      · obtain ⟨root, hroot, hfailroot, hreach⟩ := (hf.failed _).mp hin
        exact absurd hreach (hclear root hroot ((hfails root hroot).mp hfailroot))
      · exact hcompletes node hdone
    · intro hretry root hroot hfailroot node hnode hreach hrec read hjob
      have hin : node.name ∈ v.failed :=
        (hf.failed _).mpr ⟨root, hroot, (hfails root hroot).mpr hfailroot, hreach⟩
      have hkept := (hidle node hnode).shadow hin
      rw [← hstate node hnode] at hjob
      by_cases hdone : node.name ∈ v.completed
      · -- completed without a record: the job itself is completed
        obtain ⟨read', hjob', hcomp⟩ : JobCompleted v.state node.name := by
          generalize hn : node.name = n at hdone
          cases (hf.completed n).mp hdone with
          | recorded _ hr => exact absurd (hn ▸ hr) hrec
          | task _ _ hj | virtual _ _ hj => exact hj
        cases hjob.symm.trans hjob'
        simp [hcomp]
      · simp only [View.dropsFailed, hf.graph, hretry, Bool.not_false, Bool.true_and,
          View.current, effectiveState, if_neg hdone, hjob] at hkept
        refine ⟨?_, ?_, ?_, ?_⟩ <;> intro hs <;> simp [hs] at hkept

/-- Two tasks in a row. -/
def twoTasks : CoordinatorTask where
  workflowId := "w"
  nodes := [⟨"a", "a", [], .task, none, none, none, none, none⟩,
    ⟨"d", "d", ["a"], .task, none, none, none, none, none⟩]

/-- The first task is archived, and the second was deleted for it. -/
def firstArchived : String → Option State := fun id => if id = "a" then some .archived else none

theorem tick_verdict_sound_archived : ∃ calls cursor',
    (tickWithEvidence noConditions .inOrder "c" twoTasks {}).answered (answersFrom firstArchived)
      = (calls, .ok (.failed, cursor')) ∧
    ∃ root ∈ twoTasks.nodes, FailsAlone [] (snapshotFrom firstArchived) root := by
  obtain ⟨cursor', h⟩ := answered_tick ((tickWithEvidence noConditions .inOrder "c" twoTasks
    {}).answered (answersFrom firstArchived)) .failed (by decide +kernel)
  have hread : Reads (answersFrom firstArchived) twoTasks (snapshotFrom firstArchived) :=
    reads_answersFrom (by decide)
  exact ⟨_, cursor', h, ((tick_verdict_sound hread h).2 rfl).1⟩

/-- The first task is archived and the second, recorded completed, has a pending job. -/
def secondPending : String → Option State := fun id =>
  if id = "a" then some .archived else some .pending

/-- A recorded node in the shadow of a failure keeps its pending job: the record hides it. -/
theorem failed_with_pending_job : ∃ calls cursor',
    (tickWithEvidence noConditions .inOrder "c" twoTasks { completed := ["d"] }).answered
      (answersFrom secondPending) = (calls, .ok (.failed, cursor')) ∧
    twoTasks.failedSubgraphRetry = false ∧
    ∃ root ∈ twoTasks.nodes, FailsAlone ["d"] (snapshotFrom secondPending) root ∧
    ∃ node ∈ twoTasks.nodes, Reaches twoTasks root.name node.name ∧
    ∃ read, snapshotFrom secondPending node.name = some read ∧ read.state = .pending := by
  obtain ⟨cursor', h⟩ := answered_tick ((tickWithEvidence noConditions .inOrder "c" twoTasks
    { completed := ["d"] }).answered (answersFrom secondPending)) .failed (by decide +kernel)
  refine ⟨_, cursor', h, rfl, _, List.mem_cons_self, ⟨by decide, rfl⟩, _,
    List.mem_cons_of_mem _ List.mem_cons_self, .single ?_, _, rfl, rfl⟩
  exact ⟨_, List.mem_cons_of_mem _ List.mem_cons_self, rfl, List.mem_cons_self⟩

/-- **Waits have a reason.**  A tick that waits without writing anything has a node whose
dependencies are completed and that waits for the outside: for its job, for its signal or for
its condition; or it is the pending job of an absolute timer, which nothing would wake. -/
theorem tick_waits_for_outside (hread : Reads ans workflow state)
    (h : (tickWithEvidence cel arr job workflow cursor).answered ans
      = (calls, .ok (.waiting, cursor')))
    (hreads : ∀ c ∈ calls, c.isRead = true) :
    ∃ node ∈ workflow.nodes, ¬ Completes workflow cursor.completed state node.name ∧
      (∀ d ∈ node.deps, Completes workflow cursor.completed state d) ∧
      ∃ read, state node.name = some read ∧
        (read.state = .scheduled ∨ read.state = .available ∨ read.state = .running ∨
          read.state = .retryable ∨
          (read.state = .pending ∧ node.kind = .signal) ∨
          (read.state = .pending ∧ node.kind = .condition ∧ ∃ expression context,
            node.condition = some expression ∧ Call.execute expression context ∈ calls ∧
            ans (.execute expression context) = .bool false) ∨
          (read.state = .pending ∧ node.kind = .timer ∧ node.delayMs = none)) := by
  obtain ⟨v, hf⟩ := found_of_answered h
  have hstate := hread.state_eq hf
  rcases hf.acted with ⟨-, c, hc, hwrite⟩ | ⟨hanswer, hidle⟩
  · rw [hreads c hc] at hwrite
    cases hwrite
  obtain ⟨node, hnode, hwaits, hdeps⟩ := hf.exists_ready (answer_waiting hanswer.symm)
  obtain ⟨read, hjob, hcurrent, hcases⟩ := hf.working_or_pending hnode hwaits hdeps
  have hread' : state node.name = some read := by rw [← hstate node hnode, hjob]
  refine ⟨node, hnode, ?_, fun d hd => ((hf.completed d).mp (hdeps d hd)).congr hstate,
    read, hread', ?_⟩
  · intro hdone
    have hin := (hf.completed _).mpr (hdone.congr fun n hn => (hstate n hn).symm)
    exact hwaits (.inr (.inl ((hf.current_completed hnode).mpr hin)))
  rcases hcases with hpending | hs | hs | hs | hs
  · -- pending with its dependencies completed: the loop over the nodes has let it be
    have hready : v.ready node = true := by
      simp [View.ready, hcurrent, hpending, hf.dependencies_complete hnode hdeps]
    have hout : node.name ∉ v.failed := fun hin => hwaits (.inl hin)
    rcases (hidle node hnode).ready hout hready with hsig | ⟨hkind, hdelay⟩ | ⟨hkind, hfalse⟩
    · exact .inr (.inr (.inr (.inr (.inl ⟨hpending, hsig⟩))))
    · exact .inr (.inr (.inr (.inr (.inr (.inr ⟨hpending, hkind, hdelay⟩)))))
    · exact .inr (.inr (.inr (.inr (.inr (.inl ⟨hpending, hkind, hfalse⟩)))))
  · exact .inl hs
  · exact .inr (.inl hs)
  · exact .inr (.inr (.inl hs))
  · exact .inr (.inr (.inr (.inl hs)))

/-- A task before a signal. -/
def taskThenSignal : CoordinatorTask where
  workflowId := "w"
  nodes := [⟨"a", "a", [], .task, none, none, none, none, none⟩,
    ⟨"s", "s", ["a"], .signal, some "go", none, none, none, none⟩]

/-- The task is recorded completed, the signal is pending. -/
def signalPending : String → Option State := fun id =>
  if id = "a" then some .completed else some .pending

theorem tick_waits_for_outside_signal : ∃ calls cursor',
    (tickWithEvidence noConditions .inOrder "c" taskThenSignal { completed := ["a"] }).answered
      (answersFrom signalPending) = (calls, .ok (.waiting, cursor')) ∧
    ∃ node ∈ taskThenSignal.nodes,
      ¬ Completes taskThenSignal ["a"] (snapshotFrom signalPending) node.name ∧
      ∀ d ∈ node.deps, Completes taskThenSignal ["a"] (snapshotFrom signalPending) d := by
  obtain ⟨cursor', h⟩ := answered_tick ((tickWithEvidence noConditions .inOrder "c" taskThenSignal
    { completed := ["a"] }).answered (answersFrom signalPending)) .waiting (by decide +kernel)
  have hread : Reads (answersFrom signalPending) taskThenSignal (snapshotFrom signalPending) :=
    reads_answersFrom (by decide)
  obtain ⟨node, hnode, hopen, hdeps, -⟩ :=
    tick_waits_for_outside hread h (by decide +kernel)
  exact ⟨_, cursor', h, node, hnode, hopen, hdeps⟩

/-- An absolute timer. -/
def oneTimer : CoordinatorTask where
  workflowId := "w"
  nodes := [⟨"t", "t", [], .timer, none, some 1, none, none, none⟩]

/-- The pending job of an absolute timer waits for nothing: no tick wakes it. -/
theorem waits_for_nothing : ∃ calls cursor',
    (tickWithEvidence noConditions .inOrder "c" oneTimer {}).answered
      (answersFrom fun _ => some .pending) = (calls, .ok (.waiting, cursor')) ∧
    (∀ c ∈ calls, c.isRead = true) ∧
    ∀ node ∈ oneTimer.nodes, node.kind = .timer ∧
      (snapshotFrom (fun _ => some .pending) node.name).map JobSummary.state = some .pending := by
  obtain ⟨cursor', h⟩ := answered_tick ((tickWithEvidence noConditions .inOrder "c" oneTimer
    {}).answered (answersFrom fun _ => some .pending)) .waiting (by decide +kernel)
  exact ⟨_, cursor', h, by decide +kernel, by decide⟩

end

end Headgate.Workflow
