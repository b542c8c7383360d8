import Headgate.Core.Validate
import Headgate.Data.Peel

/-!
# Workflow graphs

A workflow is a list of named nodes with dependencies, carried in the payload of its
coordinator job.  The graph is checked when a workflow is built, when a graft is built, and by
the coordinator before every use; each check ends with the same search for a cycle.

Payloads are JSON on the wire.  A `Payload` is what the decoders find in one: its fields, by
name; fields that a decoder does not know are skipped, so a graft also reads as a retry request.
-/

namespace Headgate.Workflow

open Headgate.Core Data

/-! ## Section 1: Nodes, tasks and payloads -/

def maxWorkflowNodes : Nat := maxEnqueueBatchSize - 1
def maxWorkflowEdges : Nat := 10000
def maxWorkflowEvents : Nat := 256
def defaultRetentionMs : Int := 7 * 24 * 60 * 60 * 1000

inductive NodeType where
  | task
  | signal
  | timer
  | childWorkflow
  | condition
  deriving DecidableEq, Repr

structure NodeSpec where
  name : String
  jobId : String
  deps : List String := []
  kind : NodeType := .task
  signal : Option String := none
  wakeAtMs : Option Int := none
  delayMs : Option Int := none
  childWorkflowId : Option String := none
  condition : Option String := none
  deriving DecidableEq, Repr

structure WorkflowRetryPolicy where
  /-- counts the first generation -/
  maxGenerations : Nat
  backoffMs : Int
  deriving DecidableEq, Repr

structure CoordinatorTask where
  workflowId : String
  nodes : List NodeSpec
  failedSubgraphRetry : Bool := false
  retryPolicy : Option WorkflowRetryPolicy := none
  deriving DecidableEq, Repr

structure GraftTask where
  workflowId : String
  expectedRevision : Nat
  nodes : List NodeSpec
  deriving DecidableEq, Repr

structure RetryTask where
  workflowId : String
  expectedRevision : Nat
  deriving DecidableEq, Repr

/-- The fields the workflow decoders look for in a payload. -/
structure Payload where
  workflowId : Option String := none
  expectedRevision : Option Nat := none
  nodes : Option (List NodeSpec) := none
  failedSubgraphRetry : Bool := false
  retryPolicy : Option WorkflowRetryPolicy := none
  deriving DecidableEq, Repr

def CoordinatorTask.encode (t : CoordinatorTask) : Payload where
  workflowId := t.workflowId
  nodes := t.nodes
  failedSubgraphRetry := t.failedSubgraphRetry
  retryPolicy := t.retryPolicy

def CoordinatorTask.decode (p : Payload) : Option CoordinatorTask :=
  match p.workflowId, p.nodes with
  | some workflowId, some nodes => some ⟨workflowId, nodes, p.failedSubgraphRetry, p.retryPolicy⟩
  | _, _ => none

def GraftTask.encode (t : GraftTask) : Payload where
  workflowId := t.workflowId
  expectedRevision := t.expectedRevision
  nodes := t.nodes

def GraftTask.decode (p : Payload) : Option GraftTask :=
  match p.workflowId, p.expectedRevision, p.nodes with
  | some workflowId, some expectedRevision, some nodes =>
    some ⟨workflowId, expectedRevision, nodes⟩
  | _, _, _ => none

def RetryTask.encode (t : RetryTask) : Payload where
  workflowId := t.workflowId
  expectedRevision := t.expectedRevision

def RetryTask.decode (p : Payload) : Option RetryTask :=
  match p.workflowId, p.expectedRevision with
  | some workflowId, some expectedRevision => some ⟨workflowId, expectedRevision⟩
  | _, _ => none

/-- Fail with the message when the check is violated. -/
def refuseWhen (violated : Bool) (message : String) : Except String Unit :=
  if violated then .error message else .ok ()

@[simp] theorem refuseWhen_eq_ok (b : Bool) (m : String) (u : Unit) :
    refuseWhen b m = .ok u ↔ b = false := by
  cases b <;> simp [refuseWhen]

/-- A job for the queue together with what the decoders find in its payload. -/
structure Envelope extends Core.Envelope where
  content : Payload := {}
  deriving DecidableEq, Repr

/-- The JSON encoder and the fingerprint function. -/
structure Codec where
  encode : Payload → Bytes
  fingerprint : String → Bytes → String

/-- Encodings left out; jobs are told apart by their kinds. -/
def plainCodec : Codec := ⟨fun _ => [], fun kind _ => kind⟩

/-- `prepare_envelope`. -/
def prepareEnvelope (codec : Codec) (e : Envelope) : Except String Envelope := do
  validateKind e.kind
  let fingerprint :=
    if e.fingerprint.isEmpty then codec.fingerprint e.kind e.payload else e.fingerprint
  refuseWhen (e.uniqueWindowMs < 0) "unique_window_ms must be >= 0"
  return { e with fingerprint := fingerprint, weight := effectiveWeight e.weight }

/-- What a condition is evaluated on. -/
structure CelContext where
  revision : Nat
  generation : Nat
  states : List (String × String)
  completed : List (String × Bool)
  deriving DecidableEq, Repr

inductive CelValue where
  | bool (b : Bool)
  /-- a value of another type -/
  | other
  | error (message : String)
  deriving DecidableEq, Repr

/-- The expression language. -/
structure Cel where
  compiles : String → Bool
  execute : String → CelContext → CelValue

/-- A language in which no expression compiles. -/
def noConditions : Cel := ⟨fun _ => false, fun _ _ => .other⟩

/-- `validate_condition`. -/
def validateCondition (cel : Cel) (expression : String) : Except String Unit :=
  if expression.isEmpty ∨ expression.utf8ByteSize > 1024 then
    .error "workflow CEL condition must contain 1-1024 bytes"
  else if cel.compiles expression then .ok ()
  else .error "invalid workflow CEL condition"

/-! ## Section 2: Dependencies and cycles -/

/-- The loop over a node's dependencies: each names a node and is not repeated. -/
def checkDeps (names : List String) (missing repeated : String → String) :
    List String → List String → Except String Unit
  | [], _ => .ok ()
  | dep :: rest, seen =>
    if dep ∉ names then .error (missing dep)
    else if dep ∈ seen then .error (repeated dep)
    else checkDeps names missing repeated rest (dep :: seen)

/-- The dependencies of the node of a name. -/
def depsOf {ν : Type} (name : ν → String) (deps : ν → List String) (nodes : List ν)
    (n : String) : List String :=
  match nodes.find? fun node => name node = n with
  | some node => deps node
  | none => []

/-- The search for a cycle.  The queue is first filled in the order of a hash map; which order
that is does not matter. -/
def checkAcyclic {ν : Type} (name : ν → String) (deps : ν → List String) (nodes : List ν)
    (message : String) : Except String Unit :=
  let names := nodes.map name
  let degrees := depsOf name deps nodes
  if (peel names degrees (names.filter fun n => (degrees n).length = 0)).length ≠ nodes.length then
    .error message
  else .ok ()

/-- The checks of a list, one after the other. -/
def checkEach {ν : Type} (check : ν → Except String Unit) : List ν → Except String Unit
  | [] => .ok ()
  | node :: rest => do
    check node
    checkEach check rest

section
variable {ν : Type} {name : ν → String} {deps : ν → List String} {nodes : List ν}

theorem checkEach_ok {check : ν → Except String Unit} (h : checkEach check nodes = .ok ()) :
    ∀ node ∈ nodes, check node = .ok () := by
  induction nodes with
  | nil => exact nofun
  | cons x rest ih =>
    unfold checkEach at h
    cases hx : check x with
    | error => rw [hx] at h; cases h
    | ok =>
      rw [hx] at h
      intro node hnode
      rcases List.mem_cons.mp hnode with rfl | hrest
      · exact hx
      · exact ih h node hrest

theorem checkDeps_ok {names : List String} {missing repeated : String → String}
    {ds seen : List String} (h : checkDeps names missing repeated ds seen = .ok ()) :
    (∀ d ∈ ds, d ∈ names) ∧ (∀ d ∈ ds, d ∉ seen) ∧ ds.Nodup := by
  induction ds generalizing seen with
  | nil => exact ⟨nofun, nofun, List.nodup_nil⟩
  | cons dep rest ih =>
    unfold checkDeps at h
    split at h
    · cases h
    · rename_i hin
      split at h
      · cases h
      · rename_i hnew
        obtain ⟨hnames, hseen, hnodup⟩ := ih h
        refine ⟨?_, ?_, ?_⟩
        · intro d hd
          rcases List.mem_cons.mp hd with rfl | hrest
          · exact not_not.mp hin
          · exact hnames d hrest
        · intro d hd
          rcases List.mem_cons.mp hd with rfl | hrest
          · exact hnew
          · exact fun hds => hseen d hrest (List.mem_cons_of_mem _ hds)
        · exact List.nodup_cons.mpr ⟨fun hdep => hseen dep hdep List.mem_cons_self, hnodup⟩

theorem depsOf_eq (hnames : (nodes.map name).Nodup) {node : ν} (hnode : node ∈ nodes) :
    depsOf name deps nodes (name node) = deps node := by
  have hfind : nodes.find? (fun x => decide (name x = name node)) = some node := by
    -- names are distinct, so the first node found is the one meant
    induction nodes with
    | nil => cases hnode
    | cons x rest ih =>
      rw [List.map_cons, List.nodup_cons] at hnames
      rcases List.mem_cons.mp hnode with rfl | hrest
      · simp
      · have hne : name x ≠ name node := fun heq =>
          hnames.1 (heq ▸ List.mem_map_of_mem hrest)
        rw [List.find?_cons_of_neg (by simpa using hne)]
        exact ih hnames.2 hrest
  unfold depsOf
  rw [hfind]

/-- A graph whose nodes have distinct names and whose dependencies are nodes, without cycle. -/
structure IsGraph (name : ν → String) (deps : ν → List String) (nodes : List ν) : Prop where
  names : (nodes.map name).Nodup
  closed : ∀ node ∈ nodes, ∀ d ∈ deps node, ∃ up ∈ nodes, name up = d
  once : ∀ node ∈ nodes, (deps node).Nodup
  acyclic : Acyclic (nodes.map name) (depsOf name deps nodes)

theorem wired_of (hnames : (nodes.map name).Nodup)
    (hclosed : ∀ node ∈ nodes, ∀ d ∈ deps node, d ∈ nodes.map name)
    (honce : ∀ node ∈ nodes, (deps node).Nodup) :
    Wired (nodes.map name) (depsOf name deps nodes) := by
  refine ⟨hnames, ?_, ?_⟩
  · intro n hn
    obtain ⟨node, hnode, rfl⟩ := List.mem_map.mp hn
    rw [depsOf_eq hnames hnode]
    exact honce node hnode
  · intro n hn d hd
    obtain ⟨node, hnode, rfl⟩ := List.mem_map.mp hn
    rw [depsOf_eq hnames hnode] at hd
    exact hclosed node hnode d hd

/-- The search for a cycle is exact. -/
theorem checkAcyclic_ok_iff {message : String}
    (hw : Wired (nodes.map name) (depsOf name deps nodes)) :
    checkAcyclic name deps nodes message = .ok () ↔
      Acyclic (nodes.map name) (depsOf name deps nodes) := by
  -- the peeling takes every node off exactly if there is no cycle
  have hiff := peel_length_iff hw (List.Perm.refl _)
  rw [List.length_map] at hiff
  unfold checkAcyclic
  dsimp only
  rw [← hiff]
  split
  · rename_i hne
    exact ⟨nofun, fun heq => absurd heq hne⟩
  · rename_i heq
    exact ⟨fun _ => not_not.mp heq, fun _ => rfl⟩

end

/-! ## Section 3: The coordinator's check -/

/-- The field rules of one node. -/
def NodeSpec.fieldsOk (cel : Cel) (node : NodeSpec) : Bool :=
  !node.name.isEmpty && node.name.utf8ByteSize ≤ 128 && !node.jobId.isEmpty
    && node.jobId.utf8ByteSize ≤ maxJobIdentifierLen
    && (node.kind != .signal || node.signal.any fun signal => !signal.isEmpty)
    && (node.kind != .timer || match node.wakeAtMs, node.delayMs with
      | some at_, none => at_ > 0
      | none, some delay => delay > 0 && !node.deps.isEmpty
      | _, _ => false)
    && (node.kind == .signal || node.signal.isNone)
    && (node.kind == .timer || (node.wakeAtMs.isNone && node.delayMs.isNone))
    && (node.kind != .childWorkflow || node.childWorkflowId.any fun child => !child.isEmpty)
    && (node.kind == .childWorkflow || node.childWorkflowId.isNone)
    && (node.kind != .condition ||
      node.condition.any fun condition => (validateCondition cel condition).isOk)
    && (node.kind == .condition || node.condition.isNone)

/-- The first loop: fields, and names that are not taken yet. -/
def checkNodes (cel : Cel) : List NodeSpec → List String → Except String Unit
  | [], _ => .ok ()
  | node :: rest, names =>
    if !node.fieldsOk cel ∨ node.name ∈ names then
      .error "workflow coordinator contains an invalid task"
    else checkNodes cel rest (node.name :: names)

/-- `validate_coordinator`. -/
def validateCoordinator (cel : Cel) (workflow : CoordinatorTask) : Except String Unit := do
  refuseWhen workflow.workflowId.isEmpty "workflow coordinator id must not be empty"
  refuseWhen (workflow.nodes.isEmpty || workflow.nodes.length > maxWorkflowNodes)
    s!"workflow coordinator must contain 1-{maxWorkflowNodes} tasks"
  refuseWhen (workflow.retryPolicy.any fun policy =>
      policy.maxGenerations < 2 || policy.backoffMs ≤ 0 || !workflow.failedSubgraphRetry)
    "workflow coordinator contains an invalid retry policy"
  checkNodes cel workflow.nodes []
  refuseWhen ((workflow.nodes.map fun node => node.deps.length).sum > maxWorkflowEdges)
    s!"workflow coordinator must contain at most {maxWorkflowEdges} dependency edges"
  checkEach (fun node => checkDeps (workflow.nodes.map NodeSpec.name)
    (fun _ => "workflow coordinator contains a missing dependency")
    (fun _ => "workflow coordinator repeats a dependency") node.deps []) workflow.nodes
  checkAcyclic NodeSpec.name NodeSpec.deps workflow.nodes
    "workflow coordinator dependency graph contains a cycle"

theorem checkNodes_ok {cel : Cel} {nodes : List NodeSpec} {names : List String}
    (h : checkNodes cel nodes names = .ok ()) :
    (∀ node ∈ nodes, node.fieldsOk cel = true ∧ node.name ∉ names) ∧
      (nodes.map NodeSpec.name).Nodup := by
  induction nodes generalizing names with
  | nil => exact ⟨nofun, List.nodup_nil⟩
  | cons x rest ih =>
    unfold checkNodes at h
    split at h
    · cases h
    · rename_i hgood
      obtain ⟨hfields, hnew⟩ : x.fieldsOk cel = true ∧ x.name ∉ names := by simpa using hgood
      obtain ⟨hrest, hnodup⟩ := ih h
      refine ⟨?_, ?_⟩
      · intro node hnode
        rcases List.mem_cons.mp hnode with rfl | hin
        · exact ⟨hfields, hnew⟩
        · exact ⟨(hrest node hin).1, fun hn => (hrest node hin).2 (List.mem_cons_of_mem _ hn)⟩
      · rw [List.map_cons, List.nodup_cons]
        refine ⟨fun hin => ?_, hnodup⟩
        obtain ⟨node, hnode, heq⟩ := List.mem_map.mp hin
        exact (hrest node hnode).2 (heq ▸ List.mem_cons_self)

/-- A coordinator graph that passes the check. -/
structure ValidWorkflow (cel : Cel) (workflow : CoordinatorTask) : Prop
    extends IsGraph NodeSpec.name NodeSpec.deps workflow.nodes where
  fields : ∀ node ∈ workflow.nodes, node.fieldsOk cel = true

theorem validateCoordinator_ok {cel : Cel} {workflow : CoordinatorTask}
    (h : validateCoordinator cel workflow = .ok ()) : ValidWorkflow cel workflow := by
  simp only [validateCoordinator, check_bind_ok, refuseWhen_eq_ok] at h
  obtain ⟨_, -, _, -, _, -, _, hnodes, _, -, _, hdeps, hacyclic⟩ := h
  obtain ⟨hfields, hnames⟩ := checkNodes_ok hnodes
  have heach := fun node hnode => checkDeps_ok (checkEach_ok hdeps node hnode)
  have hw := wired_of hnames (fun node hnode => (heach node hnode).1)
    fun node hnode => (heach node hnode).2.2
  refine ⟨⟨hnames, ?_, fun node hnode => (heach node hnode).2.2, ?_⟩,
    fun node hnode => (hfields node hnode).1⟩
  · intro node hnode d hd
    exact List.mem_map.mp ((heach node hnode).1 d hd)
  · exact (checkAcyclic_ok_iff hw).mp hacyclic

end Headgate.Workflow
