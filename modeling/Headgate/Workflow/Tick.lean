import Headgate.Workflow.Store

/-!
# One tick of the coordinator

`tick_with_evidence` reads every node's job, adds what has newly completed to the durable
cursor, and then either acts on the nodes (promote, schedule, delete) or answers.  Completion is
evidence that is only ever added: a task counts as soon as its job is seen completed, a signal,
timer or condition once its dependencies count as well.
-/

namespace Headgate.Workflow

open Headgate.Core Data

/-! ## Section 1: Programs against the store -/

inductive JobError where
  | store (e : StoreError)
  | workflow (message : String)
  deriving DecidableEq, Repr

abbrev Program (α : Type) : Type := Prog Call Call.Reply JobError α

/-- An error of the store ends the program. -/
def ofReply {α : Type} : Except StoreError α → Program α
  | .ok a => .done a
  | .error e => .fail (.store e)

/-- So does an error of the workflow. -/
def ofCheck {α : Type} : Except String α → Program α
  | .ok a => .done a
  | .error message => .fail (.workflow message)

def getJob (id : String) (includePayload : Bool) : Program (Option JobSummary) :=
  .call (.getJob id includePayload) ofReply

def promoteJob (id : String) : Program Unit := .call (.promoteJob id) ofReply

def deleteJob (id : String) : Program Unit := .call (.deleteJob id) ofReply

def schedulePendingJob (id : String) (atMs : Int) : Program Unit :=
  .call (.schedulePendingJob id atMs) ofReply

def operatorRetry (id : String) : Program Unit := .call (.operatorRetry id) ofReply

def enqueue (batch : List Envelope) : Program Unit := .call (.enqueue batch) ofReply

/-- `persist_workflow_cursor`. -/
def persistWorkflowCursor (job : String) (cursor : WorkflowCursor) : Program Unit := do
  .call (.setCursor job cursor) ofReply
  .call (.persistOutput job cursor) ofReply

/-- Reads and writes of one tick are made several at a time and can arrive in any order. -/
structure Arrangement where
  reads : List (String × String) → List (String × String)
  writes : List (String × Bool) → List (String × Bool)
  reads_perm : ∀ l, (reads l).Perm l
  writes_perm : ∀ l, (writes l).Perm l

def Arrangement.inOrder : Arrangement := ⟨id, id, .refl, .refl⟩

/-! ## Section 2: Completion evidence -/

/-- What a tick has read: the job of the node of a name. -/
abbrev Snapshot := String → Option JobSummary

def snapshot (entries : List (String × Option JobSummary)) : Snapshot := fun name =>
  match entries.find? fun entry => entry.1 = name with
  | some entry => entry.2
  | none => none

def completedSet (workflow : CoordinatorTask) (names : List String) : Finset String :=
  (names.filter fun name => name ∈ workflow.nodes.map NodeSpec.name).toFinset

def completedNames (workflow : CoordinatorTask) (completed : Finset String) : List String :=
  (workflow.nodes.filter fun node => node.name ∈ completed).map NodeSpec.name

/-- Tasks and child links complete by themselves, the others also wait for their dependencies. -/
def NodeType.isVirtual : NodeType → Bool
  | .signal | .timer | .condition => true
  | .task | .childWorkflow => false

/-- `effective_state`: an early job of a virtual node is not consumed yet. -/
def effectiveState (node : NodeSpec) (job : Option JobSummary) (completed : Finset String) :
    Option State :=
  if node.name ∈ completed then some .completed
  else match job with
    | none => none
    | some job =>
      if node.kind.isVirtual && job.state = .completed then some .pending else some job.state

/-- The completed nodes with their times, and whether anything was added. -/
structure Evidence where
  completed : Finset String
  completedAtMs : String → Option Int
  changed : Bool

/-- The first loop: a task whose job is completed. -/
def recordTask (state : Snapshot) (ev : Evidence) (node : NodeSpec) : Evidence :=
  match state node.name with
  | none => ev
  | some job =>
    if !node.kind.isVirtual && job.state = .completed then
      let changed := ev.changed || decide (node.name ∉ ev.completed)
      let completed := insert node.name ev.completed
      match job.finalizedAtMs with
      | none => ⟨completed, ev.completedAtMs, changed⟩
      | some at_ =>
        ⟨completed, Function.update ev.completedAtMs node.name (some at_),
          changed || decide (ev.completedAtMs node.name ≠ some at_)⟩
    else ev

/-- Virtual nodes whose job and whose dependencies are completed. -/
def eligible (workflow : CoordinatorTask) (state : Snapshot) (completed : Finset String) :
    List String :=
  (workflow.nodes.filter fun node =>
    node.kind.isVirtual && decide (node.name ∉ completed)
      && node.deps.all (fun dep => dep ∈ completed)
      && (state node.name).any fun job => job.state = .completed).map NodeSpec.name

/-- The time of a node is taken from its job. -/
def recordTime (state : Snapshot) (times : String → Option Int) (name : String) :
    String → Option Int :=
  match (state name).bind JobSummary.finalizedAtMs with
  | some at_ => Function.update times name (some at_)
  | none => times

/-- One round of the second loop. -/
def recordVirtual (workflow : CoordinatorTask) (state : Snapshot) (ev : Evidence) : Evidence :=
  let names := eligible workflow state ev.completed
  ⟨ev.completed ∪ names.toFinset, names.foldl (recordTime state) ev.completedAtMs, true⟩

/-- `record_completion_evidence`. -/
def recordCompletionEvidence (workflow : CoordinatorTask) (state : Snapshot)
    (completed : Finset String) (completedAtMs : String → Option Int) : Evidence :=
  iterateUntil (fun ev => (eligible workflow state ev.completed).isEmpty)
    (recordVirtual workflow state) workflow.nodes.length
    (workflow.nodes.foldl (recordTask state) ⟨completed, completedAtMs, false⟩)

/-! ## Section 3: Failures -/

/-- The states a node does not come back from by itself. -/
def isFailure : Option State → Bool
  | none | some .archived | some .cancelled | some .quarantined | some .undecodable => true
  | _ => false

/-- One pass: a node with a failed dependency fails. -/
def spreadFailure (workflow : CoordinatorTask) (failed : Finset String) : Finset String :=
  workflow.nodes.foldl (fun failed node =>
    if node.deps.any (fun dep => dep ∈ failed) then insert node.name failed else failed) failed

/-- The nodes that fail by themselves. -/
def failedRoots (workflow : CoordinatorTask) (state : Snapshot) (completed : Finset String) :
    Finset String :=
  ((workflow.nodes.filter fun node =>
    isFailure (effectiveState node (state node.name) completed)).map NodeSpec.name).toFinset

/-- `failed_set`. -/
def failedSet (workflow : CoordinatorTask) (state : Snapshot) (completed : Finset String) :
    Finset String :=
  iterateUntil (fun failed => (spreadFailure workflow failed).card = failed.card)
    (spreadFailure workflow) workflow.nodes.length (failedRoots workflow state completed)

/-! ## Section 4: Acting on the nodes -/

/-- `record_event`. -/
def recordEvent (cursor : WorkflowCursor) (event : String) (node : Option String)
    (atMs : Option Int) : Except String WorkflowCursor :=
  let sequence := match cursor.events.getLast? with
    | none => 1
    | some entry => min (entry.sequence + 1) (2 ^ 64 - 1)
  if sequence = 2 ^ 64 - 1 ∧ cursor.events ≠ [] then .error "workflow event sequence overflow"
  else
    let events := cursor.events ++ [⟨sequence, event, node, cursor.revision, cursor.generation, atMs⟩]
    .ok { cursor with events := events.drop (events.length - maxWorkflowEvents) }

/-- The events of the nodes that are newly completed. -/
def recordCompleted (before after : Finset String) : List NodeSpec → WorkflowCursor →
    Except String WorkflowCursor
  | [], cursor => .ok cursor
  | node :: rest, cursor =>
    if node.name ∉ before ∧ node.name ∈ after then do
      let cursor ← recordEvent cursor "node_completed" (some node.name)
        (cursor.completedAtMs node.name)
      recordCompleted before after rest cursor
    else recordCompleted before after rest cursor

/-- `dependencies_complete`. -/
def dependenciesComplete (workflow : CoordinatorTask) (node : NodeSpec) (state : Snapshot)
    (completed : Finset String) : Bool :=
  node.deps.all fun dep =>
    match workflow.nodes.find? fun up => up.name = dep with
    | some upstream => effectiveState upstream (state dep) completed = some .completed
    | none => false

/-- `dependency_completion_anchor`: the latest completion time of the dependencies. -/
def latestCompletion (name : String) (completedAtMs : String → Option Int) :
    List String → Option Int → Except String (Option Int)
  | [], anchor => .ok anchor
  | dep :: rest, anchor =>
    match completedAtMs dep with
    | none =>
      .error s!"workflow timer `{name}` has no durable completion timestamp for `{dep}`"
    | some at_ =>
      latestCompletion name completedAtMs rest
        (some (anchor.elim at_ fun current => max current at_))

def dependencyCompletionAnchor (node : NodeSpec) (completedAtMs : String → Option Int) :
    Except String Int := do
  match ← latestCompletion node.name completedAtMs node.deps none with
  | some anchor => return anchor
  | none => throw s!"relative workflow timer `{node.name}` requires at least one dependency"

/-- The context of a condition. -/
def conditionContext (cursor : WorkflowCursor) (workflow : CoordinatorTask) (state : Snapshot)
    (completed : Finset String) : CelContext where
  revision := cursor.revision
  generation := cursor.generation
  states := workflow.nodes.map fun candidate =>
    (candidate.name, ((effectiveState candidate (state candidate.name) completed).map
      State.asStr).getD "missing")
  completed := workflow.nodes.map fun candidate =>
    (candidate.name, decide (candidate.name ∈ completed))

/-- `evaluate_condition`. -/
def evaluateCondition (node : NodeSpec) (context : CelContext) : Program Bool :=
  match node.condition with
  | none => .fail (.workflow s!"workflow condition `{node.name}` has no expression")
  | some expression => .call (.execute expression context) fun
    | .bool value => .done value
    | .other => .fail (.workflow s!"workflow CEL condition `{node.name}` must return bool")
    | .error message =>
      .fail (.workflow s!"workflow CEL condition `{node.name}` failed: {message}")

/-- What the loop over the nodes comes to: a timer was scheduled, or these mutations are due. -/
inductive TickPlan where
  | scheduled
  | mutations (jobs : List (String × Bool))
  deriving DecidableEq, Repr

/-- What a tick knows when it looks at the nodes. -/
structure View where
  workflow : CoordinatorTask
  cursor : WorkflowCursor
  state : Snapshot
  completed : Finset String
  failed : Finset String

namespace View

def current (v : View) (node : NodeSpec) : Option State :=
  effectiveState node (v.state node.name) v.completed

/-- Pending, with all dependencies completed. -/
def ready (v : View) (node : NodeSpec) : Bool :=
  v.current node = some .pending && dependenciesComplete v.workflow node v.state v.completed

/-- A node in the shadow of a failure is deleted, unless the workflow can be retried. -/
def dropsFailed (v : View) (node : NodeSpec) : Bool :=
  !v.workflow.failedSubgraphRetry && match v.current node with
    | some .pending | some .scheduled | some .available | some .retryable => true
    | _ => false

end View

/-- The wake time of a relative timer. -/
def wakeTime (node : NodeSpec) (cursor : WorkflowCursor) (delay : Int) : Except String Int := do
  let anchor ← dependencyCompletionAnchor node cursor.completedAtMs
  refuseWhen (anchor + delay ≥ 2 ^ 63) s!"workflow timer `{node.name}` deadline overflow"
  return anchor + delay

/-- The loop over the nodes; mutations are pairs of a job and whether it is deleted. -/
def considerNodes (v : View) : List NodeSpec → List (String × Bool) → Program TickPlan
  | [], jobs => .done (.mutations jobs)
  | node :: rest, jobs =>
    if node.name ∈ v.failed then
      considerNodes v rest (if v.dropsFailed node then jobs ++ [(node.jobId, true)] else jobs)
    else match node.kind with
    | .task | .childWorkflow =>
      considerNodes v rest (if v.ready node then jobs ++ [(node.jobId, false)] else jobs)
    | .condition =>
      if v.ready node then do
        let holds ← evaluateCondition node
          (conditionContext v.cursor v.workflow v.state v.completed)
        considerNodes v rest (if holds then jobs ++ [(node.jobId, false)] else jobs)
      else considerNodes v rest jobs
    | .timer =>
      match node.delayMs with
      | none => considerNodes v rest jobs
      | some delay =>
        if v.ready node then do
          let wakeAtMs ← ofCheck (wakeTime node v.cursor delay)
          schedulePendingJob node.jobId wakeAtMs
          -- mutations found so far wait for the next tick
          return .scheduled
        else considerNodes v rest jobs
    | .signal => considerNodes v rest jobs

inductive Tick where
  | waiting
  | succeeded
  | failed
  deriving DecidableEq, Repr

/-- The last loop: the answer when nothing is to be done. -/
def answer (v : View) : List NodeSpec → Bool → Tick
  | [], failed => if failed then .failed else .succeeded
  | node :: rest, failed =>
    if node.name ∈ v.failed then answer v rest true
    else if v.current node = some .completed then answer v rest failed
    else if isFailure (v.current node) then answer v rest true
    else .waiting

/-! ## Section 5: `tick_with_evidence` -/

def readJob (read : String × String) : Program (String × Option JobSummary) := do
  let job ← getJob read.2 false
  return (read.1, job)

def mutate (mutation : String × Bool) : Program Unit :=
  if mutation.2 then deleteJob mutation.1 else promoteJob mutation.1

/-- The cursor with the evidence of this tick, and the completed nodes. -/
def gatherEvidence (workflow : CoordinatorTask) (cursor : WorkflowCursor) (state : Snapshot) :
    Except String (WorkflowCursor × Evidence) := do
  let before := completedSet workflow cursor.completed
  let ev := recordCompletionEvidence workflow state before cursor.completedAtMs
  let cursor ← recordCompleted before ev.completed workflow.nodes
    { cursor with completedAtMs := ev.completedAtMs }
  return (if ev.changed then { cursor with completed := completedNames workflow ev.completed }
    else cursor, ev)

/-- From the evidence on. -/
def actOnNodes (arr : Arrangement) (v : View) : Program Tick := do
  match ← considerNodes v v.workflow.nodes [] with
  | .scheduled => return .waiting
  | .mutations [] => return answer v v.workflow.nodes false
  | .mutations jobs => do
    Prog.each mutate (arr.writes jobs)
    return .waiting

def tickWithEvidence (cel : Cel) (arr : Arrangement) (job : String) (workflow : CoordinatorTask)
    (cursor : WorkflowCursor) : Program (Tick × WorkflowCursor) := do
  ofCheck (validateCoordinator cel workflow)
  let entries ← Prog.collect readJob
    (arr.reads (workflow.nodes.map fun node => (node.name, node.jobId)))
  let state := snapshot entries
  let (cursor, ev) ← ofCheck (gatherEvidence workflow cursor state)
  if ev.changed then persistWorkflowCursor job cursor
  let tick ← actOnNodes arr
    ⟨workflow, cursor, state, ev.completed, failedSet workflow state ev.completed⟩
  return (tick, cursor)

end Headgate.Workflow
