import Headgate.Workflow.Graph

/-!
# Building workflows and grafts

`Workflow.prepare` turns a draft into one enqueue batch, the coordinator job and a job for every
node; `WorkflowGraft.prepare` does the same for nodes that are added later, with a receipt in the
place of the coordinator.  Job ids are the workflow id and a suffix, joined by a colon.
-/

namespace Headgate.Workflow

open Headgate.Core Data

/-! ## Section 1: Job ids -/

def coordinatorId (workflowId : String) : String := workflowId ++ ":coordinator"

/-- The id of a node's job unless its envelope names one. -/
def nodeId (workflowId name : String) : String := workflowId ++ ":" ++ name

/-- The same for a node of the graft that makes `revision`. -/
def graftNodeId (workflowId : String) (revision : Nat) (name : String) : String :=
  workflowId ++ ":g" ++ toString revision ++ ":" ++ name

def graftReceiptId (workflowId : String) (revision : Nat) : String :=
  workflowId ++ ":graft:" ++ toString revision

def retryReceiptId (workflowId : String) (revision : Nat) : String :=
  workflowId ++ ":retry:" ++ toString revision

/-! ## Section 2: Drafts -/

inductive DraftNodeKind where
  | task (envelope : Envelope)
  | signal (signal : String)
  | timerAt (wakeAtMs : Int)
  | timerAfter (delayMs : Int)
  | childWorkflow (workflowId : String)
  | condition (expression : String)
  deriving DecidableEq, Repr

structure DraftNode where
  name : String
  kind : DraftNodeKind
  deps : List String := []
  deriving DecidableEq, Repr

/-- `Workflow`; the setters only accept a positive retention and a retry policy of at least two
generations and a positive backoff. -/
structure Draft where
  id : String
  nodes : List DraftNode
  coordinatorQueue : String := "headgate-workflow"
  retentionMs : Int := defaultRetentionMs
  failedSubgraphRetry : Bool := false
  retryPolicy : Option WorkflowRetryPolicy := none
  deriving DecidableEq, Repr

/-- `WorkflowGraft`. -/
structure GraftDraft where
  workflowId : String
  expectedRevision : Nat
  nodes : List DraftNode
  queue : String := "headgate-workflow"
  retentionMs : Int := defaultRetentionMs
  deriving DecidableEq, Repr

/-- The field rules of one node of a draft. -/
def checkDraftNode (cel : Cel) (node : DraftNode) : Except String Unit := do
  refuseWhen (node.name.utf8ByteSize > 128) s!"workflow task name `{node.name}` exceeds 128 bytes"
  match node.kind with
  | .signal signal =>
    refuseWhen signal.isEmpty s!"workflow signal node `{node.name}` has an empty signal"
  | .timerAt wakeAtMs =>
    refuseWhen (wakeAtMs ≤ 0)
      s!"workflow timer node `{node.name}` must have a positive absolute wake time"
  -- the delay runs from the end of the dependencies
  | .timerAfter _ =>
    refuseWhen node.deps.isEmpty
      s!"relative workflow timer `{node.name}` requires at least one dependency"
  | .childWorkflow workflowId =>
    refuseWhen workflowId.isEmpty s!"workflow child node `{node.name}` has an empty workflow id"
  | .condition expression => validateCondition cel expression
  | .task _ => return

/-- `validate_graph`. -/
def validateGraph (cel : Cel) (nodes : List DraftNode) : Except String Unit := do
  refuseWhen (nodes.length > maxWorkflowNodes)
    s!"workflow must contain at most {maxWorkflowNodes} tasks"
  let names := nodes.map DraftNode.name
  refuseWhen (!decide names.Nodup || names.contains "")
    "workflow task names must be non-empty and unique"
  checkEach (fun node => do
    checkDraftNode cel node
    checkDeps names (fun dep => s!"task `{node.name}` depends on missing task `{dep}`")
      (fun dep => s!"task `{node.name}` repeats dependency `{dep}`") node.deps []) nodes
  refuseWhen ((nodes.map fun node => node.deps.length).sum > maxWorkflowEdges)
    s!"workflow must contain at most {maxWorkflowEdges} dependency edges"
  checkAcyclic DraftNode.name DraftNode.deps nodes "workflow dependency graph contains a cycle"

/-! ## Section 3: `Workflow::prepare` -/

/-- The envelope of a node that is no task: its kind, and the coordinator's queue. -/
def virtualEnvelope (codec : Codec) (draft : Draft) (kind : String) (scheduledAtMs : Int) :
    Envelope :=
  let content : Payload := { workflowId := draft.id }
  { kind := kind
    schemaVersion := 1
    payload := codec.encode content
    fingerprint := codec.fingerprint kind (codec.encode content)
    queue := draft.coordinatorQueue
    scheduledAtMs := scheduledAtMs
    content := content }

/-- The envelope a node starts from, and its spec without the job id. -/
def draftSpec (codec : Codec) (draft : Draft) (node : DraftNode) :
    Except String (Envelope × NodeSpec) :=
  let spec : NodeSpec := { name := node.name, jobId := "", deps := node.deps }
  match node.kind with
  | .task envelope => .ok (envelope, spec)
  | .signal signal =>
    .ok (virtualEnvelope codec draft "headgate:workflow-signal" 0,
      { spec with kind := .signal, signal := signal })
  | .timerAt wakeAtMs =>
    .ok (virtualEnvelope codec draft "headgate:workflow-timer" wakeAtMs,
      { spec with kind := .timer, wakeAtMs := wakeAtMs })
  | .timerAfter delayMs =>
    .ok (virtualEnvelope codec draft "headgate:workflow-timer" 0,
      { spec with kind := .timer, delayMs := delayMs })
  | .childWorkflow workflowId =>
    if workflowId = draft.id then .error "workflow cannot contain itself as a child"
    else .ok (virtualEnvelope codec draft "headgate:workflow-child" 0,
      { spec with kind := .childWorkflow, childWorkflowId := workflowId })
  | .condition expression =>
    .ok (virtualEnvelope codec draft "headgate:workflow-condition" 0,
      { spec with kind := .condition, condition := expression })

/-- The job of a node: its id, its retention, and whether it waits for the coordinator. -/
def prepareNode (codec : Codec) (draft : Draft) (node : DraftNode) :
    Except String (Envelope × NodeSpec) := do
  let (envelope, spec) ← draftSpec codec draft node
  -- only an absolute timer is left to the store's clock
  let timed := spec.kind == .timer && spec.wakeAtMs.isSome
  let envelope ← prepareEnvelope codec { envelope with
    id := if envelope.id.isEmpty then nodeId draft.id node.name else envelope.id
    retentionMs := max envelope.retentionMs draft.retentionMs
    pending := !timed
    scheduledAtMs := if timed then envelope.scheduledAtMs else 0 }
  return (envelope, { spec with jobId := envelope.id })

/-- The loop over the nodes. -/
def prepareNodes (codec : Codec) (draft : Draft) :
    List DraftNode → Except String (List (Envelope × NodeSpec))
  | [] => .ok []
  | node :: rest => do
    let job ← prepareNode codec draft node
    let jobs ← prepareNodes codec draft rest
    return job :: jobs

/-- The task in the coordinator's payload. -/
def Draft.task (draft : Draft) (nodes : List NodeSpec) : CoordinatorTask where
  workflowId := draft.id
  nodes := nodes
  failedSubgraphRetry := draft.failedSubgraphRetry
  retryPolicy := draft.retryPolicy

/-- `Workflow::prepare`: the coordinator and one job for every node. -/
def Draft.prepare (cel : Cel) (codec : Codec) (draft : Draft) : Except String (List Envelope) := do
  refuseWhen draft.id.isEmpty "workflow id must not be empty"
  refuseWhen draft.nodes.isEmpty "workflow must contain at least one task"
  validateGraph cel draft.nodes
  let jobs ← prepareNodes codec draft draft.nodes
  let content := (draft.task (jobs.map Prod.snd)).encode
  let coordinator ← prepareEnvelope codec
    { id := coordinatorId draft.id
      kind := "headgate:workflow"
      schemaVersion := 1
      fingerprint := codec.fingerprint "headgate:workflow" (codec.encode content)
      payload := codec.encode content
      queue := draft.coordinatorQueue
      retentionMs := draft.retentionMs
      content := content }
  return coordinator :: jobs.map Prod.fst

/-! ## Section 4: `WorkflowGraft::prepare` -/

/-- `validate_graft_nodes`; dependencies on nodes outside the graft are left to the coordinator. -/
def checkGraftDeps (node : String) : List String → List String → Except String Unit
  | [], _ => .ok ()
  | dep :: rest, seen => do
    refuseWhen (seen.contains dep) s!"workflow graft task `{node}` repeats dependency `{dep}`"
    refuseWhen (dep == node) s!"workflow graft task `{node}` depends on itself"
    checkGraftDeps node rest (dep :: seen)

def validateGraftNodes (nodes : List NodeSpec) : Except String Unit := do
  checkEach (fun node => checkGraftDeps node.name node.deps []) nodes
  refuseWhen ((nodes.map fun node => node.deps.length).sum > maxWorkflowEdges)
    s!"workflow graft must contain at most {maxWorkflowEdges} dependency edges"
  let names := nodes.map NodeSpec.name
  checkAcyclic NodeSpec.name (fun node => node.deps.filter (names.contains ·)) nodes
    "workflow graft dependency graph contains a cycle"

/-- The loop over the tasks of a graft. -/
def prepareGraftNodes (codec : Codec) (graft : GraftDraft) (nextRevision : Nat) :
    List DraftNode → List String → Except String (List (Envelope × NodeSpec))
  | [], _ => .ok []
  | node :: rest, names => do
    refuseWhen (node.name.isEmpty || node.name.utf8ByteSize > 128 || names.contains node.name)
      "workflow graft task names must be non-empty and unique"
    let envelope ← match node.kind with
      | .task envelope => .ok envelope
      -- no timers, signals, children or conditions in a graft
      | _ => .error "workflow graft currently accepts ordinary tasks only"
    let envelope ← prepareEnvelope codec { envelope with
      id := if envelope.id.isEmpty then graftNodeId graft.workflowId nextRevision node.name
        else envelope.id
      pending := true
      scheduledAtMs := 0
      retentionMs := max envelope.retentionMs graft.retentionMs }
    let jobs ← prepareGraftNodes codec graft nextRevision rest (node.name :: names)
    return (envelope, { name := node.name, jobId := envelope.id, deps := node.deps }) :: jobs

/-- A receipt: a pending job whose payload is the request. -/
def receiptEnvelope (codec : Codec) (id kind queue : String) (retentionMs : Int)
    (content : Payload) : Envelope where
  id := id
  kind := kind
  schemaVersion := 1
  fingerprint := codec.fingerprint kind (codec.encode content)
  payload := codec.encode content
  queue := queue
  pending := true
  retentionMs := retentionMs
  content := content

/-- `WorkflowGraft::prepare`: the receipt and one pending job for every task. -/
def GraftDraft.prepare (codec : Codec) (graft : GraftDraft) : Except String (List Envelope) := do
  refuseWhen graft.workflowId.isEmpty "workflow id must not be empty"
  refuseWhen (graft.expectedRevision == 0) "workflow graft expected revision must be at least 1"
  refuseWhen (graft.nodes.isEmpty || graft.nodes.length > maxWorkflowNodes)
    s!"workflow graft must contain 1-{maxWorkflowNodes} tasks"
  refuseWhen (graft.expectedRevision + 1 ≥ 2 ^ 64) "workflow graft revision would overflow"
  let nextRevision := graft.expectedRevision + 1
  let jobs ← prepareGraftNodes codec graft nextRevision graft.nodes []
  validateGraftNodes (jobs.map Prod.snd)
  let content := GraftTask.encode ⟨graft.workflowId, graft.expectedRevision, jobs.map Prod.snd⟩
  let receipt ← prepareEnvelope codec (receiptEnvelope codec
    (graftReceiptId graft.workflowId nextRevision) "headgate:workflow-graft" graft.queue
    graft.retentionMs content)
  return receipt :: jobs.map Prod.fst

end Headgate.Workflow
