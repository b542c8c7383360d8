import Headgate.Workflow.Tick

/-!
# The coordinator and its clients

An attempt at a coordinator job first settles a retry, then a graft, and only then ticks over the
graph.  A retry or graft is requested by a pending job, its receipt, under an id made from the
next revision; accepting it is a write of the cursor, and the receipt is promoted after that.
Clients request retries; a parent's coordinator requests the retry of a child in the same way.
-/

namespace Headgate.Workflow

open Headgate.Core Data

/-- The error of the workflow code itself. -/
def refuse {α : Type} (message : String) : Program α := .fail (.workflow message)

/-- Go on unless the check is violated. -/
def rejectIf (violated : Bool) (message : String) : Program Unit :=
  ofCheck (refuseWhen violated message)

def getJobCheckpoint (id : String) : Program (Option (Option WorkflowCursor)) :=
  .call (.getJobCheckpoint id) ofReply

/-- A row that has to be there. -/
def requireJob (id : String) (includePayload : Bool) (missing : String) : Program JobSummary := do
  match ← getJob id includePayload with
  | some job => return job
  | none => refuse missing

/-- `effective_workflow`: the accepted graph is the payload's and the grafts of the cursor. -/
def effectiveWorkflow (base : CoordinatorTask) (cursor : WorkflowCursor) : CoordinatorTask :=
  { base with nodes := base.nodes ++ cursor.grafts }

/-! ## Section 1: Requesting a retry -/

structure RetryReceipt where
  revision : Nat
  generation : Nat
  deriving DecidableEq, Repr

/-- The receipt of a retry that makes `revision + 1`. -/
def retryReceipt (codec : Codec) (workflowId : String) (revision : Nat) (queue : String) :
    Except String Envelope :=
  prepareEnvelope codec (receiptEnvelope codec (retryReceiptId workflowId (revision + 1))
    "headgate:workflow-retry" queue defaultRetentionMs (RetryTask.encode ⟨workflowId, revision⟩))

/-- The coordinator's row and its task. -/
def readCoordinator (workflowId : String) : Program (JobSummary × CoordinatorTask) := do
  let coordinator ← requireJob (coordinatorId workflowId) true
    s!"workflow `{workflowId}` was not found"
  match coordinator.payload with
  | none => refuse "workflow coordinator payload was not returned"
  | some payload =>
    match CoordinatorTask.decode payload with
    | none => refuse "invalid workflow coordinator"
    | some task => return (coordinator, task)

/-- One recovery of a request. -/
def recoverNode (codec : Codec) (node : NodeSpec) (recovery : WorkflowRecovery) : Program Unit := do
  let job ← requireJob node.jobId true s!"workflow node `{node.jobId}` is missing"
  match job.state with
  | .quarantined =>
    if recovery.releaseQuarantine then .call (.quarantineRelease job.fingerprint) ofReply
    else refuse s!"workflow node `{recovery.node}` requires explicit quarantine release"
  | .undecodable =>
    match recovery.payload, recovery.schemaVersion with
    | none, _ =>
      refuse s!"undecodable workflow node `{recovery.node}` requires replacement payload"
    | some _, none =>
      refuse s!"undecodable workflow node `{recovery.node}` requires schema_version"
    | some replacement, some _ => do
      .call (.editPayload node.jobId replacement
        (codec.fingerprint job.kind (codec.encode replacement))) ofReply
      operatorRetry node.jobId
  -- a request can be replayed after its recoveries
  | .archived | .cancelled | .available => return
  | state =>
    refuse s!"workflow node `{recovery.node}` does not require recovery from `{state.asStr}`"

def recoverNodes (codec : Codec) (task : CoordinatorTask) :
    List WorkflowRecovery → List String → Program Unit
  | [], _ => .done ()
  | recovery :: rest, recovered =>
    if recovery.node ∈ recovered then
      refuse s!"workflow recovery repeats node `{recovery.node}`"
    else match task.nodes.reverse.find? fun node => node.name = recovery.node with
      | none => refuse s!"workflow recovery names unknown node `{recovery.node}`"
      | some node => do
        recoverNode codec node recovery
        recoverNodes codec task rest (recovery.node :: recovered)

/-- No node may be left in a state that a retry does not reopen. -/
def requireRecovered (node : NodeSpec) : Program Unit := do
  match ← getJob node.jobId false with
  | none => return
  | some job =>
    if job.state = .quarantined ∨ job.state = .undecodable then
      refuse s!"workflow node `{node.name}` requires recovery from `{job.state.asStr}`"
    else return

/-- The archived coordinator is reopened; another request may have been first. -/
def reopenCoordinator (id : String) : Program Unit := do
  match ← (operatorRetry id).attempt with
  | .ok () => return
  | .error e =>
    match ← getJob id false with
    | some job => if job.state = .available ∨ job.state = .running then return else .fail e
    | none => .fail e

/-- `request_failed_subgraph_retry_with_recovery`. -/
def requestFailedSubgraphRetry (codec : Codec) (workflowId : String) (expectedRevision : Nat)
    (recoveries : List WorkflowRecovery) : Program RetryReceipt := do
  rejectIf (workflowId.isEmpty || expectedRevision == 0)
    "workflow id and expected revision must be set"
  let (coordinator, task) ← readCoordinator workflowId
  rejectIf (!task.failedSubgraphRetry) "workflow was not created with failed-subgraph retry enabled"
  rejectIf (coordinator.state != .archived)
    s!"workflow retry requires an archived coordinator, found `{coordinator.state.asStr}`"
  recoverNodes codec task recoveries []
  Prog.each requireRecovered task.nodes
  match ← getJobCheckpoint (coordinatorId workflowId) with
  | none => refuse "workflow coordinator checkpoint is missing"
  | some none => refuse "workflow coordinator cursor is missing"
  | some (some cursor) => do
    rejectIf (!cursor.failed || cursor.revision != expectedRevision)
      s!"workflow retry revision conflict: expected {expectedRevision}, current {cursor.revision}"
    rejectIf (expectedRevision + 1 ≥ 2 ^ 64) "workflow retry revision would overflow"
    rejectIf (cursor.generation + 1 ≥ 2 ^ 32) "workflow generation would overflow"
    let receipt ← ofCheck (retryReceipt codec workflowId expectedRevision coordinator.queue)
    enqueue [receipt]
    reopenCoordinator (coordinatorId workflowId)
    return ⟨expectedRevision + 1, cursor.generation + 1⟩

/-! ## Section 2: Settling a retry -/

/-- `enqueue_automatic_retry`. -/
def enqueueAutomaticRetry (codec : Codec) (base : CoordinatorTask) (cursor : WorkflowCursor)
    (job queue : String) : Program WorkflowCursor := do
  rejectIf (!cursor.failed) "automatic retry is pending for a non-failed workflow"
  rejectIf (cursor.revision + 1 ≥ 2 ^ 64) "workflow retry revision would overflow"
  let receipt ← ofCheck (retryReceipt codec base.workflowId cursor.revision queue)
  enqueue [receipt]
  let cursor := { cursor with automaticRetryPending := false }
  persistWorkflowCursor job cursor
  return cursor

/-- An automatic retry that was scheduled is requested. -/
def automaticRetry (codec : Codec) (base : CoordinatorTask) (cursor : WorkflowCursor)
    (job queue : String) : Program WorkflowCursor :=
  if cursor.automaticRetryPending then enqueueAutomaticRetry codec base cursor job queue
  else .done cursor

/-- States from which a rejected job is deleted. -/
def deletable : State → Bool
  | .pending | .scheduled | .available | .retryable => true
  | _ => false

def rejectJob (id : String) : Program Unit := do
  match ← getJob id false with
  | none => return
  | some job =>
    if deletable job.state then deleteJob id
    else refuse s!"rejected workflow graft job `{id}` is already `{job.state.asStr}`"

/-- `reject_graft`: the receipt goes last. -/
def rejectGraft (receiptId : String) (nodes : List NodeSpec) : Program Unit :=
  Prog.each rejectJob (nodes.map NodeSpec.jobId ++ [receiptId])

/-- The two states a retry reopens a node from. -/
def reopens : State → Bool
  | .archived | .cancelled => true
  | _ => false

/-- `failed_nodes_to_retry`. -/
def failedNodesToRetry : List NodeSpec → Program (List String)
  | [] => .done []
  | node :: rest => do
    let job ← requireJob node.jobId false
      s!"retry-enabled workflow node `{node.jobId}` is missing"
    match job.state with
    | .archived | .cancelled => do
      let retry ← failedNodesToRetry rest
      return node.jobId :: retry
    | .pending | .scheduled | .retryable | .available | .running | .completed =>
      failedNodesToRetry rest
    | state => refuse s!"workflow node `{node.jobId}` cannot be retried from `{state.asStr}`"

/-- `retry_failed_children`, one node: a failed link to an archived child. -/
def retryFailedChild (codec : Codec) (node : NodeSpec) : Program Unit :=
  if node.kind ≠ .childWorkflow then .done ()
  else match node.childWorkflowId with
    | none => .done ()
    | some child => do
      match ← getJob node.jobId false with
      | none => return
      | some link =>
        if reopens link.state then do
          let coordinator ← requireJob (coordinatorId child) false
            s!"child workflow `{child}` is missing"
          if coordinator.state = .archived then do
            match ← getJobCheckpoint (coordinatorId child) with
            | none => refuse s!"child workflow `{child}` has no checkpoint"
            | some none => refuse "child workflow cursor is missing"
            | some (some cursor) => do
              let _ ← requestFailedSubgraphRetry codec child cursor.revision []
              return
          else return
        else return

def reopenFailedNodes (jobs : List String) : Program Unit := Prog.each operatorRetry jobs

/-- The first part of `reconcile_retry`: a retry that was accepted before. -/
def settleRetry (base : CoordinatorTask) (cursor : WorkflowCursor) (job : String) :
    Program (Option Tick × WorkflowCursor) :=
  match cursor.pendingRetryReceipt with
  | none => .done (none, cursor)
  | some receiptId => do
    let receipt ← requireJob receiptId false
      s!"accepted workflow retry receipt `{receiptId}` is missing"
    match receipt.state with
    | .pending => do
      let jobs ← failedNodesToRetry (effectiveWorkflow base cursor).nodes
      reopenFailedNodes jobs
      promoteJob receiptId
      return (some .waiting, cursor)
    | .available | .running => return (some .waiting, cursor)
    | .completed => do
      let cursor := { cursor with pendingRetryReceipt := none }
      persistWorkflowCursor job cursor
      return (none, cursor)
    | state =>
      refuse s!"accepted workflow retry receipt `{receiptId}` entered `{state.asStr}`"

/-- A graft for the same revision loses against the retry. -/
def rejectCompetingGraft (receiptId : String) : Program Unit := do
  match ← getJob receiptId true with
  | none => return
  | some competing =>
    if competing.state = .pending then
      rejectGraft receiptId (((competing.payload.bind GraftTask.decode).map GraftTask.nodes).getD [])
    else
      refuse s!"competing workflow graft receipt `{receiptId}` entered `{competing.state.asStr}`"

/-- The cursor of the accepted retry. -/
def acceptRetry (cursor : WorkflowCursor) (receiptId : String) : Except String WorkflowCursor := do
  refuseWhen (cursor.generation + 1 ≥ 2 ^ 32) "workflow generation would overflow"
  let cursor ← recordEvent { cursor with
    generation := cursor.generation + 1, revision := cursor.revision + 1, failed := false }
    "workflow_retry_accepted" none none
  return { cursor with pendingRetryReceipt := some receiptId }

/-- A request that can be accepted. -/
def fulfilRetry (codec : Codec) (base : CoordinatorTask) (cursor : WorkflowCursor)
    (job receiptId : String) : Program (Option Tick × WorkflowCursor) := do
  rejectCompetingGraft (graftReceiptId base.workflowId (cursor.revision + 1))
  let nodes := (effectiveWorkflow base cursor).nodes
  Prog.each (retryFailedChild codec) nodes
  match ← (failedNodesToRetry nodes).attempt with
  | .error _ => do
    rejectGraft receiptId []
    return (some .failed, cursor)
  | .ok jobs => do
    let cursor ← ofCheck (acceptRetry cursor receiptId)
    -- durable before anything is reopened, so that a crash only replays
    persistWorkflowCursor job cursor
    reopenFailedNodes jobs
    promoteJob receiptId
    return (some .waiting, cursor)

/-- A pending receipt of the next revision. -/
def considerRetry (codec : Codec) (base : CoordinatorTask) (cursor : WorkflowCursor)
    (job receiptId : String) (payload : Payload) : Program (Option Tick × WorkflowCursor) :=
  match RetryTask.decode payload with
  | none => do
    rejectGraft receiptId []
    return (some .failed, cursor)
  | some retry =>
    if !base.failedSubgraphRetry || !cursor.failed || retry.workflowId != base.workflowId
        || retry.expectedRevision != cursor.revision then do
      rejectGraft receiptId []
      return (some (if cursor.failed then .failed else .waiting), cursor)
    else fulfilRetry codec base cursor job receiptId

/-- The second part of `reconcile_retry`: a request for the next revision. -/
def requestedRetry (codec : Codec) (base : CoordinatorTask) (cursor : WorkflowCursor)
    (job : String) : Program (Option Tick × WorkflowCursor) := do
  rejectIf (cursor.revision + 1 ≥ 2 ^ 64) "workflow revision would overflow"
  let receiptId := retryReceiptId base.workflowId (cursor.revision + 1)
  match ← getJob receiptId true with
  | none => return (none, cursor)
  | some receipt =>
    if receipt.state = .pending then
      match receipt.payload with
      | none => refuse s!"workflow retry receipt `{receiptId}` did not return its payload"
      | some payload => considerRetry codec base cursor job receiptId payload
    else
      refuse s!"unaccepted workflow retry receipt `{receiptId}` entered `{receipt.state.asStr}`"

/-- `reconcile_retry`. -/
def reconcileRetry (codec : Codec) (base : CoordinatorTask) (cursor : WorkflowCursor)
    (job : String) : Program (Option Tick × WorkflowCursor) := do
  match ← settleRetry base cursor job with
  | (some tick, cursor) => return (some tick, cursor)
  | (none, cursor) => requestedRetry codec base cursor job

/-! ## Section 3: Settling a graft -/

/-- The first part of `reconcile_graft`: a graft that was accepted before. -/
def settleGraft (cursor : WorkflowCursor) (job : String) :
    Program (Option Tick × WorkflowCursor) :=
  match cursor.pendingGraftReceipt with
  | none => .done (none, cursor)
  | some receiptId => do
    let receipt ← requireJob receiptId false
      s!"accepted workflow graft receipt `{receiptId}` is missing"
    match receipt.state with
    | .pending => do
      promoteJob receiptId
      return (some .waiting, cursor)
    | .available | .running => return (some .waiting, cursor)
    | .completed => do
      let cursor := { cursor with pendingGraftReceipt := none }
      persistWorkflowCursor job cursor
      return (none, cursor)
    | state =>
      refuse s!"accepted workflow graft receipt `{receiptId}` entered `{state.asStr}`"

/-- The graph with the nodes of a graft. -/
def graftedWorkflow (base : CoordinatorTask) (cursor : WorkflowCursor) (graft : GraftTask) :
    CoordinatorTask :=
  { base with nodes := (effectiveWorkflow base cursor).nodes ++ graft.nodes }

/-- A graft that is refused, by itself or with the graph it would make. -/
def graftRefused (cel : Cel) (base : CoordinatorTask) (cursor : WorkflowCursor)
    (graft : GraftTask) : Bool :=
  graft.workflowId != base.workflowId || graft.expectedRevision != cursor.revision
    || graft.nodes.isEmpty || cursor.failed
    || !(validateCoordinator cel (graftedWorkflow base cursor graft)).isOk

/-- The cursor of the accepted graft. -/
def acceptGraft (cursor : WorkflowCursor) (receiptId : String) (graft : GraftTask) :
    Except String WorkflowCursor := do
  let cursor ← recordEvent { cursor with
    revision := cursor.revision + 1, grafts := cursor.grafts ++ graft.nodes }
    "workflow_graft_accepted" none none
  return { cursor with pendingGraftReceipt := some receiptId }

/-- A pending receipt of the next revision. -/
def considerGraft (cel : Cel) (base : CoordinatorTask) (cursor : WorkflowCursor)
    (job receiptId : String) (payload : Payload) : Program (Option Tick × WorkflowCursor) :=
  match GraftTask.decode payload with
  | none => do
    rejectGraft receiptId []
    return (some .waiting, cursor)
  | some graft =>
    if graftRefused cel base cursor graft then do
      rejectGraft receiptId graft.nodes
      return (some .waiting, cursor)
    else do
      let cursor ← ofCheck (acceptGraft cursor receiptId graft)
      persistWorkflowCursor job cursor
      promoteJob receiptId
      return (some .waiting, cursor)

/-- `reconcile_graft`. -/
def reconcileGraft (cel : Cel) (base : CoordinatorTask) (cursor : WorkflowCursor)
    (job : String) : Program (Option Tick × WorkflowCursor) := do
  rejectIf (cursor.revision == 0) "workflow cursor contains revision zero"
  match ← settleGraft cursor job with
  | (some tick, cursor) => return (some tick, cursor)
  | (none, cursor) => do
    rejectIf (cursor.revision + 1 ≥ 2 ^ 64) "workflow revision would overflow"
    let receiptId := graftReceiptId base.workflowId (cursor.revision + 1)
    match ← getJob receiptId true with
    | none => return (none, cursor)
    | some receipt =>
      if receipt.state = .pending then
        match receipt.payload with
        | none => refuse s!"workflow graft receipt `{receiptId}` did not return its payload"
        | some payload => considerGraft cel base cursor job receiptId payload
      else
      refuse s!"unaccepted workflow graft receipt `{receiptId}` entered `{receipt.state.asStr}`"

/-! ## Section 4: An attempt -/

/-- What an attempt tells the worker. -/
inductive Ending where
  | completed
  | snoozed (ms : Int)
  | skipped
  deriving DecidableEq, Repr

def Tick.ending (pollInterval : Int) : Tick → Ending
  | .waiting => .snoozed pollInterval
  | .succeeded => .completed
  | .failed => .skipped

/-- The cursor after a failed tick. -/
def recordFailure (task : CoordinatorTask) (cursor : WorkflowCursor) :
    Except String WorkflowCursor :=
  if task.failedSubgraphRetry then
    if task.retryPolicy.any fun policy => cursor.generation < policy.maxGenerations then
      recordEvent { cursor with failed := true, automaticRetryPending := true }
        "automatic_retry_scheduled" none none
    else recordEvent { cursor with failed := true } "workflow_failed" none none
  else recordEvent cursor "workflow_failed" none none

/-- What follows the tick. -/
def conclude (pollInterval : Int) (task : CoordinatorTask) (job : String) :
    Tick × WorkflowCursor → Program Ending
  | (.waiting, _) => .done (.snoozed pollInterval)
  | (.succeeded, cursor) => do
    let cursor ← ofCheck (recordEvent cursor "workflow_succeeded" none none)
    persistWorkflowCursor job cursor
    return .completed
  | (.failed, cursor) => do
    let cursor ← ofCheck (recordFailure task cursor)
    persistWorkflowCursor job cursor
    if cursor.automaticRetryPending then
      return .snoozed ((task.retryPolicy.map WorkflowRetryPolicy.backoffMs).getD 0)
    else return .skipped

/-- The start of an attempt: the first one writes the cursor. -/
def openCursor (job : String) (stored : Option WorkflowCursor) : Program WorkflowCursor :=
  let cursor := stored.getD {}
  if cursor.events.isEmpty then do
    let cursor ← ofCheck (recordEvent cursor "workflow_started" none none)
    persistWorkflowCursor job cursor
    return cursor
  else .done cursor

/-- What the workflow code is set up with. -/
structure Setup where
  cel : Cel
  codec : Codec
  pollInterval : Int
  /-- the arrangement an attempt finds -/
  order : Nat → Arrangement

/-- The handler of a coordinator job. -/
def coordinate (u : Setup) (job : String) (task : CoordinatorTask) (attempt : Nat) (queue : String)
    (stored : Option WorkflowCursor) : Program Ending := do
  let cursor ← openCursor job stored
  let cursor ← automaticRetry u.codec task cursor job queue
  match ← reconcileRetry u.codec task cursor job with
  | (some tick, _) => return tick.ending u.pollInterval
  | (none, cursor) => do
    match ← reconcileGraft u.cel task cursor job with
    | (some tick, _) => return tick.ending u.pollInterval
    | (none, cursor) => do
      let result ← tickWithEvidence u.cel (u.order attempt) job (effectiveWorkflow task cursor) cursor
      conclude u.pollInterval task job result

end Headgate.Workflow
