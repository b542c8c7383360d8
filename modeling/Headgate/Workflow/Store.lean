import Headgate.Workflow.Build
import Headgate.Data.Program

/-!
# The store as the workflow code sees it

The coordinator and its clients work on ordinary jobs through the inspection surface: point
reads, operator actions on one job, enqueues, and the fenced checkpoint and output of the job
that runs them.  Each call is atomic; a call can also be lost on the way there or on the way
back (`Fate`).
-/

namespace Headgate.Workflow

open Headgate.Core Data

/-! ## Section 1: Cursors, jobs and the store -/

structure WorkflowEvent where
  sequence : Nat
  event : String
  node : Option String
  revision : Nat
  generation : Nat
  atMs : Option Int
  deriving DecidableEq, Repr

/-- The coordinator's durable state. -/
structure WorkflowCursor where
  revision : Nat := 1
  completed : List String := []
  completedAtMs : String → Option Int := fun _ => none
  grafts : List NodeSpec := []
  pendingGraftReceipt : Option String := none
  generation : Nat := 1
  failed : Bool := false
  pendingRetryReceipt : Option String := none
  automaticRetryPending : Bool := false
  events : List WorkflowEvent := []

/-- A job row, as far as the workflow code reads it. -/
structure Job where
  state : State
  kind : String
  queue : String
  fingerprint : String
  content : Payload
  scheduledAtMs : Int
  finalizedAtMs : Option Int
  deriving DecidableEq, Repr

/-- What a store call can answer instead of doing its work. -/
inductive StoreError where
  | notFound (id : String)
  | invalidState (id : String) (state : State)
  | idConflict (id : String)
  | invalid (message : String)
  | leaseRejected
  | unavailable
  deriving DecidableEq, Repr

/-! ## Section 2: Calls -/

inductive Call where
  | getJob (id : String) (includePayload : Bool)
  | getJobCheckpoint (id : String)
  | promoteJob (id : String)
  | deleteJob (id : String)
  | schedulePendingJob (id : String) (atMs : Int)
  | operatorRetry (id : String)
  | operatorCancel (id : String)
  | editPayload (id : String) (content : Payload) (fingerprint : String)
  | quarantineRelease (fingerprint : String)
  | enqueue (batch : List Envelope)
  /-- the checkpoint of the job that runs the caller, under its lease -/
  | setCursor (job : String) (cursor : WorkflowCursor)
  | persistOutput (job : String) (cursor : WorkflowCursor)
  /-- a condition handed to the expression language -/
  | execute (expression : String) (context : CelContext)

/-- The job as a read returns it; the payload only on request. -/
structure JobSummary where
  state : State
  kind : String
  queue : String
  fingerprint : String
  finalizedAtMs : Option Int
  payload : Option Payload
  deriving DecidableEq, Repr

def Job.summary (j : Job) (includePayload : Bool) : JobSummary where
  state := j.state
  kind := j.kind
  queue := j.queue
  fingerprint := j.fingerprint
  finalizedAtMs := j.finalizedAtMs
  payload := if includePayload then some j.content else none

@[reducible] def Call.Reply : Call → Type
  | .getJob _ _ => Except StoreError (Option JobSummary)
  -- `none` without a row, `some none` before the first cursor
  | .getJobCheckpoint _ => Except StoreError (Option (Option WorkflowCursor))
  | .execute _ _ => CelValue
  | _ => Except StoreError Unit

/-- Calls that leave the store as it is. -/
def Call.isRead : Call → Bool
  | .getJob _ _ | .getJobCheckpoint _ | .execute _ _ => true
  | _ => false

/-- What a retry request does about a node that a plain retry cannot reopen. -/
structure WorkflowRecovery where
  node : String
  payload : Option Payload := none
  schemaVersion : Option Nat := none
  releaseQuarantine : Bool := false
  deriving DecidableEq, Repr

structure Store where
  jobs : String → Option Job := fun _ => none
  /-- the workflow checkpoint of a coordinator job -/
  cursors : String → Option WorkflowCursor := fun _ => none
  outputs : String → Option WorkflowCursor := fun _ => none
  now : Int := 0

/-- What becomes of a call: it is answered, it does not arrive, or its answer does not. -/
inductive Fate where
  | answered
  | lost
  | unanswered
  deriving DecidableEq, Repr

/-! ## Section 3: What the calls do -/

namespace Store

/-- Write or remove one row. -/
def setRow (s : Store) (id : String) (row : Option Job) : Store :=
  { s with jobs := Function.update s.jobs id row }

section
variable (s : Store) (id : String) (row : Option Job)

@[simp] theorem setRow_jobs_self : (s.setRow id row).jobs id = row := Function.update_self ..

@[simp] theorem setRow_jobs_of_ne {x : String} (h : x ≠ id) :
    (s.setRow id row).jobs x = s.jobs x := Function.update_of_ne h ..

end

/-- An action on one job, from the states it is allowed in. -/
def onJob (s : Store) (id : String) (allowed : State → Bool) (act : Job → Option Job) :
    Except StoreError Unit × Store :=
  match s.jobs id with
  | none => (.error (.notFound id), s)
  | some j =>
    if allowed j.state then (.ok (), s.setRow id (act j))
    else (.error (.invalidState id j.state), s)

/-- The action is taken on a row it is allowed on, or nothing happens. -/
theorem onJob_cases (s : Store) (id : String) (allowed : State → Bool) (act : Job → Option Job) :
    (∃ j, s.jobs id = some j ∧ allowed j.state = true ∧
      s.onJob id allowed act = (.ok (), s.setRow id (act j))) ∨
    ∃ e, s.onJob id allowed act = (.error e, s) := by
  unfold onJob
  cases hj : s.jobs id with
  | none => exact .inr ⟨_, rfl⟩
  | some j =>
    cases hallowed : allowed j.state with
    | true => exact .inl ⟨j, rfl, hallowed, if_pos hallowed⟩
    | false => exact .inr ⟨_, if_neg (by simp [hallowed])⟩

/-- The states an operator may retry from. -/
def retriable : State → Bool
  | .archived | .cancelled | .undecodable => true
  | _ => false

/-- `promote_job`. -/
def promoteJob (s : Store) (id : String) : Except StoreError Unit × Store :=
  s.onJob id (· == .pending) fun j => some { j with state := .available, scheduledAtMs := s.now }

/-- `schedule_pending_job`. -/
def schedulePendingJob (s : Store) (id : String) (atMs : Int) : Except StoreError Unit × Store :=
  s.onJob id (fun st => st == .pending && 0 < atMs) fun j =>
    some { j with state := .scheduled, scheduledAtMs := atMs }

/-- `delete_job`. -/
def deleteJob (s : Store) (id : String) : Except StoreError Unit × Store :=
  s.onJob id (· != .running) fun _ => none

/-- `operator_retry`. -/
def operatorRetry (s : Store) (id : String) : Except StoreError Unit × Store :=
  s.onJob id retriable fun j =>
    some { j with state := .available, scheduledAtMs := s.now, finalizedAtMs := none }

/-- `operator_cancel`. -/
def operatorCancel (s : Store) (id : String) : Except StoreError Unit × Store :=
  s.onJob id State.isUnfinished fun j =>
    some { j with state := .cancelled, finalizedAtMs := s.now }

/-- `edit_payload`. -/
def editPayload (s : Store) (id : String) (content : Payload) (fingerprint : String) :
    Except StoreError Unit × Store :=
  s.onJob id (· != .running) fun j => some { j with content := content, fingerprint := fingerprint }

/-- `quarantine_release`: every quarantined job of the fingerprint is available again. -/
def quarantineRelease (s : Store) (fingerprint : String) : Except StoreError Unit × Store :=
  (.ok (), { s with jobs := fun id => (s.jobs id).map fun j =>
    if j.state = .quarantined ∧ j.fingerprint = fingerprint then
      { j with state := .available, scheduledAtMs := s.now, finalizedAtMs := none }
    else j })

/-- The row of a new job. -/
def newJob (s : Store) (e : Envelope) : Job where
  state := if e.pending then .pending else if e.scheduledAtMs > s.now then .scheduled else .available
  kind := e.kind
  queue := enqueueQueue e.toEnvelope
  fingerprint := e.fingerprint
  content := e.content
  scheduledAtMs := if e.scheduledAtMs = 0 then s.now else e.scheduledAtMs
  finalizedAtMs := none

/-- The id pass: replays are skipped, other content under a known id is a conflict. -/
def newEnvelopes (s : Store) : List Envelope → Except StoreError (List Envelope)
  | [] => .ok []
  | e :: rest =>
    match s.jobs e.id with
    | none => (newEnvelopes s rest).map (e :: ·)
    | some j =>
      if j.kind = e.kind ∧ j.fingerprint = e.fingerprint ∧ j.queue = enqueueQueue e.toEnvelope then
        newEnvelopes s rest
      else .error (.idConflict e.id)

/-- `enqueue`: all or nothing. -/
def enqueue (s : Store) (batch : List Envelope) : Except StoreError Unit × Store :=
  match validateEnqueue (batch.map Envelope.toEnvelope) with
  | .error (.idConflict id) => (.error (.idConflict id), s)
  | .error _ => (.error (.invalid "enqueue batch"), s)
  | .ok () =>
    match s.newEnvelopes batch with
    | .error e => (.error e, s)
    | .ok new => (.ok (), new.foldl (fun t e => t.setRow e.id (some (s.newJob e))) s)

/-- An enqueue writes rows only. -/
theorem enqueue_cursors (s : Store) (batch : List Envelope) :
    (s.enqueue batch).2.cursors = s.cursors := by
  have hfold : ∀ (new : List Envelope) (t : Store),
      (new.foldl (fun t e => t.setRow e.id (some (s.newJob e))) t).cursors = t.cursors := by
    intro new
    induction new with
    | nil => exact fun t => rfl
    | cons e rest ih => exact fun t => ih (t.setRow e.id (some (s.newJob e)))
  unfold enqueue
  split
  · rfl
  · rfl
  · split
    · rfl
    · exact hfold _ s

/-- A write under the lease of the job that runs the caller. -/
def fenced (s : Store) (job : String) (write : Store → Store) : Except StoreError Unit × Store :=
  match s.jobs job with
  | some j => if j.state = .running then (.ok (), write s) else (.error .leaseRejected, s)
  | none => (.error .leaseRejected, s)

def setCursor (s : Store) (job : String) (cursor : WorkflowCursor) :
    Except StoreError Unit × Store :=
  s.fenced job fun s => { s with cursors := Function.update s.cursors job (some cursor) }

def persistOutput (s : Store) (job : String) (cursor : WorkflowCursor) :
    Except StoreError Unit × Store :=
  s.fenced job fun s => { s with outputs := Function.update s.outputs job (some cursor) }

/-- The checkpoint of a job's row. -/
def checkpoint (s : Store) (id : String) : Option (Option WorkflowCursor) :=
  (s.jobs id).map fun _ => s.cursors id

/-- A call that arrives. -/
def perform (cel : Cel) (s : Store) : (c : Call) → c.Reply × Store
  | .getJob id includePayload => (.ok ((s.jobs id).map (·.summary includePayload)), s)
  | .getJobCheckpoint id => (.ok (s.checkpoint id), s)
  | .promoteJob id => s.promoteJob id
  | .deleteJob id => s.deleteJob id
  | .schedulePendingJob id atMs => s.schedulePendingJob id atMs
  | .operatorRetry id => s.operatorRetry id
  | .operatorCancel id => s.operatorCancel id
  | .editPayload id content fingerprint => s.editPayload id content fingerprint
  | .quarantineRelease fingerprint => s.quarantineRelease fingerprint
  | .enqueue batch => s.enqueue batch
  | .setCursor job cursor => s.setCursor job cursor
  | .persistOutput job cursor => s.persistOutput job cursor
  | .execute expression context => (cel.execute expression context, s)

/-- The reply of a call whose request or answer is lost; the expression language is no service. -/
def unavailable (cel : Cel) : (c : Call) → c.Reply
  | .execute expression context => cel.execute expression context
  | .getJob _ _ => .error .unavailable
  | .getJobCheckpoint _ => .error .unavailable
  | .promoteJob _ => .error .unavailable
  | .deleteJob _ => .error .unavailable
  | .schedulePendingJob _ _ => .error .unavailable
  | .operatorRetry _ => .error .unavailable
  | .operatorCancel _ => .error .unavailable
  | .editPayload _ _ _ => .error .unavailable
  | .quarantineRelease _ => .error .unavailable
  | .enqueue _ => .error .unavailable
  | .setCursor _ _ => .error .unavailable
  | .persistOutput _ _ => .error .unavailable

/-- A call with its fate. -/
def serve (cel : Cel) (c : Call) (fate : Fate) (s : Store) : c.Reply × Store :=
  match fate with
  | .answered => s.perform cel c
  | .lost => (unavailable cel c, s)
  | .unanswered => (unavailable cel c, (s.perform cel c).2)

end Store

end Headgate.Workflow
