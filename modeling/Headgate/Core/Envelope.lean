import Mathlib

/-!
# The store port: jobs, requests and boundary validation

The data every store exchanges with its callers: lifecycle states and outcomes,
the job envelope, lease references, policy configurations and the typed store
errors, together with the validation that runs before any store is touched.
Text lengths are UTF-8 byte lengths, as on the wire.
-/

namespace Headgate.Core

/-- Raw bytes (payloads, unique keys, results). -/
abbrev Bytes := List UInt8

/-! ## Section 1: Lifecycle vocabulary -/

/-- The stored lifecycle states.  (`Deleted` is never stored: a transition into it
removes the record.) -/
inductive State where
  | pending
  | scheduled
  | available
  | running
  | retryable
  | completed
  | archived
  | cancelled
  | quarantined
  | undecodable
  deriving DecidableEq, Repr, Inhabited

namespace State

/-- Waiting for admission: the gate may claim the job once its time has come. -/
def isWaiting : State → Bool
  | scheduled | available | retryable => true
  | _ => false

/-- Not yet finished: pending, waiting or running. -/
def isUnfinished : State → Bool
  | pending | scheduled | available | retryable | running => true
  | _ => false

/-- Finished for good, unless an operator brings the job back. -/
def isTerminal : State → Bool
  | completed | archived | cancelled | quarantined | undecodable => true
  | _ => false

/-- The stored text of a state. -/
def asStr : State → String
  | pending => "pending"
  | scheduled => "scheduled"
  | available => "available"
  | running => "running"
  | retryable => "retryable"
  | completed => "completed"
  | archived => "archived"
  | cancelled => "cancelled"
  | quarantined => "quarantined"
  | undecodable => "undecodable"

theorem isUnfinished_of_isWaiting {st : State} (h : st.isWaiting = true) :
    st.isUnfinished = true := by
  cases st <;> simp_all [isWaiting, isUnfinished]

end State

/-- What a worker reports about one attempt. -/
inductive Outcome where
  | success
  | retry
  | skip
  | revoke
  | snooze
  | leaseLost
  | undecodable
  | rateLimited
  deriving DecidableEq, Repr

/-! ## Section 2: Envelopes and requests -/

/-- A job as its producer hands it to a store; the defaults are the zero values a
producer may omit. -/
structure Envelope where
  id : String := ""
  kind : String := ""
  schemaVersion : Nat := 0
  payload : Bytes := []
  queue : String := ""
  partitionKey : String := ""
  rateClass : String := ""
  /-- Estimated rate-budget cost; `0` stands for the default of one. -/
  weight : Nat := 0
  fingerprint : String := ""
  priority : Int := 0
  attempt : Nat := 0
  crashAttempt : Nat := 0
  maxAttempts : Nat := 0
  scheduledAtMs : Int := 0
  timeoutMs : Int := 0
  deadlineMs : Int := 0
  uniqueKey : Option Bytes := none
  uniqueStates : Nat := 0
  /-- `0` is lifecycle uniqueness, a positive window is throttle uniqueness. -/
  uniqueWindowMs : Int := 0
  /-- Fields to replace on a duplicate, as a bit mask. -/
  uniqueReplace : Nat := 0
  uniqueDebounceMs : Int := 0
  uniqueExcludeKind : Bool := false
  retentionMs : Int := 0
  periodicScheduleId : String := ""
  periodicTickMs : Int := 0
  headers : List (String × String) := []
  tags : List String := []
  pending : Bool := false
  stickyWorker : String := ""
  deriving DecidableEq, Repr

/-- The lease a worker believes it holds. -/
structure LeaseRef where
  jobId : String
  leaseId : String
  fence : Nat
  deriving DecidableEq, Repr

/-- The four lease fields of a stored job: written together by a claim and cleared
together by everything that ends one. -/
structure Lease where
  leaseId : String
  expiresAtMs : Int
  claimedAtMs : Int
  claimedBy : String
  deriving DecidableEq, Repr

/-- A worker's request for work. -/
structure AdmitRequest where
  worker : String := ""
  leaseId : String
  queues : List String
  capacity : Nat
  leaseMs : Int
  quantum : Int
  deriving DecidableEq, Repr

/-- Durable progress within a resumable job. -/
structure Checkpoint where
  lastCompletedStep : Option String := none
  completedSteps : List String := []
  inProgressStep : Option String := none
  cursorStep : Option String := none
  cursor : Option Bytes := none
  schemaVersion : Nat := 0
  stepSetHash : String := ""
  crashesByStep : List (String × Nat) := []
  deriving DecidableEq, Repr

/-- A job as it is handed to a worker. -/
structure Claim where
  envelope : Envelope
  leaseId : String
  fence : Nat
  expiresAtMs : Int
  checkpoint : Checkpoint
  deriving DecidableEq, Repr

/-- `Claim::lease_ref`: what identifies a claim to the fenced calls. -/
def Claim.ref (c : Claim) : LeaseRef := ⟨c.envelope.id, c.leaseId, c.fence⟩

/-- What happens to a candidate whose partition is saturated. -/
inductive SaturationStrategy where
  | queue
  | discard
  | cancelRunning
  | cancelIncoming
  deriving DecidableEq, Repr

/-- Versioned opaque bytes recorded with a successful completion. -/
structure JobResult where
  schemaVersion : Nat
  bytes : Bytes
  deriving DecidableEq, Repr

/-- The latest output a fenced attempt persisted. -/
structure JobOutput where
  schemaVersion : Nat
  bytes : Bytes
  fence : Nat
  updatedAtMs : Int
  deriving DecidableEq, Repr

/-- The latest progress a fenced attempt reported. -/
structure JobProgress where
  current : Nat
  total : Nat
  message : Option String
  fence : Nat
  updatedAtMs : Int
  deriving DecidableEq, Repr

/-- The typed errors of the store port. -/
inductive StoreError where
  | duplicate (existingId : String) (replaced : Bool)
  | idConflict (jobId : String)
  | quarantined (fingerprint : String)
  | backpressure (queue : String) (limit current incoming : Int)
  | leaseRejected (jobId : String)
  | unavailable (message : String)
  | notFound (message : String)
  | invalid (message : String)
  | backend (message : String)
  deriving DecidableEq, Repr

/-! ## Section 3: Defaults -/

/-- An omitted queue is the queue `default`. -/
def effectiveQueue (queue : String) : String := if queue = "" then "default" else queue

def effectiveSchemaVersion (version : Nat) : Nat := if version = 0 then 1 else version

def effectiveMaxAttempts (maxAttempts : Nat) : Nat := if maxAttempts = 0 then 25 else maxAttempts

def effectiveWeight (weight : Nat) : Nat := if weight = 0 then 1 else weight

/-- The queue an envelope lands in. -/
def enqueueQueue (e : Envelope) : String := effectiveQueue e.queue

/-- Canonical storage order for tags. -/
def canonicalTags (tags : List String) : List String :=
  (tags.insertionSort (· ≤ ·)).dedup

/-- The four bytes of a length, most significant first. -/
def lengthBytes (n : Nat) : Bytes :=
  [UInt8.ofNat (n / 2 ^ 24), UInt8.ofNat (n / 2 ^ 16), UInt8.ofNat (n / 2 ^ 8), UInt8.ofNat n]

/-- The UTF-8 bytes of a text. -/
def utf8 (s : String) : Bytes := s.toUTF8.data.toList

/-- The versioned uniqueness namespace: the kind is part of the key unless the
envelope excludes it. -/
def effectiveUniqueKey (e : Envelope) : Option Bytes :=
  e.uniqueKey.map fun raw =>
    if e.uniqueExcludeKind then 1 :: 71 :: raw
    else 1 :: 75 :: (lengthBytes e.kind.utf8ByteSize ++ utf8 e.kind ++ raw)

/-- The envelope as the stores persist it: its key scoped by `effectiveUniqueKey`. -/
def scopeKey (e : Envelope) : Envelope := { e with uniqueKey := effectiveUniqueKey e }

/-- Does the row that already owns this id hold the same job? -/
def sameJobContent (e : Envelope) (kind fingerprint queue : String) : Bool :=
  e.kind = kind && e.fingerprint = fingerprint && enqueueQueue e = queue

/-- Requested queues, sorted and without repetition. -/
def normalizeQueues (queues : List String) : List String :=
  (queues.insertionSort (· ≤ ·)).dedup

end Headgate.Core
