import Headgate.Core.Validate
import Headgate.Sqlite.Store

/-!
# `enqueue_on` and `SqliteStore::enqueue`

One pass over the batch classifies every envelope (replay, conflict, quarantine,
duplicate), one checks the queue limits, one inserts.  The first error ends the
call; the plain call then rolls back unless the error reports a replaced holder.

The query for the holder of a key has no `ORDER BY`, so the row it returns when
several match is a parameter: `order` lists the matching ids.
-/

namespace Headgate.Sqlite

open Headgate.Core Data
open Sql (commits replaces)

/-! ## Section 1: The holder of a key -/

/-- The `WHERE` clause of the holder query, for a given key and clock. -/
def Job.holdsKey (now : Int) (key : Bytes) (j : Job) : Bool :=
  j.uniqueKey = some key &&
    ((j.uniqueWindowMs > 0 && j.uniqueExpiresAtMs.any fun t => t > now) ||
      -- a pending row is not looked for
      (j.uniqueWindowMs = 0 && [State.scheduled, .available, .running, .retryable].contains j.state))

def lookupHolder (order : SetOrder String) (now : Int) (key : Bytes) (db : Store) : Option String :=
  (order.list ((db.jobs.select fun _ j => j.holdsKey now key).map Prod.fst).toFinset).head?

/-- The key an envelope is checked under: a pending envelope without window is not checked. -/
def checkedKey (e : Envelope) : Option Bytes :=
  (effectiveUniqueKey e).filter fun _ => e.uniqueWindowMs > 0 || !e.pending

/-- The `UPDATE` of a debounced holder. -/
def debounceRow (now : Int) (e : Envelope) (j : Job) : Job :=
  { j with
    schemaVersion := effectiveSchemaVersion e.schemaVersion, payload := e.payload
    fingerprint := e.fingerprint, tags := canonicalTags e.tags, state := .scheduled
    scheduledAtMs := now + e.uniqueDebounceMs }

/-- The `UPDATE` of a replaced holder, column by column. -/
def replaceRow (now : Int) (e : Envelope) (j : Job) : Job :=
  { j with
    schemaVersion :=
      if replaces e 0 then effectiveSchemaVersion e.schemaVersion else j.schemaVersion
    payload := if replaces e 0 then e.payload else j.payload
    fingerprint := if replaces e 0 then e.fingerprint else j.fingerprint
    scheduledAtMs :=
      if replaces e 1 && j.state = .scheduled then
        if e.scheduledAtMs = 0 then now else e.scheduledAtMs
      else j.scheduledAtMs
    priority := if replaces e 2 then e.priority else j.priority
    maxAttempts := if replaces e 3 then effectiveMaxAttempts e.maxAttempts else j.maxAttempts }

def debouncable (j : Job) : Bool :=
  [State.pending, .scheduled, .available, .retryable].contains j.state

def replaceable (j : Job) : Bool := [State.scheduled, .available, .retryable].contains j.state

/-- Does the update of a holder write a schema version the table refuses? -/
def refusesUpdate (e : Envelope) (p : Job → Bool) (holder : Option Job) : Bool :=
  holder.any p && !schemaVersionOk (effectiveSchemaVersion e.schemaVersion)

/-- The verdict on an envelope whose key is held, with the holder's update. -/
def onHolder (now : Int) (e : Envelope) (holder : String) (db : Store) : Store × StoreError :=
  if e.uniqueDebounceMs > 0 then
    if refusesUpdate e debouncable (db.jobs.get holder) then (db, checkFailed)
    else
      let r := db.updateJob holder debouncable (debounceRow now e)
      (r.1, .duplicate holder r.2)
  else if e.uniqueReplace ≠ 0 then
    if replaces e 0 && refusesUpdate e replaceable (db.jobs.get holder) then (db, checkFailed)
    else
      let r := db.updateJob holder replaceable (replaceRow now e)
      (r.1, .duplicate holder r.2)
  else (db, .duplicate holder false)

/-! ## Section 2: The passes -/

/-- What the first pass decides about one envelope. -/
inductive Verdict where
  /-- The row exists with this content. -/
  | replay
  | reject (db : Store) (err : StoreError)
  | keep

/-- One round of the first pass; `seen` maps the checked keys of this batch to their ids. -/
def classify (now : Int) (order : SetOrder String) (db : Store) (seen : List (Bytes × String))
    (e : Envelope) : Verdict :=
  match db.jobs.get e.id with
  | some j =>
    if sameJobContent e j.kind j.fingerprint j.queue then .replay
    else .reject db (.idConflict e.id)
  | none =>
    if e.fingerprint ≠ "" ∧ (db.quarantine.get e.fingerprint).isSome then
      .reject db (.quarantined e.fingerprint)
    else match checkedKey e with
      | none => .keep
      | some key =>
        match seen.lookup key with
        | some existing => .reject db (.duplicate existing false)
        | none =>
          match lookupHolder order now key db with
          | some holder =>
            let r := onHolder now e holder db
            .reject r.1 r.2
          | none => .keep

/-- The keys seen after an envelope. -/
def noteKey (e : Envelope) (seen : List (Bytes × String)) : List (Bytes × String) :=
  match checkedKey e with
  | none => seen
  | some key => (key, e.id) :: seen

/-- The first pass: the envelopes to insert, or the store and the error of the first reject. -/
def classifyAll (now : Int) (order : SetOrder String) (db : Store) :
    List Envelope → List (Bytes × String) → Except (Store × StoreError) (List Envelope)
  | [], _ => .ok []
  | e :: rest, seen =>
    match classify now order db seen e with
    | .reject db' err => .error (db', err)
    | .replay => classifyAll now order db rest seen
    | .keep => (classifyAll now order db rest (noteKey e seen)).map (e :: ·)

def unfinishedIn (db : Store) (queue : String) : Nat :=
  db.jobs.count fun _ j => j.queue = queue && j.state.isUnfinished

/-- The queues of a batch, in the order of the demand map. -/
def demandQueues (batch : List Envelope) : List String :=
  orderBy id (batch.map enqueueQueue).dedup

/-- The depth check of one queue. -/
def backpressure (db : Store) (batch : List Envelope) (queue : String) : Option StoreError :=
  let incoming := (batch.map enqueueQueue).count queue
  match (db.enqueuePolicy.get queue).join with
  | none => none
  | some limit =>
    if (unfinishedIn db queue + incoming : Int) > limit then
      some (.backpressure queue limit (unfinishedIn db queue) incoming)
    else none

def dueAt (now : Int) (e : Envelope) : Int :=
  if e.uniqueDebounceMs > 0 then now + e.uniqueDebounceMs
  else if e.scheduledAtMs = 0 then now
  else e.scheduledAtMs

def initialState (now : Int) (e : Envelope) : State :=
  if e.pending then .pending
  else if dueAt now e > now then .scheduled
  else .available

/-- The end of a throttle window, in the arithmetic of `i64`. -/
def windowEnd (now : Int) (e : Envelope) : Int :=
  if now + e.uniqueWindowMs < 2 ^ 63 then now + e.uniqueWindowMs
  else now + e.uniqueWindowMs - 2 ^ 64

/-- The inserted row. -/
def newJob (now : Int) (e : Envelope) : Job where
  kind := e.kind
  schemaVersion := effectiveSchemaVersion e.schemaVersion
  payload := e.payload
  queue := enqueueQueue e
  partitionKey := e.partitionKey
  rateClass := e.rateClass
  weight := effectiveWeight e.weight
  rateCharge := 0
  fingerprint := e.fingerprint
  priority := e.priority
  attempt := e.attempt
  crashAttempt := e.crashAttempt
  maxAttempts := effectiveMaxAttempts e.maxAttempts
  enqueuedAtMs := now
  scheduledAtMs := dueAt now e
  timeoutMs := e.timeoutMs
  deadlineMs := e.deadlineMs
  retentionMs := e.retentionMs
  finalizedAtMs := none
  state := initialState now e
  lease := none
  fence := 0
  uniqueKey := effectiveUniqueKey e
  uniqueStates := e.uniqueStates
  uniqueWindowMs := e.uniqueWindowMs
  uniqueExpiresAtMs :=
    ((effectiveUniqueKey e).filter fun _ => e.uniqueWindowMs > 0).map fun _ => windowEnd now e
  headers := e.headers
  tags := canonicalTags e.tags
  periodicScheduleId := e.periodicScheduleId
  periodicTickMs := e.periodicTickMs
  stickyWorker := e.stickyWorker
  errors := []
  checkpoint := none
  result := none
  output := none
  progress := none

/-- The insert loop; an insert that fails leaves the earlier ones in the transaction. -/
def insertAll (now : Int) : List Envelope → Store → Store × Except StoreError Unit
  | [], db => (db, .ok ())
  | e :: rest, db =>
    if schemaVersionOk (effectiveSchemaVersion e.schemaVersion) then
      insertAll now rest { db with jobs := db.jobs.insert e.id (newJob now e) }
    else (db, .error checkFailed)

/-! ## Section 3: The calls -/

/-- `enqueue_on`: the database inside the transaction, and the verdict. -/
def enqueueOn (now : Int) (order : SetOrder String) (batch : List Envelope) (db : Store) :
    Store × Except StoreError Unit :=
  match classifyAll now order db batch [] with
  | .error (db', err) => (db', .error err)
  | .ok fresh =>
    match (demandQueues fresh).findSome? (backpressure db fresh) with
    | some err => (db, .error err)
    | none => insertAll now fresh db

/-- `SqliteStore::enqueue`. -/
def enqueue (now : Int) (order : SetOrder String) (batch : List Envelope) (db : Store) :
    Store × Except StoreError Unit :=
  if batch.isEmpty then (db, .ok ())
  else match validateEnqueue batch with
    | .error err => (db, .error err)
    | .ok () =>
      let r := enqueueOn now order batch db
      (if commits r.2 then r.1 else db, r.2)

end Headgate.Sqlite
