import Headgate.Core.Validate
import Headgate.Data.SortedSet
import Headgate.Data.Table
import Headgate.Sql.Calls

/-!
# `enqueue_on` on Postgres and MySQL

Both dialects insert a batch in one statement and let two unique indexes find
duplicates: one over the live rows without a window, one over the rows with
one.  On a collision the keys of ended windows are released, the insert is tried
once more, and what is left is reported as a duplicate.  `Dialect` holds what
the dialects do differently and `Adapter` where an adapter scopes unique keys.

Queries without an order may return any of their rows: `order` lists a set the
way the server happens to.  Where one call reads the clock several times the
model reads it once.  Texts are compared exactly, except for the tags of MySQL,
which are rows under a collation and inserted one by one after the jobs.  Those of
a debounced holder are not: they are taken to be replaced at once.

Left out: active partitions, in-flight counts, arrival counters and wakeups.
-/

namespace Headgate.Sql

open Headgate.Core Data

/-! ## Section 1: Tables -/

structure QuarantineEntry where
  crashCount : Nat
  quarantinedAtMs : Int
  deriving DecidableEq, Repr

/-- The tables an enqueue reads and writes. -/
structure Db where
  jobs : Table String Job
  /-- `max_unfinished_jobs`; a queue without a row has no limit either. -/
  enqueuePolicy : String → Option Int
  entered : String → Nat
  exited : String → Nat
  quarantine : Table String QuarantineEntry

/-- The entry of a row in the index of lifecycle keys. -/
def Job.lifecycleEntry (j : Job) : Option Bytes :=
  if j.uniqueExpiresAtMs = none ∧ j.state.isUnfinished = true then j.uniqueKey else none

/-- The entry of a row in the index of throttle keys. -/
def Job.throttleEntry (j : Job) : Option Bytes :=
  if j.uniqueExpiresAtMs.isSome then j.uniqueKey else none

/-- Both unique indexes hold. -/
def indexed (t : Table String Job) : Bool :=
  t.uniqueOn Job.lifecycleEntry && t.uniqueOn Job.throttleEntry

/-- The depth triggers: how many jobs of a queue are unfinished here and were not there. -/
def arrivals (from_ to_ : Table String Job) (queue : String) : Nat :=
  to_.count fun id j =>
    j.queue = queue && j.state.isUnfinished && !((from_.get id).any fun k => k.state.isUnfinished)

/-- The job table after a statement, with the counters its triggers maintain. -/
def Db.setJobs (db : Db) (t : Table String Job) : Db :=
  { db with
    jobs := t
    entered := fun q => db.entered q + arrivals db.jobs t q
    exited := fun q => db.exited q + arrivals t db.jobs q }

/-- A statement on the job table; one that breaks an index fails. -/
def Db.write (db : Db) (t : Table String Job) : Option Db :=
  if indexed t then some (db.setJobs t) else none

/-! ## Section 2: Dialects -/

/-- What Postgres and MySQL do differently. -/
structure Dialect where
  /-- The row of an envelope whose key is already scoped. -/
  newJob : Int → Envelope → Job
  /-- The column or check that refuses a row. -/
  refuses : Envelope → Option String
  /-- Is an empty fingerprint looked up in the quarantine? -/
  quarantinesEmpty : Bool
  /-- Does a failed statement abort the transaction? -/
  abortsOnError : Bool
  /-- The holder after a replacement or debounce, if its `WHERE` clause finds it. -/
  replaceHolder : Int → Envelope → Job → Option Job
  /-- What tags that are inserted after the jobs are compared by. -/
  tagKey : Option (String → String)

/-- An adapter: its dialect, and whether `enqueue_on` itself scopes unique keys. -/
structure Adapter where
  dialect : Dialect
  scopesInside : Bool

def dueAt (now : Int) (e : Envelope) : Int :=
  if e.uniqueDebounceMs > 0 then now + e.uniqueDebounceMs
  else if e.scheduledAtMs = 0 then now
  else e.scheduledAtMs

/-! ## Section 3: The passes -/

/-- The envelopes whose id is new, or the first id that exists with other content. -/
def classifyIds (db : Db) : List Envelope → Except StoreError (List Envelope)
  | [] => .ok []
  | e :: rest =>
    match db.jobs.get e.id with
    | none => (classifyIds db rest).map (e :: ·)
    | some j =>
      if sameJobContent e j.kind j.fingerprint j.queue then classifyIds db rest
      else .error (.idConflict e.id)

def quarantinedIn (d : Dialect) (order : SetOrder String) (db : Db) (fresh : List Envelope) :
    Option String :=
  (order.list ((fresh.map Envelope.fingerprint).filter fun f =>
    (d.quarantinesEmpty || f ≠ "") && (db.quarantine.get f).isSome).toFinset).head?

/-- The depth check of one queue, from the two counters. -/
def backpressure (db : Db) (fresh : List Envelope) (queue : String) : Option StoreError :=
  let incoming := (fresh.map enqueueQueue).count queue
  let current := db.entered queue - db.exited queue
  match db.enqueuePolicy queue with
  | none => none
  | some limit =>
    if (current + incoming : Int) > limit then
      some (.backpressure queue limit current incoming)
    else none

inductive InsertError where
  | refused (message : String)
  | taken
  deriving DecidableEq, Repr

/-- The insert statement, row by row; an error undoes all of it. -/
def insertLoop (d : Dialect) (now : Int) :
    List Envelope → Table String Job → Except InsertError (Table String Job)
  | [], t => .ok t
  | e :: rest, t =>
    match d.refuses e with
    | some message => .error (.refused message)
    | none =>
      let t' := t.insert e.id (d.newJob now e)
      if indexed t' then insertLoop d now rest t' else .error .taken

/-- The unique keys of a batch. -/
def candidates (fresh : List Envelope) : List Bytes := fresh.filterMap Envelope.uniqueKey

/-- The row holds one of the keys and its window has ended. -/
def Job.releasable (now : Int) (keys : List Bytes) (j : Job) : Bool :=
  j.uniqueKey.any keys.contains && j.uniqueExpiresAtMs.any fun t => t ≤ now

/-- The lazy release. -/
def releaseKeys (now : Int) (keys : List Bytes) (t : Table String Job) : Table String Job :=
  t.update (fun _ j => j.releasable now keys) fun _ j => { j with uniqueExpiresAtMs := none }

def holdersOf (keys : List Bytes) (t : Table String Job) : List (String × Job) :=
  t.select fun _ j =>
    j.uniqueKey.any keys.contains && (j.uniqueExpiresAtMs.isSome || j.state.isUnfinished)

/-- The first id of a query without an order. -/
def anyId (order : SetOrder String) (rows : List (String × Job)) : Option String :=
  (order.list (rows.map Prod.fst).toFinset).head?

/-- The verdict on a batch whose insert collided. -/
def onTaken (d : Dialect) (now : Int) (order : SetOrder String) (fresh : List Envelope) (db : Db) :
    Db × Except StoreError Unit :=
  match anyId order (holdersOf (candidates fresh) db.jobs) with
  | some id =>
    match fresh.head?.bind fun e => (db.jobs.get id).bind (d.replaceHolder now e) with
    | some row =>
      (db.setJobs (db.jobs.updateAt id (fun _ => true) fun _ => row), .error (.duplicate id true))
    | none => (db, .error (.duplicate id false))
  | none =>
    -- no index of unique keys: an id would have collided
    let raced := anyId order (db.jobs.select fun id _ => (fresh.map Envelope.id).contains id)
    (db, .error (.idConflict (raced.getD "")))

def transactionAborted : StoreError :=
  .backend "current transaction is aborted, commands ignored until end of transaction block"

/-- The insert with its one retry. -/
def insertFresh (d : Dialect) (now : Int) (order : SetOrder String) (fresh : List Envelope)
    (db : Db) : Db × Except StoreError Unit :=
  match insertLoop d now fresh db.jobs with
  | .ok t => (db.setJobs t, .ok ())
  | .error (.refused message) => (db, .error (.backend message))
  | .error .taken =>
    if db.jobs.count (fun _ j => j.releasable now (candidates fresh)) = 0 then
      onTaken d now order fresh db
    else match db.write (releaseKeys now (candidates fresh) db.jobs) with
      | none =>
        -- the release collided: taken for "nothing freed"
        if d.abortsOnError then (db, .error transactionAborted) else onTaken d now order fresh db
      | some db' =>
        match insertLoop d now fresh db'.jobs with
        | .ok t => (db'.setJobs t, .ok ())
        | .error (.refused message) => (db', .error (.backend message))
        | .error .taken => onTaken d now order fresh db'

/-- `enqueue_on` after validation, on envelopes as they will be stored. -/
def enqueueScoped (d : Dialect) (now : Int) (order : SetOrder String) (batch : List Envelope)
    (db : Db) : Db × Except StoreError Unit :=
  match classifyIds db batch with
  | .error err => (db, .error err)
  | .ok fresh =>
    if fresh.isEmpty then (db, .ok ())
    else match quarantinedIn d order db fresh with
      | some fp => (db, .error (.quarantined fp))
      | none =>
        match (orderBy id (fresh.map enqueueQueue).dedup).findSome? (backpressure db fresh) with
        | some err => (db, .error err)
        | none => insertFresh d now order fresh db

/-- A tag and one before it have the same key. -/
def duplicateTag : StoreError := .backend "Duplicate entry for key 'headgate_job_tag.PRIMARY'"

/-- The tags up to the first that collides. -/
def leadingTags (key : String → String) : List String → List String → List String
  | _, [] => []
  | seen, tag :: rest =>
    if seen.contains (key tag) then [] else tag :: leadingTags key (key tag :: seen) rest

/-- The inserts of the tags; one that fails leaves the rows without the tags that follow. -/
def insertTags (key : String → String) :
    List Envelope → Table String Job → Table String Job × Except StoreError Unit
  | [], t => (t, .ok ())
  | e :: rest, t =>
    if ((canonicalTags e.tags).map key).Nodup then insertTags key rest t
    else
      (t.update (fun id _ => ((e :: rest).map Envelope.id).contains id) fun id j =>
        { j with tags := if id = e.id then leadingTags key [] (canonicalTags e.tags) else [] },
        .error duplicateTag)

/-- The envelopes of a batch whose ids are new. -/
def unstored (db : Db) (batch : List Envelope) : List Envelope :=
  batch.filter fun e => (db.jobs.get e.id).isNone

/-- The tags of the rows that were inserted, if tags are rows. -/
def withTags (d : Dialect) (fresh : List Envelope) (r : Db × Except StoreError Unit) :
    Db × Except StoreError Unit :=
  match d.tagKey, r.2 with
  | some key, .ok () =>
    let t := insertTags key fresh r.1.jobs
    ({ r.1 with jobs := t.1 }, t.2)
  | _, _ => r

/-- The checks before the insert let these envelopes of the batch through. -/
structure Checked (d : Dialect) (order : SetOrder String) (batch : List Envelope) (db : Db)
    (fresh : List Envelope) : Prop where
  ids : classifyIds db batch = .ok fresh
  nonempty : fresh ≠ []
  quarantine : quarantinedIn d order db fresh = none
  depth : (orderBy id (fresh.map enqueueQueue).dedup).findSome? (backpressure db fresh) = none

/-! ## Section 4: The calls -/

/-- `enqueue_on`: what the transaction holds afterwards, and the verdict. -/
def enqueueOn (a : Adapter) (now : Int) (order : SetOrder String) (batch : List Envelope)
    (db : Db) : Db × Except StoreError Unit :=
  if batch.isEmpty then (db, .ok ())
  else match validateEnqueue batch with
    | .error err => (db, .error err)
    | .ok () =>
      let batch := if a.scopesInside then batch.map scopeKey else batch
      withTags a.dialect (unstored db batch) (enqueueScoped a.dialect now order batch db)

/-- `enqueue`: a transaction of its own, rolled back on an error without a replacement. -/
def enqueue (a : Adapter) (now : Int) (order : SetOrder String) (batch : List Envelope)
    (db : Db) : Db × Except StoreError Unit :=
  if batch.isEmpty then (db, .ok ())
  else match validateEnqueue batch with
    | .error err => (db, .error err)
    | .ok () =>
      let r := enqueueOn a now order (if a.scopesInside then batch else batch.map scopeKey) db
      (if commits r.2 then r.1 else db, r.2)

/-- `enqueue_tx` in a fresh transaction that is then committed. -/
def enqueueTx (a : Adapter) (now : Int) (order : SetOrder String) (batch : List Envelope)
    (db : Db) : Db × Except StoreError Unit :=
  enqueueOn a now order batch db

end Headgate.Sql
