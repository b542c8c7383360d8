import Headgate.Redis.Step
import Headgate.Schedule.Spec

/-!
# The leaderless scheduler

`sched.lua` keeps the schedules, and any number of nodes sweep them.  A sweep is a
program of separate store calls: the `due` script, one read per schedule hash, and for
every schedule the enqueues of its ticks followed by the advance of its next run.  The
calls of several nodes, of workers, producers and operators interleave in any order;
a node may stop between any two of its calls, and a call whose answer is lost makes it
give up the schedule it works on.

`Cluster.created` is not in Redis: it lists the ticks whose enqueue by a node has
created a job, and no call reads it.  The audit trail of the scheduler
(`record_schedule_event`) is left out, up to its failures.
-/

namespace Headgate.Core

/-- What to do about ticks that were missed. -/
inductive MissedPolicy where
  | skip
  | runOnce
  | backfill
  deriving DecidableEq, Repr

/-- A periodic schedule. -/
structure Schedule where
  id : String
  kind : String
  payload : Bytes := []
  queue : String
  partitionKey : String := ""
  rateClass : String := ""
  priority : Int := 0
  maxAttempts : Nat := 25
  retentionMs : Int := 0
  spec : String
  /-- The next tick that has not fired. -/
  nextRunMs : Int
  lastEnqueuedMs : Option Int := none
  onMissed : MissedPolicy := .skip
  backfillLimit : Nat := 0
  paused : Bool := false
  deriving DecidableEq, Repr

end Headgate.Core

namespace Headgate.Schedule

open Headgate.Core Data Redis

/-! ## Section 1: `sched.lua` -/

/-- The keys of the script. -/
structure Schedules where
  /-- `schedule:{id}` -/
  hash : String → Option Schedule
  /-- `schedules`; the members parked at `+inf` are never in range and are left out -/
  due : ZSet String

def Schedules.empty : Schedules := ⟨fun _ => none, .empty⟩

namespace Schedules

/-- The next run an upsert stores: an unchanged spec keeps its phase. -/
def phase (k : Schedules) (s : Schedule) : Int :=
  match k.hash s.id with
  | some old => if old.spec = s.spec then old.nextRunMs else s.nextRunMs
  | none => s.nextRunMs

def upsert (s : Schedule) (k : Schedules) : Schedules where
  hash := Function.update k.hash s.id (some { s with
    nextRunMs := k.phase s
    lastEnqueuedMs := (k.hash s.id).bind Schedule.lastEnqueuedMs })
  due := if s.paused then k.due.remove s.id else k.due.add (k.phase s) s.id

def delete (id : String) (k : Schedules) : Schedules :=
  match k.hash id with
  | none => k
  | some _ => ⟨Function.update k.hash id none, k.due.remove id⟩

/-- Compare-and-set of the next run. -/
def advance (now : Int) (id : String) (from_ to_ : Int) (k : Schedules) : Schedules :=
  match k.hash id with
  | none => k
  | some s =>
    if s.nextRunMs = from_ then
      { hash := Function.update k.hash id (some { s with
          nextRunMs := to_
          lastEnqueuedMs := some now })
        due := if s.paused then k.due else k.due.add to_ id }
    else k

/-- The due ids; members without a hash are dropped. -/
def dueIds (now limit : Int) (k : Schedules) : Schedules × List String :=
  let ids := k.due.rangeByScore now limit
  let stale := ids.filter fun id => k.hash id = none
  ({ k with due := stale.foldl ZSet.remove k.due }, ids.filter fun id => k.hash id ≠ none)

end Schedules

/-- `schedule_from_hash`: the id is the key's. -/
def scheduleFromHash (id : String) (h : Schedule) : Schedule := { h with id := id }

/-! ## Section 2: `fire_schedule` -/

/-- What a node is about to do for one schedule: the ticks it still has to enqueue and
the next run it then writes. -/
structure Firing where
  schedule : Schedule
  ticks : List Int
  next : Int
  deriving DecidableEq, Repr

section
variable (eng : CronEngine) (fingerprint : String → Bytes → String)

/-- `fire_schedule` up to its first store call. -/
def plan (s : Schedule) (now : Int) : Option Firing :=
  match dueTicks eng s.spec s.nextRunMs now (max s.backfillLimit 1) with
  -- a broken spec is parked an hour out
  | .error _ => some ⟨s, [], now + 3600000⟩
  | .ok ticks =>
    match ticks.getLast? with
    | none => none
    | some last =>
      match nextAfter eng s.spec (max now last) with
      | .error _ => none
      | .ok next =>
        some ⟨s, match s.onMissed with | .skip | .runOnce => [last] | .backfill => ticks, next⟩

/-- The job id of a tick. -/
def tickId (schedule : String) (tick : Int) : String := s!"sched-{schedule}-{tick}"

/-- The envelope of a tick. -/
def tickEnvelope (s : Schedule) (tick : Int) : Envelope where
  id := tickId s.id tick
  kind := s.kind
  fingerprint := fingerprint s.kind s.payload
  payload := s.payload
  queue := s.queue
  partitionKey := s.partitionKey
  rateClass := s.rateClass
  priority := s.priority
  maxAttempts := s.maxAttempts
  retentionMs := s.retentionMs
  periodicScheduleId := s.id
  periodicTickMs := tick
  uniqueKey := some (utf8 s!"sched:{s.id}:{tick}")

/-- Does the sweep go on with the schedule after this answer? -/
def goesOn : Except StoreError Unit → Bool
  | .ok () => true
  -- another node won the tick
  | .error (.duplicate _ _) => true
  | .error (.idConflict _) => true
  | .error (.quarantined _) => true
  | .error _ => false

/-! ## Section 3: Nodes -/

/-- A node in the middle of a sweep: the clock value of its `due` call, the ids whose
hashes it has not read, and its work on those it has. -/
structure Node where
  now : Int := 0
  unread : List String := []
  work : List Firing := []
  deriving DecidableEq, Repr

/-- The store, the schedules and the nodes. -/
structure Cluster where
  store : Store
  schedules : Schedules
  nodes : List Node
  /-- The ticks for which a node's enqueue has created a job, latest first. -/
  created : List (String × Int)

def Cluster.init (nodes : Nat) : Cluster := ⟨.init, .empty, List.replicate nodes {}, []⟩

/-- What can happen next. -/
inductive Event where
  /-- any other call: producers, workers, operators, the sweeps of the store -/
  | call (c : Call)
  | upsert (s : Schedule)
  | delete (id : String)
  /-- a node makes its next store call -/
  | node (n : Nat) (now : Int)
  /-- a call of the node fails, or its answer is lost -/
  | abandon (n : Nat)
  /-- a node stops; it starts again with a new sweep -/
  | crash (n : Nat)

namespace Cluster

def node (s : Cluster) (n : Nat) : Node := s.nodes.getD n {}

def setNode (s : Cluster) (n : Nat) (node : Node) : Cluster :=
  { s with nodes := s.nodes.set n node }

/-- The node enqueues the next tick of its first schedule. -/
def fireTick (s : Cluster) (n : Nat) (now : Int) (w : Firing) (tick : Int) (ticks : List Int)
    (rest : List Firing) : Cluster :=
  let e := tickEnvelope fingerprint w.schedule tick
  let r := enqueue now [e] s.store
  let isNew := s.store.job? e.id = none ∧ r.1.job? e.id ≠ none
  let work := if goesOn r.2 then { w with ticks := ticks } :: rest else rest
  { s.setNode n { s.node n with work := work } with
    store := r.1
    created := if isNew then (w.schedule.id, tick) :: s.created else s.created }

/-- The next store call of a node. -/
def nodeStep (s : Cluster) (n : Nat) (now : Int) : Cluster :=
  match (s.node n).unread, (s.node n).work with
  | id :: unread, work =>
    let found := (s.schedules.hash id).bind fun h => plan eng (scheduleFromHash id h) (s.node n).now
    s.setNode n { s.node n with unread := unread, work := work ++ found.toList }
  | [], w :: rest =>
    match w.ticks with
    | tick :: ticks => s.fireTick fingerprint n now w tick ticks rest
    | [] =>
      { s.setNode n { s.node n with work := rest } with
        schedules := s.schedules.advance now w.schedule.id w.schedule.nextRunMs w.next }
  | [], [] =>
    let r := s.schedules.dueIds now 50
    { s.setNode n { now := now, unread := r.2, work := [] } with schedules := r.1 }

end Cluster

def step (s : Cluster) : Event → Cluster
  | .call c => { s with store := Redis.step s.store c }
  | .upsert sch => { s with schedules := s.schedules.upsert sch }
  | .delete id => { s with schedules := s.schedules.delete id }
  | .node n now => s.nodeStep eng fingerprint n now
  | .abandon n =>
    match (s.node n).unread with
    | [] => s.setNode n { s.node n with work := (s.node n).work.tail }
    -- the sweep ends when its schedules cannot be read
    | _ :: _ => s.setNode n {}
  | .crash n => s.setNode n {}

/-- The cluster of `nodes` nodes after a run from the empty keyspace. -/
def exec (nodes : Nat) (events : List Event) : Cluster :=
  run (step eng fingerprint) (.init nodes) events

end

end Headgate.Schedule
