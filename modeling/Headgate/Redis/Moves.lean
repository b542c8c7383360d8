import Headgate.Redis.Step

/-!
# What a script can do to a job

Every script is a sequence of writes to one job at a time.  `Move` lists the
kinds of such writes with their guards and their effect on the job table, the
gate's keys, the running accounts, the unique keys and the ghost history;
`ReleaseMove` and `GateMove` add the ones only a quarantine release and only an
admission make.  Indexes and policy are left free.  The theorems of this module cut
every script into moves, so that an invariant of whole runs needs one argument per
kind of move and none per script.
-/

namespace Headgate.Redis

open Headgate.Core Data Relation

variable {s s' : Store}

/-! ## Section 1: Effects -/

/-- `s'` is `s` with one row replaced and the given component states. -/
structure Effect (s s' : Store) (id : String) (row : Option Job) (w : Waiting) (r : Running)
    (u : Holders) (events : List Event) : Prop where
  rows : ∀ x, s'.job? x = if x = id then row else s.job? x
  waiting : s'.waiting = w
  running : s'.running = r
  holders : s'.holders = u
  history : s'.history = events ++ s.history

theorem Effect.set {id : String} {j : Job} {w : Waiting} {r : Running} {u : Holders}
    {events : List Event} (jobs : s'.jobs = s.jobs.insert id j) (waiting : s'.waiting = w)
    (running : s'.running = r) (holders : s'.holders = u)
    (history : s'.history = events ++ s.history) : Effect s s' id (some j) w r u events :=
  ⟨Store.job?_of_insert jobs, waiting, running, holders, history⟩

theorem Effect.del {id : String} {w : Waiting} {r : Running} {u : Holders} {events : List Event}
    (jobs : s'.jobs = s.jobs.erase id) (waiting : s'.waiting = w) (running : s'.running = r)
    (holders : s'.holders = u) (history : s'.history = events ++ s.history) :
    Effect s s' id none w r u events := by
  refine ⟨fun x => ?_, waiting, running, holders, history⟩
  rw [← Store.job?_delJob s id x]
  simp only [Store.job?, Store.delJob, jobs]

/-- The fields of a job that no script changes. -/
structure Job.SameRoute (j j' : Job) : Prop where
  queue : j'.queue = j.queue
  partitionKey : j'.partitionKey = j.partitionKey
  stickyWorker : j'.stickyWorker = j.stickyWorker
  uniqueKey : j'.uniqueKey = j.uniqueKey
  uniqueWindowMs : j'.uniqueWindowMs = j.uniqueWindowMs

/-- The job an event is about; rate events are about none. -/
def Event.job : Event → Option String
  | .claimed id _ _ | .acked id _ _ | .reclaimed id | .cancelled id | .displaced id
  | .deleted id => some id
  | .charged _ _ _ | .reconciled _ _ _ => none

/-- The event ends a claim on `id` whose row is `j`; an ack names the lease it ends. -/
def Event.ends (id : String) (j : Job) : Event → Prop
  | .acked x l f =>
    x = id ∧ j.state = .running ∧ j.lease.map Lease.leaseId = some l ∧ j.fence = f
  | .reclaimed x | .cancelled x | .displaced x | .deleted x => x = id
  | _ => False

def Waiting.addJob (w : Waiting) (id : String) (j : Job) : Waiting :=
  w.add id j.queue j.partitionKey j.stickyWorker j.scheduledAtMs

def Waiting.removeJob (w : Waiting) (id : String) (j : Job) : Waiting :=
  w.remove id j.queue j.partitionKey j.stickyWorker

/-! ## Section 2: The moves -/

/-- One write of a script other than admission and `q_release`. -/
inductive Move (s s' : Store) : Prop where
  /-- A new job enters, with its unique key free. -/
  | arrive (now : Int) (e : Envelope) (absent : s.job? e.id = none)
      (window : 0 ≤ e.uniqueWindowMs)
      (free : keyArg e ≠ [] → e.uniqueWindowMs = 0 → s.holders.unique (keyArg e) = none)
      (eff : Effect s s' e.id (some (newJob now e))
        (if initialState now e = .pending then s.waiting
          else s.waiting.addJob e.id (newJob now e))
        s.running (claimKey now e s.holders) [])
  /-- Content changes that leave lifecycle, lease and due time alone. -/
  | rewrite (id : String) (j j' : Job) (events : List Event) (row : s.job? id = some j)
      (eff : Effect s s' id (some j') s.waiting s.running s.holders events)
      (rate : ∀ e ∈ events, e.job = none) (route : j.SameRoute j') (state : j'.state = j.state)
      (lease : j'.lease = j.lease) (fence : j'.fence = j.fence)
      (due : j'.scheduledAtMs = j.scheduledAtMs)
  /-- A held lease gets a new expiry. -/
  | renew (id : String) (j : Job) (l : Lease) (expires : Int) (row : s.job? id = some j)
      (running : j.state = .running) (lease : j.lease = some l)
      (eff : Effect s s' id (some { j with lease := some { l with expiresAtMs := expires } })
        s.waiting { s.running with lease := s.running.lease.add expires id } s.holders [])
  /-- An unclaimed job gets a due time and waits for it. -/
  | retime (id : String) (j j' : Job) (row : s.job? id = some j)
      (idle : State.isMutable j.state = true)
      (eff : Effect s s' id (some j') (s.waiting.addJob id j') s.running s.holders [])
      (route : j.SameRoute j') (state : j'.state.isWaiting = true) (lease : j'.lease = j.lease)
      (fence : j'.fence = j.fence)
  /-- A waiting job changes to another waiting state where it stands. -/
  | flip (id : String) (j j' : Job) (row : s.job? id = some j) (waiting : j.state.isWaiting = true)
      (eff : Effect s s' id (some j') s.waiting s.running s.holders [])
      (route : j.SameRoute j') (state : j'.state.isWaiting = true) (lease : j'.lease = j.lease)
      (fence : j'.fence = j.fence) (due : j'.scheduledAtMs = j.scheduledAtMs)
  /-- An unclaimed job becomes terminal or is deleted. -/
  | park (id : String) (j : Job) (new : Option Job) (events : List Event)
      (row : s.job? id = some j) (idle : State.isMutable j.state = true)
      (eff : Effect s s' id new
        (if j.state.isWaiting then s.waiting.removeJob id j else s.waiting)
        s.running (s.holders.release id j) events)
      (ends : ∀ e ∈ events, e.ends id j)
      (gone : ∀ j' ∈ new, j.SameRoute j' ∧ j'.state.isTerminal = true)
  /-- A running job becomes terminal or is deleted. -/
  | finish (id : String) (j : Job) (new : Option Job) (e : Event)
      (row : s.job? id = some j) (running : j.state = .running)
      (eff : Effect s s' id new s.waiting (s.running.drop id j.queue j.partitionKey)
        (s.holders.release id j) [e])
      (ends : e.ends id j)
      (gone : ∀ j' ∈ new, j.SameRoute j' ∧ j'.state.isTerminal = true)
  /-- A running job goes back to waiting. -/
  | requeue (id : String) (j j' : Job) (e : Event) (row : s.job? id = some j)
      (running : j.state = .running)
      (eff : Effect s s' id (some j') (s.waiting.addJob id j')
        (s.running.drop id j.queue j.partitionKey) s.holders [e])
      (ends : e.ends id j) (route : j.SameRoute j') (state : j'.state.isWaiting = true)
  /-- A terminal job is deleted. -/
  | drop (id : String) (j : Job) (u : Holders) (row : s.job? id = some j)
      (terminal : j.state.isTerminal = true)
      (eff : Effect s s' id none s.waiting s.running u [.deleted id])
      (released : u = s.holders ∨ u = s.holders.release id j)
  /-- A terminal job is brought back under its unique key. -/
  | retry (id : String) (j j' : Job) (row : s.job? id = some j)
      (terminal : j.state.isTerminal = true)
      (eff : Effect s s' id (some j') (s.waiting.addJob id j') s.running
        (if j.hasLifecycleKey then s.holders.acquire j.uniqueKey id else s.holders) [])
      (route : j.SameRoute j') (state : j'.state = .available)
      (free : j.hasLifecycleKey = true →
        s.holders.unique j.uniqueKey = none ∨ s.holders.unique j.uniqueKey = some id)
  /-- A lease entry without a running job is dropped. -/
  | stray (id : String) (idle : ∀ j, s.job? id = some j → j.state ≠ .running)
      (jobs : s'.jobs = s.jobs) (waiting : s'.waiting = s.waiting)
      (running : s'.running = { s.running with lease := s.running.lease.remove id })
      (holders : s'.holders = s.holders) (history : s'.history = s.history)
  /-- Indexes and policy only. -/
  | policy (jobs : s'.jobs = s.jobs) (waiting : s'.waiting = s.waiting)
      (running : s'.running = s.running) (holders : s'.holders = s.holders)
      (history : s'.history = s.history)

/-- One write of `q_release`. -/
inductive ReleaseMove (s s' : Store) : Prop where
  | plain (m : Move s s')
  /-- A quarantined job is brought back; its unique key is not looked at. -/
  | release (id : String) (j j' : Job) (row : s.job? id = some j)
      (quarantined : j.state = .quarantined)
      (eff : Effect s s' id (some j') (s.waiting.addJob id j') s.running s.holders [])
      (route : j.SameRoute j') (state : j'.state = .available)

/-- One write of a call that leases under `lease`. -/
inductive GateMove (lease : String) (s s' : Store) : Prop where
  | plain (m : Move s s')
  /-- A waiting job is leased. -/
  | claim (id : String) (j j' : Job) (l : Lease) (events : List Event) (row : s.job? id = some j)
      (waiting : j.state.isWaiting = true)
      (eff : Effect s s' id (some j') (s.waiting.removeJob id j)
        (s.running.claim id j.queue j.partitionKey l.expiresAtMs) s.holders
        (events ++ [.claimed id l.leaseId (j.fence + 1)]))
      (rate : ∀ e ∈ events, e.job = none) (route : j.SameRoute j') (state : j'.state = .running)
      (leased : j'.lease = some l) (own : l.leaseId = lease) (fence : j'.fence = j.fence + 1)
  /-- `remove_waiting` on an id that is not in the stream. -/
  | tidy (id queue part sticky : String)
      (absent : (s.waiting.pending (pendingKey queue part sticky)).score id = none)
      (jobs : s'.jobs = s.jobs) (waiting : s'.waiting = s.waiting.remove id queue part sticky)
      (running : s'.running = s.running) (holders : s'.holders = s.holders)
      (history : s'.history = s.history)
  /-- The ordinary route token is added. -/
  | heal (key : String) (jobs : s'.jobs = s.jobs)
      (waiting : s'.waiting = s.waiting.setRoutes key (insert "*" (s.waiting.routes key)))
      (running : s'.running = s.running) (holders : s'.holders = s.holders)
      (history : s'.history = s.history)
  /-- An entry of a partition's running zset is added or dropped. -/
  | enlist (runningp : String → ZSet String) (jobs : s'.jobs = s.jobs)
      (waiting : s'.waiting = s.waiting)
      (running : s'.running = { s.running with runningp := runningp })
      (holders : s'.holders = s.holders) (history : s'.history = s.history)

/-- A sequence of moves. -/
def Moves : Store → Store → Prop := ReflTransGen Move

/-- A sequence of moves of `q_release`. -/
def ReleaseMoves : Store → Store → Prop := ReflTransGen ReleaseMove

/-- A sequence of moves of the gate. -/
def GateMoves (lease : String) : Store → Store → Prop := ReflTransGen (GateMove lease)

theorem Moves.gate (lease : String) (h : Moves s s') : GateMoves lease s s' :=
  .mono (fun _ _ => GateMove.plain) s s' h

end Headgate.Redis
