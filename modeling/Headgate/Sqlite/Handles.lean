import Headgate.Sqlite.Step

/-!
# Transaction handles on the shared connection

`SqliteStore` owns one connection and one lock, the gate.  Every call takes the gate for
the time of its statements; `begin_tx` takes it for the life of the handle it returns.
The transaction itself lives on the connection, the handle holds no more than the lock
guard.  So a handle that is dropped without commit or rollback releases the gate and
leaves the transaction open, and so does a `begin_tx` that is cancelled while its `BEGIN`
runs on the connection's thread.

The calls that open a transaction of their own are then refused; the others join the open
transaction: they see what was written through the dropped handle, and what they write is
not committed.  A call that waits for the gate has not happened yet, and giving up the
wait has no effect.

A reply is determined by the database the call ran on, so a run records that database.
-/

namespace Headgate.Sqlite

open Headgate.Core Data

open Sql (validateAck)

/-! ## Section 1: The connection -/

/-- What a call was told: SQLite refused to begin, or an answer from this database. -/
inductive Reply where
  | refused
  | answered (db : Store)

def Reply.isRefused : Reply → Bool
  | .refused => true
  | .answered _ => false

/-- The shared connection and its gate. -/
structure Connection where
  /-- what is durable -/
  committed : Store
  /-- the database inside the open transaction -/
  working : Option Store
  /-- the handle that holds the lock guard -/
  gate : Option Nat
  /-- what the calls were told, latest first -/
  replies : List Reply

def Connection.init : Connection := ⟨.init, none, none, []⟩

namespace Connection

/-- The database that a statement on the connection sees. -/
def view (s : Connection) : Store := s.working.getD s.committed

def tell (s : Connection) (r : Reply) : Connection := { s with replies := r :: s.replies }

end Connection

variable {s s' : Connection}

/-- Does the call begin a transaction of its own?  Requests that are rejected or empty do not
reach the connection. -/
def Op.opensTx : Op → Bool
  | .enqueue batch _ => !batch.isEmpty && (validateEnqueue batch).isOk
  | .enqueueTx _ _ => true
  | .admission req => 1 ≤ req.leaseMs && !(normalizeQueues req.queues).isEmpty && req.capacity ≠ 0
  | .ack _ _ a => (validateAck a).isOk
  | .renew _ leaseMs => 1 ≤ leaseMs
  | .reclaimExpired _ limit => 0 < limit
  | .quarantineRelease _ => true
  | .runPendingOperations batch => 0 < batch
  | _ => false

/-! ## Section 2: Runs -/

inductive HandleEvent where
  /-- a call of the store or its control plane -/
  | call (c : Call)
  /-- a call that only reads -/
  | read
  | beginTx (h : Nat)
  /-- statements through a handle: `enqueue_tx`, `claim_effect`, `checkpoint_tx`,
  `complete_tx` and the handler's own -/
  | writeTx (h : Nat) (f : Store → Store)
  | commitTx (h : Nat)
  | rollbackTx (h : Nat)
  /-- the handle is dropped, or its `begin_tx` is cancelled after `BEGIN` was sent -/
  | drop (h : Nat)

/-- One event, given what happens to the connection when the handle with the open transaction is
dropped. -/
def handleStep (onDrop : Connection → Connection) (s : Connection) : HandleEvent → Connection
  | .call c =>
    match s.gate, s.working with
    | some _, _ => s
    | none, none => { s with committed := step s.committed c }.tell (.answered s.committed)
    | none, some w =>
      if c.op.opensTx then s.tell .refused
      else { s with working := some (step w c) }.tell (.answered w)
  | .read => if s.gate = none then s.tell (.answered s.view) else s
  | .beginTx h =>
    match s.gate, s.working with
    | some _, _ => s
    | none, none => { s with working := some s.committed, gate := some h }.tell (.answered s.committed)
    | none, some _ => s.tell .refused
  | .writeTx h f =>
    if s.gate = some h then { s with working := s.working.map f }.tell (.answered s.view) else s
  | .commitTx h =>
    if s.gate = some h then
      { s with committed := s.view, working := none, gate := none }.tell (.answered s.view)
    else s
  | .rollbackTx h =>
    if s.gate = some h then { s with working := none, gate := none }.tell (.answered s.view) else s
  | .drop h => if s.gate = some h then onDrop s else s

/-- The code: dropping a handle drops its lock guard. -/
def releaseGuard (s : Connection) : Connection := { s with gate := none }

/-- What an abandoned transaction is meant to do. -/
def rollBack (s : Connection) : Connection := { s with working := none, gate := none }

/-- The store after a run. -/
def execHandles (events : List HandleEvent) : Connection :=
  run (handleStep releaseGuard) .init events

/-- The store that rolls back at every drop. -/
def execRollBack (events : List HandleEvent) : Connection := run (handleStep rollBack) .init events

/-! ## Section 3: Runs that leave abandoned transactions alone -/

/-- No call takes the free gate while an abandoned transaction is open on the connection. -/
def Undisturbed (s : Connection) : HandleEvent → Prop
  | .call _ | .read | .beginTx _ => s.gate = none → s.working = none
  | _ => True

/-- The store beside the one that rolls back: they differ at most in an abandoned transaction. -/
structure Abandons (s s' : Connection) : Prop where
  committed : s.committed = s'.committed
  gate : s.gate = s'.gate
  replies : s.replies = s'.replies
  working : s.working = s'.working ∨ s.gate = none ∧ s'.working = none

theorem Abandons.eq (h : Abandons s s') (hopen : s.working = s'.working) :
    s = s' := by
  obtain ⟨committed, working, gate, replies⟩ := s
  obtain ⟨committed', working', gate', replies'⟩ := s'
  obtain ⟨rfl, rfl, rfl, -⟩ := h
  cases hopen
  rfl

theorem Abandons.refl (s : Connection) : Abandons s s := ⟨rfl, rfl, rfl, .inl rfl⟩

/-- Only the drop of an open transaction tells the two apart. -/
theorem handleStep_of_not_drop {e : HandleEvent} (h : ∀ x, e ≠ .drop x) (s : Connection) :
    handleStep releaseGuard s e = handleStep rollBack s e := by
  cases e with
  | drop x => exact absurd rfl (h x)
  | _ => rfl

theorem handleStep_abandons {e : HandleEvent} (hok : Undisturbed s e) (h : Abandons s s') :
    Abandons (handleStep releaseGuard s e) (handleStep rollBack s' e) := by
  rcases h.working with hopen | ⟨hfree, hnone⟩
  · -- the two are in the same state
    obtain rfl := h.eq hopen
    by_cases hdrop : ∃ x, e = .drop x
    · obtain ⟨x, rfl⟩ := hdrop
      dsimp only [handleStep]
      split
      · exact ⟨rfl, rfl, rfl, .inr ⟨rfl, rfl⟩⟩
      · exact .refl s
    · rw [handleStep_of_not_drop fun x hx => hdrop ⟨x, hx⟩]
      exact .refl _
  · -- an abandoned transaction may be open: the gate is free, so no handle is in use
    have hfree' : s'.gate = none := h.gate ▸ hfree
    have hquiet : ∀ x, s.gate ≠ some x ∧ s'.gate ≠ some x := by
      intro x
      rw [hfree, hfree']
      exact ⟨nofun, nofun⟩
    have hcalm : s.working = none →
        Abandons (handleStep releaseGuard s e) (handleStep rollBack s' e) := by
      intro hclosed
      obtain rfl := h.eq (hclosed.trans hnone.symm)
      by_cases hdrop : ∃ x, e = .drop x
      · obtain ⟨x, rfl⟩ := hdrop
        simp only [handleStep, if_neg (hquiet x).1]
        exact h
      · rw [handleStep_of_not_drop fun x hx => hdrop ⟨x, hx⟩]
        exact .refl _
    cases e with
    | call | read | beginTx => exact hcalm (hok hfree)
    | writeTx x | commitTx x | rollbackTx x | drop x =>
      simp only [handleStep, if_neg (hquiet x).1, if_neg (hquiet x).2]
      exact h

theorem run_abandons (h : Abandons s s') {events : List HandleEvent}
    (hok : EachStep (handleStep releaseGuard) Undisturbed s events) :
    Abandons (run (handleStep releaseGuard) s events) (run (handleStep rollBack) s' events) := by
  induction events generalizing s s' with
  | nil => exact h
  | cons e events ih => exact ih (handleStep_abandons hok.1 h) hok.2

/-- **Abandoned transactions.**  As long as no call meets an abandoned transaction, every call is
told, and the database durably holds, what they would be if every dropped handle had rolled
back. -/
theorem abandoned_leaves_no_trace (events : List HandleEvent)
    (hok : EachStep (handleStep releaseGuard) Undisturbed .init events) :
    (execHandles events).replies = (execRollBack events).replies ∧
      (execHandles events).committed = (execRollBack events).committed := by
  have h := run_abandons (.refl Connection.init) hok
  exact ⟨h.replies, h.committed⟩

/-! ## Section 4: Calls that meet one -/

def pauseQueue : Call := ⟨0, .setQueuePaused "q" true⟩

def oneJob : Call := ⟨1, .enqueue [{ id := "x", kind := "k", queue := "q" }] .increasing⟩

def isPaused (db : Store) (queue : String) : Bool := (db.queueStates.get queue).any QueueState.paused

/-- One handle is written through and committed, another one written through and dropped at the
end. -/
theorem abandoned_leaves_no_trace_last :
    (execHandles [.beginTx 0, .writeTx 0 fun db => step db pauseQueue, .commitTx 0,
        .beginTx 1, .writeTx 1 fun db => step db oneJob, .drop 1]).committed
      = (execRollBack [.beginTx 0, .writeTx 0 fun db => step db pauseQueue, .commitTx 0,
        .beginTx 1, .writeTx 1 fun db => step db oneJob, .drop 1]).committed := by
  refine (abandoned_leaves_no_trace _ ?_).2
  exact ⟨fun _ => rfl, trivial, trivial, fun _ => rfl, trivial, trivial, trivial⟩

/-- After a dropped handle an enqueue is refused where it would have been answered; a pause is
answered but not committed, and a later call sees what was written through the handle. -/
theorem abandoned_leaves_traces :
    (execHandles [.beginTx 0, .drop 0, .call oneJob]).replies.map Reply.isRefused
        = [true, false] ∧
      (execRollBack [.beginTx 0, .drop 0, .call oneJob]).replies.map Reply.isRefused
        = [false, false] ∧
      isPaused (execHandles [.beginTx 0, .drop 0, .call pauseQueue]).committed "q" = false ∧
      isPaused (execRollBack [.beginTx 0, .drop 0, .call pauseQueue]).committed "q" = true ∧
      isPaused (execHandles [.beginTx 0, .writeTx 0 fun db => step db pauseQueue, .drop 0]).view "q"
        = true ∧
      isPaused (execRollBack [.beginTx 0, .writeTx 0 fun db => step db pauseQueue, .drop 0]).view "q"
        = false := by
  refine ⟨?_, ?_, ?_, ?_, ?_, ?_⟩ <;> decide +kernel

end Headgate.Sqlite
