import Headgate.Data.Fair
import Headgate.Data.Ordered
import Headgate.Sqlite.Admit

/-!
# Rounds of the SQLite gate

What one round of the loop can do, said once: hold the candidate back, end it,
claim it, or claim it in the place of the running job that was claimed first.
Invariants of the loop are proved for these cases.
-/

namespace Headgate.Sqlite

open Headgate.Core Data

variable {a : GateArgs}

/-! ## Section 1: The cases of a round -/

/-- The count the ceiling is compared with. -/
def currentIn (g : Gate) (queue part : String) : Int :=
  (g.inflight (queue, part)).getD (runningIn g.jobs queue part)

/-- The count is kept in the local map. -/
def counted (queue part : String) (g : Gate) : Gate :=
  { g with
    inflight := Function.update g.inflight (queue, part) (some (currentIn g queue part)) }

/-- The running job `victim` is cancelled. -/
def displace (a : GateArgs) (queue part victim : String) (g : Gate) : Gate :=
  { counted queue part g with
    jobs := g.jobs.updateAt victim (fun j => j.state = .running) (displacedRow a.now)
    inflight := Function.update (counted queue part g).inflight (queue, part)
      (some (currentIn g queue part - 1)) }

/-- What a round can do. -/
inductive Round (a : GateArgs) (queue id : String) (j : Job) (g : Gate) : Gate → Prop where
  /-- The rate class has no budget. -/
  | refused : Round a queue id j g g
  | held {l : ConcurrencyLimit} (limit : a.limit queue = some l) :
      Round a queue id j g (counted queue j.partitionKey g)
  | ended {l : ConcurrencyLimit} (limit : a.limit queue = some l) (to_ : State)
      (finished : to_.isUnfinished = false) :
      Round a queue id j g (terminalize a.now queue id to_ (counted queue j.partitionKey g))
  | unlimited (limit : a.limit queue = none) : Round a queue id j g (claimJob a queue id j g)
  | belowCeiling {l : ConcurrencyLimit} (limit : a.limit queue = some l)
      (below : currentIn g queue j.partitionKey < l.maxConcurrent) :
      Round a queue id j g (claimJob a queue id j (counted queue j.partitionKey g))
  | replaced {l : ConcurrencyLimit} (limit : a.limit queue = some l)
      (full : l.maxConcurrent ≤ currentIn g queue j.partitionKey)
      (strategy : l.onSaturated = .cancelRunning) {victim : String}
      (oldest : oldestRunning g.jobs queue j.partitionKey = some victim) :
      Round a queue id j g (claimJob a queue id j (displace a queue j.partitionKey victim g))

theorem considerJob_round (a : GateArgs) (queue id : String) (j : Job) (g : Gate) :
    Round a queue id j g (considerJob a queue id j g) := by
  unfold considerJob
  split
  · unfold passCeiling
    cases hlimit : a.limit queue with
    | none => exact .unlimited hlimit
    | some l =>
      dsimp only
      by_cases hbelow : currentIn g queue j.partitionKey < l.maxConcurrent
      · have hbelow' : (g.inflight (queue, j.partitionKey)).getD
            (runningIn g.jobs queue j.partitionKey) < l.maxConcurrent := hbelow
        rw [if_pos hbelow']
        exact .belowCeiling hlimit hbelow
      · have hfull : ¬ (g.inflight (queue, j.partitionKey)).getD
            (runningIn g.jobs queue j.partitionKey) < l.maxConcurrent := hbelow
        rw [if_neg hfull]
        -- the partition is full, and the strategy decides which job pays for it
        cases hstrategy : l.onSaturated with
        | queue => exact .held hlimit
        | discard => exact .ended hlimit .archived rfl
        | cancelIncoming => exact .ended hlimit .cancelled rfl
        | cancelRunning =>
          cases hvictim : oldestRunning g.jobs queue j.partitionKey with
          | none => exact .held hlimit
          | some => exact .replaced hlimit (not_lt.mp hbelow) hstrategy hvictim
  · exact .refused

/-! ## Section 2: The loop -/

theorem chooseQueue_mem {g : Gate} {queue : String} (h : chooseQueue a g = some queue) :
    queue ∈ a.queues := by
  -- the fold is the library's choice of a preferred element
  have heq : chooseQueue a g =
      a.queues.foldl (prefer (fun q => (g.waiting q).isEmpty) (servedBefore a g)) none := by
    unfold chooseQueue
    congr
    funext best q
    cases best with
    | none | some => rfl
  rw [heq] at h
  rcases (foldl_prefer_eq_some (r := fun _ _ => True) (by simp) (by simp) (by simp) (by simp) h).1
    with hnone | hmem
  · cases hnone
  · exact hmem.1

/-- What every round keeps, the loop keeps. -/
theorem gateLoop_invariant {P : Gate → Prop}
    (hround : ∀ (g g' : Gate) (queue id : String) (j : Job) (rest : List (String × Job)),
      P g → g.decisions < a.req.capacity → queue ∈ a.queues →
      g.waiting queue = (id, j) :: rest →
      Round a queue id j { g with waiting := Function.update g.waiting queue rest } g' → P g')
    (fuel : Nat) (g : Gate) (h : P g) : P (gateLoop a fuel g) := by
  -- the loop also ends when no queue has a candidate left
  induction fuel generalizing g with
  | zero => exact h
  | succ n ih =>
    unfold gateLoop
    split
    case isFalse => exact h
    case isTrue hroom =>
      cases hqueue : chooseQueue a g with
      | none => exact h
      | some queue =>
        dsimp only
        cases hwaiting : g.waiting queue with
        | nil => exact h
        | cons e rest =>
          obtain ⟨id, j⟩ := e
          exact ih _ (hround g _ queue id j rest h hroom (chooseQueue_mem hqueue) hwaiting
            (considerJob_round a queue id j _))

/-- A claim is recorded, or nothing happens. -/
theorem claimJob_cases (a : GateArgs) (queue id : String) (j : Job) (g : Gate) :
    claimJob a queue id j g = g ∨ ∃ c, (claimJob a queue id j g).claims = g.claims ++ [c] := by
  unfold claimJob
  split
  · exact .inr ⟨_, rfl⟩
  · exact .inl rfl

/-- A loop that claims nothing leaves the buckets as they were refilled. -/
theorem gateLoop_idle {g : Gate} (fuel : Nat) (h : (gateLoop a fuel g).claims = []) :
    (gateLoop a fuel g).buckets = g.buckets := by
  have hloop : ((gateLoop a fuel g).claims = [] → (gateLoop a fuel g).buckets = g.buckets) := by
    apply gateLoop_invariant (P := fun g' => g'.claims = [] → g'.buckets = g.buckets) _ fuel g
      fun _ => rfl
    intro g₁ g₂ queue id j rest hbefore _ _ _ hround hempty
    -- the only write to a bucket comes with a claim, and claims are never taken back
    have hclaim : ∀ g' : Gate, g'.claims = g₁.claims → g'.buckets = g₁.buckets →
        (claimJob a queue id j g').claims = [] → (claimJob a queue id j g').buckets = g.buckets := by
      intro g' hclaims hbuckets hnil
      rcases claimJob_cases a queue id j g' with hsame | ⟨c, hc⟩
      · rw [hsame] at hnil ⊢
        exact hbuckets.trans (hbefore (hclaims.symm.trans hnil))
      · rw [hc] at hnil
        exact absurd hnil (by simp)
    cases hround with
    | refused | held | ended => exact hbefore hempty
    | unlimited | belowCeiling | replaced => exact hclaim _ rfl rfl hempty
  exact hloop h

/-- The database the loop begins with. -/
def prepared (now : Int) (requested : List String) (db : Store) : Store :=
  { db with
    jobs := expireDeadlines now db.jobs
    queueStates := ensureQueues requested db.queueStates }

/-- A created row reads as a missing one. -/
theorem queueStateOf_ensureQueues (queues : List String) (t : Table String QueueState)
    (q : String) : queueStateOf (ensureQueues queues t) q = queueStateOf t q := by
  -- an inserted row has the defaults that a missing one stands for
  have hinsert : ∀ (t : Table String QueueState) (queue : String),
      queueStateOf (t.insert queue {}) q = queueStateOf t q := by
    intro t queue
    unfold queueStateOf
    cases hget : t.get queue with
    | none =>
      rw [Table.get_insert hget]
      split
      case isTrue heq => rw [heq, hget]; rfl
      case isFalse => rfl
    | some =>
      have hkey : queue ∈ t.entries.map Prod.fst :=
        List.mem_map.mpr ⟨_, Table.mem_entries.mpr hget, rfl⟩
      rw [Table.insert, dif_pos hkey]
  induction queues generalizing t with
  | nil => rfl
  | cons queue queues ih => exact (ih _).trans (hinsert t queue)

/-- A transaction without an open queue only prepares the database; any other writes what the
loop leaves. -/
theorem admitOn_cases (now : Int) (req : AdmitRequest) (requested : List String) (db : Store) :
    admitOn now req requested db = (prepared now requested db, []) ∨
      ∃ queues fuel,
        (∀ q ∈ queues, q ∈ requested ∧ (queueStateOf db.queueStates q).paused = false) ∧
        (admitOn now req requested db).1.jobs
          = (gateLoop (gateArgs now req queues (prepared now requested db)) fuel
              (startGate now req requested queues (prepared now requested db))).jobs ∧
        (admitOn now req requested db).2
          = (gateLoop (gateArgs now req queues (prepared now requested db)) fuel
              (startGate now req requested queues (prepared now requested db))).claims := by
  unfold admitOn
  dsimp only
  split
  · exact .inl rfl
  · refine .inr ⟨_, _, fun q hq => ?_, rfl, rfl⟩
    obtain ⟨hrequested, hopen⟩ := List.mem_filter.mp hq
    rw [queueStateOf_ensureQueues, Bool.not_eq_true'] at hopen
    exact ⟨hrequested, hopen⟩

end Headgate.Sqlite
