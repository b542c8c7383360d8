import Headgate.Data.Mirror
import Headgate.Redis.Admission

/-!
# Leases held, and the keys that account for them

A running job is recorded five times: in its hash, in the lease zset, in the set
of its queue, in the zset of its partition and in a counter.  `Store.held` reads
the first of these, and `Accounts` says that the lease zset, the queue's set and
the counter agree with it.  (The partition's zset is written late, at the end of
an admission, and has a module of its own.)

Seen from these keys a move does one of six things, whatever script it comes
from; `LeaseMove` and `HeldMove` list them, so that each key needs six arguments.
-/

namespace Headgate.Redis

open Headgate.Core Data Relation

variable {j : Job} {st : State} {s s' : Store} {id : String}

/-! ## Section 1: Leases held -/

/-- A lease and the partition it counts against. -/
structure Held where
  queue : String
  part : String
  lease : Lease
  deriving DecidableEq, Repr

/-- What a running job holds. -/
def Job.held (j : Job) : Option Held :=
  if j.state = .running then j.lease.map fun l => ⟨j.queue, j.partitionKey, l⟩ else none

def Store.held (s : Store) (id : String) : Option Held := (s.job? id).bind Job.held

/-- Every running job has a lease. -/
def Leased (s : Store) : Prop :=
  ∀ id j, s.job? id = some j → j.state = .running → ∃ l, j.lease = some l

theorem Job.held_of_idle (h : j.state ≠ .running) : j.held = none := if_neg h

theorem Job.held_of_lease {l : Lease} (running : j.state = .running) (lease : j.lease = some l) :
    j.held = some ⟨j.queue, j.partitionKey, l⟩ := by
  simp [Job.held, running, lease]

theorem not_running_of_waiting (h : st.isWaiting = true) : st ≠ .running := by
  rintro rfl
  cases h

theorem not_running_of_mutable (h : State.isMutable st = true) : st ≠ .running := by
  rintro rfl
  cases h

theorem not_running_of_terminal (h : st.isTerminal = true) : st ≠ .running := by
  rintro rfl
  cases h

theorem Store.held_eq (row : s.job? id = some j) :
    s.held id = j.held := by
  simp [Store.held, row]

/-- A job that holds a lease is running. -/
theorem Store.held_eq_some {h : Held} :
    s.held id = some h ↔ ∃ j, s.job? id = some j ∧ j.state = .running ∧ j.queue = h.queue ∧
      j.partitionKey = h.part ∧ j.lease = some h.lease := by
  unfold Store.held
  rw [Option.bind_eq_some_iff]
  constructor
  · rintro ⟨j, row, hj⟩
    unfold Job.held at hj
    split at hj
    · rename_i running
      obtain ⟨l, lease, rfl⟩ := Option.map_eq_some_iff.mp hj
      exact ⟨j, row, running, rfl, rfl, lease⟩
    · cases hj
  · rintro ⟨j, row, running, hqueue, hpart, lease⟩
    refine ⟨j, row, ?_⟩
    rw [Job.held_of_lease running lease, hqueue, hpart]

theorem held_of_jobs (jobs : s'.jobs = s.jobs) (x : String) :
    s'.held x = s.held x := by
  simp only [Store.held, Store.job?, jobs]

theorem Leased.of_jobs (h : Leased s) (jobs : s'.jobs = s.jobs) : Leased s' := by
  intro id j row
  apply h id j
  unfold Store.job? at row ⊢
  rw [← jobs]
  exact row

section
variable {row : Option Job} {w : Waiting} {r : Running} {u : Holders} {events : List Event}

theorem Effect.held (eff : Effect s s' id row w r u events) (x : String) :
    s'.held x = if x = id then row.bind Job.held else s.held x := by
  unfold Store.held
  rw [eff.rows x]
  split <;> rfl

theorem Leased.of_effect (h : Leased s) (eff : Effect s s' id row w r u events)
    (self : ∀ j, row = some j → j.state = .running → ∃ l, j.lease = some l) : Leased s' := by
  intro x j hx running
  rw [eff.rows] at hx
  split at hx
  · exact self j hx running
  · exact h x j hx running

end

/-! ## Section 2: Moves as seen by the leases held -/

/-- What a move outside admission can do to the leases held and to their keys. -/
inductive LeaseMove (s s' : Store) : Prop where
  | keep (held : ∀ x, s'.held x = s.held x) (running : s'.running = s.running)
  /-- A lease gets a new expiry. -/
  | renew (id : String) (h : Held) (expires : Int) (was : s.held id = some h)
      (held : ∀ x, s'.held x =
        if x = id then some { h with lease := { h.lease with expiresAtMs := expires } }
        else s.held x)
      (running : s'.running = { s.running with lease := s.running.lease.add expires id })
  /-- A lease ends. -/
  | leave (id : String) (h : Held) (was : s.held id = some h)
      (held : ∀ x, s'.held x = if x = id then none else s.held x)
      (running : s'.running = s.running.drop id h.queue h.part)
  /-- A lease entry without a lease is dropped. -/
  | stray (id : String) (was : s.held id = none) (held : ∀ x, s'.held x = s.held x)
      (running : s'.running = { s.running with lease := s.running.lease.remove id })

/-- What a move of an admission can do to them. -/
inductive HeldMove (s s' : Store) : Prop where
  | plain (m : LeaseMove s s')
  /-- A lease begins. -/
  | enter (id : String) (h : Held) (was : s.held id = none)
      (held : ∀ x, s'.held x = if x = id then some h else s.held x)
      (running : s'.running = s.running.claim id h.queue h.part h.lease.expiresAtMs)
  /-- The partitions' zsets are written. -/
  | enlist (runningp : String → ZSet String) (held : ∀ x, s'.held x = s.held x)
      (running : s'.running = { s.running with runningp := runningp })

section
variable {row : Option Job} {w : Waiting} {u : Holders} {events : List Event}

/-- A job that held nothing holds nothing. -/
private theorem LeaseMove.idle (hl : Leased s) (was : s.held id = none)
    (eff : Effect s s' id row w s.running u events)
    (idle : ∀ j, row = some j → j.state ≠ .running) : LeaseMove s s' ∧ Leased s' := by
  refine ⟨.keep (fun x => ?_) eff.running, hl.of_effect eff fun j hj running => ?_⟩
  · rw [eff.held]
    split
    · rename_i hx
      rw [hx, was, Option.bind_eq_none_iff]
      exact fun j hj => Job.held_of_idle (idle j hj)
    · rfl
  · exact absurd running (idle j hj)

/-- A running job stops. -/
private theorem LeaseMove.over (hl : Leased s) (hrow : s.job? id = some j)
    (hrun : j.state = .running)
    (eff : Effect s s' id row w (s.running.drop id j.queue j.partitionKey) u events)
    (idle : ∀ j, row = some j → j.state ≠ .running) : LeaseMove s s' ∧ Leased s' := by
  obtain ⟨l, lease⟩ := hl id j hrow hrun
  have was : s.held id = some ⟨j.queue, j.partitionKey, l⟩ :=
    (Store.held_eq hrow).trans (Job.held_of_lease hrun lease)
  refine ⟨.leave id _ was (fun x => ?_) eff.running, hl.of_effect eff fun j hj running => ?_⟩
  · rw [eff.held]
    split
    · rw [Option.bind_eq_none_iff]
      exact fun j hj => Job.held_of_idle (idle j hj)
    · rfl
  · exact absurd running (idle j hj)

private theorem free_held (hrow : s.job? id = some j) (idle : j.state ≠ .running) :
    s.held id = none :=
  (Store.held_eq hrow).trans (Job.held_of_idle idle)

private theorem idle_of_gone {new : Option Job}
    (gone : ∀ j' ∈ new, j.SameRoute j' ∧ j'.state.isTerminal = true) :
    ∀ j', new = some j' → j'.state ≠ .running :=
  fun j' hj' => not_running_of_terminal (gone j' hj').2

private theorem idle_some (idle : j.state ≠ .running) :
    ∀ j', some j = some j' → j'.state ≠ .running := by
  intro j' hj'
  cases hj'
  exact idle

end

theorem initialState_ne_running (now : Int) (e : Envelope) : initialState now e ≠ .running := by
  unfold initialState
  split
  · simp
  · split <;> simp

theorem Move.leaseMove (m : Move s s') (hl : Leased s) :
    LeaseMove s s' ∧ Leased s' := by
  cases m with
  | arrive now e absent window free eff =>
    refine LeaseMove.idle hl ?_ eff (idle_some (initialState_ne_running now e))
    simp [Store.held, absent]
  | rewrite id j j' events row eff rate route state lease =>
    -- the fields that a lease is read from are untouched
    have hsame : j'.held = j.held := by
      simp only [Job.held, state, lease, route.queue, route.partitionKey]
    refine ⟨.keep (fun x => ?_) eff.running, hl.of_effect eff fun k hk running => ?_⟩
    · rw [eff.held]
      split
      · rename_i hx
        rw [hx, Store.held_eq row, Option.bind_some, hsame]
      · rfl
    · cases hk
      rw [state] at running
      rw [lease]
      exact hl id j row running
  | renew id j l expires row running lease eff =>
    refine ⟨.renew id ⟨j.queue, j.partitionKey, l⟩ expires ?_ (fun x => ?_) eff.running,
      hl.of_effect eff fun k hk _ => ?_⟩
    · exact (Store.held_eq row).trans (Job.held_of_lease running lease)
    · rw [eff.held, Option.bind_some]
      congr 1
      exact Job.held_of_lease running rfl
    · cases hk
      exact ⟨_, rfl⟩
  | retime id j j' row idle eff route state =>
    exact LeaseMove.idle hl (free_held row (not_running_of_mutable idle)) eff
      (idle_some (not_running_of_waiting state))
  | flip id j j' row waiting eff route state =>
    exact LeaseMove.idle hl (free_held row (not_running_of_waiting waiting)) eff
      (idle_some (not_running_of_waiting state))
  | park id j new events row idle eff ends gone =>
    exact LeaseMove.idle hl (free_held row (not_running_of_mutable idle)) eff (idle_of_gone gone)
  | finish id j new e row running eff ends gone =>
    exact LeaseMove.over hl row running eff (idle_of_gone gone)
  | requeue id j j' e row running eff ends route state =>
    exact LeaseMove.over hl row running eff (idle_some (not_running_of_waiting state))
  | drop id j u row terminal eff =>
    exact LeaseMove.idle hl (free_held row (not_running_of_terminal terminal)) eff (by simp)
  | retry id j j' row terminal eff route state =>
    refine LeaseMove.idle hl (free_held row (not_running_of_terminal terminal)) eff (idle_some ?_)
    rw [state]
    simp
  | stray id idle jobs waiting running =>
    refine ⟨.stray id ?_ (held_of_jobs jobs) running, hl.of_jobs jobs⟩
    unfold Store.held
    rw [Option.bind_eq_none_iff]
    exact fun j hj => Job.held_of_idle (idle j hj)
  | policy jobs waiting running =>
    exact ⟨.keep (held_of_jobs jobs) running, hl.of_jobs jobs⟩

theorem ReleaseMove.leaseMove (m : ReleaseMove s s') (hl : Leased s) :
    LeaseMove s s' ∧ Leased s' := by
  cases m with
  | plain m => exact m.leaseMove hl
  | release id j j' row quarantined eff route state =>
    refine LeaseMove.idle hl (free_held row ?_) eff (idle_some ?_)
    · rw [quarantined]
      simp
    · rw [state]
      simp

theorem GateMove.heldMove {lease : String} (m : GateMove lease s s') (hl : Leased s) :
    HeldMove s s' ∧ Leased s' := by
  cases m with
  | plain m => exact ⟨.plain (m.leaseMove hl).1, (m.leaseMove hl).2⟩
  | claim id j j' l events row waiting eff rate route state leased =>
    have hnew : j'.held = some ⟨j.queue, j.partitionKey, l⟩ := by
      rw [Job.held_of_lease state leased, route.queue, route.partitionKey]
    refine ⟨.enter id ⟨j.queue, j.partitionKey, l⟩ ?_ (fun x => ?_) eff.running,
      hl.of_effect eff fun k hk _ => ?_⟩
    · exact free_held row (not_running_of_waiting waiting)
    · rw [eff.held, Option.bind_some, hnew]
    · cases hk
      exact ⟨l, leased⟩
  | tidy id queue part sticky absent jobs waiting running | heal key jobs waiting running =>
    exact ⟨.plain (.keep (held_of_jobs jobs) running), hl.of_jobs jobs⟩
  | enlist runningp jobs waiting running =>
    exact ⟨.enlist runningp (held_of_jobs jobs) running, hl.of_jobs jobs⟩

/-! ## Section 3: The accounts -/

namespace Running

section
variable (r : Running) (id queue part q p x : String)

theorem inflight_inc :
    (r.incInflight queue part).inflight q p =
      if q = queue ∧ p = part then r.inflight queue part + 1 else r.inflight q p := by
  unfold incInflight
  by_cases hq : q = queue
  · subst hq
    by_cases hp : p = part
    · subst hp
      simp
    · simp [hp]
  · simp [hq]

theorem inflight_dec :
    (r.decInflight queue part).inflight q p =
      if q = queue ∧ p = part then
        if r.inflight queue part - 1 < 0 then 0 else r.inflight queue part - 1
      else r.inflight q p := by
  unfold decInflight
  by_cases hq : q = queue
  · subst hq
    by_cases hp : p = part
    · subst hp
      simp
    · simp [hp]
  · simp [hq]

theorem mem_running_claim (expires : Int) (q x : String) :
    x ∈ (r.claim id queue part expires).running q ↔ (q = queue ∧ x = id) ∨ x ∈ r.running q := by
  show x ∈ Function.update r.running queue (insert id (r.running queue)) q ↔ _
  by_cases hq : q = queue
  · subst hq
    simp
  · simp [hq]

theorem mem_running_drop :
    x ∈ (r.drop id queue part).running q ↔ ¬ (q = queue ∧ x = id) ∧ x ∈ r.running q := by
  show x ∈ Function.update r.running queue ((r.running queue).erase id) q ↔ _
  by_cases hq : q = queue
  · subst hq
    simp
  · simp [hq]

theorem score_runningp_drop (key x : String) :
    ((r.drop id queue part).runningp key).score x =
      if key = partKey queue part ∧ x = id then none else (r.runningp key).score x := by
  show (Function.update r.runningp (partKey queue part)
    ((r.runningp (partKey queue part)).remove id) key).score x = _
  by_cases hkey : key = partKey queue part
  · subst hkey
    simp
  · simp [hkey]

end

end Running

/-- The jobs that hold a lease against a partition. -/
def Store.runningIn (s : Store) (queue part : String) : Finset String :=
  s.ids.filter fun id => (s.held id).any fun h => h.queue = queue && h.part = part

theorem Store.runningIn_lists (s : Store) (queue part : String) :
    Lists (fun h : Held => h.queue = queue ∧ h.part = part) s.held (s.runningIn queue part) := by
  intro id
  unfold Store.runningIn
  rw [Finset.mem_filter, Store.mem_ids]
  constructor
  · rintro ⟨-, hany⟩
    cases hheld : s.held id with
    | none => simp [hheld] at hany
    | some h =>
      rw [hheld] at hany
      exact ⟨h, rfl, by simpa using hany⟩
  · rintro ⟨h, hheld, hpart⟩
    obtain ⟨j, row, -⟩ := Store.held_eq_some.mp hheld
    refine ⟨⟨j, row⟩, ?_⟩
    rw [hheld]
    simpa using hpart

/-- The lease zset, the queues' sets and the counters agree with the leases held. -/
structure Accounts (s : Store) : Prop where
  lease : Mirrors (fun h : Held => some h.lease.expiresAtMs) s.held s.running.lease.score
  running : ∀ queue, Lists (fun h : Held => h.queue = queue) s.held (s.running.running queue)
  inflight : ∀ queue part, s.running.inflight queue part = (s.runningIn queue part).card

theorem accounts_init : Accounts Store.init := by
  have hnone : ∀ x, Store.init.held x = none := fun x => by simp [Store.held]
  refine ⟨fun x => by rw [hnone]; rfl, fun q x => ?_, fun q p => ?_⟩
  · rw [hnone]
    simp [Store.init]
  · have hempty : Store.init.runningIn q p = ∅ := by
      ext x
      rw [Store.runningIn_lists Store.init q p x, hnone]
      simp
    rw [hempty]
    rfl

/-- No lease changes, and neither do the keys that account for them. -/
theorem Accounts.same (h : Accounts s) (held : ∀ x, s'.held x = s.held x)
    (lease : ∀ x, s'.running.lease.score x = s.running.lease.score x)
    (running : s'.running.running = s.running.running)
    (inflight : s'.running.inflight = s.running.inflight) : Accounts s' where
  lease := h.lease.congr held lease
  running := fun q => (h.running q).congr held fun _ => by rw [running]
  inflight := fun q p => by
    have hsame := ((s.runningIn_lists q p).congr held fun _ => Iff.rfl).unique
      (s'.runningIn_lists q p)
    rw [inflight, hsame]
    exact h.inflight q p

/-- What one job holds is replaced, and its cells with it. -/
theorem Accounts.replace {row : Option Held} (h : Accounts s)
    (held : ∀ x, s'.held x = if x = id then row else s.held x)
    (lease : ∀ x, s'.running.lease.score x =
      if x = id then row.bind fun e => some e.lease.expiresAtMs else s.running.lease.score x)
    (running : ∀ q x, x ∈ s'.running.running q ↔
      if x = id then ∃ e, row = some e ∧ e.queue = q else x ∈ s.running.running q)
    (inflight : ∀ q p, s'.running.inflight q p = s.running.inflight q p
      + tally (fun e : Held => e.queue = q ∧ e.part = p) row
      - tally (fun e : Held => e.queue = q ∧ e.part = p) (s.held id)) : Accounts s' where
  lease := h.lease.replace held lease
  running := fun q => (h.running q).replace held (running q)
  inflight := fun q p => by
    rw [inflight, h.inflight, (s.runningIn_lists q p).card_replace (s'.runningIn_lists q p) held]

/-- The clamp of a counter never fires: `leave` finds the count positive. -/
theorem LeaseMove.accounts (m : LeaseMove s s') (h : Accounts s) : Accounts s' := by
  cases m with
  | keep held running =>
    exact h.same held (fun x => by rw [running]) (by rw [running]) (by rw [running])
  | renew id e expires was held running =>
    -- the partition is the same, so only the expiry is written anew
    refine h.replace held (fun x => ?_) (fun q x => ?_) fun q p => ?_
    · rw [running, ZSet.score_add]
      rfl
    · rw [running]
      split
      · rename_i hx
        rw [hx, h.running q id, was]
        simp
      · rfl
    · simp [running, tally, was]
  | leave id e was held running =>
    refine h.replace held (fun x => ?_) (fun q x => ?_) fun q p => ?_
    · rw [running]
      exact ZSet.score_remove _ _ _
    · rw [running, Running.mem_running_drop]
      split
      · rename_i hx
        subst hx
        -- the id was in the set of its own queue only
        rw [h.running q x, was]
        simp [eq_comm]
      · rename_i hx
        simp [hx]
    · rw [running, was]
      show (s.running.decInflight e.queue e.part).inflight q p = _
      rw [Running.inflight_dec]
      have hin : id ∈ s.runningIn e.queue e.part :=
        (s.runningIn_lists e.queue e.part id).mpr ⟨e, was, rfl, rfl⟩
      have hpos := Finset.card_pos.mpr ⟨id, hin⟩
      have hcount := h.inflight e.queue e.part
      split
      · rename_i hqp
        obtain ⟨rfl, rfl⟩ := hqp
        simp [tally]
        omega
      · rename_i hqp
        have helsewhere : ¬ (e.queue = q ∧ e.part = p) := fun hin => hqp ⟨hin.1.symm, hin.2.symm⟩
        simp [tally, helsewhere]
  | stray id was held running =>
    refine h.same held (fun x => ?_) (by rw [running]) (by rw [running])
    -- nothing was there to drop
    rw [running, ZSet.score_remove]
    split
    · rename_i hx
      rw [hx, h.lease id, was]
      rfl
    · rfl

theorem HeldMove.accounts (m : HeldMove s s') (h : Accounts s) : Accounts s' := by
  cases m with
  | plain m => exact m.accounts h
  | enter id e was held running =>
    refine h.replace held (fun x => ?_) (fun q x => ?_) fun q p => ?_
    · rw [running]
      exact ZSet.score_add _ _ _ _
    · rw [running, Running.mem_running_claim]
      split
      · rename_i hx
        subst hx
        rw [h.running q x, was]
        simp [eq_comm]
      · rename_i hx
        simp [hx]
    · rw [running, was]
      show (s.running.incInflight e.queue e.part).inflight q p = _
      rw [Running.inflight_inc]
      split
      · rename_i hqp
        obtain ⟨rfl, rfl⟩ := hqp
        simp [tally]
      · rename_i hqp
        have helsewhere : ¬ (e.queue = q ∧ e.part = p) := fun hin => hqp ⟨hin.1.symm, hin.2.symm⟩
        simp [tally, helsewhere]
  | enlist runningp held running =>
    exact h.same held (fun x => by rw [running]) (by rw [running]) (by rw [running])

/-! ## Section 4: Along every run -/

/-- Leases and accounts together, as every move carries them. -/
structure HeldOk (s : Store) : Prop where
  leased : Leased s
  accounts : Accounts s

theorem heldOk_init : HeldOk Store.init := by
  refine ⟨fun id j row => ?_, accounts_init⟩
  rw [Store.job?_init] at row
  cases row

theorem ReleaseMove.heldOk (m : ReleaseMove s s') (h : HeldOk s) : HeldOk s' := by
  obtain ⟨hmove, hleased⟩ := m.leaseMove h.leased
  exact ⟨hleased, hmove.accounts h.accounts⟩

theorem GateMove.heldOk {lease : String} (m : GateMove lease s s') (h : HeldOk s) : HeldOk s' := by
  obtain ⟨hmove, hleased⟩ := m.heldMove h.leased
  exact ⟨hleased, hmove.accounts h.accounts⟩

theorem step_heldOk (s : Store) (c : Call) (hs : EntriesOk s) (h : HeldOk s) :
    HeldOk (step s c) := by
  rcases step_cases s c hs with ⟨-, hmoves⟩ | ⟨fp, order, -, hmoves⟩ | ⟨req, order, -, hgate⟩
  · exact (hmoves.gate "").preserves (fun _ _ m => m.heldOk) h
  · exact hmoves.preserves (fun _ _ m => m.heldOk) h
  · exact hgate.moves.preserves (fun _ _ m => m.heldOk) h

/-- Hash, lease zset, queue set and counter agree in every reachable store. -/
theorem exec_heldOk (calls : List Call) : HeldOk (exec calls) :=
  exec_invariant heldOk_init (fun calls c _ => step_heldOk _ c (exec_entriesOk calls))
    (.trivial calls _)

end Headgate.Redis
