import Headgate.Redis.Draw

/-!
# Admission as a sequence of moves

The selection loop works on snapshots of rows.  Between the draw and the
decision a row only ever leaves the waiting states (`Aged`), so a candidate
still found in a pending stream has the row it was drawn with.
-/

namespace Headgate.Redis

open Headgate.Core Data Relation

variable {s s' : Store} {id : String} {now : Int} {req : AdmitRequest} {queue : String}
  {c : Candidate} {l : Selection} {p p' : Policy} {order : SetOrder String} {queues : List String}

/-! ## Section 1: Snapshots -/

/-- Every row is as it was, or no longer waiting. -/
def Aged (s s' : Store) : Prop :=
  ∀ id, s'.job? id = s.job? id ∨ ∃ j, s'.job? id = some j ∧ j.state.isWaiting = false

theorem Aged.refl (s : Store) : Aged s s := fun _ => Or.inl rfl

theorem Aged.trans {t u : Store} (h : Aged s t) (h' : Aged t u) : Aged s u := by
  intro id
  rcases h' id with heq | hold
  · rw [heq]
    exact h id
  · exact .inr hold

theorem Aged.of_jobs (h : s'.jobs = s.jobs) : Aged s s' := by
  intro id
  left
  unfold Store.job?
  rw [h]

theorem Aged.of_effect {j : Job} {w : Waiting} {r : Running} {u : Holders} {events : List Event}
    (eff : Effect s s' id (some j) w r u events) (h : j.state.isWaiting = false) : Aged s s' := by
  intro x
  rw [eff.rows x]
  split
  · exact .inr ⟨j, rfl, h⟩
  · exact .inl rfl

/-- The candidate's row is the one drawn, or its job has been decided since. -/
def Snapshot (s : Store) (c : Candidate) : Prop :=
  s.job? c.id = some c.job ∨ ∃ j, s.job? c.id = some j ∧ j.state.isWaiting = false

theorem Snapshot.aged (h : Snapshot s c) (ha : Aged s s') :
    Snapshot s' c := by
  rcases ha c.id with heq | hold
  · unfold Snapshot
    rw [heq]
    exact h
  · exact .inr hold

/-- A candidate still in the stream of `queue` has its drawn row, and `queue` is its queue. -/
theorem Snapshot.of_holds {queue : String} (h : Snapshot s c) (hentries : EntriesOk s)
    (hholds : s.waiting.holds c.id queue c.job.partitionKey c.job.stickyWorker = true) :
    s.job? c.id = some c.job ∧ c.job.state.isWaiting = true ∧ queue = c.job.queue := by
  obtain ⟨sc, hsc⟩ := Option.isSome_iff_exists.mp hholds
  obtain ⟨j, hj, hw, hkey, -⟩ := hentries _ _ _ hsc
  rcases h with hrow | ⟨k, hk, hidle⟩
  · rw [hj] at hrow
    cases hrow
    exact ⟨hj, hw, (pendingKey_queue_inj hkey).symm⟩
  · rw [hj] at hk
    cases hk
    rw [hw] at hidle
    cases hidle

/-! ## Section 2: The gates -/

/-- A move of the gate under a lease id that brings no job back to waiting. -/
def AgedMove (lease : String) (s s' : Store) : Prop := GateMove lease s s' ∧ Aged s s'

/-- A step of the gate: a sequence of such moves. -/
def GateStep (lease : String) : Store → Store → Prop := ReflTransGen (AgedMove lease)

section
variable {lease : String}

theorem GateStep.refl (s : Store) : GateStep lease s s := ReflTransGen.refl

theorem GateStep.trans {t u : Store} (h : GateStep lease s t) (h' : GateStep lease t u) :
    GateStep lease s u :=
  ReflTransGen.trans h h'

theorem GateStep.one (m : GateMove lease s s') (h : Aged s s') :
    GateStep lease s s' :=
  .single ⟨m, h⟩

theorem GateStep.moves (h : GateStep lease s s') : GateMoves lease s s' :=
  .mono (fun _ _ m => m.1) s s' h

theorem GateStep.aged (h : GateStep lease s s') : Aged s s' := by
  induction h with
  | refl => exact .refl s
  | tail _ m ih => exact ih.trans m.2

theorem GateStep.policy (s : Store) (p : Policy) : GateStep lease s { s with policy := p } :=
  .one (.plain (.policy rfl rfl rfl rfl rfl)) (.of_jobs rfl)

theorem displace_effect (now : Int) (id : String) (j : Job) (s : Store) :
    Effect s (displace now id j s) id (some (displacedRow now j)) s.waiting
      (s.running.drop id j.queue j.partitionKey) (s.holders.release id j) [.displaced id] :=
  .set rfl rfl rfl rfl rfl

theorem displace_step {j : Job} (row : s.job? id = some j) (running : j.state = .running) :
    GateStep lease s (displace now id j s) := by
  have eff := displace_effect now id j s
  refine .one (.plain (.finish id j _ _ row running eff rfl ?_)) (.of_effect eff rfl)
  intro k hk
  cases hk
  exact ⟨⟨rfl, rfl, rfl, rfl, rfl⟩, rfl⟩

/-! ## Section 3: The clauses of one candidate -/

/-- The clauses in order; `none` holds the candidate back. -/
def gateVerdict (now : Int) (req : AdmitRequest) (queue : String) (c : Candidate) (l : Selection) :
    Selection × Option Action :=
  if passQuarantine c l.store then
    match passRate now c l with
    | (l, false) => (l, none)
    | (l, true) => if passDeficit req queue c l then passCeiling now queue c l else (l, none)
  else (l, none)

theorem considerCandidate_eq (now : Int) (req : AdmitRequest) (queue : String) (c : Candidate)
    (l : Selection) :
    considerCandidate now req queue c l =
      match gateVerdict now req queue c l with
      | (l', none) => l'
      | (l', some a) => decideCandidate now req queue c a l' := by
  unfold considerCandidate gateVerdict
  -- quarantine, rate and credit each end the round before the ceiling is asked
  split
  · cases passRate now c l with
    | mk l₁ pass =>
      cases pass with
      | false => rfl
      | true =>
        dsimp only
        split
        · rfl
        · rfl
  · rfl

/-- The tables that only a decision changes. -/
structure SameTables (l l' : Selection) : Prop where
  cands : l'.cands = l.cands
  served : l'.served = l.served
  servedDelta : l'.servedDelta = l.servedDelta
  takenClass : l'.takenClass = l.takenClass
  takenPart : l'.takenPart = l.takenPart
  selectedIncoming : l'.selectedIncoming = l.selectedIncoming
  claimed : l'.claimed = l.claimed
  runningAdd : l'.runningAdd = l.runningAdd
  decided : l'.decided = l.decided

theorem SameTables.refl (l : Selection) : SameTables l l :=
  ⟨rfl, rfl, rfl, rfl, rfl, rfl, rfl, rfl, rfl⟩

/-- Only buckets and depth counters differ. -/
def Policy.SameRules (p p' : Policy) : Prop :=
  ∃ rate counters, p' = { p with rate := rate, enqueue := counters }

namespace Policy.SameRules

theorem refl (p : Policy) : p.SameRules p := ⟨p.rate, p.enqueue, rfl⟩

theorem trans {p₁ p₂ p₃ : Policy} (h : p₁.SameRules p₂) (h' : p₂.SameRules p₃) :
    p₁.SameRules p₃ := by
  obtain ⟨rate, counters, rfl⟩ := h
  obtain ⟨rate', counters', rfl⟩ := h'
  exact ⟨rate', counters', rfl⟩

theorem deficit (h : p.SameRules p') : p'.deficit = p.deficit := by
  obtain ⟨rate, counters, rfl⟩ := h
  rfl

theorem climitq (h : p.SameRules p') : p'.climitq = p.climitq := by
  obtain ⟨rate, counters, rfl⟩ := h
  rfl

theorem quarantine (h : p.SameRules p') : p'.quarantine = p.quarantine := by
  obtain ⟨rate, counters, rfl⟩ := h
  rfl

end Policy.SameRules

/-- What a clause may do: write buckets, depth counters and running jobs, but no table
and no pending stream. -/
structure ClauseStep (l l' : Selection) : Prop where
  tables : SameTables l l'
  waiting : l'.store.waiting = l.store.waiting
  rules : l.store.policy.SameRules l'.store.policy

/-- Making room: stale entries of a zset are dropped, then a running job is displaced. -/
inductive RoomWrite (now : Int) (s : Store) : Store → Prop where
  | purge (key id : String) : RoomWrite now s { s with running := s.running.purgeRunningp key id }
  | displace (id : String) (j : Job) (row : s.job? id = some j) (running : j.state = .running) :
      RoomWrite now s (displace now id j s)

def RoomWrites (now : Int) : Store → Store → Prop := ReflTransGen (RoomWrite now)

theorem cancelOldestRunning_writes (now : Int) (queue part : String) (fuel : Nat) (s : Store) :
    RoomWrites now s (cancelOldestRunning now queue part fuel s).1 := by
  induction fuel generalizing s with
  | zero => exact .refl
  | succ n ih =>
    unfold cancelOldestRunning
    split
    · exact .refl
    · rename_i id _
      cases row : s.job? id with
      -- an entry without row is purged and the next one tried
      | none => exact .head (.purge _ id) (ih _)
      | some j =>
        dsimp only
        split
        · rename_i h
          -- the first that is running makes room, and the search ends
          exact .single (.displace id j row h.1)
        · exact .head (.purge _ id) (ih _)

theorem RoomWrites.step (h : RoomWrites now s s') : GateStep lease s s' := by
  induction h with
  | refl => exact GateStep.refl s
  | tail _ w ih =>
    refine ih.trans ?_
    cases w with
    | purge => exact .one (.enlist _ rfl rfl rfl rfl rfl) (.of_jobs rfl)
    | displace id j row running => exact displace_step row running

/-- Making room writes running jobs and a depth counter only. -/
theorem RoomWrites.frame (h : RoomWrites now s s') :
    s'.waiting = s.waiting ∧ s.policy.SameRules s'.policy := by
  induction h with
  | refl => exact ⟨rfl, .refl _⟩
  | tail _ w ih =>
    cases w with
    | purge => exact ih
    | displace => exact ⟨ih.1, ih.2.trans ⟨_, _, rfl⟩⟩

/-- The selection after the rate clause: other buckets and marks. -/
def Selection.refilled (l : Selection) (rate : String → Option Bucket)
    (configured : String → Bool) : Selection :=
  { l with
    store := { l.store with policy := { l.store.policy with rate := rate } }
    configured := configured }

section
variable (now req queue c l)

/-- A look at a bucket configures no class and unmarks none. -/
theorem passRate_eq : ∃ rate configured,
    (∀ rc, (l.store.policy.rate rc = none → rate rc = none) ∧
      (l.configured rc = true → configured rc = true)) ∧
    (passRate now c l).1 = l.refilled rate configured := by
  unfold passRate bucketAvail
  dsimp only
  split
  · exact ⟨l.store.policy.rate, l.configured, fun _ => ⟨id, id⟩, rfl⟩
  · cases hrate : l.store.policy.rate c.job.rateClass with
    | none => exact ⟨l.store.policy.rate, l.configured, fun _ => ⟨id, id⟩, rfl⟩
    | some b =>
      refine ⟨_, _, fun rc => ?_, rfl⟩
      -- only the candidate's own bucket is refilled
      by_cases hclass : rc = c.job.rateClass
      · subst hclass
        simp [hrate]
      · simp [hclass]

/-- The rate clause writes a bucket at most. -/
theorem passRate_store : ∃ p, (passRate now c l).1.store = { l.store with policy := p } := by
  obtain ⟨rate, configured, -, heq⟩ := passRate_eq now c l
  rw [heq]
  exact ⟨_, rfl⟩

theorem passCeiling_eq :
    ∃ t, RoomWrites now l.store t ∧ (passCeiling now queue c l).1 = { l with store := t } := by
  unfold passCeiling
  dsimp only
  split
  · exact ⟨l.store, .refl, rfl⟩
  · split
    · split
      · exact ⟨l.store, .refl, rfl⟩
      · split
        · -- `cancel_running` is the one strategy that writes before the verdict
          exact ⟨_, cancelOldestRunning_writes now queue _ _ l.store, rfl⟩
        · exact ⟨l.store, .refl, rfl⟩
    · exact ⟨l.store, .refl, rfl⟩
    · exact ⟨l.store, .refl, rfl⟩
    · exact ⟨l.store, .refl, rfl⟩

/-- A candidate is held back before the ceiling is looked at, or the ceiling decides. -/
theorem gateVerdict_cases :
    passQuarantine c l.store = false ∧ gateVerdict now req queue c l = (l, none) ∨
      ((passRate now c l).2 = false ∨ passDeficit req queue c (passRate now c l).1 = false) ∧
        gateVerdict now req queue c l = ((passRate now c l).1, none) ∨
      (passRate now c l).2 = true ∧ passDeficit req queue c (passRate now c l).1 = true ∧
        gateVerdict now req queue c l = passCeiling now queue c (passRate now c l).1 := by
  unfold gateVerdict
  cases hquarantine : passQuarantine c l.store with
  | false => simp
  | true =>
    cases hrate : passRate now c l with
    | mk l₁ pass =>
      cases pass with
      | false => simp
      | true => cases hcredit : passDeficit req queue c l₁ <;> simp [hcredit]

/-- The clauses refill buckets, then make room. -/
theorem gateVerdict_eq :
    ∃ rate configured t, (∀ rc, (l.store.policy.rate rc = none → rate rc = none) ∧
        (l.configured rc = true → configured rc = true)) ∧
      RoomWrites now (l.refilled rate configured).store t ∧
      (gateVerdict now req queue c l).1 = { l.refilled rate configured with store := t } := by
  obtain ⟨rate, configured, hlook, hrate⟩ := passRate_eq now c l
  rcases gateVerdict_cases now req queue c l with ⟨-, heq⟩ | ⟨-, heq⟩ | ⟨-, -, heq⟩
  · rw [heq]
    exact ⟨l.store.policy.rate, l.configured, l.store, fun _ => ⟨id, id⟩, .refl, rfl⟩
  · rw [heq, hrate]
    exact ⟨rate, configured, _, hlook, .refl, rfl⟩
  · rw [heq, hrate]
    -- the ceiling is asked on the store with the refilled bucket
    obtain ⟨t, hroom, heq⟩ := passCeiling_eq now queue c (l.refilled rate configured)
    exact ⟨rate, configured, t, hlook, hroom, heq⟩

theorem passRate_clause : ClauseStep l (passRate now c l).1 := by
  obtain ⟨rate, configured, -, heq⟩ := passRate_eq now c l
  rw [heq]
  exact ⟨⟨rfl, rfl, rfl, rfl, rfl, rfl, rfl, rfl, rfl⟩, rfl, _, _, rfl⟩

theorem gateVerdict_clause : ClauseStep l (gateVerdict now req queue c l).1 := by
  obtain ⟨rate, configured, t, -, hroom, heq⟩ := gateVerdict_eq now req queue c l
  obtain ⟨hwaiting, hrules⟩ := hroom.frame
  rw [heq]
  exact ⟨⟨rfl, rfl, rfl, rfl, rfl, rfl, rfl, rfl, rfl⟩, hwaiting,
    Policy.SameRules.trans ⟨rate, _, rfl⟩ hrules⟩

theorem gateVerdict_step : GateStep lease l.store (gateVerdict now req queue c l).1.store := by
  obtain ⟨rate, configured, t, -, hroom, heq⟩ := gateVerdict_eq now req queue c l
  rw [heq]
  exact (GateStep.policy l.store _).trans hroom.step

/-! ## Section 4: The three ends of a round -/

/-- The selection after a candidate was removed from its stream and decided. -/
def decidedRound (now : Int) (req : AdmitRequest) (queue : String) (c : Candidate) (a : Action)
    (l : Selection) : Selection :=
  countDecision queue c (applyAction now req queue c
    { l with store := removeWaiting c.id queue c.job.partitionKey c.job.stickyWorker l.store } a)

/-- A candidate is held back, was not in the stream of the queue, or is decided. -/
theorem considerCandidate_cases :
    ((gateVerdict now req queue c l).2 = none ∧
      considerCandidate now req queue c l = (gateVerdict now req queue c l).1) ∨
    (∃ a, (gateVerdict now req queue c l).2 = some a ∧
      l.store.waiting.holds c.id queue c.job.partitionKey c.job.stickyWorker = false ∧
      considerCandidate now req queue c l =
        { (gateVerdict now req queue c l).1 with
          store := removeWaiting c.id queue c.job.partitionKey c.job.stickyWorker
            (gateVerdict now req queue c l).1.store }) ∨
    ∃ a, (gateVerdict now req queue c l).2 = some a ∧
      l.store.waiting.holds c.id queue c.job.partitionKey c.job.stickyWorker = true ∧
      considerCandidate now req queue c l =
        decidedRound now req queue c a (gateVerdict now req queue c l).1 := by
  -- no clause touches the streams, so the test of `ZREM` can be read off the store before
  have hwaiting := (gateVerdict_clause now req queue c l).waiting
  rw [considerCandidate_eq]
  cases hv : gateVerdict now req queue c l with
  | mk l₁ verdict =>
    rw [hv] at hwaiting
    cases verdict with
    | none => exact .inl ⟨rfl, rfl⟩
    | some a =>
      right
      dsimp only at hwaiting ⊢
      unfold decideCandidate
      rw [hwaiting]
      cases hholds : l.store.waiting.holds c.id queue c.job.partitionKey c.job.stickyWorker with
      | false => exact .inl ⟨a, rfl, rfl, by dsimp only; rw [hholds]; rfl⟩
      | true => exact .inr ⟨a, rfl, rfl, by dsimp only; rw [hholds]; rfl⟩

/-- The tables after the decision `a` on a candidate of `queue`. -/
structure Decided (queue : String) (c : Candidate) (a : Action) (l l' : Selection) : Prop where
  cands : l'.cands = l.cands
  decided : l'.decided = l.decided + 1
  served : l'.served = Function.update l.served queue (l.served queue + 1)
  servedDelta : l'.servedDelta = Function.update l.servedDelta queue (l.servedDelta queue + 1)
  takenPart : l'.takenPart = Function.update l.takenPart (tableKey queue c.job.partitionKey)
    (l.takenPart (tableKey queue c.job.partitionKey) + 1)
  claimed : l'.claimed = if a = .claim then l.claimed ++ [c.id] else l.claimed
  runningAdd : l'.runningAdd =
    if a = .claim then l.runningAdd ++ [(queue, c.job.partitionKey, c.id)] else l.runningAdd
  takenClass : l'.takenClass = if a = .claim then (countClaim queue c l).takenClass else l.takenClass

theorem decidedRound_decided (a : Action) {l₁ : Selection} (h : SameTables l l₁) :
    Decided queue c a l (decidedRound now req queue c a l₁) := by
  have hcounts : Decided queue c a l₁ (decidedRound now req queue c a l₁) := by
    cases a with
    | claim | discard | cancelIncoming => exact ⟨rfl, rfl, rfl, rfl, rfl, rfl, rfl, rfl⟩
  obtain ⟨cands, decided, served, servedDelta, takenPart, claimed, runningAdd, takenClass⟩ := hcounts
  unfold countClaim at takenClass
  rw [h.takenClass] at takenClass
  exact ⟨cands.trans h.cands, h.decided ▸ decided, h.served ▸ served,
    h.servedDelta ▸ servedDelta, h.takenPart ▸ takenPart, h.claimed ▸ claimed,
    h.runningAdd ▸ runningAdd, takenClass⟩

/-- Without a decision the tables stay as they are. -/
theorem considerCandidate_tables :
    SameTables l (considerCandidate now req queue c l) ∨
      ∃ a, (gateVerdict now req queue c l).2 = some a ∧
        l.store.waiting.holds c.id queue c.job.partitionKey c.job.stickyWorker = true ∧
        Decided queue c a l (considerCandidate now req queue c l) := by
  have hclauses := (gateVerdict_clause now req queue c l).tables
  rcases considerCandidate_cases now req queue c l with ⟨-, heq⟩ | ⟨a, -, -, heq⟩ | ⟨a, hsome, hin, heq⟩
  · rw [heq]
    exact .inl hclauses
  · rw [heq]
    exact .inl { hclauses with }
  · rw [heq]
    exact .inr ⟨a, hsome, hin, decidedRound_decided now req queue c l a hclauses⟩

end

/-- A candidate found in the stream of the queue still has the row it was drawn with, after
the clauses too, and the queue is its own. -/
theorem decided_row (now : Int) (req : AdmitRequest) {queue : String} (hentries : EntriesOk l.store)
    (hsnap : Snapshot l.store c)
    (hholds : l.store.waiting.holds c.id queue c.job.partitionKey c.job.stickyWorker = true) :
    (gateVerdict now req queue c l).1.store.job? c.id = some c.job ∧
      c.job.state.isWaiting = true ∧ queue = c.job.queue := by
  have hstep : GateStep req.leaseId l.store _ := gateVerdict_step now req queue c l
  apply (hsnap.aged hstep.aged).of_holds (hstep.moves.entriesOk hentries)
  rw [(gateVerdict_clause now req queue c l).waiting]
  exact hholds

theorem claimJob_effect (now : Int) (req : AdmitRequest) (charged : Bool)
    (row : s.job? c.id = some c.job) :
    Effect s (claimJob now req c.job.queue c charged
        (removeWaiting c.id c.job.queue c.job.partitionKey c.job.stickyWorker s)) c.id
      (some (claimedRow now req (if charged then cost c.job else 0) c.job))
      (s.waiting.removeJob c.id c.job)
      (s.running.claim c.id c.job.queue c.job.partitionKey (now + req.leaseMs)) s.holders
      (claimEvents now req c charged (c.job.fence + 1)) := by
  have hrow : (removeWaiting c.id c.job.queue c.job.partitionKey c.job.stickyWorker s).job? c.id =
      some c.job := row
  unfold claimJob
  rw [hrow]
  exact .set rfl rfl rfl rfl rfl

theorem claimJob_step (charged : Bool) (row : s.job? c.id = some c.job)
    (waiting : c.job.state.isWaiting = true) :
    GateStep req.leaseId s (claimJob now req c.job.queue c charged
      (removeWaiting c.id c.job.queue c.job.partitionKey c.job.stickyWorker s)) := by
  have eff := claimJob_effect now req charged row
  refine .one (.claim c.id c.job _ ⟨req.leaseId, now + req.leaseMs, now, req.worker⟩ _ row waiting
    eff ?_ ⟨rfl, rfl, rfl, rfl, rfl⟩ rfl rfl rfl rfl) (.of_effect eff rfl)
  intro e he
  split at he
  · rw [List.mem_singleton.mp he]
    rfl
  · cases he

/-- Terminalizing is a parking, after which `drop_waiting` repeats the removal in vain. -/
theorem terminalizeIncoming_step {to_ : State} (row : s.job? c.id = some c.job)
    (waiting : c.job.state.isWaiting = true) (terminal : to_.isTerminal = true) :
    GateStep lease s (terminalizeIncoming now c to_
      (removeWaiting c.id c.job.queue c.job.partitionKey c.job.stickyWorker s)) := by
  have hrow : (removeWaiting c.id c.job.queue c.job.partitionKey c.job.stickyWorker s).job? c.id =
      some c.job := row
  unfold terminalizeIncoming
  rw [hrow]
  dsimp only [removeWaiting]
  -- the row is parked first; what is left is a second removal from the stream
  set t : Store := { s with
    jobs := s.jobs.insert c.id (terminalizedRow now to_ c.job)
    waiting := s.waiting.removeJob c.id c.job
    index := (((s.index.remSched c.id).moveIdx c.job.queue c.job.state to_ now c.id).remFpi
      c.job.fingerprint c.id).retain now c.job.retentionMs c.id
    holders := s.holders.release c.id c.job
    policy := s.policy.leaveUnfinished c.job.queue } with ht
  have hpark : GateStep lease s t := by
    have eff : Effect s t c.id (some (terminalizedRow now to_ c.job))
        (if c.job.state.isWaiting then s.waiting.removeJob c.id c.job else s.waiting)
        s.running (s.holders.release c.id c.job) [] :=
      .set rfl (by rw [if_pos waiting]) rfl rfl rfl
    refine .one (.plain (.park c.id c.job _ [] row (isMutable_of_isWaiting waiting) eff (by simp)
      ?_)) (.of_effect eff (not_waiting_of_terminal terminal))
    intro k hk
    cases hk
    exact ⟨⟨rfl, rfl, rfl, rfl, rfl⟩, terminal⟩
  -- the stream no longer has the job, so the removal changes nothing
  refine hpark.trans (.one (.tidy c.id c.job.queue c.job.partitionKey c.job.stickyWorker ?_ rfl
    rfl rfl rfl rfl) (.of_jobs rfl))
  rw [Waiting.score_removeJob, if_pos ⟨rfl, rfl⟩]

theorem considerCandidate_step (now : Int) (req : AdmitRequest) (queue : String)
    (hentries : EntriesOk l.store) (hsnap : Snapshot l.store c) :
    GateStep req.leaseId l.store (considerCandidate now req queue c l).store := by
  have hclauses : GateStep req.leaseId l.store (gateVerdict now req queue c l).1.store :=
    gateVerdict_step now req queue c l
  rcases considerCandidate_cases now req queue c l with
    ⟨-, heq⟩ | ⟨a, -, hout, heq⟩ | ⟨a, -, hin, heq⟩
  · rw [heq]
    exact hclauses
  · rw [heq]
    -- somebody else took the job: the entry is already gone
    refine hclauses.trans (.one (.tidy c.id queue c.job.partitionKey c.job.stickyWorker ?_ rfl rfl
      rfl rfl rfl) (.of_jobs rfl))
    rw [(gateVerdict_clause now req queue c l).waiting]
    simpa [Waiting.holds] using hout
  · -- still in the stream, so the row is as it was drawn
    obtain ⟨row, waiting, rfl⟩ := decided_row now req hentries hsnap hin
    rw [heq]
    cases a with
    | claim => exact hclauses.trans (claimJob_step _ row waiting)
    | discard | cancelIncoming => exact hclauses.trans (terminalizeIncoming_step row waiting rfl)

/-! ## Section 5: The loop -/

/-- A round leaves the drawn lists alone. -/
theorem considerCandidate_cands (now : Int) (req : AdmitRequest) (queue : String) (c : Candidate)
    (l : Selection) : (considerCandidate now req queue c l).cands = l.cands := by
  rcases considerCandidate_tables now req queue c l with hsame | ⟨a, -, -, hdecided⟩
  · exact hsame.cands
  · exact hdecided.cands

/-- The tables once the cursor of a queue has moved on. -/
abbrev Selection.pop (l : Selection) (q : String) (rest : List Candidate) : Selection :=
  { l with cands := Function.update l.cands q rest }

/-- **Loop rule.**  What one round preserves holds when the selection loop ends. -/
theorem selectLoop_induct {weight : String → Int} {queues : List String} {P : Selection → Prop}
    (hround : ∀ l q c rest, P l → l.decided < req.capacity →
      chooseQueue weight queues l = some q → l.cands q = c :: rest →
      P (considerCandidate now req q c (l.pop q rest)))
    (fuel : Nat) (l : Selection) (hl : P l) : P (selectLoop now req weight queues fuel l) := by
  induction fuel generalizing l with
  | zero => exact hl
  | succ n ih =>
    unfold selectLoop
    split
    · rename_i hcap
      split
      · exact hl
      · rename_i q hq
        split
        · exact hl
        · rename_i c rest hc
          exact ih _ (hround l q c rest hl hcap hq hc)
    · exact hl

/-- The loop invariant: the streams are sound and the remaining candidates are snapshots
of waiting jobs. -/
structure SelectionOk (l : Selection) : Prop where
  entries : EntriesOk l.store
  snapshots : ∀ q, ∀ c ∈ l.cands q, Snapshot l.store c

/-- The next candidate of a queue is a snapshot. -/
theorem SelectionOk.head (h : SelectionOk l) {rest : List Candidate} (hc : l.cands q = c :: rest) :
    Snapshot l.store c := by
  apply h.snapshots q c
  rw [hc]
  exact List.mem_cons_self

theorem SelectionOk.round (now : Int) (req : AdmitRequest) {q : String} {rest : List Candidate}
    (h : SelectionOk l) (hc : l.cands q = c :: rest) :
    SelectionOk (considerCandidate now req q c (l.pop q rest)) ∧
      GateStep req.leaseId l.store (considerCandidate now req q c (l.pop q rest)).store := by
  have hstep := considerCandidate_step now req q
    (l := l.pop q rest) h.entries (h.head hc)
  refine ⟨⟨hstep.moves.entriesOk h.entries, ?_⟩, hstep⟩
  intro q' c' hc'
  rw [considerCandidate_cands] at hc'
  dsimp only at hc'
  -- candidates still to come were drawn before, and their snapshots age with the store
  have hin : c' ∈ l.cands q' := by
    by_cases hq : q' = q
    · subst hq
      rw [Function.update_self] at hc'
      rw [hc]
      exact List.mem_cons_of_mem _ hc'
    · rw [Function.update_of_ne hq] at hc'
      exact hc'
  exact (h.snapshots q' c' hin).aged hstep.aged

theorem selectLoop_step (now : Int) (req : AdmitRequest) (weight : String → Int)
    (queues : List String) (fuel : Nat) (l : Selection) (h : SelectionOk l) :
    SelectionOk (selectLoop now req weight queues fuel l) ∧
      GateStep req.leaseId l.store (selectLoop now req weight queues fuel l).store := by
  refine selectLoop_induct (P := fun l' => SelectionOk l' ∧ GateStep req.leaseId l.store l'.store)
    ?_ fuel l ⟨h, GateStep.refl _⟩
  intro l' q c rest hl' _ _ hc
  obtain ⟨hok, hstep⟩ := hl'.1.round now req hc
  exact ⟨hok, hl'.2.trans hstep⟩

/-! ## Section 6: The script -/

/-- The loop starts with sound streams and the rows of the store. -/
theorem startSelection_ok (hentries : EntriesOk s) {routes : String → Finset String} :
    SelectionOk (startSelection (s.withRoutes routes) (drawnCands now req order queues s)) :=
  ⟨fun key x sc hsc => hentries key x sc hsc, fun _ _ hc => .inl (drawnCands_row hc)⟩

section
variable (now : Int) (req : AdmitRequest) (order : SetOrder String)

theorem selection_step (queues : List String) (h : EntriesOk s) :
    GateStep req.leaseId s (selection now req order queues s).1.store := by
  obtain ⟨routes, hhealed, hsel⟩ := selection_eq now req order queues s
  rw [hsel]
  have hheal : GateStep req.leaseId s (s.withRoutes routes) := by
    refine .lift s.withRoutes ?_ _ _ hhealed
    rintro r r' ⟨key, rfl⟩
    exact ⟨.heal key rfl rfl rfl rfl rfl, .of_jobs rfl⟩
  exact hheal.trans (selectLoop_step now req _ queues _ _ (startSelection_ok h)).2

/-- The deferred accounting touches running zsets and policy only. -/
theorem settle_step (seen : List String) (l : Selection) :
    GateStep lease l.store (settle now req seen l) := by
  -- the deferred writes touch `runningp` and the policy only
  have hadd : ∀ (adds : List (String × String × String)) (r : Running),
      ∃ rp, addRunning now adds r = { r with runningp := rp } := by
    intro adds
    induction adds with
    | nil => exact fun r => ⟨r.runningp, rfl⟩
    | cons a adds ih =>
      intro r
      obtain ⟨rp, hrp⟩ := ih (r.addRunningp a.2.2 a.1 a.2.1 now)
      exact ⟨rp, hrp⟩
  obtain ⟨rp, hrp⟩ := hadd l.runningAdd l.store.running
  unfold settle
  exact .one (.enlist rp rfl rfl hrp rfl rfl) (.of_jobs rfl)

theorem admitScript_step (csv : String) (s : Store) (h : EntriesOk s) :
    GateStep req.leaseId s (admitScript now req order csv s).1 :=
  (selection_step now req order (scriptQueues csv) h).trans (settle_step now req _ _)

theorem admitCall_step (s : Store) (h : EntriesOk s) :
    GateStep req.leaseId s (admitCall now req order s).1 := by
  unfold admitCall
  split
  · exact GateStep.refl s
  · exact admitScript_step now req order _ s h

end

/-! ## Section 7: Every call -/

/-- **Every call is a sequence of moves**: plain ones, a quarantine release's, or an
admission's under its lease id from a store with sound streams. -/
theorem step_cases (s : Store) (c : Call) (h : EntriesOk s) :
    (c.op.isPlain ∧ Moves s (step s c)) ∨
      (∃ fp order, c.op = .quarantineRelease fp order ∧ ReleaseMoves s (step s c)) ∨
      ∃ req order, c.op = .admission req order ∧ GateStep req.leaseId s (step s c) := by
  by_cases hplain : c.op.isPlain
  · exact .inl ⟨hplain, step_moves s c hplain⟩
  · -- the release and the admission are the two calls that are not plain
    obtain ⟨now, op⟩ := c
    right
    cases op with
    | quarantineRelease fp order =>
      exact .inl ⟨fp, order, rfl, quarantineRelease_moves now order fp s⟩
    | admission req order =>
      exact .inr ⟨req, order, rfl, admitCall_step now req order s h⟩
    | _ => exact absurd trivial hplain

theorem step_entriesOk (s : Store) (c : Call) (h : EntriesOk s) : EntriesOk (step s c) := by
  rcases step_cases s c h with ⟨-, hmoves⟩ | ⟨fp, order, -, hmoves⟩ | ⟨req, order, -, hgate⟩
  · exact (hmoves.gate "").entriesOk h
  · exact hmoves.entriesOk h
  · exact hgate.moves.entriesOk h

/-- The streams are sound in every reachable store. -/
theorem exec_entriesOk (calls : List Call) : EntriesOk (exec calls) := by
  refine run_invariant EntriesOk (P := fun _ _ => True) ?_ entriesOk_init
    (EachStep.trivial calls Store.init)
  exact fun s c _ => step_entriesOk s c

theorem exec_append (pre post : List Call) : exec (pre ++ post) = run step (exec pre) post :=
  run_append step Store.init pre post

theorem exec_snoc (pre : List Call) (c : Call) : exec (pre ++ [c]) = step (exec pre) c :=
  exec_append pre [c]

/-- **Run rule.**  What a call on a reachable store preserves holds wherever such calls lead. -/
theorem exec_invariant {Inv : Store → Prop} {P : Store → Call → Prop} (hinit : Inv Store.init)
    (hstep : ∀ calls c, P (exec calls) c → Inv (exec calls) → Inv (step (exec calls) c))
    {calls : List Call} (h : EachStep step P Store.init calls) : Inv (exec calls) := by
  induction calls using List.reverseRecOn with
  | nil => exact hinit
  | append_singleton calls c ih =>
    rw [eachStep_append] at h
    rw [exec_snoc]
    exact hstep calls c h.2.1 (ih h.1)

end

end Headgate.Redis
