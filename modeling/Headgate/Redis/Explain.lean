import Headgate.Redis.Ceiling
import Headgate.Redis.Rate

/-!
# The admission explanation and the gate

`explain.lua` collects what the gate would look at for one job, and the shared evaluator
replays the clauses of the gate on it.  Whatever the gate claims has passed every clause
in the state before the call (`Passed`), so an explanation that names a failed clause
agrees with the gate.  Two explanations name none: a scheduled or retryable job is
reported as blocked by its schedule although the gate takes it once its time has come,
and a number of fifteen digits or more is not read back as it was written.
-/

namespace Headgate.Core

/-! ## Section 1: The shared evaluator -/

def SaturationStrategy.asStr : SaturationStrategy → String
  | .queue => "queue"
  | .discard => "discard"
  | .cancelRunning => "cancel_running"
  | .cancelIncoming => "cancel_incoming"

/-- What the evaluator is told about a job. -/
structure AdmissionFacts where
  state : State
  nowMs : Int
  scheduledAtMs : Int
  queuePaused : Bool
  quarantined : Bool
  fingerprint : String
  rateClass : String
  weight : Int
  /-- `none` for an unconfigured class -/
  tokensAvailable : Option Int
  tokensAhead : Int
  limitPerWindow : Int
  windowMs : Int
  maxConcurrent : Option Int
  inflight : Int
  /-- `none` counts as `queue` -/
  saturation : Option SaturationStrategy
  position : Int
  deficit : Int
  deriving DecidableEq, Repr

/-- `blocked_by`. -/
inductive Blocker where
  | schedule
  | queuePaused
  | quarantine
  | rateClass
  | concurrencyLimit
  deriving DecidableEq, Repr

structure AdmissionEvaluation where
  admissible : Bool := false
  blockedBy : Option Blocker := none
  detail : List (String × String)
  estimatedAdmissionMs : Option Int := none
  deriving DecidableEq, Repr

variable {f : AdmissionFacts} {v w : AdmissionEvaluation} {q : String}

namespace AdmissionEvaluation

def add (v : AdmissionEvaluation) (detail : List (String × String)) : AdmissionEvaluation :=
  { v with detail := v.detail ++ detail }

def block (v : AdmissionEvaluation) (reason : Blocker) (eta : Option Int) : AdmissionEvaluation :=
  { v with blockedBy := some reason, estimatedAdmissionMs := eta }

def admit_ (v : AdmissionEvaluation) : AdmissionEvaluation :=
  { v with admissible := true, estimatedAdmissionMs := some 0 }

end AdmissionEvaluation

/-- The rate clause; an error is the early return of a blocked job. -/
def rateClause (f : AdmissionFacts) (v : AdmissionEvaluation) :
    Except AdmissionEvaluation AdmissionEvaluation :=
  if f.rateClass = "" then .ok v
  else
    -- a weight below one counts as one, as in the gate's cost
    let weight := max 1 f.weight
    let required := f.tokensAhead + weight
    let v := v.add [("rate_class", f.rateClass), ("weight", toString weight),
      ("tokens_ahead_in_class", toString f.tokensAhead)]
    match f.tokensAvailable with
    | some available =>
      let v := v.add [("tokens_available", toString available)]
      if available < required then
        .error (v.block .rateClass (if f.limitPerWindow > 0 then
          some (max 1 (required - available) * f.windowMs / f.limitPerWindow) else none))
      else .ok v
    | none => .ok (v.add [("tokens_available", "unlimited (no such rate class)")])

/-- The concurrency clause. -/
def ceilingClause (f : AdmissionFacts) (v : AdmissionEvaluation) :
    Except AdmissionEvaluation AdmissionEvaluation :=
  match f.maxConcurrent with
  | none => .ok v
  | some maxConcurrent =>
    let strategy := f.saturation.getD .queue
    let v := v.add [("max_concurrent", toString maxConcurrent), ("inflight", toString f.inflight),
      ("on_saturated", strategy.asStr)]
    if f.inflight ≥ maxConcurrent ∧ strategy ≠ .cancelRunning then
      .error (v.block .concurrencyLimit none)
    else .ok v

/-- The clauses for an available job. -/
def evaluateAvailable (f : AdmissionFacts) (v : AdmissionEvaluation) : AdmissionEvaluation :=
  -- the clauses in the order of the gate; the first that fails is the answer
  if f.queuePaused then v.block .queuePaused none
  else if f.scheduledAtMs > f.nowMs then
    (v.add [("scheduled_at_ms", toString f.scheduledAtMs)]).block .schedule
      (some (f.scheduledAtMs - f.nowMs))
  else if f.quarantined then (v.add [("fingerprint", f.fingerprint)]).block .quarantine none
  else
    match rateClause f v with
    | .error blocked => blocked
    | .ok v =>
      match ceilingClause f v with
      | .error blocked => blocked
      | .ok v =>
        (v.add [("position_in_partition", toString f.position),
          ("partition_deficit", toString f.deficit)]).admit_

/-- `evaluate_admission`. -/
def evaluateAdmission (f : AdmissionFacts) : AdmissionEvaluation :=
  let v : AdmissionEvaluation := { detail := [("state", f.state.asStr)] }
  match f.state with
  | .running => v.admit_
  | .scheduled | .retryable =>
    (v.add [("scheduled_at_ms", toString f.scheduledAtMs)]).block .schedule
      (some (max 0 (f.scheduledAtMs - f.nowMs)))
  | .quarantined => v.block .quarantine none
  | .available => evaluateAvailable f v
  | _ => v

/-- The clause of the gate that a blocked available job fails. -/
inductive FailsClause (f : AdmissionFacts) : Prop where
  | paused (h : f.queuePaused = true)
  | early (h : f.nowMs < f.scheduledAtMs)
  | quarantined (h : f.quarantined = true)
  | rate (named : f.rateClass ≠ "") (available : Int) (configured : f.tokensAvailable = some available)
      (h : available < f.tokensAhead + max 1 f.weight)
  | ceiling (maxConcurrent : Int) (configured : f.maxConcurrent = some maxConcurrent)
      (h : maxConcurrent ≤ f.inflight) (strategy : f.saturation ≠ some .cancelRunning)

/-- `required`: the tokens of the jobs ahead and of the job itself. -/
def AdmissionFacts.required (f : AdmissionFacts) : Int := f.tokensAhead + max 1 f.weight

/-- The class lacks tokens, and the estimate is about them. -/
def AdmissionFacts.LacksTokens (f : AdmissionFacts) (w : AdmissionEvaluation) : Prop :=
  ∃ available, f.tokensAvailable = some available ∧ available < f.required ∧
    w.estimatedAdmissionMs = if f.limitPerWindow > 0 then
      some (max 1 (f.required - available) * f.windowMs / f.limitPerWindow) else none

/-- The rate clause hands on an evaluation that blocks no more, or the class lacks tokens. -/
theorem rateClause_cases (f : AdmissionFacts) (v : AdmissionEvaluation) :
    (∃ w, rateClause f v = .ok w ∧ w.blockedBy = v.blockedBy) ∨
      ∃ w, rateClause f v = .error w ∧ f.rateClass ≠ "" ∧ f.LacksTokens w := by
  unfold rateClause
  split
  · exact .inl ⟨_, rfl, rfl⟩
  · rename_i hnamed
    dsimp only
    split
    · -- the clause fails only for a configured class with too few tokens
      rename_i available hconfigured
      split
      · rename_i hshort
        exact .inr ⟨_, rfl, hnamed, available, hconfigured, hshort, rfl⟩
      · exact .inl ⟨_, rfl, rfl⟩
    · exact .inl ⟨_, rfl, rfl⟩

theorem ceilingClause_cases (f : AdmissionFacts) (v : AdmissionEvaluation) :
    (∃ w, ceilingClause f v = .ok w ∧ w.blockedBy = v.blockedBy) ∨
      ∃ w, ceilingClause f v = .error w ∧ FailsClause f ∧
        w.blockedBy = some .concurrencyLimit := by
  unfold ceilingClause
  split
  · exact .inl ⟨_, rfl, rfl⟩
  · rename_i maxConcurrent hconfigured
    dsimp only
    split
    · -- a full partition blocks unless the policy makes room by displacing a job
      rename_i hfull
      refine .inr ⟨_, rfl, .ceiling maxConcurrent hconfigured hfull.1 fun hstrategy => hfull.2 ?_, rfl⟩
      rw [hstrategy]
      rfl
    · exact .inl ⟨_, rfl, rfl⟩

/-- A blocked available job fails a clause; if its class is named, the estimate is about the tokens
it lacks. -/
theorem evaluateAvailable_blocked (hv : v.blockedBy = none)
    (h : (evaluateAvailable f v).blockedBy ≠ none) : FailsClause f ∧
      ((evaluateAvailable f v).blockedBy = some .rateClass →
        f.LacksTokens (evaluateAvailable f v)) := by
  -- follow the clauses in order and stop at the one that answered
  generalize heval : evaluateAvailable f v = w at h ⊢
  unfold evaluateAvailable at heval
  split at heval
  · rename_i hpaused
    subst heval
    exact ⟨.paused hpaused, nofun⟩
  · split at heval
    · rename_i hearly
      subst heval
      exact ⟨.early hearly, nofun⟩
    · split at heval
      · rename_i hquarantined
        subst heval
        exact ⟨.quarantined hquarantined, nofun⟩
      · rcases rateClause_cases f v with ⟨v₁, hrate, hkept⟩ | ⟨v₁, hrate, hnamed, hlacks⟩
        · rcases ceilingClause_cases f v₁ with ⟨v₂, hceiling, hkept'⟩ | ⟨v₂, hceiling, hfails, hreason⟩
          · simp only [hrate, hceiling] at heval
            subst heval
            exact absurd (hkept'.trans (hkept.trans hv)) h
          · -- the rate clause passed, so the reason given is the ceiling
            simp only [hrate, hceiling] at heval
            subst heval
            rw [hreason]
            exact ⟨hfails, nofun⟩
        · rw [hrate] at heval
          subst heval
          have ⟨available, hconfigured, hshort, _⟩ := hlacks
          exact ⟨.rate hnamed available hconfigured hshort, fun _ => hlacks⟩

/-- What a blocked job is: waiting for its time by its state, quarantined, or available and
failing a clause. -/
theorem evaluateAdmission_blocked (h : (evaluateAdmission f).blockedBy ≠ none) :
    (f.state = .scheduled ∨ f.state = .retryable) ∨ f.state = .quarantined ∨
      f.state = .available ∧ FailsClause f := by
  unfold evaluateAdmission at h
  cases hstate : f.state with
  | scheduled => exact .inl (.inl rfl)
  | retryable => exact .inl (.inr rfl)
  | quarantined => exact .inr (.inl rfl)
  | available =>
    rw [hstate] at h
    exact .inr (.inr ⟨rfl, (evaluateAvailable_blocked rfl h).1⟩)
  -- every other state is answered without a reason
  | _ =>
    rw [hstate] at h
    exact absurd rfl h

theorem evaluateAdmission_rateClass (h : (evaluateAdmission f).blockedBy = some .rateClass) :
    f.LacksTokens (evaluateAdmission f) := by
  unfold evaluateAdmission at h ⊢
  cases hstate : f.state with
  | available =>
    rw [hstate] at h
    exact (evaluateAvailable_blocked rfl fun hnone => nomatch hnone.symm.trans h).2 h
  | _ =>
    rw [hstate] at h
    cases h

end Headgate.Core

namespace Headgate.Redis

open Headgate.Core Data

/-! ## Section 2: `explain.lua` -/

/-- A number that Lua writes with `tostring`, as `parse::<i64>` reads it: from fifteen digits on it
is written with an exponent, and counts as zero. -/
def throughLua (n : Int) : Int := if n.natAbs < 10 ^ 14 then n else 0

/-- The place of a job in its stream; `-1` if it is not there. -/
def streamRank (s : Store) (id : String) (j : Job) : Int :=
  let members := (s.waiting.pending j.pendingKey).members
  if id ∈ members then members.idxOf id else -1

/-- The bucket of a named class. -/
def namedBucket (s : Store) (rateClass : String) : Option Bucket :=
  if rateClass = "" then none else s.policy.rate rateClass

/-- What the script and `assemble_explain` tell the evaluator. -/
def explainFacts (now : Int) (id : String) (j : Job) (s : Store) : AdmissionFacts where
  state := j.state
  nowMs := throughLua now
  scheduledAtMs := j.scheduledAtMs
  queuePaused := j.queue ∈ s.policy.paused
  quarantined := j.fingerprint ∈ s.policy.quarantine
  fingerprint := j.fingerprint
  rateClass := j.rateClass
  weight := j.weight
  tokensAvailable := (namedBucket s j.rateClass).map fun b => throughLua (refill now b).tokens
  -- the script does not look at the jobs ahead
  tokensAhead := 0
  limitPerWindow := ((namedBucket s j.rateClass).map fun b => throughLua b.limit).getD 0
  windowMs := ((namedBucket s j.rateClass).map fun b => throughLua b.window).getD 0
  maxConcurrent := (concurrencyPolicy s j.queue).map fun cfg => throughLua cfg.maxConcurrent
  inflight := if (concurrencyPolicy s j.queue).isSome then s.running.inflight j.queue j.partitionKey
    else 0
  saturation := (concurrencyPolicy s j.queue).map ConcurrencyLimit.onSaturated
  position := streamRank s id j
  deficit := throughLua (s.policy.deficit j.queue j.partitionKey)

/-- `explain_admission`; `none` for a job that does not exist. -/
def explainAdmission (now : Int) (id : String) (s : Store) : Option AdmissionEvaluation :=
  (s.job? id).map fun j => evaluateAdmission (explainFacts now id j s)

/-- The explanation reports the job blocked. -/
def ExplainedBlocked (now : Int) (id : String) (s : Store) : Prop :=
  ∃ v, explainAdmission now id s = some v ∧ v.blockedBy ≠ none

/-! ## Section 3: What a claimed job has passed -/

/-- The clauses of the gate for a job, in the state before the call. -/
structure Passed (now : Int) (s : Store) (j : Job) : Prop where
  waiting : j.state.isWaiting = true
  unpaused : j.queue ∉ s.policy.paused
  due : j.scheduledAtMs ≤ now
  clean : j.fingerprint ∉ s.policy.quarantine
  rate : ∀ b, namedBucket s j.rateClass = some b → cost j ≤ (refill now b).tokens
  ceiling : ∀ cfg, concurrencyPolicy s j.queue = some cfg → cfg.onSaturated ≠ .cancelRunning →
    s.running.inflight j.queue j.partitionKey < cfg.maxConcurrent

/-- The loop so far: the candidates are those drawn, and every claimed job has passed. -/
structure Passing (now : Int) (req : AdmitRequest) (order : SetOrder String) (queues : List String)
    (s : Store) (l : Selection) : Prop where
  rules : s.policy.SameRules l.store.policy
  drawn : ∀ q, ∀ c ∈ l.cands q, c ∈ drawnCands now req order queues s q
  books : ∀ rc b, s.policy.rate rc = some b → ClassBooks now s rc b l
  /-- Only the strategy that displaces jobs lowers a counter. -/
  inflight : ∀ q part cfg, concurrencyPolicy s q = some cfg → cfg.onSaturated ≠ .cancelRunning →
    s.running.inflight q part ≤ l.store.running.inflight q part
  claimed : ∀ id ∈ l.claimed, ∃ j, s.job? id = some j ∧ Passed now s j

section
variable {now : Int} {req : AdmitRequest} {order : SetOrder String} {queues : List String}
  {s : Store} {l : Selection} {c : Candidate} {queue : String}

/-- A ceiling with another strategy than displacing leaves the counters alone, and lets a claim
through only below the limit. -/
theorem gateVerdict_plain (now : Int) (req : AdmitRequest) (queue : String) (c : Candidate)
    (part : String) {cfg : ConcurrencyLimit} (limit : concurrencyPolicy l.store q = some cfg)
    (strategy : cfg.onSaturated ≠ .cancelRunning) :
    (gateVerdict now req queue c l).1.store.running.inflight q part
        = l.store.running.inflight q part ∧
      (queue = q → (gateVerdict now req queue c l).2 = some .claim →
        l.store.running.inflight q c.job.partitionKey < cfg.maxConcurrent) := by
  cases gateVerdict_passage now req queue c l with
  | plain same place =>
    refine ⟨by rw [same], ?_⟩
    rintro rfl hclaim
    exact place hclaim cfg limit
  -- a displacement needs `cancel_running`, which is another queue's policy
  | displaced cfg' limited strategy' full less =>
    have hother : queue ≠ q := by
      rintro rfl
      cases limit.symm.trans limited
      exact strategy strategy'
    refine ⟨?_, fun hq => absurd hq hother⟩
    rw [less, Running.inflight_dec, if_neg fun hqp => hother hqp.1.symm]

/-- A verdict is given only on a fingerprint that is not quarantined. -/
theorem gateVerdict_clean (h : (gateVerdict now req queue c l).2 ≠ none) :
    c.job.fingerprint ∉ l.store.policy.quarantine := by
  unfold gateVerdict at h
  split at h
  · rename_i hpass
    intro hmem
    have hsome : l.store.policy.quarantine ≠ ∅ := fun hempty => by simp [hempty] at hmem
    simp [passQuarantine, hsome, hmem] at hpass
  · exact absurd rfl h

/-- A drawn candidate is due, and its queue is not paused. -/
theorem drawnCands_due (hentries : EntriesOk s)
    (h : c ∈ drawnCands now req order queues s queue) :
    queue ∉ s.policy.paused ∧ c.job.scheduledAtMs ≤ now := by
  obtain ⟨-, hpaused, part, -, hid, hcand⟩ := mem_drawnCands h
  have hrow := (candidate?_eq_some hcand).2.1
  obtain ⟨sticky, sc, -, hsc, hdue⟩ := mem_drawIds_stream hid
  obtain ⟨j, hj, -, -, hscore⟩ := hentries _ _ _ hsc
  cases hrow.symm.trans hj
  exact ⟨hpaused, hscore ▸ hdue⟩

/-- What a candidate that is claimed in a round has passed. -/
theorem Passing.passed (h : Passing now req order queues s l) (hentries : EntriesOk s)
    (hin : c ∈ drawnCands now req order queues s queue)
    (hwaiting : c.job.state.isWaiting = true) (hown : queue = c.job.queue)
    (hclaim : (gateVerdict now req queue c l).2 = some .claim) : Passed now s c.job := by
  have hverdict : (gateVerdict now req queue c l).2 ≠ none := by rw [hclaim]; exact nofun
  obtain ⟨hpaused, hdue⟩ := drawnCands_due hentries hin
  refine ⟨hwaiting, hown ▸ hpaused, hdue, ?_, ?_, ?_⟩
  · rw [← h.rules.quarantine]
    exact gateVerdict_clean hverdict
  · -- tokens: what the call has spent so far only makes the test harder
    intro b hb
    unfold namedBucket at hb
    split at hb
    · cases hb
    · rename_i hnamed
      have hbooks := h.books c.job.rateClass b hb
      have hfits := ((hbooks.gateVerdict req queue c).2 hverdict rfl hnamed).2
      have hspent := hbooks.nonneg
      omega
  · -- ceiling: the counts have only grown since the start of the call
    intro cfg limit strategy
    have hkept := h.inflight c.job.queue c.job.partitionKey cfg limit strategy
    rw [← concurrencyPolicy_rules h.rules] at limit
    exact lt_of_le_of_lt hkept
      ((gateVerdict_plain now req queue c c.job.partitionKey limit strategy).2 hown hclaim)

/-- A round keeps the loop passing. -/
theorem Passing.round {rest : List Candidate} (h : Passing now req order queues s l)
    (hentries : EntriesOk s) (hok : SelectionOk l) (hc : l.cands q = c :: rest) :
    Passing now req order queues s
      (considerCandidate now req q c (l.pop q rest)) := by
  set l₀ : Selection := l.pop q rest with hl₀
  -- taking the head off a list leaves the loop passing
  have h₀ : Passing now req order queues s l₀ :=
    { rules := h.rules
      drawn := fun x d hd => h.drawn x d (mem_of_update_rest hc hd)
      books := fun rc b hb => (h.books rc b hb).keep rfl rfl rfl rfl
      inflight := h.inflight
      claimed := h.claimed }
  have hin : c ∈ drawnCands now req order queues s q := by
    apply h.drawn q c
    rw [hc]
    exact List.mem_cons_self
  have hsnap : Snapshot l₀.store c := hok.head hc
  refine ⟨h.rules.trans (considerCandidate_rules now req q c l₀), ?_, ?_, ?_, ?_⟩
  · intro x d hd
    rw [considerCandidate_cands] at hd
    exact h₀.drawn x d hd
  · intro rc b hb
    exact (h.books rc b hb).round hok hc
  · intro x part cfg limit strategy
    have hkept := h.inflight x part cfg limit strategy
    have hlimit := limit
    rw [← concurrencyPolicy_rules h₀.rules] at hlimit
    have hplain := (gateVerdict_plain now req q c part hlimit strategy).1
    rcases considerCandidate_cases now req q c l₀ with ⟨-, heq⟩ | ⟨a, -, -, heq⟩ | ⟨a, -, hholds, heq⟩
    · rw [heq, hplain]
      exact hkept
    · rw [heq]
      exact hkept.trans hplain.ge
    · rw [heq]
      obtain ⟨hrow, -, hown⟩ := decided_row now req (l := l₀) hok.entries hsnap hholds
      by_cases ha : a = .claim
      · subst ha
        rw [decidedRound_claim_running now req hrow hown]
        show _ ≤ (Running.incInflight _ q c.job.partitionKey).inflight x part
        rw [Running.inflight_inc]
        split
        · rename_i hqp
          rw [← hqp.1, ← hqp.2]
          rw [hqp.1] at hkept hplain
          rw [hqp.1]
          exact hkept.trans (hplain.ge.trans (by simp))
        · rw [hplain]
          exact hkept
      · rw [decidedRound_end_running now req ha, hplain]
        exact hkept
  · intro id hid
    rcases considerCandidate_tables now req q c l₀ with hsame | ⟨a, hsome, hholds, hdecided⟩
    · rw [hsame.claimed] at hid
      exact h.claimed id hid
    · rw [hdecided.claimed] at hid
      split at hid
      · rename_i ha
        subst ha
        rcases List.mem_append.mp hid with hold | hnew
        · exact h.claimed id hold
        · rw [List.mem_singleton.mp hnew]
          obtain ⟨-, hwaiting, hown⟩ := decided_row now req (l := l₀) hok.entries hsnap hholds
          refine ⟨c.job, drawnCands_row hin, ?_⟩
          exact h₀.passed hentries hin hwaiting hown hsome
      · exact h.claimed id hid

/-- Whatever a call claims has passed every clause in the state before the call. -/
theorem admitCall_passed {ids : List String} {id : String} (hentries : EntriesOk s)
    (h : (admitCall now req order s).2 = .ok ids) (hid : id ∈ ids) :
    ∃ j, s.job? id = some j ∧ Passed now s j := by
  by_cases hlease : req.leaseMs < 1
  · rw [admitCall_refused hlease] at h
    cases h
  · rw [admitCall_eq (not_lt.mp hlease)] at h
    cases h
    refine (selection_induct (P := Passing now req order (requestQueues req) s) hentries ?_ ?_).claimed
      id hid
    · intro routes
      exact
        { rules := .refl _
          drawn := fun _ _ hc => hc
          books := fun rc b hb => .start hb
          inflight := fun _ _ _ _ _ => le_refl _
          claimed := fun _ hnone => nomatch hnone }
    · intro l q c rest hok hl _ _ hc
      exact hl.round hentries hok hc

end

/-! ## Section 4: The explanation beside the gate -/

/-- The explanation of a job is to be taken at its word: a job that waits for its time by its state
is not due yet, and the numbers the script writes are short enough to be read back. -/
structure Explainable (now : Int) (s : Store) (j : Job) : Prop where
  waits : j.state = .scheduled ∨ j.state = .retryable → now < j.scheduledAtMs
  clock : now.natAbs < 10 ^ 14
  tokens : ∀ b, namedBucket s j.rateClass = some b → (refill now b).tokens.natAbs < 10 ^ 14
  ceiling : ∀ cfg, concurrencyPolicy s j.queue = some cfg → cfg.maxConcurrent.natAbs < 10 ^ 14

theorem throughLua_short {n : Int} (h : n.natAbs < 10 ^ 14) : throughLua n = n := if_pos h

/-- A job that has passed every clause of the gate fails none of the evaluator's. -/
theorem Passed.not_failsClause {now : Int} {s : Store} {j : Job} (id : String)
    (h : Passed now s j) (hlegible : Explainable now s j) :
    ¬ FailsClause (explainFacts now id j s) := by
  intro hfails
  cases hfails with
  | paused hpaused => exact h.unpaused (of_decide_eq_true hpaused)
  -- the reader sees the clock as the script wrote it
  | early hearly =>
    have hnow : throughLua now < j.scheduledAtMs := hearly
    rw [throughLua_short hlegible.clock] at hnow
    exact not_lt.mpr h.due hnow
  | quarantined hquarantined => exact h.clean (of_decide_eq_true hquarantined)
  -- the gate charges the same weight that the reader compares
  | rate named available configured hshort =>
    obtain ⟨b, hb, hread⟩ := Option.map_eq_some_iff.mp configured
    rw [throughLua_short (hlegible.tokens b hb)] at hread
    have hcost : cost j ≤ (refill now b).tokens := h.rate b hb
    have hweight : available < 0 + max 1 (j.weight : Int) := hshort
    rw [← hread] at hweight
    unfold cost at hcost
    split at hcost <;> omega
  | ceiling maxConcurrent configured hfull strategy =>
    obtain ⟨cfg, hcfg, hread⟩ := Option.map_eq_some_iff.mp configured
    rw [throughLua_short (hlegible.ceiling cfg hcfg)] at hread
    have hinflight : (explainFacts now id j s).inflight
        = s.running.inflight j.queue j.partitionKey := by
      simp [explainFacts, hcfg]
    -- the clause speaks of policies that do not displace
    have hother : cfg.onSaturated ≠ .cancelRunning := by
      intro hcancel
      apply strategy
      simp [explainFacts, hcfg, hcancel]
    have hroom := h.ceiling cfg hcfg hother
    rw [hinflight, ← hread] at hfull
    exact not_lt.mpr hfull hroom

/-- **Explanations.**  In a state that a run reaches, a job whose explanation can be taken at its
word and reports it blocked is claimed by no call at that instant. -/
theorem explained_blocked_not_claimed (calls : List Call) (now : Int) (id : String) (j : Job)
    (row : (exec calls).job? id = some j) (hexplainable : Explainable now (exec calls) j)
    (hblocked : ExplainedBlocked now id (exec calls)) (req : AdmitRequest) (order : SetOrder String)
    (ids : List String) (h : (admitCall now req order (exec calls)).2 = .ok ids) : id ∉ ids := by
  intro hid
  obtain ⟨j', row', hpassed⟩ := admitCall_passed (exec_entriesOk calls) h hid
  cases row.symm.trans row'
  obtain ⟨v, hv, hreason⟩ := hblocked
  rw [explainAdmission, row, Option.map_some] at hv
  rw [← Option.some.inj hv] at hreason
  rcases evaluateAdmission_blocked hreason with htimed | hquarantined | ⟨-, hfails⟩
  · -- by its state the job waits, so it is not due; the gate has drawn it as due
    exact not_lt.mpr hpassed.due (hexplainable.waits htimed)
  · -- a quarantined job is in no stream
    have hwaiting := hpassed.waiting
    have hstate : j.state = .quarantined := hquarantined
    rw [hstate] at hwaiting
    cases hwaiting
  · exact hpassed.not_failsClause id hexplainable hfails

/-- A job waits in a paused queue, another in an open one. -/
def pausedQueue : List Call :=
  [⟨0, .enqueue [{ id := "a", kind := "k", queue := "q" }, { id := "b", kind := "k", queue := "p" }]⟩,
    ⟨0, .setQueuePaused "q" true⟩]

theorem explained_blocked_not_claimed_paused :
    (admitCall 5 ⟨"w", "L", ["q", "p"], 2, 10, 2⟩ .increasing (exec pausedQueue)).2 = .ok ["b"] ∧
      "a" ∉ ["b"] := by
  have hids : (admitCall 5 ⟨"w", "L", ["q", "p"], 2, 10, 2⟩ .increasing (exec pausedQueue)).2
      = .ok ["b"] := by decide +kernel
  have hfacts : ((exec pausedQueue).job? "a").map (fun j => (j.state, j.rateClass, j.queue)) =
      some (.available, "", "q") := by decide +kernel
  obtain ⟨j, row, hj⟩ := Option.map_eq_some_iff.mp hfacts
  obtain ⟨hstate, hclass, hqueue⟩ : j.state = .available ∧ j.rateClass = "" ∧ j.queue = "q" := by
    simpa using hj
  have hnone : concurrencyPolicy (exec pausedQueue) "q" = none := by decide +kernel
  have hexplainable : Explainable 5 (exec pausedQueue) j :=
    { waits := by simp [hstate]
      clock := by decide
      tokens := by simp [namedBucket, hclass]
      ceiling := by simp [hqueue, hnone] }
  have hblocked : ExplainedBlocked 5 "a" (exec pausedQueue) := ⟨_, rfl, by decide +kernel⟩
  exact ⟨hids, explained_blocked_not_claimed pausedQueue 5 "a" j row hexplainable hblocked _ _ _ hids⟩

/-- A job for later. -/
def dueLater : List Call :=
  [⟨0, .enqueue [{ id := "a", kind := "k", queue := "q", scheduledAtMs := 100 }]⟩]

/-- A job of a class whose burst has fifteen digits. -/
def widestClass : List Call :=
  [⟨0, .upsertRateClass "r" 1 1000 (10 ^ 14) false⟩,
    ⟨0, .enqueue [{ id := "a", kind := "k", queue := "q", rateClass := "r" }]⟩]

/-- Both are reported as blocked, and claimed at the same instant: the first by its schedule a
hundred milliseconds after its time has come, the second by its class although it is full. -/
theorem explained_blocked_claimed :
    ((explainAdmission 200 "a" (exec dueLater)).map AdmissionEvaluation.blockedBy
        = some (some .schedule) ∧
      (admitCall 200 ⟨"w", "L", ["q"], 1, 10, 1⟩ .increasing (exec dueLater)).2 = .ok ["a"]) ∧
    (explainAdmission 0 "a" (exec widestClass)).map AdmissionEvaluation.blockedBy
        = some (some .rateClass) ∧
      (admitCall 0 ⟨"w", "L", ["q"], 1, 10, 1⟩ .increasing (exec widestClass)).2 = .ok ["a"] := by
  decide +kernel

/-! ## Section 5: The estimate -/

/-- The tokens a blocked job waits for. -/
def lacking (t : Int) (b : Bucket) (j : Job) : Int := cost j - (refill t b).tokens

/-- The estimate is computed in `i64`. -/
def EstimateFits (t : Int) (b : Bucket) (j : Job) : Prop :=
  ∀ n ∈ [cost j, lacking t b j, max 1 (lacking t b j) * b.window], -2 ^ 63 ≤ n ∧ n < 2 ^ 63

instance (t : Int) (b : Bucket) (j : Job) : Decidable (EstimateFits t b j) :=
  inferInstanceAs (Decidable (∀ n ∈ [_, _, _], _))

/-- What the script writes about the class is short enough to be read back. -/
@[mk_iff]
structure Legible (t : Int) (b : Bucket) : Prop where
  clock : t.natAbs < 10 ^ 14
  tokens : (refill t b).tokens.natAbs < 10 ^ 14
  limit : b.limit.natAbs < 10 ^ 14
  window : b.window.natAbs < 10 ^ 14

instance (t : Int) (b : Bucket) : Decidable (Legible t b) := decidable_of_iff' _ (legible_iff ..)

/-- A refill reaches an amount up to the burst that the bucket does not hold when it gains what is
missing. -/
theorem le_refill_iff {t n : Int} {b : Bucket} (hwindow : 0 < b.window) (hburst : n ≤ b.burst)
    (hshort : b.tokens < n) (hexact : b.Exact (t - b.refilled)) :
    n ≤ (refill t b).tokens ↔ (n - b.tokens) * b.window ≤ (t - b.refilled) * b.limit := by
  rw [← Int.le_ediv_iff_mul_le hwindow, ← Bucket.gained_eq hwindow hexact]
  unfold refill
  dsimp only
  split
  · dsimp only
    omega
  · omega

/-- The estimate of a job that lacks tokens of a legible class. -/
theorem estimate_eq {s : Store} {id : String} {j : Job} {b : Bucket} {t e : Int}
    {v : AdmissionEvaluation} (hrow : s.job? id = some j) (hb : namedBucket s j.rateClass = some b)
    (hlegible : Legible t b) (hv : explainAdmission t id s = some v)
    (hblocked : v.blockedBy = some .rateClass) (heta : v.estimatedAdmissionMs = some e) :
    0 < b.limit ∧ 0 < lacking t b j ∧ e = lacking t b j * b.window / b.limit := by
  unfold explainAdmission at hv
  rw [hrow, Option.map_some, Option.some_inj] at hv
  subst hv
  obtain ⟨available, havailable, hshort, heta'⟩ := evaluateAdmission_rateClass hblocked
  have hrequired : (explainFacts t id j s).required = cost j := by
    simp only [AdmissionFacts.required, explainFacts, cost]
    split <;> omega
  -- the numbers arrive as they were written
  simp only [explainFacts, hb, Option.map_some, Option.some_inj,
    throughLua_short hlegible.tokens] at havailable
  rw [hrequired] at hshort heta'
  rw [heta'] at heta
  simp only [explainFacts, hb, Option.map_some, Option.getD_some, throughLua_short hlegible.limit,
    throughLua_short hlegible.window, Option.ite_none_right_eq_some, Option.some_inj] at heta
  subst havailable
  have hpos : 1 ≤ lacking t b j := by
    unfold lacking
    omega
  exact ⟨heta.1, hpos, by rw [← heta.2]; unfold lacking at hpos ⊢; rw [max_eq_right hpos]⟩

/-- A class that was paused and is empty, and a job of it. -/
def emptyClass (limit window burst : Int) (weight : Nat) : List Call :=
  [⟨0, .upsertRateClass "r" limit window burst true⟩,
    ⟨0, .upsertRateClass "r" limit window burst false⟩,
    ⟨0, .enqueue [{ id := "a", kind := "k", queue := "q", rateClass := "r", weight := weight }]⟩]

end Headgate.Redis
