import Headgate.Redis.Held
import Headgate.Redis.Names
import Headgate.Redis.Selection

/-!
# The running zsets of partitions

`runningp:{queue}:{part}` lists the running jobs of a partition by the time of
their claim; it is where `cancel_running` looks for victims.  Two things make it
different from the other accounts of running jobs.

An admission enters its claims only when its selection is over, so that no claim
can displace another of the same call.  Inside the loop the zsets therefore miss
exactly the claims in `running_add` (`Roster`).

And the key is a join of two names.  `cancel_oldest_running` drops every entry on
its way that is not a running job of its own queue and partition, which is tidy
as long as such entries are stale.  For queue names with a colon two partitions
can share the key, and the entry that goes may be a running job of the other.
-/

namespace Headgate.Redis

open Headgate.Core Data Relation

variable {s s' : Store} {part queue : String} {c : Candidate} {l : Selection} {a : Action}
  {now : Int} {req : AdmitRequest}

/-! ## Section 1: Listed leases -/

/-- The entry of a lease in the zset of a key: the time of its claim. -/
def Held.listing (key : String) (h : Held) : Option Int :=
  if partKey h.queue h.part = key then some h.lease.claimedAtMs else none

/-- The zsets of the partitions mirror the leases held. -/
def Listed (s : Store) : Prop :=
  ∀ key, Mirrors (Held.listing key) s.held (s.running.runningp key).score

theorem listed_init : Listed Store.init := by
  intro key id
  have hnone : Store.init.held id = none := by simp [Store.held]
  rw [hnone]
  rfl

/-- Outside admission an entry goes with the lease it stands for. -/
theorem LeaseMove.listed (m : LeaseMove s s') (h : Listed s) : Listed s' := by
  intro key
  cases m with
  | keep held running | stray id was held running =>
    rw [running]
    exact (h key).congr held fun _ => rfl
  -- a renewal moves the expiry, which the roster does not show
  | renew id e expires was held running =>
    rw [running]
    refine (h key).keep held ?_ fun _ => rfl
    rw [was]
    rfl
  | leave id e was held running =>
    rw [running]
    refine (h key).replace held fun x => ?_
    rw [Running.score_runningp_drop]
    by_cases hx : x = id
    · subst hx
      rw [if_pos rfl, Option.bind_none]
      split
      · rfl
      · -- the job was listed under its own key only
        rename_i hkey
        rw [(h key).at_row was]
        exact if_neg fun hc => hkey ⟨hc.symm, rfl⟩
    · rw [if_neg hx, if_neg fun hc => hx hc.2]

/-! ## Section 2: The clauses in full -/

/-- Every entry of the partition's zset is a running job of the partition. -/
def OwnEntries (queue part : String) (s : Store) : Prop :=
  ∀ id sc, (s.running.runningp (partKey queue part)).score id = some sc →
    ∃ j, s.job? id = some j ∧ j.state = .running ∧ j.queue = queue ∧ j.partitionKey = part

/-- Then the first entry is displaced at once, and nothing is dropped on the way. -/
theorem cancelOldestRunning_cases (now : Int) (hown : OwnEntries queue part s) :
    ((s.running.runningp (partKey queue part)).first = none ∧
      cancelOldestRunning now queue part (s.running.runningp (partKey queue part)).card s =
        (s, false)) ∨
    ∃ id j, (s.running.runningp (partKey queue part)).first = some id ∧ s.job? id = some j ∧
      (j.state = .running ∧ j.queue = queue ∧ j.partitionKey = part) ∧
      cancelOldestRunning now queue part (s.running.runningp (partKey queue part)).card s =
        (displace now id j s, true) := by
  cases hfirst : (s.running.runningp (partKey queue part)).first with
  | none =>
    left
    refine ⟨rfl, ?_⟩
    cases (s.running.runningp (partKey queue part)).card with
    | zero => rfl
    | succ =>
      unfold cancelOldestRunning
      rw [hfirst]
  | some id =>
    right
    obtain ⟨sc, hsc, -⟩ := ZSet.first_eq_some _ hfirst
    obtain ⟨j, row, hj⟩ := hown id sc hsc
    refine ⟨id, j, rfl, row, hj, ?_⟩
    -- there is an entry, so there is fuel for it
    have hcard : (s.running.runningp (partKey queue part)).card ≠ 0 := by
      intro hzero
      rw [(ZSet.card_eq_zero _).mp hzero id] at hsc
      cases hsc
    obtain ⟨n, hn⟩ := Nat.exists_eq_succ_of_ne_zero hcard
    rw [hn]
    unfold cancelOldestRunning
    rw [hfirst]
    dsimp only
    rw [row]
    dsimp only
    rw [if_pos hj]

/-- The verdicts of the ceiling on a candidate of `queue` and `part`. -/
inductive CeilingVerdict (now : Int) (queue part : String) (l : Selection) :
    Selection → Option Action → Prop where
  | unlimited (limit : concurrencyPolicy l.store queue = none) :
      CeilingVerdict now queue part l l (some .claim)
  | room (cfg : ConcurrencyLimit) (limit : concurrencyPolicy l.store queue = some cfg)
      (below : l.store.running.inflight queue part < cfg.maxConcurrent)
      (incoming : cfg.onSaturated = .cancelRunning →
        l.selectedIncoming (tableKey queue part) < cfg.maxConcurrent) :
      CeilingVerdict now queue part l l (some .claim)
  /-- The job that was claimed first makes room. -/
  | displaces (cfg : ConcurrencyLimit) (limit : concurrencyPolicy l.store queue = some cfg)
      (strategy : cfg.onSaturated = .cancelRunning)
      (incoming : l.selectedIncoming (tableKey queue part) < cfg.maxConcurrent)
      (full : cfg.maxConcurrent ≤ l.store.running.inflight queue part) (id : String) (j : Job)
      (first : (l.store.running.runningp (partKey queue part)).first = some id)
      (row : l.store.job? id = some j)
      (own : j.state = .running ∧ j.queue = queue ∧ j.partitionKey = part) :
      CeilingVerdict now queue part l { l with store := displace now id j l.store } (some .claim)
  /-- The candidate stays where it is. -/
  | holds (cfg : ConcurrencyLimit) (limit : concurrencyPolicy l.store queue = some cfg)
      (full : cfg.maxConcurrent ≤ l.store.running.inflight queue part ∨
        cfg.onSaturated = .cancelRunning ∧
          cfg.maxConcurrent ≤ l.selectedIncoming (tableKey queue part)) :
      CeilingVerdict now queue part l l none
  /-- The candidate becomes terminal. -/
  | refuses (cfg : ConcurrencyLimit) (limit : concurrencyPolicy l.store queue = some cfg)
      (strategy : cfg.onSaturated ≠ .cancelRunning)
      (full : cfg.maxConcurrent ≤ l.store.running.inflight queue part) (a : Action)
      (terminal : a ≠ .claim) : CeilingVerdict now queue part l l (some a)

theorem passCeiling_verdict (now : Int) (hown : OwnEntries queue c.job.partitionKey l.store) :
    CeilingVerdict now queue c.job.partitionKey l (passCeiling now queue c l).1
      (passCeiling now queue c l).2 := by
  unfold passCeiling
  cases hlimit : concurrencyPolicy l.store queue with
  | none => exact .unlimited hlimit
  | some cfg =>
    dsimp only
    have hplain : ∀ x, cfg.onSaturated = x → x ≠ .cancelRunning →
        cfg.onSaturated ≠ .cancelRunning := fun x hx hne => hx ▸ hne
    -- full or not, `cancel_running` first asks how many this call has already taken in
    by_cases hfull : l.store.running.inflight queue c.job.partitionKey ≥ cfg.maxConcurrent
    · cases hstrategy : cfg.onSaturated with
      | cancelRunning =>
        by_cases hincoming :
            l.selectedIncoming (tableKey queue c.job.partitionKey) ≥ cfg.maxConcurrent
        · rw [if_pos hincoming]
          exact .holds cfg hlimit (.inr ⟨hstrategy, hincoming⟩)
        · rw [if_neg hincoming, if_pos hfull]
          -- full and nobody to displace: the job is held back
          rcases cancelOldestRunning_cases now hown with ⟨-, heq⟩ | ⟨id, j, hfirst, row, hj, heq⟩
          · rw [heq]
            exact .holds cfg hlimit (.inl hfull)
          · rw [heq]
            exact .displaces cfg hlimit hstrategy (not_le.mp hincoming) hfull id j hfirst row hj
      | discard | cancelIncoming =>
        dsimp only
        rw [if_pos hfull]
        exact .refuses cfg hlimit (hplain _ hstrategy (by simp)) hfull _ (by simp)
      | queue =>
        dsimp only
        rw [if_pos hfull]
        exact .holds cfg hlimit (.inl hfull)
    · have hbelow := not_le.mp hfull
      cases hstrategy : cfg.onSaturated with
      | cancelRunning =>
        by_cases hincoming :
            l.selectedIncoming (tableKey queue c.job.partitionKey) ≥ cfg.maxConcurrent
        · rw [if_pos hincoming]
          exact .holds cfg hlimit (.inr ⟨hstrategy, hincoming⟩)
        · rw [if_neg hincoming, if_neg hfull]
          exact .room cfg hlimit hbelow fun _ => not_le.mp hincoming
      | discard | cancelIncoming | queue =>
        dsimp only
        rw [if_neg hfull]
        exact .room cfg hlimit hbelow fun hc => absurd hc (hplain _ hstrategy (by simp))

/-- The clauses of a candidate: the ceiling speaks last, over a store with other buckets. -/
theorem gateVerdict_verdict (now : Int) (req : AdmitRequest)
    (hown : OwnEntries queue c.job.partitionKey l.store) :
    ∃ l₁ p, l₁.store = { l.store with policy := p } ∧ l.store.policy.SameRules p ∧
      SameTables l l₁ ∧ (gateVerdict now req queue c l = (l₁, none) ∨
        CeilingVerdict now queue c.job.partitionKey l₁ (gateVerdict now req queue c l).1
          (gateVerdict now req queue c l).2) := by
  -- the rate clause refills a bucket, and the ceiling is asked after that
  obtain ⟨p, hp⟩ := passRate_store now c l
  have hclause := passRate_clause now c l
  have hrules : l.store.policy.SameRules p := by
    have h := hclause.rules
    rw [hp] at h
    exact h
  rcases gateVerdict_cases now req queue c l with ⟨-, heq⟩ | ⟨-, heq⟩ | ⟨-, -, heq⟩
  · exact ⟨l, l.store.policy, rfl, .refl _, .refl l, .inl heq⟩
  · exact ⟨_, p, hp, hrules, hclause.tables, .inl heq⟩
  · refine ⟨_, p, hp, hrules, hclause.tables, .inr ?_⟩
    rw [heq]
    apply passCeiling_verdict
    rw [hp]
    exact hown

/-! ## Section 3: The leases of one round -/

theorem displace_held (now : Int) (id : String) (j : Job) (s : Store) (x : String) :
    (displace now id j s).held x = if x = id then none else s.held x := by
  rw [(displace_effect now id j s).held]
  rfl

/-- What a fresh claim holds. -/
def freshHeld (now : Int) (req : AdmitRequest) (c : Candidate) : Held :=
  ⟨c.job.queue, c.job.partitionKey, ⟨req.leaseId, now + req.leaseMs, now, req.worker⟩⟩

section
variable (now : Int) (req : AdmitRequest)

theorem decidedRound_claim_held (row : l.store.job? c.id = some c.job)
    (hqueue : queue = c.job.queue) (x : String) :
    (decidedRound now req queue c .claim l).store.held x =
      if x = c.id then some (freshHeld now req c) else l.store.held x := by
  subst hqueue
  exact (claimJob_effect now req _ row).held x

theorem decidedRound_claim_running (row : l.store.job? c.id = some c.job)
    (hqueue : queue = c.job.queue) :
    (decidedRound now req queue c .claim l).store.running =
      l.store.running.claim c.id queue c.job.partitionKey (now + req.leaseMs) := by
  subst hqueue
  exact (claimJob_effect now req _ row).running

theorem decidedRound_end_running (ha : a ≠ .claim) :
    (decidedRound now req queue c a l).store.running = l.store.running := by
  cases a with
  | claim => exact absurd rfl ha
  | discard | cancelIncoming => rfl

theorem decidedRound_end_rows (ha : a ≠ .claim) (row : l.store.job? c.id = some c.job) :
    ∃ j, j.state.isTerminal = true ∧ ∀ x, (decidedRound now req queue c a l).store.job? x =
      if x = c.id then some j else l.store.job? x := by
  -- the removal from the stream does not touch the row that is then ended
  have hend : ∀ (to_ : State) (x : String), (terminalizeIncoming now c to_
      (removeWaiting c.id queue c.job.partitionKey c.job.stickyWorker l.store)).job? x =
        if x = c.id then some (terminalizedRow now to_ c.job) else l.store.job? x := by
    intro to_ x
    have hrow : (removeWaiting c.id queue c.job.partitionKey c.job.stickyWorker l.store).job? c.id =
        some c.job := row
    unfold terminalizeIncoming
    rw [hrow]
    exact Store.job?_setJob l.store c.id x _
  cases a with
  | claim => exact absurd rfl ha
  | discard => exact ⟨_, rfl, hend .archived⟩
  | cancelIncoming => exact ⟨_, rfl, hend .cancelled⟩

/-- A candidate that becomes terminal held nothing before. -/
theorem decidedRound_end_held (ha : a ≠ .claim) (row : l.store.job? c.id = some c.job)
    (waiting : c.job.state.isWaiting = true) (x : String) :
    (decidedRound now req queue c a l).store.held x = l.store.held x := by
  obtain ⟨j, terminal, hrows⟩ : ∃ j, j.state.isTerminal = true ∧ ∀ x,
      (decidedRound now req queue c a l).store.job? x =
        if x = c.id then some j else l.store.job? x := decidedRound_end_rows now req ha row
  unfold Store.held
  rw [hrows]
  split
  · rename_i hx
    rw [hx, row, Option.bind_some, Option.bind_some,
      Job.held_of_idle (not_running_of_terminal terminal),
      Job.held_of_idle (not_running_of_waiting waiting)]
  · rfl

theorem decidedRound_claim_adds :
    (decidedRound now req queue c .claim l).runningAdd =
      l.runningAdd ++ [(queue, c.job.partitionKey, c.id)] := rfl

theorem decidedRound_end_adds (ha : a ≠ .claim) :
    (decidedRound now req queue c a l).runningAdd = l.runningAdd := by
  cases a with
  | claim => exact absurd rfl ha
  | discard | cancelIncoming => rfl

end

/-! ## Section 4: The zsets inside an admission -/

/-- The ids of `running_add`. -/
def addedIds (adds : List (String × String × String)) : List String := adds.map fun a => a.2.2

/-- Inside the loop: the zsets mirror the leases held, but for the claims of this call. -/
structure Roster (now : Int) (s : Store) (adds : List (String × String × String)) : Prop where
  names : ∀ id h, s.held id = some h → Without ':' h.queue
  listed : ∀ key id, (s.running.runningp key).score id =
    if id ∈ addedIds adds then none else (s.held id).bind (Held.listing key)
  added : ∀ a ∈ adds, ∃ h, s.held a.2.2 = some h ∧ h.queue = a.1 ∧ h.part = a.2.1 ∧
    h.lease.claimedAtMs = now

namespace Roster
variable {adds : List (String × String × String)} {id : String} {h : Held}

theorem start (hs : Listed s) (names : ∀ id h, s.held id = some h → Without ':' h.queue) :
    Roster now s [] :=
  ⟨names, fun key id => hs key id, by simp⟩

section
variable (hr : Roster now s adds)
include hr

theorem keep (held : ∀ x, s'.held x = s.held x)
    (running : s'.running = s.running) : Roster now s' adds := by
  refine ⟨fun id h hh => ?_, fun key id => ?_, fun a ha => ?_⟩
  · rw [held] at hh
    exact hr.names id h hh
  · rw [running, held]
    exact hr.listed key id
  · rw [held]
    exact hr.added a ha

/-- An entry of a partition's zset is a lease of the partition, claimed at its score. -/
theorem entry (hq : Without ':' queue) {sc : Int}
    (hsc : (s.running.runningp (partKey queue part)).score id = some sc) :
    ∃ h, s.held id = some h ∧ h.queue = queue ∧ h.part = part ∧ h.lease.claimedAtMs = sc ∧
      id ∉ addedIds adds := by
  rw [hr.listed] at hsc
  split at hsc
  · cases hsc
  · rename_i hnew
    obtain ⟨h, hh, hlisting⟩ := Option.bind_eq_some_iff.mp hsc
    unfold Held.listing at hlisting
    split at hlisting
    · rename_i hkey
      -- the key is joined from names; without a colon in the queue it can be read back
      obtain ⟨hqueue, hpart⟩ := partKey_inj (hr.names id h hh) hq hkey
      exact ⟨h, hh, hqueue, hpart, Option.some.inj hlisting, hnew⟩
    · cases hlisting

theorem ownEntries (hq : Without ':' queue) (part : String) :
    OwnEntries queue part s := by
  intro id sc hsc
  obtain ⟨h, hh, hqueue, hpart, -⟩ := hr.entry hq hsc
  obtain ⟨j, row, running, hq', hp', -⟩ := Store.held_eq_some.mp hh
  exact ⟨j, row, running, hq'.trans hqueue, hp'.trans hpart⟩

/-- A lease that is not of this call ends. -/
theorem leave (was : s.held id = some h) (hold : id ∉ addedIds adds)
    (held : ∀ x, s'.held x = if x = id then none else s.held x)
    (running : s'.running = s.running.drop id h.queue h.part) : Roster now s' adds := by
  refine ⟨fun x k hk => ?_, fun key x => ?_, fun a ha => ?_⟩
  · rw [held] at hk
    split at hk
    · cases hk
    · exact hr.names x k hk
  · -- the script removes the id from the zset of its own key
    rw [running, Running.score_runningp_drop, held]
    by_cases hx : x = id
    · subst hx
      rw [if_neg hold, if_pos rfl, Option.bind_none]
      split
      · rfl
      · -- under another key it was not listed
        rename_i hkey
        rw [hr.listed, if_neg hold, was, Option.bind_some]
        exact if_neg fun hc => hkey ⟨hc.symm, rfl⟩
    · rw [if_neg fun hc => hx hc.2, if_neg hx]
      exact hr.listed key x
  · -- jobs of this call are listed later; none of them is the one that leaves
    obtain ⟨k, hk, hrest⟩ := hr.added a ha
    refine ⟨k, ?_, hrest⟩
    rw [held, if_neg, hk]
    intro hx
    exact hold (hx ▸ List.mem_map_of_mem ha)

/-- A lease of this call begins; its entry is put off. -/
theorem enter (was : s.held id = none) (hq : Without ':' h.queue)
    (hnow : h.lease.claimedAtMs = now)
    (held : ∀ x, s'.held x = if x = id then some h else s.held x)
    (running : s'.running = s.running.claim id h.queue h.part h.lease.expiresAtMs) :
    Roster now s' (adds ++ [(h.queue, h.part, id)]) := by
  have hids : addedIds (adds ++ [(h.queue, h.part, id)]) = addedIds adds ++ [id] := by
    simp [addedIds]
  refine ⟨fun x k hk => ?_, fun key x => ?_, fun a ha => ?_⟩
  · rw [held] at hk
    split at hk
    · cases hk
      exact hq
    · exact hr.names x k hk
  · -- the claim is listed when the loop is over, so the zsets are still the old ones
    have hsame : s'.running.runningp = s.running.runningp := by
      rw [running]
      rfl
    rw [hsame, hids, hr.listed, held]
    by_cases hx : x = id
    · subst hx
      simp [was]
    · simp [hx]
  · rcases List.mem_append.mp ha with hin | hlast
    · obtain ⟨k, hk, hrest⟩ := hr.added a hin
      refine ⟨k, ?_, hrest⟩
      rw [held, if_neg, hk]
      rintro rfl
      rw [was] at hk
      cases hk
    · rw [List.mem_singleton] at hlast
      subst hlast
      exact ⟨h, by rw [held, if_pos rfl], rfl, rfl, hnow⟩

end

end Roster

/-- The clauses keep the roster: a victim is never a claim of the same call. -/
theorem Roster.clauses (hr : Roster now l.store l.runningAdd) (hq : Without ':' queue) :
    Roster now (gateVerdict now req queue c l).1.store l.runningAdd := by
  obtain ⟨l₁, p, hstore, -, -, hverdict⟩ := gateVerdict_verdict now req
    (hr.ownEntries hq c.job.partitionKey)
  have hrate : Roster now l₁.store l.runningAdd := by
    rw [hstore]
    exact hr.keep (fun _ => rfl) rfl
  rcases hverdict with heq | hverdict
  · rw [heq]
    exact hrate
  · generalize (gateVerdict now req queue c l).1 = l₂,
      (gateVerdict now req queue c l).2 = a at hverdict
    cases hverdict with
    | unlimited | room | holds | refuses => exact hrate
    | displaces cfg limit strategy incoming full id j first row own =>
      -- the victim comes from the zset, so it was running before this call
      obtain ⟨sc, hsc, -⟩ := ZSet.first_eq_some _ first
      obtain ⟨h, hh, hqueue, hpart, -, hold⟩ := hrate.entry hq hsc
      refine hrate.leave hh hold (displace_held now id j l₁.store) ?_
      rw [(displace_effect now id j l₁.store).running, hqueue, hpart, own.2.1, own.2.2]

/-- A round keeps the roster. -/
theorem Roster.round (hr : Roster now l.store l.runningAdd) (hentries : EntriesOk l.store)
    (hsnap : Snapshot l.store c) (hq : Without ':' queue) :
    Roster now (considerCandidate now req queue c l).store
      (considerCandidate now req queue c l).runningAdd := by
  have hclauses : Roster now (gateVerdict now req queue c l).1.store l.runningAdd := hr.clauses hq
  have hadds := (gateVerdict_clause now req queue c l).tables.runningAdd
  rcases considerCandidate_cases now req queue c l with ⟨-, heq⟩ | ⟨a, -, -, heq⟩ | ⟨a, -, hin, heq⟩
  · rw [heq, hadds]
    exact hclauses
  · rw [heq]
    rw [hadds]
    exact hclauses.keep (fun _ => rfl) rfl
  · obtain ⟨row, waiting, hown⟩ := decided_row now req hentries hsnap hin
    subst hown
    rw [heq]
    by_cases ha : a = .claim
    · subst ha
      -- a claimed job was waiting, so it enters the roster anew
      rw [decidedRound_claim_adds, hadds]
      refine hclauses.enter ?_ hq rfl
        (decidedRound_claim_held now req row rfl) (decidedRound_claim_running now req row rfl)
      exact (Store.held_eq row).trans (Job.held_of_idle (not_running_of_waiting waiting))
    · rw [decidedRound_end_adds now req ha, hadds]
      exact hclauses.keep (decidedRound_end_held now req ha row waiting)
        (decidedRound_end_running now req ha)

/-- The roster at the end of a selection on colon-free queues. -/
theorem selection_roster (now : Int) (req : AdmitRequest) (order : SetOrder String)
    {queues : List String} (hqueues : ∀ q ∈ queues, Without ':' q) (hentries : EntriesOk s)
    (hr : Roster now s []) :
    Roster now (selection now req order queues s).1.store
      (selection now req order queues s).1.runningAdd := by
  refine selection_induct (P := fun l => Roster now l.store l.runningAdd) hentries ?_ ?_
  · exact fun routes => hr.keep (fun _ => rfl) rfl
  · intro l q c rest hok hl _ hchoose hc
    exact Roster.round (l := l.pop q rest) hl hok.entries
      (hok.head hc) (hqueues q (chooseQueue_mem hchoose).1)

/-- The entries put off are written. -/
theorem score_addRunning (now : Int) (adds : List (String × String × String)) (r : Running)
    (key id : String) :
    ((addRunning now adds r).runningp key).score id =
      if ∃ a ∈ adds, a.2.2 = id ∧ partKey a.1 a.2.1 = key then some now
      else (r.runningp key).score id := by
  induction adds generalizing r with
  | nil => simp [addRunning]
  | cons a adds ih =>
    -- one add sets one score; later adds of the same id under the key set it to the same instant
    have hfirst : ((r.addRunningp a.2.2 a.1 a.2.1 now).runningp key).score id =
        if a.2.2 = id ∧ partKey a.1 a.2.1 = key then some now else (r.runningp key).score id := by
      show (Function.update r.runningp (partKey a.1 a.2.1) _ key).score id = _
      by_cases hkey : key = partKey a.1 a.2.1
      · subst hkey
        simp [eq_comm]
      · simp [hkey, Ne.symm hkey]
    show ((addRunning now adds (r.addRunningp a.2.2 a.1 a.2.1 now)).runningp key).score id = _
    rw [ih, hfirst]
    by_cases hrest : ∃ a ∈ adds, a.2.2 = id ∧ partKey a.1 a.2.1 = key
    · rw [if_pos hrest, if_pos]
      obtain ⟨b, hb, hkey⟩ := hrest
      exact ⟨b, List.mem_cons_of_mem a hb, hkey⟩
    · rw [if_neg hrest]
      have hiff : (∃ b ∈ a :: adds, b.2.2 = id ∧ partKey b.1 b.2.1 = key) ↔
          a.2.2 = id ∧ partKey a.1 a.2.1 = key := by
        rw [List.exists_mem_cons_iff]
        exact or_iff_left hrest
      simp only [hiff]

/-- With the deferred entries the zsets mirror the leases again. -/
theorem Roster.settled {seen : List String} (hr : Roster now l.store l.runningAdd) :
    Listed (settle now req seen l) := by
  intro key id
  show ((addRunning now l.runningAdd l.store.running).runningp key).score id =
    (l.store.held id).bind (Held.listing key)
  rw [score_addRunning]
  by_cases hnew : id ∈ addedIds l.runningAdd
  · obtain ⟨a, ha, rfl⟩ := List.mem_map.mp hnew
    obtain ⟨h, hh, hqueue, hpart, hnow⟩ := hr.added a ha
    rw [hh, Option.bind_some]
    unfold Held.listing
    rw [hnow]
    by_cases hkey : partKey h.queue h.part = key
    · rw [if_pos hkey, if_pos]
      exact ⟨a, ha, rfl, by rw [← hqueue, ← hpart]; exact hkey⟩
    · rw [if_neg hkey, if_neg, hr.listed, if_pos hnew]
      -- all entries of the job in `running_add` name the partition of its lease
      rintro ⟨b, hb, hid, hkeyb⟩
      obtain ⟨k, hk, hqueueb, hpartb, -⟩ := hr.added b hb
      rw [hid, hh] at hk
      cases hk
      exact hkey (by rw [hqueueb, hpartb]; exact hkeyb)
  · rw [if_neg, hr.listed, if_neg hnew]
    rintro ⟨a, ha, hid, -⟩
    exact hnew (hid ▸ List.mem_map_of_mem ha)

/-! ## Section 5: Along every run -/

/-- The queues a call asks the gate for. -/
def Op.requested : Op → List String
  | .admission req _ => requestQueues req
  | _ => []

/-- No admission is asked for a queue with a colon in its name. -/
def ColonFree (_ : Store) (c : Call) : Prop := ∀ q ∈ c.op.requested, Without ':' q

instance (s : Store) (c : Call) : Decidable (ColonFree s c) :=
  inferInstanceAs (Decidable (∀ q ∈ c.op.requested, Without ':' q))

/-- The zsets mirror the leases, and all leases are held against colon-free queues. -/
structure ListedOk (s : Store) : Prop where
  leased : Leased s
  listed : Listed s
  names : ∀ id h, s.held id = some h → Without ':' h.queue

theorem listedOk_init : ListedOk Store.init := by
  refine ⟨heldOk_init.leased, listed_init, fun id h hh => ?_⟩
  simp [Store.held] at hh

/-- Outside admission no lease moves to another queue. -/
theorem LeaseMove.names (m : LeaseMove s s')
    (names : ∀ id h, s.held id = some h → Without ':' h.queue) :
    ∀ id h, s'.held id = some h → Without ':' h.queue := by
  intro x k hk
  cases m with
  | keep held | stray id was held =>
    rw [held] at hk
    exact names x k hk
  | renew id e expires was held =>
    rw [held] at hk
    split at hk
    · cases hk
      exact names id e was
    · exact names x k hk
  | leave id e was held =>
    rw [held] at hk
    split at hk
    · cases hk
    · exact names x k hk

theorem ReleaseMove.listedOk (m : ReleaseMove s s') (h : ListedOk s) :
    ListedOk s' := by
  obtain ⟨hmove, hleased⟩ := m.leaseMove h.leased
  exact ⟨hleased, hmove.listed h.listed, hmove.names h.names⟩

/-- An admission on colon-free queues. -/
theorem admitCall_listedOk (now : Int) (req : AdmitRequest) (order : SetOrder String)
    (hs : EntriesOk s) (h : ListedOk s) (hqueues : ∀ q ∈ requestQueues req, Without ':' q) :
    ListedOk (admitCall now req order s).1 := by
  have hleased : Leased (admitCall now req order s).1 :=
    (admitCall_step now req order s hs).moves.preserves
      (fun _ _ m hl => (m.heldMove hl).2) h.leased
  by_cases hlease : req.leaseMs < 1
  · rw [admitCall_refused hlease]
    exact h
  · rw [admitCall_eq (not_lt.mp hlease)] at hleased ⊢
    have hroster := selection_roster now req order hqueues hs (Roster.start h.listed h.names)
    exact ⟨hleased, hroster.settled, hroster.names⟩

theorem step_listedOk (s : Store) (c : Call) (hs : EntriesOk s) (hc : ColonFree s c)
    (h : ListedOk s) : ListedOk (step s c) := by
  rcases step_cases s c hs with ⟨-, hmoves⟩ | ⟨fp, order, -, hmoves⟩ | ⟨req, order, hop, -⟩
  · have hplain : ReleaseMoves s (step s c) :=
      .mono (fun _ _ => ReleaseMove.plain) s _ hmoves
    exact hplain.preserves (fun _ _ m => m.listedOk) h
  · exact hmoves.preserves (fun _ _ m => m.listedOk) h
  · obtain ⟨now, op⟩ := c
    subst hop
    exact admitCall_listedOk now req order hs h hc

theorem exec_listedOk {calls : List Call} (hcalls : EachStep step ColonFree Store.init calls) :
    ListedOk (exec calls) :=
  exec_invariant listedOk_init (fun calls c => step_listedOk _ c (exec_entriesOk calls)) hcalls

/-! ## Section 6: Five records of a running job -/

/-- The running jobs of a partition, by their hashes. -/
def Store.runningJobs (s : Store) (queue part : String) : Finset String :=
  s.ids.filter fun id => (s.job? id).any fun j =>
    j.state = .running && j.queue = queue && j.partitionKey = part

/-- The job is in the lease zset and in the set of its queue exactly when it is running; its
score is its expiry; the counters count the running jobs, so that none would drop below zero
when one of them stops. -/
structure RunningBooks (s : Store) : Prop where
  lease : ∀ id j, s.job? id = some j →
    (j.state = .running ↔ (s.running.lease.score id).isSome = true)
  queue : ∀ id j, s.job? id = some j → (j.state = .running ↔ id ∈ s.running.running j.queue)
  expiry : ∀ id j, s.job? id = some j → j.state = .running →
    ∃ l, j.lease = some l ∧ s.running.lease.score id = some l.expiresAtMs
  inflight : ∀ queue part, s.running.inflight queue part = (s.runningJobs queue part).card
  clamp : ∀ id j, s.job? id = some j → j.state = .running →
    0 ≤ s.running.inflight j.queue j.partitionKey - 1

theorem mem_runningJobs {id : String} :
    id ∈ s.runningJobs queue part ↔
      ∃ j, s.job? id = some j ∧ j.state = .running ∧ j.queue = queue ∧ j.partitionKey = part := by
  unfold Store.runningJobs
  rw [Finset.mem_filter, Store.mem_ids]
  constructor
  · rintro ⟨⟨j, row⟩, hany⟩
    rw [row] at hany
    exact ⟨j, row, by simpa [and_assoc] using hany⟩
  · rintro ⟨j, row, hj⟩
    refine ⟨⟨j, row⟩, ?_⟩
    rw [row]
    simpa [and_assoc] using hj

/-- With leases on all running jobs the two ways of counting agree. -/
theorem Leased.runningJobs_eq (h : Leased s) (queue part : String) :
    s.runningJobs queue part = s.runningIn queue part := by
  ext id
  rw [mem_runningJobs, s.runningIn_lists queue part id]
  constructor
  · rintro ⟨j, row, running, rfl, rfl⟩
    obtain ⟨l, lease⟩ := h id j row running
    exact ⟨_, (Store.held_eq row).trans (Job.held_of_lease running lease), rfl, rfl⟩
  · rintro ⟨e, he, rfl, rfl⟩
    obtain ⟨j, row, running, hq, hp, -⟩ := Store.held_eq_some.mp he
    exact ⟨j, row, running, hq, hp⟩

theorem HeldOk.runningBooks (h : HeldOk s) : RunningBooks s := by
  have hcount : ∀ queue part,
      s.running.inflight queue part = (s.runningJobs queue part).card := by
    intro queue part
    rw [h.leased.runningJobs_eq]
    exact h.accounts.inflight queue part
  refine ⟨fun id j row => ?_, fun id j row => ?_, fun id j row running => ?_, hcount,
    fun id j row running => ?_⟩
  · -- in the lease zset exactly if running: a running row has a lease
    rw [h.accounts.lease id, Store.held_eq row]
    constructor
    · intro running
      obtain ⟨l, lease⟩ := h.leased id j row running
      rw [Job.held_of_lease running lease]
      rfl
    · intro hsome
      by_contra idle
      rw [Job.held_of_idle idle] at hsome
      cases hsome
  · rw [h.accounts.running j.queue id, Store.held_eq row]
    constructor
    · intro running
      obtain ⟨l, lease⟩ := h.leased id j row running
      exact ⟨_, Job.held_of_lease running lease, rfl⟩
    · rintro ⟨e, he, -⟩
      by_contra idle
      rw [Job.held_of_idle idle] at he
      cases he
  · obtain ⟨l, lease⟩ := h.leased id j row running
    refine ⟨l, lease, ?_⟩
    rw [h.accounts.lease id, Store.held_eq row, Job.held_of_lease running lease]
    rfl
  · have hpos : 0 < (s.runningJobs j.queue j.partitionKey).card :=
      Finset.card_pos.mpr ⟨id, mem_runningJobs.mpr ⟨j, row, running, rfl, rfl⟩⟩
    rw [hcount]
    omega

/-- Listed in the zset of its partition exactly when running. -/
theorem ListedOk.listed_iff (h : ListedOk s) {id : String} {j : Job} (row : s.job? id = some j) :
    j.state = .running ↔
      ((s.running.runningp (partKey j.queue j.partitionKey)).score id).isSome = true := by
  rw [h.listed _ id, Store.held_eq row]
  constructor
  · intro running
    obtain ⟨l, lease⟩ := h.leased id j row running
    rw [Job.held_of_lease running lease, Option.bind_some]
    simp [Held.listing]
  · intro hsome
    by_contra idle
    rw [Job.held_of_idle idle] at hsome
    cases hsome

/-- **Running books.**  Hash, lease zset, queue set and counter agree in every reachable store;
the zset of the partition agrees with them in every run that never asks the gate for a queue
with a colon in its name. -/
theorem exec_runningBooks (calls : List Call) :
    RunningBooks (exec calls) ∧
      (EachStep step ColonFree Store.init calls → ∀ id j, (exec calls).job? id = some j →
        (j.state = .running ↔
          (((exec calls).running.runningp (partKey j.queue j.partitionKey)).score id).isSome =
            true)) :=
  ⟨(exec_heldOk calls).runningBooks, fun hcalls _ _ row => (exec_listedOk hcalls).listed_iff row⟩

/-- A job is displaced by the next one of its partition. -/
def displacedRun : List Call :=
  [⟨0, .upsertConcurrencyLimit "one" ⟨"q", 1, .cancelRunning⟩⟩,
    ⟨0, .enqueue [{ id := "a", kind := "k", queue := "q", partitionKey := "p" }]⟩,
    ⟨1, .admission ⟨"w", "L1", ["q"], 1, 10, 1⟩ .increasing⟩,
    ⟨2, .enqueue [{ id := "b", kind := "k", queue := "q", partitionKey := "p" }]⟩,
    ⟨3, .admission ⟨"w", "L2", ["q"], 1, 10, 1⟩ .increasing⟩]

theorem exec_runningBooks_displacedRun :
    EachStep step ColonFree Store.init displacedRun ∧
      ∀ id j, (exec displacedRun).job? id = some j →
        (j.state = .running ↔
          (((exec displacedRun).running.runningp (partKey j.queue j.partitionKey)).score id).isSome =
            true) := by
  have hcalls : EachStep step ColonFree Store.init displacedRun := by decide +kernel
  exact ⟨hcalls, (exec_runningBooks displacedRun).2 hcalls⟩

/-- Partition `c` of `a:b` and partition `b:c` of `a` share one zset.  The third admission
looks for a victim in `a` and drops the entry of `x` on its way. -/
def sharedZset : List Call :=
  [⟨0, .upsertConcurrencyLimit "one" ⟨"a", 1, .cancelRunning⟩⟩,
    ⟨0, .enqueue [{ id := "x", kind := "k", queue := "a:b", partitionKey := "c" }]⟩,
    ⟨1, .admission ⟨"w", "L1", ["a:b"], 1, 10, 1⟩ .increasing⟩,
    ⟨2, .enqueue [{ id := "y", kind := "k", queue := "a", partitionKey := "b:c" }]⟩,
    ⟨3, .admission ⟨"w", "L2", ["a"], 1, 10, 1⟩ .increasing⟩,
    ⟨4, .enqueue [{ id := "z", kind := "k", queue := "a", partitionKey := "b:c" }]⟩,
    ⟨5, .admission ⟨"w", "L3", ["a"], 1, 10, 1⟩ .increasing⟩]

/-- A running job that its partition's zset no longer lists. -/
theorem running_unlisted :
    ((exec sharedZset).job? "x").map (fun j => (j.state, j.queue, j.partitionKey)) =
        some (.running, "a:b", "c") ∧
      ((exec sharedZset).running.lease.score "x").isSome = true ∧
      "x" ∈ (exec sharedZset).running.running "a:b" ∧
      ((exec sharedZset).running.runningp (partKey "a:b" "c")).score "x" = none := by
  decide +kernel

end Headgate.Redis
