import Headgate.Redis.Ceiling

/-!
# Candidates as the loop meets them

What an admission does to a job is settled in the one round that meets it.  This
file gives the loop's states a name (`Passes`), and a round its candidate
(`Meets`): a drawn candidate is met or still to come, in the order of its queue's
list; one that was met and not decided was held back by a clause; one that is
claimed was let through by all of them.
-/

namespace Headgate.Redis

open Headgate.Core Data Relation

variable {id : String} {j : Job} {calls : List Call} {req : AdmitRequest} {now : Int}
  {order : SetOrder String}

/-! ## Section 1: The states of the loop -/

section
variable (now : Int) (req : AdmitRequest) (weight : String → Int) (queues : List String)

/-- The selection after a round on the head of a queue's list. -/
def afterRound (q : String) (c : Candidate) (rest : List Candidate) (l : Selection) : Selection :=
  considerCandidate now req q c (l.pop q rest)

/-- The states the loop passes through. -/
inductive Passes (start : Selection) : Selection → Prop where
  | here : Passes start start
  | round {l : Selection} {q : String} {c : Candidate} {rest : List Candidate}
      (path : Passes start l) (room : l.decided < req.capacity)
      (chosen : chooseQueue weight queues l = some q) (next : l.cands q = c :: rest) :
      Passes start (afterRound now req q c rest l)

/-- The loop meets the candidate of a queue in the state `l`. -/
structure Meets (start : Selection) (q : String) (c : Candidate) (rest : List Candidate)
    (l : Selection) : Prop where
  path : Passes now req weight queues start l
  room : l.decided < req.capacity
  chosen : chooseQueue weight queues l = some q
  next : l.cands q = c :: rest

variable {now req weight queues} {start l : Selection} {q : String} {c d : Candidate}
  {rest : List Candidate}

theorem Meets.after (h : Meets now req weight queues start q c rest l) :
    Passes now req weight queues start (afterRound now req q c rest l) :=
  .round h.path h.room h.chosen h.next

theorem selectLoop_passes (now : Int) (req : AdmitRequest) (weight : String → Int)
    (queues : List String) (fuel : Nat) (l : Selection) :
    Passes now req weight queues l (selectLoop now req weight queues fuel l) :=
  selectLoop_induct (P := Passes now req weight queues l)
    (fun _ _ _ _ path room chosen next => .round path room chosen next) fuel l .here

section
variable (h : Passes now req weight queues start l)
include h

/-- What every round keeps, holds in every later state. -/
theorem Passes.preserves {P : Selection → Prop}
    (hround : ∀ l q c rest, Meets now req weight queues start q c rest l → P l →
      P (afterRound now req q c rest l)) (hstart : P start) : P l := by
  induction h with
  | here => exact hstart
  | round path room chosen next ih => exact hround _ _ _ _ ⟨path, room, chosen, next⟩ ih

theorem Passes.trans {m : Selection}
    (h' : Passes now req weight queues l m) : Passes now req weight queues start m :=
  h'.preserves (P := Passes now req weight queues start)
    (fun _ _ _ _ hmeets path => .round path hmeets.room hmeets.chosen hmeets.next) h

/-- Lists only get shorter. -/
theorem Passes.mem_start (hd : d ∈ l.cands q) :
    d ∈ start.cands q := by
  refine h.preserves (P := fun l => ∀ q d, d ∈ l.cands q → d ∈ start.cands q) ?_ (fun _ _ => id)
    q d hd
  intro l q c rest hmeets ih q' d hd
  unfold afterRound at hd
  rw [considerCandidate_cands] at hd
  exact ih q' d (mem_of_update_rest hmeets.next hd)

/-- A listed candidate is still to come, or was met. -/
theorem Passes.met (hd : d ∈ start.cands q) :
    d ∈ l.cands q ∨ ∃ m rest, Meets now req weight queues start q d rest m ∧
      Passes now req weight queues (afterRound now req q d rest m) l := by
  induction h with
  | here => exact .inl hd
  | @round l q' c rest path room chosen next ih =>
    rcases ih with hin | ⟨m, rest', hmeets, hpath⟩
    · by_cases hself : q' = q ∧ c = d
      · obtain ⟨rfl, rfl⟩ := hself
        exact .inr ⟨l, rest, ⟨path, room, chosen, next⟩, .here⟩
      · left
        unfold afterRound
        rw [considerCandidate_cands]
        exact mem_update_rest next hin hself
    · exact .inr ⟨m, rest', hmeets, .round hpath room chosen next⟩

end

end

/-! ## Section 2: Why a candidate stays -/

/-- A clause of quarantine, rate or ceiling holds the candidate back. -/
inductive Refusal (now : Int) (req : AdmitRequest) (queue : String) (c : Candidate)
    (l : Selection) : Prop where
  | quarantine (listed : passQuarantine c l.store = false)
  | rate (short : (passRate now c l).2 = false)
  | ceiling (fits : (passRate now c l).2 = true)
      (credit : passDeficit req queue c (passRate now c l).1 = true)
      (full : (passCeiling now queue c (passRate now c l).1).2 = none)

section
variable {queue : String} {c : Candidate} {l : Selection}

/-- Without a verdict, one of the clauses refused, or the partition's credit is used up. -/
theorem refusal_of_none (h : (gateVerdict now req queue c l).2 = none) :
    Refusal now req queue c l ∨ passDeficit req queue c (passRate now c l).1 = false := by
  rcases gateVerdict_cases now req queue c l with
    ⟨hquarantine, -⟩ | ⟨hrate | hcredit, -⟩ | ⟨hrate, hcredit, heq⟩
  · exact .inl (.quarantine hquarantine)
  · exact .inl (.rate hrate)
  · exact .inr hcredit
  · rw [heq] at h
    exact .inl (.ceiling hrate hcredit h)

/-- With a verdict, the partition had credit. -/
theorem passDeficit_of_some {a : Action} (h : (gateVerdict now req queue c l).2 = some a) :
    passDeficit req queue c (passRate now c l).1 = true := by
  rcases gateVerdict_cases now req queue c l with ⟨-, heq⟩ | ⟨-, heq⟩ | ⟨-, hcredit, -⟩
  · rw [heq] at h
    cases h
  · rw [heq] at h
    cases h
  · exact hcredit

/-- The credit clause compares what the partition took with what it may take. -/
theorem passDeficit_iff :
    passDeficit req queue c (passRate now c l).1 = true ↔
      l.takenPart (tableKey queue c.job.partitionKey) + 1 ≤
        deficit req.quantum queue c.job.partitionKey l.store := by
  have hclause := passRate_clause now c l
  unfold passDeficit deficit
  rw [decide_eq_true_eq, hclause.tables.takenPart, hclause.rules.deficit]

/-- A round never takes a decision back. -/
theorem considerCandidate_takenPart (key : String) :
    l.takenPart key ≤ (considerCandidate now req queue c l).takenPart key := by
  rcases considerCandidate_tables now req queue c l with hsame | ⟨a, -, -, hdecided⟩
  · rw [hsame.takenPart]
  · rw [hdecided.takenPart]
    by_cases hkey : key = tableKey queue c.job.partitionKey
    · subst hkey
      rw [Function.update_self]
      omega
    · rw [Function.update_of_ne hkey]

end

/-! ## Section 3: What becomes of a candidate -/

section
variable {weight : String → Int} {queues : List String} {start l : Selection} {q : String}
  {c : Candidate} {rest : List Candidate} {s : Store}

theorem LoopOk.passes (h : LoopOk now s start) (hplain : ∀ q ∈ queues, Without ':' q)
    (path : Passes now req weight queues start l) : LoopOk now s l :=
  path.preserves (P := LoopOk now s)
    (fun _ q _ _ hmeets hl => hl.round (hplain q (chooseQueue_mem hmeets.chosen).1) hmeets.next) h

theorem Passes.takenPart_le (path : Passes now req weight queues start l) (key : String) :
    start.takenPart key ≤ l.takenPart key :=
  path.preserves (P := fun l => start.takenPart key ≤ l.takenPart key)
    (fun _ _ _ _ _ hl => hl.trans (considerCandidate_takenPart key)) le_rfl

/-- A job that is not waiting does not come to wait again. -/
theorem Passes.not_waiting (h : SelectionOk start) (path : Passes now req weight queues start l)
    (row : start.store.job? id = some j) (decided : j.state.isWaiting = false) :
    ∃ j', l.store.job? id = some j' ∧ j'.state.isWaiting = false := by
  have hboth : SelectionOk l ∧ Aged start.store l.store :=
    path.preserves (P := fun l => SelectionOk l ∧ Aged start.store l.store)
      (fun _ _ _ _ hmeets hl => by
        obtain ⟨hok, hstep⟩ := hl.1.round now req hmeets.next
        exact ⟨hok, hl.2.trans hstep.aged⟩) ⟨h, .refl _⟩
  rcases hboth.2 id with hsame | hold
  · exact ⟨j, hsame.trans row, decided⟩
  · exact hold

section
variable (req : AdmitRequest) (h : LoopOk now s l)
include h

/-- A candidate that is let through does not wait any more. -/
theorem LoopOk.decided (hc : l.cands q = c :: rest) :
    ((gateVerdict now req q c (l.pop q rest)).2 = none) ∨
      ∃ j, (afterRound now req q c rest l).store.job? c.id = some j ∧
        j.state.isWaiting = false := by
  obtain ⟨-, hqueue, hstands⟩ := h.head hc
  subst hqueue
  set m : Selection := l.pop c.job.queue rest with hm
  have hholds : m.store.waiting.holds c.id c.job.queue c.job.partitionKey c.job.stickyWorker =
    true := hstands
  -- the candidate still stands in its stream, so the middle case cannot be
  rcases considerCandidate_cases now req c.job.queue c m with ⟨hnone, -⟩ | ⟨a, -, hnot, -⟩ |
    ⟨a, -, -, heq⟩
  · exact .inl hnone
  · rw [hholds] at hnot
    cases hnot
  · right
    obtain ⟨row, -, -⟩ := decided_row now req (l := m) h.ok.entries (h.ok.head hc) hholds
    unfold afterRound
    rw [heq]
    by_cases ha : a = .claim
    · subst ha
      obtain ⟨charge, hrows⟩ := decidedRound_claim_rows now req row
      exact ⟨_, (hrows c.id).trans (if_pos rfl), rfl⟩
    · obtain ⟨j, terminal, hrows⟩ : ∃ j, j.state.isTerminal = true ∧ ∀ x,
          (decidedRound now req c.job.queue c a
            (gateVerdict now req c.job.queue c m).1).store.job? x =
              if x = c.id then some j else (gateVerdict now req c.job.queue c m).1.store.job? x :=
        decidedRound_end_rows now req ha row
      exact ⟨j, (hrows c.id).trans (if_pos rfl), not_waiting_of_terminal terminal⟩

section
variable (hplain : Without ':' q) (hc : l.cands q = c :: rest)
include hplain hc

theorem LoopOk.toRound :
    Round now req c (l.pop q rest)
      (afterRound now req q c rest l) := by
  obtain ⟨-, rfl, hstands⟩ := h.head hc
  exact considerCandidate_round now req
    (l := l.pop c.job.queue rest) h.roster h.ok.entries
    (h.ok.head hc) hplain hstands

/-- A round writes the row of its candidate, and that of the running job it cancels, if any. -/
theorem LoopOk.others (hne : id ≠ c.id) :
    (afterRound now req q c rest l).store.job? id = l.store.job? id ∨
      ∃ j j', l.store.job? id = some j ∧ j.state.isWaiting = false ∧
        (afterRound now req q c rest l).store.job? id = some j' ∧ j'.state.isWaiting = false := by
  obtain ⟨-, rfl, -⟩ := h.head hc
  cases h.toRound req hplain hc with
  | keeps jobs => exact .inl (jobs id)
  | ends cfg limit strategy last jobs => exact .inl (jobs id hne)
  | claims room charge jobs =>
    left
    rw [jobs, if_neg hne]
  | replaces cfg limit incoming full victim k first charge jobs running =>
    by_cases hvictim : id = victim
    · -- the job that makes room was running
      right
      subst hvictim
      obtain ⟨sc, hsc, -⟩ := ZSet.first_eq_some _ first
      obtain ⟨j, row, hrunning, -⟩ := h.roster.ownEntries hplain c.job.partitionKey id sc hsc
      refine ⟨j, displacedRow now k, row, by rw [hrunning]; rfl, ?_, rfl⟩
      rw [jobs, if_neg hne, if_pos rfl]
    · left
      rw [jobs, if_neg hne, if_neg hvictim]

/-- A round leaves the other waiting jobs alone. -/
theorem LoopOk.bystander (row : l.store.job? id = some j)
    (waiting : j.state.isWaiting = true) (hne : id ≠ c.id) :
    (afterRound now req q c rest l).store.job? id = some j := by
  rcases h.others req hplain hc hne with hsame | ⟨j₁, j₂, row₁, hidle, -, -⟩
  · exact hsame.trans row
  · obtain rfl : j = j₁ := Option.some.inj (row.symm.trans row₁)
    rw [waiting] at hidle
    cases hidle

end

end

/-- A waiting job that is no candidate is not touched. -/
theorem Passes.row_of_undrawn (hok : LoopOk now s start) (hplain : ∀ q ∈ queues, Without ':' q)
    (path : Passes now req weight queues start l) (row : s.job? id = some j)
    (hrow : start.store.job? id = some j) (waiting : j.state.isWaiting = true)
    (hout : ∀ q, ⟨id, j⟩ ∉ start.cands q) :
    l.store.job? id = some j := by
  refine path.preserves (P := fun l => l.store.job? id = some j) ?_ hrow
  intro l q c rest hmeets hl
  have hloop := hok.passes hplain hmeets.path
  refine hloop.bystander req (hplain q (chooseQueue_mem hmeets.chosen).1) hmeets.next hl waiting ?_
  rintro rfl
  obtain ⟨hfresh, -, -⟩ := hloop.head hmeets.next
  obtain rfl : c.job = j := Option.some.inj (hfresh.row.symm.trans row)
  apply hout q
  apply hmeets.path.mem_start
  rw [hmeets.next]
  exact List.mem_cons_self

/-- What is claimed was met and let through. -/
theorem Passes.claimed_met (path : Passes now req weight queues start l) (hid : id ∈ l.claimed)
    (hstart : id ∉ start.claimed) :
    ∃ m q c rest, c.id = id ∧ Meets now req weight queues start q c rest m ∧
      Passes now req weight queues (afterRound now req q c rest m) l ∧
      (gateVerdict now req q c (m.pop q rest)).2 =
        some .claim := by
  induction path with
  | here => exact absurd hid hstart
  | @round m q c rest path room chosen next ih =>
    -- a claim of an earlier round is followed by this one too
    have hearlier : id ∈ m.claimed → ∃ m₀ q₀ c₀ rest₀, c₀.id = id ∧
        Meets now req weight queues start q₀ c₀ rest₀ m₀ ∧
        Passes now req weight queues (afterRound now req q₀ c₀ rest₀ m₀)
          (afterRound now req q c rest m) ∧
        (gateVerdict now req q₀ c₀ (m₀.pop q₀ rest₀)).2 =
          some .claim := by
      intro hin
      obtain ⟨m₀, q₀, c₀, rest₀, hc₀, hmeets, hrun, hverdict⟩ := ih hin
      exact ⟨m₀, q₀, c₀, rest₀, hc₀, hmeets, .round hrun room chosen next, hverdict⟩
    unfold afterRound at hid
    rcases considerCandidate_tables now req q c (m.pop q rest) with hsame | ⟨a, hverdict, -, hdecided⟩
    · rw [hsame.claimed] at hid
      exact hearlier hid
    · rw [hdecided.claimed] at hid
      split at hid
      · rename_i ha
        subst ha
        rcases List.mem_append.mp hid with hin | hlast
        · exact hearlier hin
        · exact ⟨m, q, c, rest, (List.mem_singleton.mp hlast).symm, ⟨path, room, chosen, next⟩,
            .here, hverdict⟩
      · exact hearlier hid

end

/-! ## Section 4: The loop of a call -/

/-- The state in which the loop of a call starts. -/
def loopStart (now : Int) (req : AdmitRequest) (order : SetOrder String) (s : Store) : Selection :=
  let d := drawAll now req order (requestQueues req) s (fun _ => []) []
  startSelection d.1 d.2.1

section
variable (now : Int) (req : AdmitRequest) (order : SetOrder String) (s : Store)

theorem loopStart_eq :
    ∃ routes, loopStart now req order s = startSelection (s.withRoutes routes)
      (drawnCands now req order (requestQueues req) s) := by
  obtain ⟨routes, -, hdraw⟩ := drawAll_eq now req order s (requestQueues req) s.waiting.routes
    (fun _ => []) []
  have hself : s.withRoutes s.waiting.routes = s := rfl
  rw [hself] at hdraw
  refine ⟨routes, ?_⟩
  unfold loopStart
  rw [hdraw]
  rfl

/-- The call held the job back by quarantine, rate or ceiling. -/
def Refused (now : Int) (req : AdmitRequest) (order : SetOrder String) (s : Store) (id : String) :
    Prop :=
  ∃ m q c rest, c.id = id ∧
    Meets now req (qweight s) (requestQueues req) (loopStart now req order s) q c rest m ∧
      Refusal now req q c { m with cands := Function.update m.cands q rest }

theorem selection_passes :
    Passes now req (qweight s) (requestQueues req) (loopStart now req order s)
      (selection now req order (requestQueues req) s).1 :=
  selectLoop_passes now req (qweight s) (requestQueues req) _ _

end

theorem loopStart_ok (now : Int) (order : SetOrder String) (hnames : NamesApart calls req) :
    LoopOk now (exec calls) (loopStart now req order (exec calls)) := by
  obtain ⟨routes, hstart⟩ := loopStart_eq now req order (exec calls)
  rw [hstart]
  exact LoopOk.start hnames routes

/-- The candidates of a queue at the start of the loop. -/
theorem mem_loopStart {s : Store} {q : String} {c : Candidate} :
    c ∈ (loopStart now req order s).cands q ↔
      q ∈ requestQueues req ∧ c ∈ queueCands now req order q s := by
  obtain ⟨routes, hstart⟩ := loopStart_eq now req order s
  rw [hstart]
  show c ∈ drawnCands now req order (requestQueues req) s q ↔ _
  unfold drawnCands
  split
  · rename_i hq
    simp [hq]
  · rename_i hq
    simp [hq]

/-- A candidate of the loop is one of its own partition. -/
theorem mem_loopStart_own (hnames : NamesApart calls req) {q : String} {c : Candidate}
    (hc : c ∈ (loopStart now req order (exec calls)).cands q) :
    q = c.job.queue ∧ q ∈ requestQueues req ∧ q ∉ (exec calls).policy.paused ∧
      c.job.partitionKey ∈ (exec calls).waiting.parts q ∧
      c ∈ partCands now req q c.job.partitionKey (exec calls) := by
  obtain ⟨hq, hcands⟩ := mem_loopStart.mp hc
  obtain ⟨hpaused, part, hpart, hdrawn⟩ := mem_queueCands.mp hcands
  obtain ⟨hqueue, rfl, -⟩ := partCands_own (exec_entriesOk calls) (exec_allFound calls)
    (exec_queuesNamed hnames.queues) hnames.streams hq (hnames.requested _ hq) hpart hdrawn
  exact ⟨hqueue.symm, hq, hpaused, hpart, hdrawn⟩

/-- The deferred accounting leaves the rows as the loop left them. -/
theorem admitCall_job? {s : Store} (h : 1 ≤ req.leaseMs) (id : String) :
    (admitCall now req order s).1.job? id =
      (selection now req order (requestQueues req) s).1.store.job? id := by
  have hsettle : ∀ (seen : List String) (l : Selection),
      (settle now req seen l).job? id = l.store.job? id := fun _ _ => rfl
  rw [admitCall_eq h]
  exact hsettle _ _

/-- A returned job was drawn for its own queue and partition, met, and let through. -/
theorem admitted_met (hnames : NamesApart calls req)
    (hid : id ∈ admitted now req order (exec calls)) (row : (exec calls).job? id = some j) :
    1 ≤ req.leaseMs ∧ ∃ m rest,
      Meets now req (qweight (exec calls)) (requestQueues req)
        (loopStart now req order (exec calls)) j.queue ⟨id, j⟩ rest m ∧
      Passes now req (qweight (exec calls)) (requestQueues req)
        (afterRound now req j.queue ⟨id, j⟩ rest m)
        (selection now req order (requestQueues req) (exec calls)).1 ∧
      (gateVerdict now req j.queue ⟨id, j⟩ (m.pop j.queue rest)).2 = some .claim ∧
      j.queue ∉ (exec calls).policy.paused ∧
      j.partitionKey ∈ (exec calls).waiting.parts j.queue ∧
      ⟨id, j⟩ ∈ partCands now req j.queue j.partitionKey (exec calls) := by
  have hlease : 1 ≤ req.leaseMs := by
    by_contra hnot
    unfold admitted at hid
    rw [admitCall_refused (not_le.mp hnot)] at hid
    cases hid
  have hclaimed : id ∈ (selection now req order (requestQueues req) (exec calls)).1.claimed := by
    unfold admitted at hid
    rw [admitCall_eq hlease] at hid
    exact hid
  -- the list of claims is empty at first, so some round put the job on it
  have hnone : id ∉ (loopStart now req order (exec calls)).claimed := by
    obtain ⟨routes, hstart⟩ := loopStart_eq now req order (exec calls)
    rw [hstart]
    exact List.not_mem_nil
  obtain ⟨m, q, c, rest, rfl, hmeets, hrun, hverdict⟩ :=
    (selection_passes now req order (exec calls)).claimed_met hclaimed hnone
  have hm := (loopStart_ok now order hnames).passes hnames.requested hmeets.path
  obtain ⟨hfresh, rfl, -⟩ := hm.head hmeets.next
  obtain rfl : c.job = j := Option.some.inj (hfresh.row.symm.trans row)
  have hin : c ∈ (loopStart now req order (exec calls)).cands c.job.queue :=
    hmeets.path.mem_start (by rw [hmeets.next]; exact List.mem_cons_self)
  obtain ⟨-, -, hpaused, hpart, hdrawn⟩ := mem_loopStart_own hnames hin
  exact ⟨hlease, m, rest, hmeets, hrun, hverdict, hpaused, hpart, hdrawn⟩

/-- A waiting job that is no candidate keeps its row, and the call refuses it nothing. -/
theorem admitCall_undrawn (hnames : NamesApart calls req) (row : (exec calls).job? id = some j)
    (waiting : j.state.isWaiting = true)
    (hout : ∀ q, ⟨id, j⟩ ∉ (loopStart now req order (exec calls)).cands q) :
    (admitCall now req order (exec calls)).1.job? id = some j ∧
      ¬ Refused now req order (exec calls) id := by
  have hok := loopStart_ok now order hnames
  have hrow : (loopStart now req order (exec calls)).store.job? id = some j := by
    obtain ⟨routes, hstart⟩ := loopStart_eq now req order (exec calls)
    rw [hstart]
    exact row
  constructor
  · by_cases hlease : 1 ≤ req.leaseMs
    · rw [admitCall_job? hlease]
      exact (selection_passes now req order (exec calls)).row_of_undrawn hok hnames.requested row
        hrow waiting hout
    · rw [admitCall_refused (not_le.mp hlease)]
      exact row
  · -- a refusal is a round with the job at its head
    rintro ⟨m, q, c, rest, rfl, hmeets, -⟩
    obtain ⟨hfresh, -, -⟩ := (hok.passes hnames.requested hmeets.path).head hmeets.next
    obtain rfl : c.job = j := Option.some.inj (hfresh.row.symm.trans row)
    apply hout q
    apply hmeets.path.mem_start
    rw [hmeets.next]
    exact List.mem_cons_self

end Headgate.Redis
