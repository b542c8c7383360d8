import Headgate.Sql.Adapters
import Headgate.Sqlite.Control
import Headgate.Sqlite.Gate

/-!
# Claims that are live when the call returns

The loop compares the ceiling with a count that it keeps beside the table, and
looks for a job to displace among all running jobs of the partition, those it
has just claimed included.  The count is exact, so a ceiling is never exceeded
by a call that found it respected.  But a claim of this very call is displaced
when every job that was running before has been displaced already; a call whose
partitions have room for its claims never gets there.
-/

namespace Headgate.Sqlite

open Headgate.Core Data

variable {part victim queue x : String} {now : Int} {r : Job} {req : AdmitRequest} {db : Store}
  {jobs : Table String Job} {g' : Gate} {p : Job → Bool} {f : Job → Job} {l : ConcurrencyLimit}
  {drawable : Job → Bool}

/-! ## Section 1: Counting rows of a partition -/

/-- A job of the partition in the given state. -/
def inState (queue part : String) (st : State) (j : Job) : Bool :=
  j.queue = queue && j.partitionKey = part && j.state = st

/-- The available jobs of a partition that the draw may take. -/
def availableIn (drawable : Job → Bool) (jobs : Table String Job) (queue part : String) : Nat :=
  jobs.count fun _ j => inState queue part .available j && drawable j

/-- The running jobs of a partition that were not claimed before `now`. -/
def newIn (now : Int) (jobs : Table String Job) (queue part : String) : Nat :=
  jobs.count fun _ j => inState queue part .running j && !(claimedAt j < now)

def oldIn (now : Int) (jobs : Table String Job) (queue part : String) : Nat :=
  jobs.count fun _ j => inState queue part .running j && claimedAt j < now

theorem runningIn_split (now : Int) (jobs : Table String Job) (queue part : String) :
    runningIn jobs queue part = oldIn now jobs queue part + newIn now jobs queue part :=
  jobs.count_split _ fun _ j => claimedAt j < now

/-- The job to displace is running in the partition, and no running job was claimed before. -/
theorem oldestRunning_spec (h : oldestRunning jobs queue part = some victim) :
    ∃ j, jobs.get victim = some j ∧ inState queue part .running j = true ∧
      ∀ id j', jobs.get id = some j' → inState queue part .running j' = true →
        claimedAt j ≤ claimedAt j' := by
  unfold oldestRunning at h
  rw [List.head?_map] at h
  obtain ⟨⟨x, j⟩, hhead, rfl⟩ := Option.map_eq_some_iff.mp h
  have hmem := mem_orderBy.mp (List.mem_of_mem_head? hhead)
  obtain ⟨hget, hin⟩ := Table.mem_select.mp hmem
  refine ⟨j, hget, hin, ?_⟩
  intro id j' hget' hin'
  -- the query sorts by claim time, then id; only the first matters here
  have hle := key_head_le hhead (Table.mem_select.mpr ⟨hget', hin'⟩)
  rw [Prod.Lex.toLex_le_toLex] at hle
  rcases hle with hlt | ⟨heq, -⟩
  · exact hlt.le
  · exact heq.le

/-! ## Section 2: What each write does to the counts -/

section Counts

/-- A write that moves a row between states of its partition. -/
structure Shifts (jobs : Table String Job) (x : String) (r : Job) (p : Job → Bool) (f : Job → Job) :
    Prop where
  row : jobs.get x = some r
  applies : p r = true
  queue : (f r).queue = r.queue
  part : (f r).partitionKey = r.partitionKey

section
variable (h : Shifts jobs x r p f)
include h

/-- The counts of a partition follow the state of the row. -/
theorem Shifts.counts (now : Int) (queue part : String) :
    let here := if r.queue = queue ∧ r.partitionKey = part then 1 else 0
    runningIn (jobs.updateAt x p f) queue part + (if r.state = .running then here else 0)
      = runningIn jobs queue part + (if (f r).state = .running then here else 0) ∧
    newIn now (jobs.updateAt x p f) queue part
        + (if r.state = .running ∧ now ≤ claimedAt r then here else 0)
      = newIn now jobs queue part
        + (if (f r).state = .running ∧ now ≤ claimedAt (f r) then here else 0) ∧
    ∀ drawable, availableIn drawable (jobs.updateAt x p f) queue part
        + (if r.state = .available ∧ drawable r then here else 0)
      = availableIn drawable jobs queue part
        + (if (f r).state = .available ∧ drawable (f r) then here else 0) := by
  -- one row changes, so a count changes by what this row counted before and counts now
  have hcount := fun q : Job → Bool =>
    Table.count_updateAt (f := f) h.row h.applies fun _ j => q j
  have hrun := hcount (inState queue part .running)
  have hnew := hcount fun j => inState queue part .running j && !(claimedAt j < now)
  have havail := fun drawable : Job → Bool =>
    hcount fun j => inState queue part .available j && drawable j
  unfold runningIn newIn availableIn
  simp only [inState, h.queue, h.part] at hrun hnew havail ⊢
  by_cases hq : r.queue = queue <;> by_cases hp : r.partitionKey = part <;>
    simp_all

/-- A row that is claimed. -/
theorem Shifts.claimed (hfrom : r.state = .available)
    (hto : (f r).state = .running) (hnow : claimedAt (f r) = now) (queue part : String) :
    let here := if r.queue = queue ∧ r.partitionKey = part then 1 else 0
    runningIn (jobs.updateAt x p f) queue part = runningIn jobs queue part + here ∧
      newIn now (jobs.updateAt x p f) queue part = newIn now jobs queue part + here ∧
      ∀ drawable, drawable r = true → availableIn drawable (jobs.updateAt x p f) queue part + here
        = availableIn drawable jobs queue part := by
  obtain ⟨hrun, hnew, havail⟩ := h.counts now queue part
  simp only [hfrom, hto, hnow, reduceCtorEq, le_refl, and_true, true_and, false_and, if_true,
    if_false, add_zero] at hrun hnew havail
  refine ⟨hrun, hnew, fun drawable hr => ?_⟩
  simpa [hr] using havail drawable

/-- A running row that is cancelled; one claimed before `now` was not a new one. -/
theorem Shifts.displaced (hfrom : r.state = .running)
    (hto : (f r).state = .cancelled) (queue part : String) :
    let here := if r.queue = queue ∧ r.partitionKey = part then 1 else 0
    runningIn (jobs.updateAt x p f) queue part + here = runningIn jobs queue part ∧
      (∀ now, claimedAt r < now →
        newIn now (jobs.updateAt x p f) queue part = newIn now jobs queue part) ∧
      ∀ drawable, availableIn drawable (jobs.updateAt x p f) queue part
        = availableIn drawable jobs queue part := by
  have hcounts := fun now => h.counts now queue part
  simp only [hfrom, hto, reduceCtorEq, if_true, if_false, true_and, false_and, add_zero] at hcounts
  refine ⟨(hcounts 0).1, fun now hold => ?_, (hcounts 0).2.2⟩
  simpa [not_le.mpr hold] using (hcounts now).2.1

/-- An available row that ends. -/
theorem Shifts.ended (hfrom : r.state = .available)
    (hfinished : (f r).state.isUnfinished = false) (queue part : String) :
    runningIn (jobs.updateAt x p f) queue part = runningIn jobs queue part ∧
      (∀ now, newIn now (jobs.updateAt x p f) queue part = newIn now jobs queue part) ∧
      ∀ drawable, availableIn drawable (jobs.updateAt x p f) queue part
        ≤ availableIn drawable jobs queue part := by
  have hrunning : (f r).state ≠ .running := fun hst => by rw [hst] at hfinished; cases hfinished
  have havailable : (f r).state ≠ .available := fun hst => by rw [hst] at hfinished; cases hfinished
  have hcounts := fun now => h.counts now queue part
  simp only [hfrom, hrunning, havailable, reduceCtorEq, if_false, false_and, add_zero] at hcounts
  exact ⟨(hcounts 0).1, fun now => (hcounts now).2.1,
    fun drawable => Nat.le.intro ((hcounts 0).2.2 drawable)⟩

end

end Counts

/-! ## Section 3: The loop respects the ceilings -/

/-- Candidates not decided yet are available, in the list of their queue once; the local count
is exact; no ceiling is exceeded that was respected before. -/
structure GateOk (a : GateArgs) (jobs₀ : Table String Job) (g : Gate) : Prop where
  fresh : ∀ q id j, (id, j) ∈ g.waiting q →
    g.jobs.get id = some j ∧ j.state = .available ∧ j.queue = q
  once : ∀ q, ((g.waiting q).map Prod.fst).Nodup
  tracked : ∀ q part n, g.inflight (q, part) = some n →
    (a.limit q).isSome = true ∧ n = runningIn g.jobs q part
  ceiling : ∀ q part l, a.limit q = some l →
    (runningIn g.jobs q part : Int) ≤ max l.maxConcurrent (runningIn jobs₀ q part)

/-- The candidate of a round: available, and in no list any more. -/
structure Drawn (g : Gate) (queue id : String) (j : Job) : Prop where
  row : g.jobs.get id = some j
  available : j.state = .available
  queue : j.queue = queue
  gone : ∀ q j', (id, j') ∉ g.waiting q

section Rounds
variable {a : GateArgs} {jobs₀ : Table String Job} {g : Gate} {id : String} {j : Job}

/-- Writes to the candidate that leave it in its partition. -/
theorem Drawn.shifts (hd : Drawn g queue id j) (hqueue : (f j).queue = j.queue)
    (hpart : (f j).partitionKey = j.partitionKey) :
    Shifts g.jobs id j (fun row => row.state = .available) f :=
  ⟨hd.row, by simpa using hd.available, hqueue, hpart⟩

/-- What is left of the lists was there before. -/
theorem mem_waiting_of_rest {e : String × Job} {rest : List (String × Job)}
    (hwaiting : g.waiting queue = e :: rest) {q : String} {e' : String × Job}
    (hmem : e' ∈ Function.update g.waiting queue rest q) : e' ∈ g.waiting q := by
  by_cases hq : q = queue
  · subst hq
    rw [Function.update_self] at hmem
    rw [hwaiting]
    exact List.mem_cons_of_mem _ hmem
  · rw [Function.update_of_ne hq] at hmem
    exact hmem

section
variable (h : GateOk a jobs₀ g)
include h

theorem GateOk.draw {rest : List (String × Job)}
    (hwaiting : g.waiting queue = (id, j) :: rest) :
    GateOk a jobs₀ { g with waiting := Function.update g.waiting queue rest } ∧
      Drawn { g with waiting := Function.update g.waiting queue rest } queue id j := by
  have hhead : (id, j) ∈ g.waiting queue := by
    rw [hwaiting]
    exact List.mem_cons_self
  obtain ⟨hrow, havailable, hqueue⟩ := h.fresh queue id j hhead
  have honce := h.once queue
  rw [hwaiting, List.map_cons, List.nodup_cons] at honce
  -- what is left in the lists was there before, and is another job
  have hsub : ∀ q x j', (x, j') ∈ Function.update g.waiting queue rest q →
      (x, j') ∈ g.waiting q ∧ x ≠ id := by
    intro q x j' hmem
    refine ⟨mem_waiting_of_rest hwaiting hmem, ?_⟩
    rintro rfl
    by_cases hq : q = queue
    · subst hq
      rw [Function.update_self] at hmem
      exact honce.1 (List.mem_map.mpr ⟨_, hmem, rfl⟩)
    · -- one row has one queue
      obtain ⟨hrow', -, hqueue'⟩ := h.fresh q x j' (mem_waiting_of_rest hwaiting hmem)
      rw [hrow] at hrow'
      cases hrow'
      exact hq (hqueue'.symm.trans hqueue)
  refine ⟨⟨fun q x j' hmem => h.fresh q x j' (hsub q x j' hmem).1, ?_, h.tracked, h.ceiling⟩,
    hrow, havailable, hqueue, fun q j' hmem => (hsub q id j' hmem).2 rfl⟩
  intro q
  dsimp only
  by_cases hq : q = queue
  · subst hq
    rw [Function.update_self]
    exact honce.2
  · rw [Function.update_of_ne hq]
    exact h.once q

theorem GateOk.currentIn (queue part : String) :
    currentIn g queue part = runningIn g.jobs queue part := by
  unfold Sqlite.currentIn
  cases hcount : g.inflight (queue, part) with
  | none => rfl
  | some n => exact (h.tracked queue part n hcount).2

theorem GateOk.counted (hlimit : (a.limit queue).isSome = true)
    (part : String) : GateOk a jobs₀ (counted queue part g) := by
  refine ⟨h.fresh, h.once, ?_, h.ceiling⟩
  intro q p n hn
  unfold Sqlite.counted at hn
  dsimp only at hn
  by_cases hqp : (q, p) = (queue, part)
  · cases hqp
    rw [Function.update_self, h.currentIn] at hn
    exact ⟨hlimit, (Option.some_inj.mp hn).symm⟩
  · rw [Function.update_of_ne hqp] at hn
    exact h.tracked q p n hn

/-- A write to one row that no list mentions leaves the lists valid, and the counts of all
partitions but its own as they are. -/
theorem GateOk.shift (hs : Shifts g.jobs x r p f)
    (hgone : ∀ q j', (x, j') ∉ g.waiting q) (hjobs : g'.jobs = g.jobs.updateAt x p f)
    (hwaiting : g'.waiting = g.waiting)
    (hinflight : ∀ key, key ≠ (r.queue, r.partitionKey) → g'.inflight key = g.inflight key)
    (htracked : ∀ n, g'.inflight (r.queue, r.partitionKey) = some n →
      (a.limit r.queue).isSome = true ∧ n = runningIn g'.jobs r.queue r.partitionKey)
    (hceiling : ∀ l, a.limit r.queue = some l → (runningIn g'.jobs r.queue r.partitionKey : Int)
      ≤ max l.maxConcurrent (runningIn jobs₀ r.queue r.partitionKey)) : GateOk a jobs₀ g' := by
  -- the changed row counts in one partition only
  have helse : ∀ q part, (q, part) ≠ (r.queue, r.partitionKey) →
      runningIn g'.jobs q part = runningIn g.jobs q part := by
    intro q part hne
    have hnot : ¬ (r.queue = q ∧ r.partitionKey = part) := by
      rintro ⟨rfl, rfl⟩
      exact hne rfl
    simpa [hnot, hjobs] using (hs.counts 0 q part).1
  refine ⟨?_, ?_, ?_, ?_⟩
  · -- rows still waiting are not the changed one
    intro q id j' hmem
    rw [hwaiting] at hmem
    have hne : id ≠ x := by
      rintro rfl
      exact hgone q j' hmem
    rw [hjobs, Table.get_updateAt, if_neg hne]
    exact h.fresh q id j' hmem
  · rw [hwaiting]
    exact h.once
  · intro q part n hn
    by_cases hqp : (q, part) = (r.queue, r.partitionKey)
    · cases hqp
      exact htracked n hn
    · rw [hinflight _ hqp] at hn
      rw [helse q part hqp]
      exact h.tracked q part n hn
  · intro q part l hl
    by_cases hqp : (q, part) = (r.queue, r.partitionKey)
    · cases hqp
      exact hceiling l hl
    · rw [helse q part hqp]
      exact h.ceiling q part l hl

/-- Ending the candidate. -/
theorem GateOk.ended (hd : Drawn g queue id j) {to_ : State} (hfinished : to_.isUnfinished = false) :
    GateOk a jobs₀ (terminalize a.now queue id to_ g) := by
  have hshift := hd.shifts (f := fun j => { j with state := to_, finalizedAtMs := some a.now }) rfl rfl
  have hrun : runningIn (terminalize a.now queue id to_ g).jobs j.queue j.partitionKey =
      runningIn g.jobs j.queue j.partitionKey :=
    (hshift.ended hd.available hfinished _ _).1
  refine h.shift hshift hd.gone rfl rfl (fun _ _ => rfl) ?_ ?_
  · rw [hrun]
    exact h.tracked _ _
  · rw [hrun]
    exact h.ceiling _ _

end

/-- The claim the loop records. -/
def newClaim (a : GateArgs) (id : String) (j : Job) : Claim where
  envelope := j.envelope id
  leaseId := a.req.leaseId
  fence := j.fence + 1
  expiresAtMs := a.now + a.leaseMs
  checkpoint := j.checkpoint.getD {}

/-- A drawn candidate is claimed. -/
theorem claimJob_drawn (hd : Drawn g queue id j) :
    ∃ charge buckets, claimJob a queue id j g = countDecision queue { g with
      jobs := g.jobs.updateAt id (fun row => row.state = .available) (claimedRow a charge)
      buckets := buckets
      inflight :=
        if (a.limit queue).isSome then
          Function.update g.inflight (queue, j.partitionKey)
            (some ((g.inflight (queue, j.partitionKey)).getD 0 + 1))
        else g.inflight
      claims := g.claims ++ [newClaim a id j] } := by
  -- the guarded update finds the row still available, since nothing was written to it
  have havailable : ((g.jobs.get id).any fun row => row.state = .available) = true := by
    rw [hd.row]
    simpa using hd.available
  refine ⟨if (g.buckets.get j.rateClass).isSome then j.weight else 0,
    spendTokens j.rateClass j.weight g.buckets, ?_⟩
  unfold claimJob
  rw [if_pos havailable]
  rfl

/-- Claiming the candidate, where there is room. -/
theorem GateOk.claimed (h : GateOk a jobs₀ g) (hd : Drawn g queue id j)
    (hcount : (a.limit queue).isSome = true →
      g.inflight (queue, j.partitionKey) = some (runningIn g.jobs queue j.partitionKey : Int))
    (hroom : ∀ l, a.limit queue = some l → (runningIn g.jobs queue j.partitionKey : Int) + 1
      ≤ max l.maxConcurrent (runningIn jobs₀ queue j.partitionKey)) :
    GateOk a jobs₀ (claimJob a queue id j g) := by
  obtain ⟨charge, buckets, heq⟩ := claimJob_drawn (a := a) hd
  rw [heq]
  have hshifts := hd.shifts (f := claimedRow a charge) rfl rfl
  have hrun := (hshifts.claimed hd.available rfl rfl queue j.partitionKey).1
  rw [if_pos ⟨hd.queue, rfl⟩] at hrun
  refine h.shift hshifts hd.gone rfl rfl ?_ ?_ ?_
  · intro key hkey
    rw [hd.queue] at hkey
    unfold countDecision
    dsimp only
    split
    · rw [Function.update_of_ne hkey]
    · rfl
  · -- the local count and the rows grow by one together
    intro n hn
    rw [hd.queue] at hn ⊢
    unfold countDecision at hn ⊢
    dsimp only at hn ⊢
    rw [hrun]
    by_cases hlimit : (a.limit queue).isSome = true
    · rw [if_pos hlimit, Function.update_self, hcount hlimit] at hn
      cases hn
      exact ⟨hlimit, rfl⟩
    · -- without a ceiling nothing is counted
      rw [if_neg hlimit] at hn
      exact absurd (h.tracked _ _ n hn).1 hlimit
  · intro l hl
    rw [hd.queue] at hl ⊢
    unfold countDecision
    rw [hrun]
    exact hroom l hl

/-- The job that is displaced. -/
structure Victim (g : Gate) (queue part victim : String) (r : Job) : Prop where
  row : g.jobs.get victim = some r
  ofQueue : r.queue = queue
  ofPart : r.partitionKey = part
  running : r.state = .running
  oldest : ∀ id j', g.jobs.get id = some j' → inState queue part .running j' = true →
    claimedAt r ≤ claimedAt j'

theorem victim_of_oldest (h : oldestRunning g.jobs queue part = some victim) :
    ∃ r, Victim g queue part victim r := by
  obtain ⟨r, hrow, hin, hold⟩ := oldestRunning_spec h
  simp only [inState, Bool.and_eq_true, decide_eq_true_eq] at hin
  exact ⟨r, hrow, hin.1.1, hin.1.2, hin.2, hold⟩

theorem Victim.shifts (h : Victim g queue part victim r) (now : Int) :
    Shifts g.jobs victim r (fun j => j.state = .running) (displacedRow now) :=
  ⟨h.row, by simpa using h.running, rfl, rfl⟩

/-- Displacing a running job: the lists stay valid, and the count goes down with it. -/
theorem GateOk.displaced (h : GateOk a jobs₀ g) (hlimit : (a.limit queue).isSome = true)
    (hv : Victim g queue part victim r) :
    GateOk a jobs₀ (displace a queue part victim g) := by
  -- a running row is in no list of waiting rows
  have hgone : ∀ q j', (victim, j') ∉ g.waiting q := by
    intro q j' hmem
    obtain ⟨hrow, havailable, -⟩ := h.fresh q victim j' hmem
    rw [hv.row] at hrow
    cases hrow
    rw [hv.running] at havailable
    cases havailable
  have hrun : runningIn (displace a queue part victim g).jobs queue part + _ = _ :=
    ((hv.shifts a.now).displaced hv.running rfl queue part).1
  rw [if_pos ⟨hv.ofQueue, hv.ofPart⟩] at hrun
  refine h.shift (hv.shifts a.now) hgone rfl rfl ?_ ?_ ?_
  · intro key hkey
    rw [hv.ofQueue, hv.ofPart] at hkey
    unfold displace Sqlite.counted
    dsimp only
    rw [Function.update_of_ne hkey, Function.update_of_ne hkey]
  · -- the count is read from the rows where it was not kept yet, then lowered
    intro n hn
    rw [hv.ofQueue, hv.ofPart] at hn ⊢
    unfold displace at hn
    dsimp only at hn
    rw [Function.update_self, h.currentIn] at hn
    cases hn
    exact ⟨hlimit, by omega⟩
  · intro l hl
    rw [hv.ofQueue] at hl
    rw [hv.ofQueue, hv.ofPart]
    have hceiling := h.ceiling queue part l hl
    omega

theorem Drawn.displaced (hd : Drawn g queue id j) (hv : Victim g queue part victim r) :
    Drawn (displace a queue part victim g) queue id j := by
  have hne : id ≠ victim := by
    rintro rfl
    have hrow := hd.row
    rw [hv.row] at hrow
    cases hrow
    have := hd.available
    rw [hv.running] at this
    cases this
  refine ⟨?_, hd.available, hd.queue, hd.gone⟩
  show (g.jobs.updateAt victim _ (displacedRow a.now)).get id = some j
  rw [Table.get_updateAt, if_neg hne]
  exact hd.row

/-- Every round respects the ceilings. -/
theorem GateOk.round (h : GateOk a jobs₀ g) (hd : Drawn g queue id j)
    (hround : Round a queue id j g g') : GateOk a jobs₀ g' := by
  have hsome : ∀ {l : ConcurrencyLimit}, a.limit queue = some l → (a.limit queue).isSome = true :=
    fun hl => by rw [hl]; rfl
  cases hround with
  | refused => exact h
  | held hl => exact h.counted (hsome hl) _
  | ended hl to_ hfinished =>
    exact (h.counted (hsome hl) _).ended ⟨hd.row, hd.available, hd.queue, hd.gone⟩ hfinished
  | unlimited hl =>
    refine h.claimed hd ?_ ?_
    · intro hlimit
      rw [hl] at hlimit
      cases hlimit
    · intro l hl'
      rw [hl] at hl'
      cases hl'
  | belowCeiling hl hbelow =>
    rw [h.currentIn] at hbelow
    refine (h.counted (hsome hl) _).claimed ⟨hd.row, hd.available, hd.queue, hd.gone⟩ ?_ ?_
    · intro _
      show Function.update g.inflight _ _ _ = _
      rw [Function.update_self, h.currentIn]
      rfl
    · intro l' hl'
      rw [hl] at hl'
      cases hl'
      show (runningIn g.jobs queue j.partitionKey : Int) + 1 ≤ _
      omega
  | @replaced l hl hfull hstrategy victim holdest =>
    obtain ⟨r, hv⟩ := victim_of_oldest holdest
    -- the one that leaves makes room for the one that comes
    have hrun := ((hv.shifts a.now).displaced hv.running rfl queue j.partitionKey).1
    rw [if_pos ⟨hv.ofQueue, hv.ofPart⟩] at hrun
    refine (h.displaced (hsome hl) hv).claimed (hd.displaced hv) ?_ ?_
    · intro _
      show Function.update (Sqlite.counted queue j.partitionKey g).inflight (queue, j.partitionKey)
          (some (Sqlite.currentIn g queue j.partitionKey - 1)) (queue, j.partitionKey)
        = some (runningIn (g.jobs.updateAt victim _ (displacedRow a.now)) queue j.partitionKey : Int)
      rw [Function.update_self, h.currentIn, Option.some_inj]
      omega
    · intro l' hl'
      have hceiling := h.ceiling queue j.partitionKey l' hl'
      show (runningIn (g.jobs.updateAt victim _ (displacedRow a.now)) queue j.partitionKey : Int) + 1
        ≤ _
      omega

/-! ## Section 4: Claims that stay -/

/-- The loop may displace running jobs of the queue. -/
def Displaces (a : GateArgs) (queue : String) : Prop :=
  queue ∈ a.queues ∧ ∃ l, a.limit queue = some l ∧ l.onSaturated = .cancelRunning

/-- Every claim so far is live, and in a partition that displaces, few jobs of this millisecond
have come: no more than decisions, no more than the draw could take there, and as many jobs run as
before. -/
structure LiveOk (a : GateArgs) (drawable : Job → Bool) (jobs₀ : Table String Job) (g : Gate) :
    Prop where
  claims : ∀ c ∈ g.claims, ∃ j, g.jobs.get c.envelope.id = some j ∧ j.heldBy c.ref = true ∧
    j.state = .running ∧ claimedAt j = a.now
  drawn : ∀ q e, e ∈ g.waiting q → drawable e.2 = true
  few : ∀ q part, Displaces a q →
    newIn a.now g.jobs q part ≤ newIn a.now jobs₀ q part + g.decisions
  taken : ∀ q part, Displaces a q →
    newIn a.now g.jobs q part + availableIn drawable g.jobs q part
      ≤ newIn a.now jobs₀ q part + availableIn drawable jobs₀ q part
  kept : ∀ q part, Displaces a q → runningIn jobs₀ q part ≤ runningIn g.jobs q part

/-- A partition that displaces can hold, beside its jobs of this millisecond, what the call may
claim from it. -/
def RoomFor (a : GateArgs) (drawable : Job → Bool) (jobs₀ : Table String Job) : Prop :=
  ∀ queue ∈ a.queues, ∀ l, a.limit queue = some l → l.onSaturated = .cancelRunning → ∀ part,
    ((newIn a.now jobs₀ queue part
        + min a.req.capacity (availableIn drawable jobs₀ queue part) : Nat) : Int)
      ≤ max l.maxConcurrent (runningIn jobs₀ queue part)

/-- The claim is held and running, since this call. -/
def LiveNow (a : GateArgs) (jobs : Table String Job) (c : Claim) : Prop :=
  ∃ j, jobs.get c.envelope.id = some j ∧ j.heldBy c.ref = true ∧ j.state = .running ∧
    claimedAt j = a.now

/-- A write to a row that is no claim of this call leaves the claims live. -/
theorem claims_write (h : ∀ c ∈ g.claims, LiveNow a g.jobs c) (hrow : g.jobs.get x = some r)
    (hold : r.state ≠ .running ∨ claimedAt r ≠ a.now) (c : Claim) (hc : c ∈ g.claims) :
    LiveNow a (g.jobs.updateAt x p f) c := by
  obtain ⟨j, hget, hheld, hrunning, hnow⟩ := h c hc
  have hne : c.envelope.id ≠ x := by
    rintro heq
    rw [heq, hrow] at hget
    cases hget
    rcases hold with hold | hold
    · exact hold hrunning
    · exact hold hnow
  exact ⟨j, by rw [Table.get_updateAt, if_neg hne]; exact hget, hheld, hrunning, hnow⟩

theorem newClaim_held (a : GateArgs) (charge : Int) (id : String) (j : Job) :
    (claimedRow a charge j).heldBy (newClaim a id j).ref = true := by
  simp [Job.heldBy, Sql.Job.heldBy, claimedRow, newClaim, Claim.ref]

/-- Claiming the candidate, possibly in the place of a job that was displaced for it. -/
theorem LiveOk.claimed (hd : Drawn g queue id j) (hdrawable : drawable j = true)
    (claims : ∀ c ∈ g.claims, LiveNow a g.jobs c)
    (drawn : ∀ q e, e ∈ g.waiting q → drawable e.2 = true)
    (few : ∀ q part, Displaces a q →
      newIn a.now g.jobs q part ≤ newIn a.now jobs₀ q part + g.decisions)
    (taken : ∀ q part, Displaces a q →
      newIn a.now g.jobs q part + availableIn drawable g.jobs q part
        ≤ newIn a.now jobs₀ q part + availableIn drawable jobs₀ q part)
    (kept : ∀ q part, Displaces a q → runningIn jobs₀ q part ≤ runningIn g.jobs q part +
      if j.queue = q ∧ j.partitionKey = part then 1 else 0) :
    LiveOk a drawable jobs₀ (claimJob a queue id j g) := by
  obtain ⟨charge, buckets, heq⟩ := claimJob_drawn (a := a) hd
  rw [heq]
  have hcounts := (hd.shifts (f := claimedRow a charge) rfl rfl).claimed hd.available rfl
    (by rfl : _ = a.now)
  refine ⟨?_, drawn, ?_, ?_, ?_⟩
  · -- earlier claims keep their rows: the row written now was available
    intro c hc
    rcases List.mem_append.mp hc with hc | hc
    · refine claims_write claims hd.row (.inl ?_) c hc
      rw [hd.available]
      decide
    · rw [List.mem_singleton] at hc
      subst hc
      refine ⟨claimedRow a charge j, ?_, newClaim_held a charge id j, rfl, rfl⟩
      show (g.jobs.updateAt id _ (claimedRow a charge)).get id = _
      rw [Table.get_updateAt, if_pos rfl, hd.row]
      simp [hd.available]
  · intro q part hq
    show newIn a.now (g.jobs.updateAt id _ (claimedRow a charge)) q part ≤ _ + (g.decisions + 1)
    have := few q part hq
    have hnew := (hcounts q part).2.1
    split at hnew <;> omega
  · -- what the partition gains in new rows it loses in available ones
    intro q part hq
    show newIn a.now (g.jobs.updateAt id _ (claimedRow a charge)) q part
      + availableIn drawable (g.jobs.updateAt id _ (claimedRow a charge)) q part ≤ _
    have := taken q part hq
    have hnew := (hcounts q part).2.1
    have havail := (hcounts q part).2.2 drawable hdrawable
    omega
  · intro q part hq
    exact (kept q part hq).trans_eq (hcounts q part).1.symm

/-- Where there is room, the job to displace was claimed before this call. -/
theorem victim_old (hok : GateOk a jobs₀ g) (h : LiveOk a drawable jobs₀ g)
    (hroom : RoomFor a drawable jobs₀) (hd : Drawn g queue id j) (hdrawable : drawable j = true)
    (hcapacity : g.decisions < a.req.capacity) (hqueue : queue ∈ a.queues)
    (hl : a.limit queue = some l) (hs : l.onSaturated = .cancelRunning)
    (hfull : l.maxConcurrent ≤ currentIn g queue j.partitionKey)
    (hv : Victim g queue j.partitionKey victim r) : claimedAt r < a.now := by
  have hdisplaces : Displaces a queue := ⟨hqueue, l, hl, hs⟩
  rw [hok.currentIn, runningIn_split a.now] at hfull
  have hroom := hroom queue hqueue l hl hs j.partitionKey
  have hfew := h.few queue j.partitionKey hdisplaces
  have htaken := h.taken queue j.partitionKey hdisplaces
  have hkept := h.kept queue j.partitionKey hdisplaces
  rw [runningIn_split a.now g.jobs] at hkept
  -- the candidate itself is one of the available jobs
  have hone : 1 ≤ availableIn drawable g.jobs queue j.partitionKey := by
    refine Nat.pos_of_ne_zero (Table.count_ne_zero.mpr ⟨id, j, hd.row, ?_⟩)
    simp [inState, hd.queue, hd.available, hdrawable]
  -- so not all running jobs can be of this millisecond
  have hold : oldIn a.now g.jobs queue j.partitionKey ≠ 0 := by
    intro hzero
    rw [hzero] at hfull hkept
    push_cast at hfull hroom
    omega
  obtain ⟨x, j', hj', hin⟩ := Table.count_ne_zero.mp hold
  rw [Bool.and_eq_true, decide_eq_true_eq] at hin
  exact lt_of_le_of_lt (hv.oldest x j' hj' hin.1) hin.2

/-- Displacing an older job and claiming the candidate in its place. -/
theorem LiveOk.replaced (h : LiveOk a drawable jobs₀ g) (hd : Drawn g queue id j)
    (hdrawable : drawable j = true) (hv : Victim g queue j.partitionKey victim r)
    (hold : claimedAt r < a.now) :
    LiveOk a drawable jobs₀ (claimJob a queue id j (displace a queue j.partitionKey victim g)) := by
  have hcounts := (hv.shifts a.now).displaced hv.running rfl
  -- the victim was claimed before this call, so no claim of the call is lost with it
  have hnew : ∀ q part, newIn a.now (displace a queue j.partitionKey victim g).jobs q part =
      newIn a.now g.jobs q part := fun q part => (hcounts q part).2.1 a.now hold
  refine LiveOk.claimed (hd.displaced hv) hdrawable ?_ h.drawn ?_ ?_ ?_
  · exact claims_write h.claims hv.row (.inr (ne_of_lt hold))
  · intro q part hq
    rw [hnew]
    exact h.few q part hq
  · intro q part hq
    rw [hnew]
    exact (congrArg _ ((hcounts q part).2.2 drawable)).trans_le (h.taken q part hq)
  · intro q part hq
    have hgone := (hcounts q part).1
    rw [hv.ofQueue, hv.ofPart] at hgone
    rw [hd.queue]
    exact (h.kept q part hq).trans_eq hgone.symm

/-- Every round keeps the claims live. -/
theorem LiveOk.round (hok : GateOk a jobs₀ g) (h : LiveOk a drawable jobs₀ g)
    (hroom : RoomFor a drawable jobs₀) (hd : Drawn g queue id j) (hdrawable : drawable j = true)
    (hcapacity : g.decisions < a.req.capacity) (hqueue : queue ∈ a.queues)
    (hround : Round a queue id j g g') : LiveOk a drawable jobs₀ g' := by
  have hkept := fun q part hq => Nat.le_add_right_of_le
    (k := if j.queue = q ∧ j.partitionKey = part then 1 else 0) (h.kept q part hq)
  cases hround with
  | refused => exact h
  | held => exact ⟨h.claims, h.drawn, h.few, h.taken, h.kept⟩
  -- under `discard` and `cancel_incoming` the candidate itself ends
  | ended hl to_ hfinished =>
    have hcounts := (hd.shifts (f := fun j =>
      { j with state := to_, finalizedAtMs := some a.now }) rfl rfl).ended hd.available hfinished
    refine ⟨?_, h.drawn, ?_, ?_, ?_⟩
    · intro c hc
      exact claims_write h.claims hd.row (.inl (by rw [hd.available]; decide)) c hc
    · intro q part hq
      show newIn a.now (g.jobs.updateAt id _ _) q part ≤ _ + (g.decisions + 1)
      rw [(hcounts q part).2.1]
      exact (h.few q part hq).trans (Nat.le_succ _)
    · intro q part hq
      show newIn a.now (g.jobs.updateAt id _ _) q part
        + availableIn drawable (g.jobs.updateAt id _ _) q part ≤ _
      rw [(hcounts q part).2.1]
      exact (Nat.add_le_add_left ((hcounts q part).2.2 drawable) _).trans (h.taken q part hq)
    · intro q part hq
      show _ ≤ runningIn (g.jobs.updateAt id _ _) q part
      rw [(hcounts q part).1]
      exact h.kept q part hq
  | unlimited => exact LiveOk.claimed hd hdrawable h.claims h.drawn h.few h.taken hkept
  | belowCeiling =>
    exact LiveOk.claimed ⟨hd.row, hd.available, hd.queue, hd.gone⟩ hdrawable h.claims h.drawn h.few
      h.taken hkept
  -- the one case that could take back a claim of this call
  | replaced hl hfull hs holdest =>
    obtain ⟨r, hv⟩ := victim_of_oldest holdest
    exact h.replaced hd hdrawable hv
      (victim_old hok h hroom hd hdrawable hcapacity hqueue hl hs hfull hv)

/-- The loop keeps what its rounds keep. -/
theorem GateOk.loop (h : GateOk a jobs₀ g) (fuel : Nat) : GateOk a jobs₀ (gateLoop a fuel g) := by
  apply gateLoop_invariant _ fuel g h
  intro g₁ g₂ q x j' rest hok _ _ hwaiting hround
  obtain ⟨hok', hd⟩ := hok.draw hwaiting
  exact hok'.round hd hround

theorem LiveOk.loop (hok : GateOk a jobs₀ g) (h : LiveOk a drawable jobs₀ g)
    (hroom : RoomFor a drawable jobs₀) (fuel : Nat) :
    LiveOk a drawable jobs₀ (gateLoop a fuel g) := by
  -- the round needs both invariants, so they go through the loop together
  have hboth : GateOk a jobs₀ (gateLoop a fuel g) ∧ LiveOk a drawable jobs₀ (gateLoop a fuel g) := by
    apply gateLoop_invariant (P := fun g => GateOk a jobs₀ g ∧ LiveOk a drawable jobs₀ g) _ fuel g
      ⟨hok, h⟩
    rintro g₁ g₂ q x j' rest ⟨hok, hlive⟩ hcapacity hqueue hwaiting hround
    obtain ⟨hok', hd⟩ := hok.draw hwaiting
    have hdrawable : drawable j' = true :=
      hlive.drawn q (x, j') (by rw [hwaiting]; exact List.mem_cons_self)
    have hlive' : LiveOk a drawable jobs₀ { g₁ with waiting := Function.update g₁.waiting q rest } :=
      ⟨hlive.claims, fun q' e he => hlive.drawn q' e (mem_waiting_of_rest hwaiting he), hlive.few,
        hlive.taken, hlive.kept⟩
    exact ⟨hok'.round hd hround, hlive'.round hok' hroom hd hdrawable hcapacity hqueue hround⟩
  exact hboth.2

end Rounds

/-! ## Section 5: The call -/

section
variable (now : Int) (jobs : Table String Job) (queue part : String)

theorem runningIn_expire :
    runningIn (expireDeadlines now jobs) queue part = runningIn jobs queue part := by
  unfold runningIn expireDeadlines
  rw [Table.count_update]
  -- only available rows end, so no running row appears or goes
  refine Table.count_congr fun _ j _ => ?_
  split
  · rename_i hcond
    simp only [Bool.and_eq_true, decide_eq_true_eq] at hcond
    simp [hcond.1.1]
  · rfl

theorem newIn_expire :
    newIn now (expireDeadlines now jobs) queue part = newIn now jobs queue part := by
  unfold newIn expireDeadlines
  rw [Table.count_update]
  refine Table.count_congr fun _ j _ => ?_
  split
  · rename_i hcond
    simp only [Bool.and_eq_true, decide_eq_true_eq] at hcond
    simp [inState, hcond.1.1]
  · rfl

end

/-- The lists hold eligible rows of their queue. -/
theorem startGate_waiting {requested queues : List String} {q : String} {e : String × Job}
    (hmem : e ∈ (startGate now req requested queues db).waiting q) :
    db.jobs.get e.1 = some e.2 ∧ eligible req requested db e.2 = true ∧ e.2.queue = q := by
  unfold startGate at hmem
  dsimp only at hmem
  split at hmem
  · obtain ⟨hdrawn, hqueue⟩ := List.mem_filter.mp hmem
    have hselect := (List.mem_filter.mp (mem_orderBy.mp (List.mem_of_mem_take hdrawn))).1
    obtain ⟨hget, heligible⟩ := Table.mem_select.mp hselect
    exact ⟨hget, heligible, by simpa using hqueue⟩
  · cases hmem

/-- The loop begins with available candidates and nothing counted. -/
theorem startGate_ok (now : Int) (req : AdmitRequest) (requested queues : List String)
    (db : Store) (a : GateArgs) : GateOk a db.jobs (startGate now req requested queues db) := by
  refine ⟨?_, ?_, ?_, ?_⟩
  · intro q id j hmem
    obtain ⟨hget, heligible, hqueue⟩ := startGate_waiting hmem
    simp only [eligible, Bool.and_eq_true, decide_eq_true_eq] at heligible
    exact ⟨hget, heligible.1.1.1, hqueue⟩
  · intro q
    -- filters and limits of a list of distinct rows leave distinct rows
    unfold startGate
    dsimp only
    split
    · apply List.Nodup.sublist (List.filter_sublist.map Prod.fst)
      apply List.Nodup.sublist ((List.take_sublist _ _).map Prod.fst)
      rw [((orderBy_perm _ _).map Prod.fst).nodup_iff]
      exact List.Nodup.sublist (List.filter_sublist.map Prod.fst) (db.jobs.select_nodup _)
    · exact List.nodup_nil
  · intro q part n hn
    cases hn
  · intro q part l _
    exact le_max_right _ _

/-- The available jobs of a partition that the call may draw, once the passed deadlines have been
applied: not quarantined, and not kept for another worker. -/
def candidatesIn (now : Int) (req : AdmitRequest) (db : Store) (queue part : String) : Nat :=
  availableIn (eligible req (normalizeQueues req.queues) db) (expireDeadlines now db.jobs) queue part

/-- Every partition of an open queue that displaces can hold, beside the jobs that were claimed in
this millisecond, as many jobs as can be claimed from it. -/
def Roomy (now : Int) (req : AdmitRequest) (db : Store) : Prop :=
  ∀ queue ∈ normalizeQueues req.queues, (queueStateOf db.queueStates queue).paused = false →
    ∀ l, limitOf db queue = some l → l.onSaturated = .cancelRunning → ∀ part,
      ((newIn now db.jobs queue part
          + min req.capacity (candidatesIn now req db queue part) : Nat) : Int)
        ≤ max l.maxConcurrent (runningIn db.jobs queue part)

/-- The loop begins without a claim. -/
theorem startGate_live (now : Int) (req : AdmitRequest) (requested queues : List String)
    (db : Store) (a : GateArgs) :
    LiveOk a (eligible req requested db) db.jobs (startGate now req requested queues db) := by
  refine ⟨fun c hc => (by cases hc), ?_, fun q part _ => le_rfl, fun q part _ => le_rfl,
    fun q part _ => le_rfl⟩
  intro q e he
  exact (startGate_waiting he).2.1

/-- The ceilings hold for every call. -/
theorem admitOn_ceiling {requested : List String} (hl : limitOf db queue = some l) (part : String) :
    (runningIn (admitOn now req requested db).1.jobs queue part : Int)
      ≤ max l.maxConcurrent (runningIn db.jobs queue part) := by
  rcases admitOn_cases now req requested db with heq | ⟨queues, fuel, -, hjobs, -⟩
  · -- without an open queue only deadlines are expired, which starts no job
    rw [heq]
    show (runningIn (expireDeadlines now db.jobs) queue part : Int) ≤ _
    rw [runningIn_expire]
    exact le_max_right _ _
  · have hstart := startGate_ok now req requested queues (prepared now requested db)
      (gateArgs now req queues (prepared now requested db))
    have hceiling := (hstart.loop fuel).ceiling queue part l hl
    rw [hjobs]
    unfold prepared at hceiling ⊢
    rw [runningIn_expire] at hceiling
    exact hceiling

/-- The claims are live if there is room for them. -/
theorem admitOn_live (hroomy : Roomy now req db) {c : Claim}
    (hc : c ∈ (admitOn now req (normalizeQueues req.queues) db).2) :
    ∃ j, (admitOn now req (normalizeQueues req.queues) db).1.jobs.get c.envelope.id = some j ∧
      j.heldBy c.ref = true := by
  rcases admitOn_cases now req (normalizeQueues req.queues) db with
    heq | ⟨queues, fuel, hsub, hjobs, hclaims⟩
  · rw [heq] at hc
    cases hc
  · -- the gate sees the rows after deadlines are expired; the bound is about the rows before
    have hroom : RoomFor (gateArgs now req queues (prepared now (normalizeQueues req.queues) db))
        (eligible req (normalizeQueues req.queues) db)
        (prepared now (normalizeQueues req.queues) db).jobs := by
      intro queue hqueue l hl hs part
      obtain ⟨hrequested, hopen⟩ := hsub queue hqueue
      have hbound := hroomy queue hrequested hopen l hl hs part
      unfold candidatesIn at hbound
      rw [← newIn_expire, ← runningIn_expire now] at hbound
      exact hbound
    have hstart := startGate_ok now req (normalizeQueues req.queues) queues
      (prepared now (normalizeQueues req.queues) db)
      (gateArgs now req queues (prepared now (normalizeQueues req.queues) db))
    rw [hclaims] at hc
    have hlive := startGate_live now req (normalizeQueues req.queues) queues
      (prepared now (normalizeQueues req.queues) db)
      (gateArgs now req queues (prepared now (normalizeQueues req.queues) db))
    obtain ⟨j, hget, hheld, -, -⟩ := (LiveOk.loop hstart hlive hroom fuel).claims c hc
    exact ⟨j, by rw [hjobs]; exact hget, hheld⟩

/-- Two jobs wait in a partition whose queue runs one at a time, the newest first. -/
def newestWins : Store :=
  { Store.init with
    jobs := Table.empty.insertRows [
      ("a", { Sql.baseJob 0 { queue := "q" } with uniqueWindowMs := 0 }),
      ("b", { Sql.baseJob 0 { queue := "q" } with uniqueWindowMs := 0 })]
    limits := Table.empty.insert "one" ⟨"q", 1, .cancelRunning⟩ }

def takes (capacity : Nat) : AdmitRequest where
  worker := "w"
  leaseId := "l"
  queues := ["q"]
  capacity := capacity
  leaseMs := 1000
  quantum := 1

end Headgate.Sqlite
