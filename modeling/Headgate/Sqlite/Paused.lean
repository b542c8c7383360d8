import Headgate.Sqlite.Gate
import Headgate.Sqlite.Step

/-!
# Paused queues of the SQLite gate

The draw is over all requested queues and has one limit; the rows of paused
queues are dropped after it.  The loop never looks at them again.  So paused
queues make a difference exactly where their rows push open rows over the limit.
-/

namespace Headgate.Sqlite

open Headgate.Core Data

/-! ## Section 1: Without paused jobs -/

def requestedQueues (req : AdmitRequest) : List String := normalizeQueues req.queues

/-- A requested queue that is paused. -/
def pausedRequest (req : AdmitRequest) (db : Store) (queue : String) : Bool :=
  (requestedQueues req).contains queue && (queueStateOf db.queueStates queue).paused

/-- The store without the jobs of the paused requested queues. -/
def dropPaused (req : AdmitRequest) (db : Store) : Store :=
  { db with jobs := db.jobs.delete fun _ j => pausedRequest req db j.queue }

/-- The gate on a table without the jobs of some queues. -/
def Gate.without (d : String → Bool) (g : Gate) : Gate :=
  { g with jobs := g.jobs.delete fun _ j => d j.queue }

/-! ## Section 2: The loop does not look at them -/

section Loop
variable {d : String → Bool} {a : GateArgs} {queue id : String} {j : Job} {g : Gate}

section
variable (jobs : Table String Job) (part : String)

theorem runningIn_delete (hqueue : d queue = false) :
    runningIn (jobs.delete fun _ j => d j.queue) queue part = runningIn jobs queue part := by
  unfold runningIn Table.count
  rw [Table.select_delete_of]
  intro i r hr
  simp only [Bool.and_eq_true, decide_eq_true_eq] at hr
  rw [hr.1.1]
  exact hqueue

theorem oldestRunning_delete (hqueue : d queue = false) :
    oldestRunning (jobs.delete fun _ j => d j.queue) queue part
      = oldestRunning jobs queue part := by
  unfold oldestRunning
  rw [Table.select_delete_of]
  intro i r hr
  simp only [Bool.and_eq_true, decide_eq_true_eq] at hr
  rw [hr.1.1]
  exact hqueue

/-- Changes that leave a row in its queue do not depend on the rows of other queues. -/
theorem updateAt_delete (id : String) (p : Job → Bool) {f : Job → Job}
    (h : ∀ j, (f j).queue = j.queue) :
    (jobs.delete fun _ j => d j.queue).updateAt id p f
      = (jobs.updateAt id p f).delete fun _ j => d j.queue :=
  (Table.delete_updateAt (d := fun _ j => d j.queue) fun _ j => congrArg d (h j)).symm

end

theorem terminalize_without (now : Int) (to_ : State) (g : Gate) :
    terminalize now queue id to_ (g.without d) = (terminalize now queue id to_ g).without d := by
  simp only [terminalize, countDecision, Gate.without, Gate.mk.injEq, and_self, and_true]
  exact updateAt_delete g.jobs id _ fun _ => rfl

theorem passCeiling_without (hqueue : d queue = false) (g : Gate) :
    passCeiling a queue id j (g.without d)
      = ((passCeiling a queue id j g).1.without d, (passCeiling a queue id j g).2) := by
  unfold passCeiling
  cases a.limit queue with
  | none => rfl
  | some l =>
    have hcurrent : runningIn (g.without d).jobs queue j.partitionKey
        = runningIn g.jobs queue j.partitionKey := runningIn_delete g.jobs _ hqueue
    have holdest : oldestRunning (g.without d).jobs queue j.partitionKey
        = oldestRunning g.jobs queue j.partitionKey := oldestRunning_delete g.jobs _ hqueue
    dsimp only
    rw [hcurrent, holdest]
    -- the local maps are the same on both sides
    change (if (g.inflight _).getD _ < l.maxConcurrent then _ else _) = _
    by_cases hbelow : (g.inflight (queue, j.partitionKey)).getD
        (runningIn g.jobs queue j.partitionKey : Int) < l.maxConcurrent
    · rw [if_pos hbelow, if_pos hbelow]
      rfl
    · rw [if_neg hbelow, if_neg hbelow]
      cases l.onSaturated with
      | queue => rfl
      | discard =>
        exact congrArg (·, false)
          (terminalize_without a.now .archived (counted queue j.partitionKey g))
      | cancelIncoming =>
        exact congrArg (·, false)
          (terminalize_without a.now .cancelled (counted queue j.partitionKey g))
      | cancelRunning =>
        cases oldestRunning g.jobs queue j.partitionKey with
        | none => rfl
        | some victim =>
          simp only [Gate.without, Prod.mk.injEq, Gate.mk.injEq, and_self, and_true]
          exact updateAt_delete g.jobs victim _ fun _ => rfl

theorem claimJob_without (hrow : ∀ row, g.jobs.get id = some row → d row.queue = false) :
    claimJob a queue id j (g.without d) = (claimJob a queue id j g).without d := by
  have hget : (g.without d).jobs.get id = g.jobs.get id := by
    unfold Gate.without
    rw [Table.get_delete]
    cases hg : g.jobs.get id with
    | none => rfl
    | some row => simp [hrow row hg]
  unfold claimJob
  rw [hget]
  split
  · simp only [countDecision, Gate.without, Gate.mk.injEq, and_self, and_true]
    exact updateAt_delete g.jobs id _ fun _ => rfl
  · rfl

/-- Every row was there before, in the same queue. -/
def SameQueues (t t' : Table String Job) : Prop :=
  ∀ id row', t'.get id = some row' → ∃ row, t.get id = some row ∧ row.queue = row'.queue

theorem SameQueues.refl (t : Table String Job) : SameQueues t t := fun _ row h => ⟨row, h, rfl⟩

theorem SameQueues.updateAt {t t' : Table String Job} (h : SameQueues t t') (id : String)
    (p : Job → Bool) {f : Job → Job} (hf : ∀ j, (f j).queue = j.queue) :
    SameQueues t (t'.updateAt id p f) := by
  intro i row' hrow'
  rw [Table.updateAt, Table.get_update, Option.map_eq_some_iff] at hrow'
  obtain ⟨r, hr, rfl⟩ := hrow'
  obtain ⟨row, hrow, hqueue⟩ := h i r hr
  refine ⟨row, hrow, hqueue.trans ?_⟩
  split
  · exact (hf r).symm
  · rfl

theorem claimJob_sameQueues {t : Table String Job} (h : SameQueues t g.jobs) :
    SameQueues t (claimJob a queue id j g).jobs := by
  unfold claimJob
  split
  · exact h.updateAt id _ fun _ => rfl
  · exact h

theorem passCeiling_sameQueues :
    SameQueues g.jobs (passCeiling a queue id j g).1.jobs := by
  have hrefl := SameQueues.refl g.jobs
  unfold passCeiling
  split
  · exact hrefl
  · dsimp only
    -- at most one row is written, the incoming one or the oldest running one
    split
    · exact hrefl
    · split
      · exact hrefl
      · exact hrefl.updateAt id _ fun _ => rfl
      · exact hrefl.updateAt id _ fun _ => rfl
      · split
        · exact hrefl
        · exact hrefl.updateAt _ _ fun _ => rfl

theorem considerJob_sameQueues (a : GateArgs) (queue id : String) (j : Job) (g : Gate) :
    SameQueues g.jobs (considerJob a queue id j g).jobs := by
  have hceiling : SameQueues g.jobs (passCeiling a queue id j g).1.jobs := passCeiling_sameQueues
  unfold considerJob
  split
  · revert hceiling
    obtain ⟨g', passed⟩ := passCeiling a queue id j g
    intro hceiling
    cases passed with
    | true => exact claimJob_sameQueues hceiling
    | false => exact hceiling
  · exact SameQueues.refl g.jobs

/-- The candidates of open queues are rows of open queues. -/
def AtHome (d : String → Bool) (g : Gate) : Prop :=
  ∀ q, d q = false → ∀ e ∈ g.waiting q, ∀ row, g.jobs.get e.1 = some row → d row.queue = false

theorem considerJob_without (hqueue : d queue = false)
    (hrow : ∀ row, g.jobs.get id = some row → d row.queue = false) :
    considerJob a queue id j (g.without d) = (considerJob a queue id j g).without d := by
  have hpass : passRate (g.without d) j = passRate g j := rfl
  unfold considerJob
  rw [hpass, passCeiling_without hqueue]
  split
  · have hrow' : ∀ row, (passCeiling a queue id j g).1.jobs.get id = some row →
        d row.queue = false := by
      intro row' hget
      obtain ⟨row, hrow₀, hsame⟩ := passCeiling_sameQueues id row' hget
      rw [← hsame]
      exact hrow row hrow₀
    revert hrow'
    obtain ⟨g', passed⟩ := passCeiling a queue id j g
    intro hrow'
    cases passed with
    | true => exact claimJob_without hrow'
    | false => rfl
  · rfl

theorem Round.waiting {g' : Gate} (h : Round a queue id j g g') : g'.waiting = g.waiting := by
  have hclaim : ∀ g' : Gate, (claimJob a queue id j g').waiting = g'.waiting := by
    intro g'
    unfold claimJob
    split
    · rfl
    · rfl
  cases h with
  | refused | held | ended => rfl
  | unlimited | belowCeiling | replaced => exact hclaim _

/-- A round takes a candidate out of a list and keeps every row in its queue. -/
theorem AtHome.round {rest : List (String × Job)} (h : AtHome d g)
    (hwaiting : g.waiting queue = (id, j) :: rest) :
    AtHome d (considerJob a queue id j
      { g with waiting := Function.update g.waiting queue rest }) := by
  intro q hq e he row' hrow'
  -- a round takes one candidate off one list and adds none
  have hbefore : e ∈ g.waiting q := by
    rw [(considerJob_round a queue id j _).waiting] at he
    dsimp only at he
    by_cases hsame : q = queue
    · subst hsame
      rw [Function.update_self] at he
      exact hwaiting ▸ List.mem_cons_of_mem _ he
    · rwa [Function.update_of_ne hsame] at he
  obtain ⟨row, hrow, hkept⟩ := considerJob_sameQueues a queue id j _ e.1 row' hrow'
  rw [← hkept]
  exact h q hq e hbefore row hrow

/-- The loop on the table without the jobs of paused queues. -/
theorem gateLoop_without (hopen : ∀ q ∈ a.queues, d q = false) (fuel : Nat) (h : AtHome d g) :
    gateLoop a fuel (g.without d) = (gateLoop a fuel g).without d := by
  -- by the fuel: both loops choose the same queue and the same candidate in every round
  induction fuel generalizing g with
  | zero => rfl
  | succ n ih =>
    have hchoose : chooseQueue a (g.without d) = chooseQueue a g := rfl
    unfold gateLoop
    rw [hchoose]
    change (if g.decisions < a.req.capacity then _ else _) = _
    split
    case isFalse => rfl
    case isTrue =>
      cases hqueue : chooseQueue a g with
      | none => rfl
      | some q =>
        have hq := hopen q (chooseQueue_mem hqueue)
        dsimp only
        rw [show (g.without d).waiting q = g.waiting q from rfl]
        cases hwaiting : g.waiting q with
        | nil => rfl
        | cons e rest =>
          obtain ⟨id, j⟩ := e
          let g₁ : Gate := { g with waiting := Function.update g.waiting q rest }
          have hrow := h q hq (id, j) (hwaiting ▸ List.mem_cons_self)
          have hstep : considerJob a q id j (g₁.without d)
              = (considerJob a q id j g₁).without d := considerJob_without hq hrow
          have hloop := ih (g := considerJob a q id j g₁) (h.round hwaiting)
          rw [← hstep] at hloop
          exact hloop

end Loop

/-! ## Section 3: The draw -/

section Draw
variable (now : Int) (req : AdmitRequest) (db : Store)

/-- The rows in the order of which the draw is limited. -/
def drawRows : List (String × Job) :=
  (expireDeadlines now db.jobs).select fun _ j => eligible req (requestedQueues req) db j

def keptRows : List (String × Job) :=
  (drawRows now req db).filter fun e => rowNumber (drawRows now req db) e ≤ req.capacity

def drawOrder : String × Job → Int ×ₗ Nat ×ₗ (Int ×ₗ Int ×ₗ String) :=
  roundKey (max 1 req.quantum) (drawRows now req db)

def drawLimit : Nat := req.capacity * (requestedQueues req).length * 4

def drawn : List (String × Job) := first (drawOrder now req db) (drawLimit req) (keptRows now req db)

def isOpen (e : String × Job) : Bool := !pausedRequest req db e.2.queue

/-- No row of an open queue falls behind the limit of the draw because of rows of paused
queues. -/
def Uncrowded : Prop :=
  ∀ e ∈ keptRows now req db, isOpen req db e = true →
    (((keptRows now req db).filter (isOpen req db)).filter
      fun r => drawOrder now req db r < drawOrder now req db e).length < drawLimit req →
    ((keptRows now req db).filter
      fun r => drawOrder now req db r < drawOrder now req db e).length < drawLimit req

instance : Decidable (Uncrowded now req db) := by
  unfold Uncrowded
  infer_instance

theorem expireDeadlines_dropPaused :
    expireDeadlines now (dropPaused req db).jobs
      = (expireDeadlines now db.jobs).delete fun _ j => pausedRequest req db j.queue :=
  (Table.delete_update (d := fun _ (j : Job) => pausedRequest req db j.queue)
    (f := fun _ j => { j with state := .cancelled, finalizedAtMs := some now })
    fun _ _ => rfl).symm

theorem drawRows_dropPaused :
    drawRows now req (dropPaused req db) = (drawRows now req db).filter (isOpen req db) := by
  unfold drawRows
  rw [expireDeadlines_dropPaused, Table.select_delete]
  rfl

variable {now req db}

/-- Rows are numbered within their queue. -/
theorem rowNumber_open {e : String × Job} (h : isOpen req db e = true) :
    rowNumber ((drawRows now req db).filter (isOpen req db)) e
      = rowNumber (drawRows now req db) e := by
  unfold rowNumber
  rw [List.filter_filter]
  congr 2
  apply List.filter_congr
  intro r _
  -- rows of one queue are open or paused together
  by_cases hqueue : r.2.queue = e.2.queue
  · have hopen : isOpen req db r = true := by
      unfold isOpen at h ⊢
      rwa [hqueue]
    rw [hopen, Bool.and_true]
  · simp [hqueue]

theorem drawOrder_dropPaused {e : String × Job} (h : isOpen req db e = true) :
    drawOrder now req (dropPaused req db) e = drawOrder now req db e := by
  unfold drawOrder roundKey
  rw [drawRows_dropPaused, rowNumber_open h]

theorem keptRows_dropPaused :
    keptRows now req (dropPaused req db) = (keptRows now req db).filter (isOpen req db) := by
  unfold keptRows
  rw [drawRows_dropPaused, List.filter_filter, List.filter_filter]
  apply List.filter_congr
  intro e _
  cases hopen : isOpen req db e with
  | false => simp
  | true => rw [rowNumber_open hopen, Bool.and_true, Bool.true_and]

theorem drawOrder_nodup : ((keptRows now req db).map (drawOrder now req db)).Nodup := by
  have hids : ((keptRows now req db).map Prod.fst).Nodup :=
    (List.filter_sublist.map Prod.fst).nodup (Table.select_nodup _ _)
  rw [List.Nodup, List.pairwise_map] at hids ⊢
  apply hids.imp
  intro e e' hne heq
  simp only [drawOrder, roundKey, drawKey, EmbeddingLike.apply_eq_iff_eq, Prod.mk.injEq] at heq
  exact hne heq.2.2.2.2

/-- Dropping paused rows before the limit or after it. -/
theorem drawn_dropPaused_iff :
    (drawn now req db).filter (isOpen req db) = drawn now req (dropPaused req db) ↔
      Uncrowded now req db := by
  have hdrop : drawn now req (dropPaused req db)
      = first (drawOrder now req db) (drawLimit req)
        ((keptRows now req db).filter (isOpen req db)) := by
    have hmap : (first (drawOrder now req (dropPaused req db)) (drawLimit req)
        ((keptRows now req db).filter (isOpen req db))).map id
        = first (drawOrder now req db) (drawLimit req)
          (((keptRows now req db).filter (isOpen req db)).map id) := by
      -- an open row keeps its rank, since its number counts the rows of its own queue
      apply first_map
      intro e he e' he'
      rw [drawOrder_dropPaused (List.mem_filter.mp he).2,
        drawOrder_dropPaused (List.mem_filter.mp he').2]
      rfl
    rw [List.map_id, List.map_id] at hmap
    unfold drawn
    rw [keptRows_dropPaused, hmap]
  rw [hdrop]
  exact filter_first_eq_iff (isOpen req db) drawOrder_nodup

end Draw

/-! ## Section 4: The call -/

section Call
variable {now : Int} {req : AdmitRequest} {db : Store}

def openQueues (req : AdmitRequest) (db : Store) : List String :=
  (requestedQueues req).filter fun q => !(queueStateOf db.queueStates q).paused

theorem openQueues_prepared :
    openQueues req (prepared now (requestedQueues req) db) = openQueues req db := by
  unfold openQueues
  apply List.filter_congr
  intro q _
  exact congrArg (fun st : QueueState => !st.paused) (queueStateOf_ensureQueues _ _ q)

theorem pausedRequest_open {q : String} (h : q ∈ openQueues req db) :
    pausedRequest req db q = false := by
  have hpaused := (List.mem_filter.mp h).2
  unfold pausedRequest
  rw [Bool.not_eq_true'] at hpaused
  rw [hpaused, Bool.and_false]

/-- The rows of an open queue are the same in both draws. -/
theorem waiting_dropPaused (h : Uncrowded now req db) {q : String} (hq : q ∈ openQueues req db) :
    (drawn now req (dropPaused req db)).filter (fun e => e.2.queue = q)
      = (drawn now req db).filter fun e => e.2.queue = q := by
  rw [← drawn_dropPaused_iff.mpr h, List.filter_filter]
  apply List.filter_congr
  intro e _
  by_cases hqueue : e.2.queue = q
  · have hopen : isOpen req db e = true := by
      unfold isOpen
      rw [hqueue, pausedRequest_open hq]
      rfl
    simp [hqueue, hopen]
  · simp [hqueue]

def callGate (now : Int) (req : AdmitRequest) (db : Store) : Gate :=
  startGate now req (requestedQueues req) (openQueues req db) (prepared now (requestedQueues req) db)

theorem callGate_dropPaused (h : Uncrowded now req db) :
    callGate now req (dropPaused req db) = (callGate now req db).without (pausedRequest req db) := by
  have hwaiting : ∀ q, (callGate now req (dropPaused req db)).waiting q
      = (callGate now req db).waiting q := by
    intro q
    change (if (openQueues req db).contains q then
      (drawn now req (dropPaused req db)).filter _ else []) =
      (if (openQueues req db).contains q then (drawn now req db).filter _ else [])
    -- a queue that is not open has no candidates in either gate
    split
    case isTrue hq => exact waiting_dropPaused h (List.contains_iff_mem.mp hq)
    case isFalse => rfl
  unfold callGate startGate Gate.without at *
  simp only [Gate.mk.injEq, and_true]
  exact ⟨expireDeadlines_dropPaused now req db, rfl, rfl, funext hwaiting⟩

theorem callGate_atHome : AtHome (pausedRequest req db) (callGate now req db) := by
  intro q hq e he row hrow
  have hwaiting : e ∈ if (openQueues req db).contains q then
      (drawn now req db).filter (fun e => e.2.queue = q) else [] := he
  split at hwaiting
  case isFalse => cases hwaiting
  case isTrue =>
    obtain ⟨hdrawn, hqueue⟩ := List.mem_filter.mp hwaiting
    have hget := (Table.mem_select.mp (List.mem_filter.mp (mem_of_mem_first hdrawn)).1).1
    have hsame : row = e.2 := Option.some.inj (hrow.symm.trans hget)
    rw [hsame, of_decide_eq_true hqueue]
    exact hq

def callFuel (now : Int) (req : AdmitRequest) (db : Store) : Nat :=
  ((openQueues req db).map fun q => ((callGate now req db).waiting q).length).sum

/-- The claims of the transaction. -/
theorem admitOn_claims :
    (admitOn now req (requestedQueues req) db).2
      = if (openQueues req db).isEmpty then []
        else (gateLoop (gateArgs now req (openQueues req db) (prepared now (requestedQueues req) db))
          (callFuel now req db) (callGate now req db)).claims := by
  -- the expiry of deadlines does not pause or resume a queue
  have hqueues : (requestedQueues req).filter
      (fun q => !(queueStateOf (prepared now (requestedQueues req) db).queueStates q).paused)
      = openQueues req db := openQueues_prepared
  have hbody : (admitOn now req (requestedQueues req) db).2
      = (let queues := (requestedQueues req).filter
          fun q => !(queueStateOf (prepared now (requestedQueues req) db).queueStates q).paused
        if queues.isEmpty then (prepared now (requestedQueues req) db, [])
        else
          let g := startGate now req (requestedQueues req) queues (prepared now (requestedQueues req) db)
          let g := gateLoop (gateArgs now req queues (prepared now (requestedQueues req) db))
            (queues.map fun q => (g.waiting q).length).sum g
          (writeBack queues (prepared now (requestedQueues req) db) g, g.claims)).2 := rfl
  rw [hbody, hqueues]
  dsimp only
  split
  · rfl
  · rfl

/-- **Paused queues.**  The draw takes the same rows of the open queues as without the jobs of
the paused ones exactly if these do not crowd it; then the call claims the same jobs. -/
theorem paused_queue_unnoticed (now : Int) (req : AdmitRequest) (db : Store) :
    (Uncrowded now req db →
      (admitCall now req (dropPaused req db)).2 = (admitCall now req db).2) ∧
    (Uncrowded now req db ↔
      (drawn now req db).filter (isOpen req db) = drawn now req (dropPaused req db)) := by
  refine ⟨fun h => ?_, drawn_dropPaused_iff.symm⟩
  have hclaims : (admitOn now req (requestedQueues req) (dropPaused req db)).2
      = (admitOn now req (requestedQueues req) db).2 := by
    have hfuel : callFuel now req (dropPaused req db) = callFuel now req db := by
      unfold callFuel
      rw [callGate_dropPaused h]
      rfl
    rw [admitOn_claims, admitOn_claims, hfuel, callGate_dropPaused h]
    change (if (openQueues req db).isEmpty then [] else
      (gateLoop (gateArgs now req (openQueues req db)
        (prepared now (requestedQueues req) db)) _ _).claims) = _
    rw [gateLoop_without (fun q hq => pausedRequest_open hq) _ callGate_atHome]
    rfl
  unfold admitCall
  dsimp only
  split
  · rfl
  · split
    · rfl
    · exact congrArg Except.ok hclaims

end Call

/-! ## Section 5: A crowded draw -/

/-- Queue `p` is paused with one urgent job in each of its partitions; queue `q` has a job. -/
def pausedCrowd (tenants : List String) : Store :=
  exec [
    ⟨0, .enqueue ((tenants.map fun tenant => {
      id := "p" ++ tenant, kind := "k", queue := "p", partitionKey := tenant, priority := 1 })
      ++ [{ id := "a", kind := "k", queue := "q" }]) .increasing⟩,
    ⟨1, .setQueuePaused "p" true⟩]

def bothQueues : AdmitRequest where
  worker := "w"
  leaseId := "l"
  queues := ["p", "q"]
  capacity := 1
  leaseMs := 1000
  quantum := 1

def claimedIds (r : Store × Except StoreError (List Claim)) : Option (List String) :=
  r.2.toOption.map fun claims => claims.map fun c => c.envelope.id

/-- Seven paused partitions leave room. -/
theorem paused_queue_unnoticed_seven :
    let db := pausedCrowd ["1", "2", "3", "4", "5", "6", "7"]
    (admitCall 5 bothQueues (dropPaused bothQueues db)).2 = (admitCall 5 bothQueues db).2 ∧
    claimedIds (admitCall 5 bothQueues db) = some ["a"] :=
  ⟨(paused_queue_unnoticed 5 bothQueues (pausedCrowd ["1", "2", "3", "4", "5", "6", "7"])).1
    (by decide +kernel), by decide +kernel⟩

/-- Eight keep the open queue from being served. -/
theorem paused_queue_starves :
    let db := pausedCrowd ["1", "2", "3", "4", "5", "6", "7", "8"]
    claimedIds (admitCall 5 bothQueues db) = some [] ∧
    claimedIds (admitCall 5 bothQueues (dropPaused bothQueues db)) = some ["a"] := by
  decide +kernel

end Headgate.Sqlite
