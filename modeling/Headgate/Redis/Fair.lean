import Headgate.Redis.Selection

/-!
# Weighted selection between queues

The selection loop serves queues in weighted fair turns: a round is a turn of the
chosen queue, used if its candidate is decided.  The served counters persist, so
a call takes up where the last one stopped.
-/

namespace Headgate.Redis

open Headgate.Core Data

variable {q : String}

/-! ## Section 1: The choice -/

/-- The loop's state as the fair turns see it. -/
def Selection.shares (l : Selection) : Shares String where
  served := l.served
  waiting := fun q => (l.cands q).length

section
variable {weight : String → Int} {queues : List String} {l : Selection}

/-- A queue that does not come before the chosen one comes after it. -/
theorem precedes_of_not_servedBefore {chosen : String}
    (h : servedBefore l.served weight q chosen = false) :
    Precedes weight l.served chosen q := by
  unfold servedBefore at h
  rw [Bool.or_eq_false_iff, decide_eq_false_iff_not, Bool.and_eq_false_iff,
    decide_eq_false_iff_not, decide_eq_false_iff_not] at h
  rcases lt_or_eq_of_le (not_lt.mp h.1) with hlt | heq
  · exact .inl hlt
  · exact .inr ⟨heq, not_lt.mp (h.2.resolve_left (not_not.mpr heq.symm))⟩

theorem precedes_of_servedBefore {chosen : String}
    (h : servedBefore l.served weight q chosen = true) :
    Precedes weight l.served q chosen := by
  unfold servedBefore at h
  rw [Bool.or_eq_true, decide_eq_true_eq, Bool.and_eq_true, decide_eq_true_eq,
    decide_eq_true_eq] at h
  rcases h with hlt | ⟨heq, hname⟩
  · exact .inl hlt
  · exact .inr ⟨heq, hname.le⟩

/-- The choice falls on a queue whose turn it is. -/
theorem chooseQueue_turn (hweight : ∀ q, 1 ≤ weight q) (h : chooseQueue weight queues l = some q) :
    Turn weight queues l.shares q := by
  obtain ⟨hmem, hne⟩ := chooseQueue_mem h
  rw [chooseQueue_eq] at h
  obtain ⟨-, -, hleast⟩ := foldl_prefer_eq_some (r := Precedes weight l.served) .refl
    (fun _ _ _ => .trans hweight) (fun _ _ => precedes_of_servedBefore)
    (fun _ _ => precedes_of_not_servedBefore) h
  refine ⟨hmem, List.length_pos_of_ne_nil hne, fun q' hq' hwaits => ?_⟩
  exact hleast q' hq' (List.length_pos_iff_ne_nil.mp hwaits)

end

/-! ## Section 2: The loop -/

/-- The rounds of the loop: the chosen queue, and whether its candidate was decided. -/
def rounds (now : Int) (req : AdmitRequest) (weight : String → Int) (queues : List String) :
    Nat → Selection → List (String × Bool)
  | 0, _ => []
  | n + 1, l =>
    if l.decided < req.capacity then
      match chooseQueue weight queues l with
      | none => []
      | some q =>
        match l.cands q with
        | [] => []
        | c :: rest =>
          let l' := considerCandidate now req q c (l.pop q rest)
          -- a round that decides nothing still uses up its candidate
          (q, decide (l.decided < l'.decided)) :: rounds now req weight queues n l'
    else []

/-- A round serves its queue once, if the candidate is decided. -/
theorem considerCandidate_shares (now : Int) (req : AdmitRequest) {c : Candidate}
    {rest : List Candidate} {l : Selection} (hc : l.cands q = c :: rest) :
    let l' := considerCandidate now req q c (l.pop q rest)
    l'.shares = l.shares.take q (decide (l.decided < l'.decided)) ∧
      l'.decided = l.decided + if l.decided < l'.decided then 1 else 0 := by
  intro l'
  have hwaiting : (fun q' => (Function.update l.cands q rest q').length) =
      Function.update (fun q' => (l.cands q').length) q ((l.cands q).length - 1) := by
    funext q'
    by_cases hq : q' = q
    · subst hq
      simp [hc]
    · simp [hq]
  -- the lists are those of the start, whatever the round did
  have hshares : ∀ served, l'.served = served → l'.shares =
      ⟨served, Function.update (fun q' => (l.cands q').length) q ((l.cands q).length - 1)⟩ := by
    intro served hserved
    unfold Selection.shares
    rw [hserved, considerCandidate_cands, ← hwaiting]
  rcases considerCandidate_tables now req q c (l.pop q rest) with hsame | ⟨a, -, -, hcounted⟩
  · have hnot : ¬ l.decided < l'.decided := hsame.decided.not_gt
    rw [decide_eq_false hnot, if_neg hnot]
    exact ⟨hshares l.served hsame.served, hsame.decided⟩
  · have hmore : l.decided < l'.decided := (Nat.lt_succ_self _).trans_eq hcounted.decided.symm
    rw [decide_eq_true hmore, if_pos hmore]
    exact ⟨hshares _ hcounted.served, hcounted.decided⟩

/-- The rounds of the loop are fair turns, as many used as it makes decisions, and it does not
go beyond the capacity. -/
theorem selectLoop_turns (now : Int) (req : AdmitRequest) {weight : String → Int}
    (hweight : ∀ q, 1 ≤ weight q) (queues : List String) (fuel : Nat) (l : Selection) :
    Turns weight queues l.shares (rounds now req weight queues fuel l)
        (selectLoop now req weight queues fuel l).shares ∧
      (selectLoop now req weight queues fuel l).decided
        = l.decided + (rounds now req weight queues fuel l).countP Prod.snd ∧
      (l.decided ≤ req.capacity →
        (selectLoop now req weight queues fuel l).decided ≤ req.capacity) := by
  -- loop and record take the same branch in every round
  induction fuel generalizing l with
  | zero => exact ⟨.done _, rfl, id⟩
  | succ n ih =>
    unfold selectLoop rounds
    by_cases hroom : l.decided < req.capacity
    · rw [if_pos hroom, if_pos hroom]
      cases hq : chooseQueue weight queues l with
      | none => exact ⟨.done _, rfl, id⟩
      | some q =>
        dsimp only
        cases hc : l.cands q with
        | nil => exact ⟨.done _, rfl, id⟩
        | cons c rest =>
          obtain ⟨hshares, hdecided⟩ := considerCandidate_shares now req hc
          obtain ⟨hturns, hlength, hbound⟩ := ih (considerCandidate now req q c (l.pop q rest))
          rw [hshares] at hturns
          refine ⟨.next (chooseQueue_turn hweight hq) hturns, hlength.trans ?_, fun _ => hbound ?_⟩
          · rw [List.countP_cons]
            simp only [decide_eq_true_eq]
            omega
          · split at hdecided <;> omega
    · rw [if_neg hroom, if_neg hroom]
      exact ⟨.done _, rfl, id⟩

/-- **Weighted selection.**  From any candidate lists, served counters and weights the loop
serves the queues in fair turns until the capacity is reached or no candidate is left: its rounds
are the turns, used where it decides the candidate.  Two queues that were tied and both have
candidates left were served in proportion to their weights, up to one turn. -/
theorem selectLoop_fair (now : Int) (req : AdmitRequest) (weight : String → Int)
    (hweight : ∀ q, 1 ≤ weight q) (queues : List String) (hnodup : queues.Nodup) (fuel : Nat)
    (l : Selection) (hfuel : remaining queues l ≤ fuel) (hstart : l.decided = 0) :
    let l' := selectLoop now req weight queues fuel l
    let ds := rounds now req weight queues fuel l
    Turns weight queues l.shares ds l'.shares ∧ ds.countP Prod.snd = l'.decided ∧
      l'.decided ≤ req.capacity ∧
      (l'.decided = req.capacity ∨ ∀ q ∈ queues, l'.cands q = []) ∧
      ∀ a ∈ queues, ∀ b ∈ queues, l'.cands a ≠ [] → l'.cands b ≠ [] →
        l.served a * weight b = l.served b * weight a →
          |(ds.count (a, true) : Int) * weight b - ds.count (b, true) * weight a|
            ≤ max (weight a) (weight b) := by
  obtain ⟨hturns, hlength, hbound⟩ := selectLoop_turns now req hweight queues fuel l
  have hcapacity := hbound (by omega)
  refine ⟨hturns, by omega, hcapacity, ?_, fun a ha b hb hleft hleft' tied => ?_⟩
  · -- the fuel is enough, so the loop ends at capacity or without candidates
    rcases selectLoop_exhausts now req weight hnodup fuel l hfuel with hfull | hempty
    · exact .inl (le_antisymm hcapacity hfull)
    · exact .inr hempty
  · exact hturns.proportional hweight ha hb (List.length_pos_of_ne_nil hleft)
      (List.length_pos_of_ne_nil hleft') tied

/-- Queue `a` has twice the weight of `b`, and both have work. -/
def weightedQueues : List Call :=
  [⟨0, .setQueueWeight "a" 2⟩,
    ⟨0, .enqueue [{ id := "a1", kind := "k", queue := "a" }, { id := "a2", kind := "k", queue := "a" },
      { id := "a3", kind := "k", queue := "a" }, { id := "b1", kind := "k", queue := "b" },
      { id := "b2", kind := "k", queue := "b" }]⟩]

/-- The loop of a call for three jobs of the two queues. -/
def weightedStart : Selection :=
  startSelection (exec weightedQueues)
    (drawnCands 1 ⟨"w", "L1", ["a", "b"], 3, 10, 3⟩ .increasing ["a", "b"] (exec weightedQueues))

/-- Both queues still have jobs, and `a` had two of the three turns. -/
theorem selectLoop_fair_weightedQueues :
    let ds := rounds 1 ⟨"w", "L1", ["a", "b"], 3, 10, 3⟩ (qweight (exec weightedQueues)) ["a", "b"] 5
      weightedStart
    ds = [("a", true), ("b", true), ("a", true)] ∧
      |(ds.count ("a", true) : Int) * qweight (exec weightedQueues) "b"
        - ds.count ("b", true) * qweight (exec weightedQueues) "a"|
        ≤ max (qweight (exec weightedQueues) "a") (qweight (exec weightedQueues) "b") := by
  obtain ⟨-, -, -, -, hfair⟩ := selectLoop_fair 1 ⟨"w", "L1", ["a", "b"], 3, 10, 3⟩
    (qweight (exec weightedQueues)) (fun _ => le_max_left _ _) ["a", "b"] (by decide) 5
    weightedStart (by decide +kernel) rfl
  exact ⟨by decide +kernel, hfair "a" (by decide) "b" (by decide)
    (List.length_pos_iff_ne_nil.mp (by decide +kernel))
    (List.length_pos_iff_ne_nil.mp (by decide +kernel)) (by decide +kernel)⟩

/-! ## Section 3: Across calls -/

/-- What a selection served, it has noted for the counters. -/
theorem selection_servedDelta (now : Int) (req : AdmitRequest) (order : SetOrder String)
    (queues : List String) {s : Store} (hentries : EntriesOk s) (q : String) :
    (selection now req order queues s).1.served q =
      s.policy.qserved q + (selection now req order queues s).1.servedDelta q := by
  refine selection_induct (P := fun l => l.served q = s.policy.qserved q + l.servedDelta q)
    hentries (fun _ => (add_zero _).symm) ?_
  intro l q' c rest _ hl _ _ _
  rcases considerCandidate_tables now req q' c (l.pop q' rest) with hsame | ⟨a, -, -, hcounted⟩
  · rw [hsame.served, hsame.servedDelta]
    exact hl
  · -- both tables count the decision
    rw [hcounted.served, hcounted.servedDelta]
    by_cases hq : q = q'
    · subst hq
      rw [Function.update_self, Function.update_self, hl]
      ring
    · rw [Function.update_of_ne hq, Function.update_of_ne hq]
      exact hl

/-- The rounds of the selection of one call. -/
def selectionRounds (now : Int) (req : AdmitRequest) (order : SetOrder String) (queues : List String)
    (s : Store) : List (String × Bool) :=
  let d := drawAll now req order queues s (fun _ => []) []
  let fuel := (queues.map fun q => (d.2.1 q).length).sum
  rounds now req (qweight s) queues fuel (startSelection d.1 d.2.1)

/-- The counters a call stores are those its selection ended with. -/
theorem admitCall_qserved {now : Int} {req : AdmitRequest} {order : SetOrder String} {s : Store}
    (hentries : EntriesOk s) (hlease : 1 ≤ req.leaseMs) (q : String) :
    (admitCall now req order s).1.policy.qserved q
      = (selection now req order (requestQueues req) s).1.served q := by
  have hdelta := selection_servedDelta now req order (requestQueues req) hentries q
  obtain ⟨rate, counters, hrules⟩ := selection_rules now req order (requestQueues req) s
  rw [admitCall_eq hlease]
  set l := selection now req order (requestQueues req) s
  obtain ⟨deficit, hpolicy⟩ := settle_policy now req l.2 l.1
  rw [hpolicy]
  show l.1.store.policy.qserved q + l.1.servedDelta q = _
  rw [hrules, hdelta]

/-- **Persistent counters.**  The rounds of a call are fair turns from the stored counters and the
lists it draws to what its selection ends with, and the call stores the counters with the used
turns added.  A refused call changes nothing. -/
theorem admitCall_turns (calls : List Call) (now : Int) (req : AdmitRequest)
    (order : SetOrder String) :
    let s := exec calls
    let queues := requestQueues req
    let ds := selectionRounds now req order queues s
    Turns (qweight s) queues
        ⟨s.policy.qserved, fun q => (drawnCands now req order queues s q).length⟩ ds
        (selection now req order queues s).1.shares ∧
      ds.countP Prod.snd = (selection now req order queues s).1.decided ∧
      (1 ≤ req.leaseMs → ∀ q, (admitCall now req order s).1.policy.qserved q
        = s.policy.qserved q + ds.count (q, true)) ∧
      (req.leaseMs < 1 → (admitCall now req order s).1 = s) := by
  intro s queues ds
  obtain ⟨routes, -, hdraw⟩ := drawAll_eq now req order s queues s.waiting.routes (fun _ => []) []
  have hcands : (drawAll now req order queues s (fun _ => []) []).2.1
      = drawnCands now req order queues s := by
    refine (congrArg (fun d => d.2.1) hdraw).trans ?_
    rfl
  -- the draw only mends the route sets
  have hstart : (drawAll now req order queues s (fun _ => []) []).1 = s.withRoutes routes :=
    congrArg Prod.fst hdraw
  have hweight : ∀ q, 1 ≤ qweight s q := fun _ => le_max_left _ _
  obtain ⟨hturns, hdecided, -⟩ := selectLoop_turns now req hweight queues
    ((queues.map fun q => ((drawAll now req order queues s (fun _ => []) []).2.1 q).length).sum)
    (startSelection (drawAll now req order queues s (fun _ => []) []).1
      (drawAll now req order queues s (fun _ => []) []).2.1)
  have hfair : Turns (qweight s) queues
      ⟨s.policy.qserved, fun q => (drawnCands now req order queues s q).length⟩ ds
      (selection now req order queues s).1.shares := by
    have hshares : (startSelection (drawAll now req order queues s (fun _ => []) []).1
        (drawAll now req order queues s (fun _ => []) []).2.1).shares
        = ⟨s.policy.qserved, fun q => (drawnCands now req order queues s q).length⟩ := by
      rw [hstart, hcands]
      rfl
    rw [hshares] at hturns
    exact hturns
  refine ⟨hfair, ?_, fun hlease q => ?_, fun hlease => by rw [admitCall_refused hlease]⟩
  · exact (hdecided.trans (Nat.zero_add _)).symm
  · rw [admitCall_qserved (exec_entriesOk calls) hlease]
    exact hfair.served_eq q

end Headgate.Redis
