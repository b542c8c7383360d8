import Headgate.Schedule.Ticks

/-!
# Due ticks and the offers of a pass

`ticksUpTo` lists the ticks of a schedule from its stored next run up to now, however many they
are.  `due_ticks` scans ten thousand successors of the next run and fails when the spec has no
successor to look at.  Within these limits it returns the most recent ticks, and a pass that
advances a schedule has offered the latest one to `enqueue`.

Main results:

* `dueTicks_recent` - when `due_ticks` returns the most recent ticks, and what a pass that is
  about to advance has offered.
-/

namespace Headgate.Schedule

open Headgate.Core Data

variable {eng : CronEngine} {fingerprint : String → Bytes → String}
  {spec : String} {now t : Int} {cap : Nat}

/-! ## Section 1: All ticks up to now -/

/-- The tick `t` and its successors up to now. -/
def ticksUpTo (eng : CronEngine) (spec : String) (now t : Int) : List Int :=
  if t > now then []
  else match _hnext : nextAfter eng spec t with
    | .ok t' => t :: ticksUpTo eng spec now t'
    | .error _ => [t]
termination_by (now + 1 - t).toNat
decreasing_by
  have hlater := nextAfter_lt _hnext
  omega

theorem ticksUpTo_of_gt (h : now < t) : ticksUpTo eng spec now t = [] := by
  rw [ticksUpTo, if_pos h]

theorem ticksUpTo_of_ok {t' : Int} (hdue : t ≤ now) (hnext : nextAfter eng spec t = .ok t') :
    ticksUpTo eng spec now t = t :: ticksUpTo eng spec now t' := by
  rw [ticksUpTo, if_neg (not_lt.mpr hdue)]
  split
  · rename_i t'' hok
    rw [Except.ok.inj (hok.symm.trans hnext)]
  · rename_i e herror
    cases herror.symm.trans hnext

theorem ticksUpTo_of_error {e : String} (hdue : t ≤ now)
    (hnext : nextAfter eng spec t = .error e) : ticksUpTo eng spec now t = [t] := by
  rw [ticksUpTo, if_neg (not_lt.mpr hdue)]
  split
  · rename_i t'' hok
    cases hok.symm.trans hnext
  · rfl

theorem ticksUpTo_of_le (hdue : t ≤ now) : ∃ rest, ticksUpTo eng spec now t = t :: rest := by
  cases hnext : nextAfter eng spec t with
  | ok => exact ⟨_, ticksUpTo_of_ok hdue hnext⟩
  | error => exact ⟨_, ticksUpTo_of_error hdue hnext⟩

theorem le_of_mem_ticksUpTo (x : Int) (hx : x ∈ ticksUpTo eng spec now t) : t ≤ x := by
  fun_induction ticksUpTo eng spec now t with
  | case1 => cases hx
  | case2 t hdue t' hnext ih =>
    rcases List.mem_cons.mp hx with rfl | hrest
    · exact le_rfl
    · exact (nextAfter_lt hnext).le.trans (ih hrest)
  | case3 =>
    rw [List.mem_singleton.mp hx]

theorem ticksUpTo_nodup (eng : CronEngine) (spec : String) (now t : Int) :
    (ticksUpTo eng spec now t).Nodup := by
  fun_induction ticksUpTo eng spec now t with
  | case1 => exact List.nodup_nil
  | case2 t hdue t' hnext ih =>
    refine List.nodup_cons.mpr ⟨?_, ih⟩
    intro hmem
    exact absurd (le_of_mem_ticksUpTo t hmem) (not_le.mpr (nextAfter_lt hnext))
  | case3 t => exact List.nodup_singleton t

/-! ## Section 2: The sliding window -/

/-- Dropping the oldest of more than `cap` keeps the most recent. -/
theorem slide_eq_rtake (xs : List Int) (x : Int) :
    (if (xs.rtake cap ++ [x]).length > cap then (xs.rtake cap ++ [x]).drop 1
      else xs.rtake cap ++ [x]) = (xs ++ [x]).rtake cap := by
  unfold List.rtake
  -- the window is full and loses its oldest tick, or it still has room
  split
  · rename_i hlong
    rw [List.length_append, List.length_drop, List.length_singleton] at hlong
    rw [← List.drop_append_of_le_length (by omega), List.drop_drop, List.length_append,
      List.length_singleton]
    congr 1
    omega
  · rename_i hshort
    rw [List.length_append, List.length_drop, List.length_singleton] at hshort
    rw [List.length_append, List.length_singleton, Nat.sub_eq_zero_of_le (by omega),
      Nat.sub_eq_zero_of_le (by omega), List.drop_zero, List.drop_zero]

/-- The scan stops at its bound, at the end of the ticks, or at a tick without successor. -/
theorem dueTicksLoop_eq (fuel : Nat) (t : Int) (xs : List Int) (hdue : t ≤ now) :
    dueTicksLoop eng spec now cap fuel t (xs.rtake cap) =
      if fuel < (ticksUpTo eng spec now t).length then
        .ok ((xs ++ (ticksUpTo eng spec now t).tail.take fuel).rtake cap)
      else (nextAfter eng spec ((ticksUpTo eng spec now t).getLastD t)).map fun _ =>
        (xs ++ (ticksUpTo eng spec now t).tail).rtake cap := by
  induction fuel generalizing t xs with
  | zero =>
    obtain ⟨rest, hrest⟩ : ∃ rest, ticksUpTo eng spec now t = t :: rest := ticksUpTo_of_le hdue
    rw [hrest, if_pos (by simp), List.take_zero, List.append_nil]
    rfl
  | succ fuel ih =>
    unfold dueTicksLoop
    cases hnext : nextAfter eng spec t with
    | error e =>
      rw [ticksUpTo_of_error hdue hnext, if_neg (by simp)]
      show Except.error e = (nextAfter eng spec t).map _
      rw [hnext]
      rfl
    | ok t' =>
      rw [ticksUpTo_of_ok hdue hnext]
      dsimp only [bind, Except.bind]
      by_cases hlate : t' > now
      · rw [if_pos hlate, ticksUpTo_of_gt hlate, if_neg (by simp)]
        show _ = (nextAfter eng spec t).map _
        rw [hnext, List.tail_cons, List.append_nil]
        rfl
      · rw [if_neg hlate, slide_eq_rtake, ih t' (xs ++ [t']) (not_lt.mp hlate)]
        -- the successor is the first of the remaining ticks
        obtain ⟨rest, hrest⟩ : ∃ rest, ticksUpTo eng spec now t' = t' :: rest :=
          ticksUpTo_of_le (not_lt.mp hlate)
        rw [hrest]
        simp [List.getLast?_cons]

/-- The scan sees all ticks, and the last one has a successor if the scan comes to look. -/
def Scanned (eng : CronEngine) (spec : String) (first now : Int) : Prop :=
  (ticksUpTo eng spec now first).length ≤ 10001 ∧
    ((ticksUpTo eng spec now first).length ≤ 10000 →
      ∀ last ∈ (ticksUpTo eng spec now first).getLast?, ∃ t, nextAfter eng spec last = .ok t)

theorem getLast?_rtake (xs : List Int) (hcap : 1 ≤ cap) :
    (xs.rtake cap).getLast? = xs.getLast? := by
  unfold List.rtake
  rw [List.getLast?_drop]
  split
  · rename_i hnone
    have hnil : xs = [] := List.length_eq_zero_iff.mp (by omega)
    rw [hnil]
    rfl
  · rfl

/-- The first ticks do not end with the latest one, unless they are all. -/
theorem take_getLast? {xs : List Int} {n : Nat} (hnodup : xs.Nodup)
    (h : (xs.take (n + 1)).getLast? = xs.getLast?) : xs.length ≤ n + 1 := by
  by_contra hlong
  rw [List.getLast?_take, if_neg (Nat.succ_ne_zero n), Nat.add_sub_cancel,
    List.getElem?_eq_getElem (by omega), Option.some_or, ← List.getElem?_eq_getElem,
    List.getLast?_eq_getElem?] at h
  have hbound : n < xs.length := by omega
  have hsame := (List.getElem?_inj hbound hnodup).mp h
  omega

/-- **What `due_ticks` returns.**  The most recent ticks, exactly if the scan sees them all. -/
theorem dueTicks_eq_rtake_iff {first : Int} (hcap : 1 ≤ cap) :
    dueTicks eng spec first now cap = .ok ((ticksUpTo eng spec now first).rtake cap) ↔
      Scanned eng spec first now := by
  unfold dueTicks Scanned
  by_cases hdue : first > now
  · rw [if_pos hdue, ticksUpTo_of_gt hdue]
    simp
  · have hone : [first] = [first].rtake cap := by
      simp [List.rtake, Nat.sub_eq_zero_of_le hcap]
    rw [if_neg hdue, hone, dueTicksLoop_eq 10000 first [first] (not_lt.mp hdue)]
    have hnodup := ticksUpTo_nodup eng spec now first
    obtain ⟨rest, hrest⟩ : ∃ rest, ticksUpTo eng spec now first = first :: rest :=
      ticksUpTo_of_le (not_lt.mp hdue)
    rw [hrest] at hnodup ⊢
    by_cases hmany : 10000 < (first :: rest).length
    · -- the scan stops at its bound
      rw [if_pos hmany]
      constructor
      · intro heq
        have hlast := congrArg List.getLast? (Except.ok.inj heq)
        rw [getLast?_rtake _ hcap, getLast?_rtake _ hcap] at hlast
        exact ⟨take_getLast? hnodup hlast, fun hfew => absurd hmany (not_lt.mpr hfew)⟩
      · rintro ⟨hall, -⟩
        rw [List.tail_cons, List.take_of_length_le (Nat.le_of_succ_le_succ hall)]
        rfl
    · -- the scan looks for a successor of the last tick
      have hlast : (first :: rest).getLast? = some ((first :: rest).getLastD first) := by
        simp [List.getLast?_cons]
      rw [if_neg hmany, hlast]
      constructor
      · intro heq
        refine ⟨by omega, ?_⟩
        rintro _ _ ⟨⟩
        cases hnext : nextAfter eng spec ((first :: rest).getLastD first) with
        | ok t => exact ⟨t, rfl⟩
        | error =>
          rw [hnext] at heq
          cases heq
      · rintro ⟨-, hnext⟩
        obtain ⟨t, ht⟩ := hnext (not_lt.mp hmany) _ rfl
        rw [ht]
        rfl

/-! ## Section 3: What a pass offers -/

/-- What each node has offered to `enqueue` since its sweep began. -/
abbrev Offers := Nat → List (Schedule × Int)

def offersAfter (s : Cluster) (offers : Offers) : Event → Offers
  | .node n _ =>
    match (s.node n).unread, (s.node n).work with
    | _ :: _, _ => offers
    | [], w :: _ =>
      match w.ticks with
      | tick :: _ => Function.update offers n ((w.schedule, tick) :: offers n)
      | [] => offers
    | [], [] => Function.update offers n []
  | .crash n => Function.update offers n []
  | _ => offers

/-- A run together with what the nodes offer. -/
def watch (eng : CronEngine) (fingerprint : String → Bytes → String) (nodes : Nat)
    (events : List Event) : Cluster × Offers :=
  run (fun p e => (step eng fingerprint p.1 e, offersAfter p.1 p.2 e)) (.init nodes, fun _ => [])
    events

/-- Watching does not change the run. -/
theorem watch_fst (nodes : Nat) (events : List Event) :
    (watch eng fingerprint nodes events).1 = exec eng fingerprint nodes events := by
  unfold watch exec
  generalize Cluster.init nodes = s, (fun _ => [] : Offers) = offers
  induction events generalizing s offers with
  | nil => rfl
  | cons e events ih => exact ih _ _

/-- A firing in progress is the rest of its plan, and the other ticks of the plan have been
offered. -/
def Offered (eng : CronEngine) (now : Int) (offers : List (Schedule × Int)) (w : Firing) : Prop :=
  ∃ gone, plan eng w.schedule now = some { w with ticks := gone ++ w.ticks } ∧
    ∀ t ∈ gone, (w.schedule, t) ∈ offers

theorem Offered.mono {offers offers' : List (Schedule × Int)} {w : Firing}
    (h : Offered eng now offers w) (hsub : offers ⊆ offers') : Offered eng now offers' w := by
  obtain ⟨gone, hplan, hgone⟩ := h
  exact ⟨gone, hplan, fun t ht => hsub (hgone t ht)⟩

def AllOffered (eng : CronEngine) (p : Cluster × Offers) : Prop :=
  ∀ n, ∀ w ∈ (p.1.node n).work, Offered eng (p.1.node n).now (p.2 n) w

theorem node_setNode (s : Cluster) (n m : Nat) (node : Node) :
    (s.setNode n node).node m = s.node m ∧ (m = n → s.node m = {}) ∨
      m = n ∧ (s.setNode n node).node m = node := by
  unfold Cluster.setNode Cluster.node
  by_cases hm : m = n
  · subst hm
    by_cases hlt : m < s.nodes.length
    · exact .inr ⟨rfl, by simp [hlt]⟩
    · exact .inl ⟨by simp [hlt], fun _ => by simp [hlt]⟩
  · exact .inl ⟨by simp [List.getD_eq_getElem?_getD, Ne.symm hm], fun h => absurd h hm⟩

/-- One node has moved: its own work has to be looked at. -/
theorem AllOffered.setNode {s s' : Cluster} {offers offers' : Offers}
    (h : AllOffered eng (s, offers)) (n : Nat) (node : Node)
    (hnodes : s'.nodes = (s.setNode n node).nodes) (hothers : ∀ m, m ≠ n → offers' m = offers m)
    (hown : ∀ w ∈ node.work, Offered eng node.now (offers' n) w) :
    AllOffered eng (s', offers') := by
  intro m w hw
  have hsame : s'.node m = (s.setNode n node).node m := by
    unfold Cluster.node
    rw [hnodes]
  dsimp only at hw ⊢
  rw [hsame] at hw ⊢
  -- a node that does not exist has no work, and setting it has no effect
  rcases node_setNode s n m node with ⟨hkept, hidle⟩ | ⟨rfl, hset⟩
  · rw [hkept] at hw ⊢
    by_cases hm : m = n
    · rw [hidle hm] at hw
      cases hw
    · rw [hothers m hm]
      exact h m w hw
  · rw [hset] at hw ⊢
    exact hown w hw

theorem step_allOffered (p : Cluster × Offers) (e : Event) (h : AllOffered eng p) :
    AllOffered eng (step eng fingerprint p.1 e, offersAfter p.1 p.2 e) := by
  obtain ⟨s, offers⟩ := p
  cases e with
  | call | upsert | delete => exact h
  | crash n =>
    refine h.setNode n {} rfl (fun m hm => Function.update_of_ne hm _ _) ?_
    intro w hw
    cases hw
  | abandon n =>
    dsimp only [step, offersAfter]
    split
    · refine h.setNode n { s.node n with work := (s.node n).work.tail } rfl (fun _ _ => rfl) ?_
      exact fun w hw => h n w (List.mem_of_mem_tail hw)
    · refine h.setNode n {} rfl (fun _ _ => rfl) ?_
      intro w hw
      cases hw
  | node n =>
    dsimp only [step, offersAfter, Cluster.nodeStep]
    cases hunread : (s.node n).unread with
    | cons =>
      -- the node reads a schedule and plans its firing
      refine h.setNode n _ rfl (fun _ _ => rfl) ?_
      intro w hw
      rcases List.mem_append.mp hw with hold | hnew
      · exact h n w hold
      · obtain ⟨sch, -, hplan⟩ := Option.bind_eq_some_iff.mp (Option.mem_toList.mp hnew)
        rw [← plan_schedule hplan] at hplan
        exact ⟨[], hplan, fun t ht => (List.not_mem_nil ht).elim⟩
    | nil =>
      cases hwork : (s.node n).work with
      | nil =>
        refine h.setNode n _ rfl (fun m hm => Function.update_of_ne hm _ _) ?_
        intro w hw
        cases hw
      | cons w rest =>
        have hrest : ∀ x ∈ rest, x ∈ (s.node n).work := by
          intro x hx
          rw [hwork]
          exact List.mem_cons_of_mem w hx
        cases hticks : w.ticks with
        | nil =>
          dsimp only
          rw [hticks]
          exact h.setNode n _ rfl (fun _ _ => rfl) fun x hx => h n x (hrest x hx)
        | cons tick ticks =>
          -- the node offers the next tick of the plan
          dsimp only
          rw [hticks]
          have hgrown : Function.update offers n ((w.schedule, tick) :: offers n) n =
              (w.schedule, tick) :: offers n := Function.update_self ..
          refine h.setNode n _ rfl (fun m hm => Function.update_of_ne hm _ _) ?_
          intro x hx
          show Offered eng (s.node n).now (Function.update offers n _ n) x
          rw [hgrown]
          by_cases hx' : x ∈ rest
          · exact (h n x (hrest x hx')).mono (List.subset_cons_self _ _)
          · have hrestOf : x = { w with ticks := ticks } := by
              split at hx
              · exact (List.mem_cons.mp hx).resolve_right hx'
              · exact absurd hx hx'
            have hw : w ∈ (s.node n).work := by
              rw [hwork]
              exact List.mem_cons_self
            obtain ⟨gone, hplan, hgone⟩ := h n w hw
            rw [hrestOf]
            refine ⟨gone ++ [tick], ?_, ?_⟩
            · rw [hticks] at hplan
              simpa using hplan
            · intro t ht
              rcases List.mem_append.mp ht with hold | hnew
              · exact List.mem_cons_of_mem _ (hgone t hold)
              · rw [List.mem_singleton.mp hnew]
                exact List.mem_cons_self

theorem watch_allOffered (eng : CronEngine) (fingerprint : String → Bytes → String) (nodes : Nat)
    (events : List Event) :
    AllOffered eng (watch eng fingerprint nodes events) := by
  refine run_invariant (AllOffered eng) (fun p e _ => step_allOffered p e) ?_ (.trivial events _)
  intro n w hw
  have hidle : (Cluster.init nodes).node n = {} := by
    unfold Cluster.init Cluster.node
    rw [List.getD_eq_getElem?_getD]
    by_cases hn : n < nodes
    · simp [hn]
    · simp [hn]
  rw [hidle] at hw
  cases hw

/-- Within the limits of the scan, a plan contains the latest due tick. -/
theorem plan_latest {s : Schedule} {w : Firing} (hplan : plan eng s now = some w)
    (hscan : Scanned eng s.spec s.nextRunMs now) :
    ∀ last ∈ (ticksUpTo eng s.spec now s.nextRunMs).getLast?, last ∈ w.ticks := by
  intro last hlast
  have hcap : 1 ≤ max s.backfillLimit 1 := le_max_right _ _
  have hticks := (dueTicks_eq_rtake_iff hcap).mpr hscan
  rw [← getLast?_rtake _ hcap] at hlast
  unfold plan at hplan
  rw [hticks] at hplan
  dsimp only at hplan
  rw [hlast] at hplan
  dsimp only at hplan
  cases hnext : nextAfter eng s.spec (max now last) with
  | error =>
    rw [hnext] at hplan
    cases hplan
  | ok =>
    rw [hnext] at hplan
    cases hplan
    -- every policy fires the latest tick; only a backfill fires older ones too
    cases s.onMissed with
    | skip | runOnce => exact List.mem_singleton_self last
    | backfill => exact List.mem_of_getLast? hlast

/-- **Due ticks.**  `due_ticks` returns the most recent ticks exactly if its scan sees them all;
and when the scan of a plan does, the pass has offered the latest due tick before it advances. -/
theorem dueTicks_recent (eng : CronEngine) (fingerprint : String → Bytes → String) (spec : String)
    (first now : Int) (cap : Nat) (hcap : 1 ≤ cap) :
    (dueTicks eng spec first now cap = .ok ((ticksUpTo eng spec now first).rtake cap) ↔
      Scanned eng spec first now) ∧
    ∀ (nodes : Nat) (events : List Event) (n : Nat) (node : Node) (w : Firing) (rest : List Firing),
      (exec eng fingerprint nodes events).node n = node →
      node.unread = [] → node.work = w :: rest → w.ticks = [] →
      Scanned eng w.schedule.spec w.schedule.nextRunMs node.now →
      ∀ last ∈ (ticksUpTo eng w.schedule.spec node.now w.schedule.nextRunMs).getLast?,
        (w.schedule, last) ∈ (watch eng fingerprint nodes events).2 n := by
  refine ⟨dueTicks_eq_rtake_iff hcap, ?_⟩
  rintro nodes events n node w rest rfl - hwork hticks hscan last hlast
  have hoffered := watch_allOffered eng fingerprint nodes events n w
  rw [watch_fst, hwork] at hoffered
  obtain ⟨gone, hplan, hgone⟩ := hoffered List.mem_cons_self
  have hmem := plan_latest hplan hscan last hlast
  -- nothing is left of the plan, so its ticks have all been offered
  rw [hticks, List.append_nil] at hmem
  exact hgone last hmem

/-- Three ticks are due: the two most recent are returned, and the pass offers the latest. -/
theorem dueTicks_recent_every_second :
    dueTicks everyOnly "@every:1000" 1000 3500 2 = .ok [2000, 3000] ∧
      (everySecond, 3000) ∈ (watch everyOnly kindOnly 1
        [.upsert everySecond, .node 0 3500, .node 0 3500, .node 0 3501]).2 0 := by
  have hfirst : nextAfter everyOnly "@every:1000" 1000 = .ok 2000 := by decide +kernel
  have hsecond : nextAfter everyOnly "@every:1000" 2000 = .ok 3000 := by decide +kernel
  have hthird : nextAfter everyOnly "@every:1000" 3000 = .ok 4000 := by decide +kernel
  have hticks : ticksUpTo everyOnly "@every:1000" 3500 1000 = [1000, 2000, 3000] := by
    rw [ticksUpTo_of_ok (by decide) hfirst, ticksUpTo_of_ok (by decide) hsecond,
      ticksUpTo_of_ok (by decide) hthird, ticksUpTo_of_gt (by decide)]
  have hscan : Scanned everyOnly "@every:1000" 1000 3500 := by
    unfold Scanned
    rw [hticks]
    refine ⟨by decide, ?_⟩
    rintro _ _ ⟨⟩
    exact ⟨4000, hthird⟩
  obtain ⟨hlist, hpass⟩ := dueTicks_recent everyOnly kindOnly "@every:1000" 1000 3500 2 (by decide)
  refine ⟨(hlist.mpr hscan).trans (by rw [hticks]; rfl), ?_⟩
  refine hpass 1 [.upsert everySecond, .node 0 3500, .node 0 3500, .node 0 3501] 0
    ⟨3500, [], [⟨everySecond, [], 4000⟩]⟩ ⟨everySecond, [], 4000⟩ [] (by decide +kernel) rfl rfl rfl
    hscan 3000 ?_
  exact congrArg List.getLast? hticks

/-! ## Section 4: A long outage -/

theorem nextAfter_everyMs (t : Int) : nextAfter everyOnly "@every:1" t = .ok (t + 1) := by
  have hevery : nextAfter everyOnly "@every:1" t = nextEvery "@every:1" ['1'] t := rfl
  have hperiod : parseI64 ['1'] = some 1 := by decide
  rw [hevery, nextEvery, hperiod]
  simp

theorem length_ticksUpTo_everyMs (n : Nat) (t : Int) :
    (ticksUpTo everyOnly "@every:1" (t + n) t).length = n + 1 := by
  induction n generalizing t with
  | zero => simp [ticksUpTo_of_ok _ (nextAfter_everyMs t), ticksUpTo_of_gt]
  | succ n ih =>
    have hend : t + (n + 1 : Nat) = t + 1 + n := by omega
    rw [hend, ticksUpTo_of_ok (by omega) (nextAfter_everyMs t), List.length_cons, ih]

/-- A schedule of every millisecond that was down for twenty seconds: the latest due tick is not
among those returned. -/
theorem dueTicks_outage :
    dueTicks everyOnly "@every:1" 0 20000 1 ≠
      .ok ((ticksUpTo everyOnly "@every:1" 20000 0).rtake 1) := by
  intro hrecent
  have hfew := ((dueTicks_eq_rtake_iff le_rfl).mp hrecent).1
  have hmany : (ticksUpTo everyOnly "@every:1" 20000 0).length = 20001 :=
    length_ticksUpTo_everyMs 20000 0
  omega

end Headgate.Schedule
