import Headgate.Redis.Admission

/-!
# Waiting jobs stay within the gate's reach

Admission finds a job through three keys: the partition must be listed in
`parts:{queue}`, and the job must stand in the partition's ordinary stream or in
the caller's own.  `pending-routes` decides when a partition leaves the list.
`Waiting.Finds` says that all of this is in place for one job, and the theorems
below carry it through every script.

One route is different.  The token of the ordinary stream is the text `*`, which
is also the token of jobs pinned to a worker of that name, so the last ordinary
job to leave takes their token with it.  For those jobs only the stream is kept.
-/

namespace Headgate.Redis

open Headgate.Core Data Relation

variable {key : String} {s s' : Store}

/-! ## Section 1: One job -/

/-- The gate's keys lead to `id`, whose row is `j`. -/
structure Waiting.Finds (w : Waiting) (id : String) (j : Job) : Prop where
  stream : (w.pending j.pendingKey).score id = some j.scheduledAtMs
  part : j.stickyWorker ≠ "*" → j.partitionKey ∈ w.parts j.queue
  -- an ordinary job needs no token: its stream keeps the partition listed
  route : j.stickyWorker ≠ "*" → j.stickyWorker ≠ "" →
    j.stickyWorker ∈ w.routes (partKey j.queue j.partitionKey)

/-- A route token other than `*` names its worker. -/
theorem routeToken_eq {sticky worker : String} (hstar : worker ≠ "*")
    (h : worker = routeToken sticky) : sticky = worker := by
  unfold routeToken at h
  split at h
  · exact h.symm
  · exact absurd h hstar

/-- Pinned streams of one worker differ only by the partition's key. -/
theorem pendingKey_of_partKey {q q' p p' worker : String} (hpin : worker ≠ "")
    (h : partKey q p = partKey q' p') : pendingKey q p worker = pendingKey q' p' worker := by
  unfold partKey at h
  unfold pendingKey
  simp only [ne_eq, hpin, not_false_eq_true, if_true, h]

namespace Waiting

variable {w : Waiting} {id x queue part sticky : String} {j k : Job}

theorem dropEntry_parts (w : Waiting) (id queue part sticky : String) :
    (w.dropEntry id queue part sticky).parts = w.parts := by
  unfold dropEntry
  dsimp only
  split <;> rfl

/-- A token goes only with the last entry of its stream. -/
theorem mem_routes_dropEntry {token : String} (h : token ∈ w.routes key)
    (hkeep : key = partKey queue part → token = routeToken sticky →
      ∃ x, ((w.dropEntry id queue part sticky).pending (pendingKey queue part sticky)).score x ≠
        none) :
    token ∈ (w.dropEntry id queue part sticky).routes key := by
  unfold dropEntry at hkeep ⊢
  dsimp only at hkeep ⊢
  split
  · rename_i hempty
    rw [if_pos hempty] at hkeep
    show token ∈ Function.update w.routes (partKey queue part)
      ((w.routes (partKey queue part)).erase (routeToken sticky)) key
    by_cases hkey : key = partKey queue part
    · subst hkey
      rw [Function.update_self, Finset.mem_erase]
      refine ⟨fun htoken => ?_, h⟩
      obtain ⟨x, hx⟩ := hkeep rfl htoken
      exact hx ((ZSet.card_eq_zero _).mp hempty x)
    · rw [Function.update_of_ne hkey]
      exact h
  · exact h

section
variable (h : w.Finds x k)
include h

theorem Finds.dropEntry
    (hne : ¬ (k.pendingKey = pendingKey queue part sticky ∧ x = id)) :
    (w.dropEntry id queue part sticky).Finds x k := by
  have hstream : ((w.dropEntry id queue part sticky).pending k.pendingKey).score x =
      some k.scheduledAtMs := by
    rw [← tidyPart_pending _ queue part]
    show ((w.remove id queue part sticky).pending k.pendingKey).score x = _
    rw [score_remove, if_neg hne]
    exact h.stream
  refine ⟨hstream, ?_, ?_⟩
  · rw [dropEntry_parts]
    exact h.part
  · intro hstar hpin
    refine mem_routes_dropEntry (h.route hstar hpin) ?_
    intro hkey htoken
    -- the stream whose token is dropped is the job's own, and the job is still in it
    have hsticky := routeToken_eq hstar htoken
    have hown : k.pendingKey = pendingKey queue part sticky := by
      rw [hsticky]
      exact pendingKey_of_partKey hpin hkey
    refine ⟨x, ?_⟩
    rw [← hown, hstream]
    exact Option.some_ne_none _

/-- A partition with a job in it stays listed. -/
theorem Finds.tidyPart : (w.tidyPart queue part).Finds x k := by
  have hpending : (w.tidyPart queue part).pending = w.pending := tidyPart_pending w queue part
  refine ⟨by rw [hpending]; exact h.stream, ?_, ?_⟩
  · intro hstar
    have hpart := h.part hstar
    unfold Waiting.tidyPart
    dsimp only
    split
    · rename_i hroutes
      split
      · exact hpart
      · rename_i hordinary
        show k.partitionKey ∈ Function.update w.parts queue ((w.parts queue).erase part) k.queue
        by_cases hqueue : k.queue = queue
        · subst hqueue
          rw [Function.update_self, Finset.mem_erase]
          refine ⟨fun hsame => ?_, hpart⟩
          subst hsame
          by_cases hpin : k.stickyWorker = ""
          · -- an ordinary job is in the stream that was found empty
            have hempty : (w.pending (pendingKey k.queue k.partitionKey "")).card = 0 := by omega
            have hnone := (ZSet.card_eq_zero _).mp hempty x
            have hstream := h.stream
            rw [Job.pendingKey, hpin, hnone] at hstream
            cases hstream
          · -- a pinned job's token is in the set that was found empty
            have hmem := h.route hstar hpin
            rw [Finset.card_eq_zero.mp hroutes] at hmem
            exact absurd hmem (Finset.notMem_empty _)
        · rw [Function.update_of_ne hqueue]
          exact hpart
    · exact hpart
  · intro hstar hpin
    have hroute := h.route hstar hpin
    unfold Waiting.tidyPart
    dsimp only
    split
    · split
      · exact mem_update_insert.mpr (.inl hroute)
      · exact hroute
    · exact hroute

theorem Finds.remove
    (hne : ¬ (k.pendingKey = pendingKey queue part sticky ∧ x = id)) :
    (w.remove id queue part sticky).Finds x k :=
  (h.dropEntry hne).tidyPart

theorem Finds.removeJob (hne : x ≠ id) : (w.removeJob id j).Finds x k :=
  h.remove fun hc => hne hc.2

/-- Adding another job takes nothing away. -/
theorem Finds.addJob (hne : x ≠ id) : (w.addJob id j).Finds x k := by
  refine ⟨?_, fun hstar => mem_update_insert.mpr (.inl (h.part hstar)),
    fun hstar hpin => mem_update_insert.mpr (.inl (h.route hstar hpin))⟩
  rw [score_addJob, if_neg fun hc => hne hc.2]
  exact h.stream

end

/-- A job that is added is found. -/
theorem finds_addJob (w : Waiting) (id : String) (j : Job) : (w.addJob id j).Finds id j := by
  refine ⟨by rw [score_addJob, if_pos ⟨rfl, rfl⟩], fun _ => ?_, fun _ hpin => ?_⟩
  · show j.partitionKey ∈ Function.update w.parts j.queue
      (insert j.partitionKey (w.parts j.queue)) j.queue
    rw [Function.update_self]
    exact Finset.mem_insert_self _ _
  · show j.stickyWorker ∈ Function.update w.routes (partKey j.queue j.partitionKey)
      (insert (routeToken j.stickyWorker) (w.routes (partKey j.queue j.partitionKey)))
        (partKey j.queue j.partitionKey)
    rw [Function.update_self, routeToken, if_pos hpin]
    exact Finset.mem_insert_self _ _

/-- Adding a token loses no job. -/
theorem Finds.heal (h : w.Finds x k) :
    (w.setRoutes key (insert "*" (w.routes key))).Finds x k :=
  ⟨h.stream, h.part, fun hstar hpin => mem_update_insert.mpr (.inl (h.route hstar hpin))⟩

/-- What leads to a job depends on its route and due time only. -/
theorem Finds.sameRoute {j' : Job} (h : w.Finds id j) (route : j.SameRoute j')
    (due : j'.scheduledAtMs = j.scheduledAtMs) : w.Finds id j' := by
  refine ⟨?_, ?_, ?_⟩
  · rw [route.pendingKey, due]
    exact h.stream
  · rw [route.stickyWorker, route.queue, route.partitionKey]
    exact h.part
  · rw [route.stickyWorker, route.queue, route.partitionKey]
    exact h.route

end Waiting

/-! ## Section 2: All jobs, along every move -/

/-- Every waiting job is within the gate's reach. -/
def AllFound (s : Store) : Prop :=
  ∀ id j, s.job? id = some j → j.state.isWaiting = true → s.waiting.Finds id j

theorem allFound_init : AllFound Store.init := by
  intro id j hj
  rw [Store.job?_init] at hj
  cases hj

private theorem allFound_of_effect {id : String} {row : Option Job} {w : Waiting} {r : Running}
    {u : Holders} {events : List Event} (h : AllFound s) (eff : Effect s s' id row w r u events)
    (hother : ∀ x k, x ≠ id → s.waiting.Finds x k → w.Finds x k)
    (hself : ∀ j', row = some j' → j'.state.isWaiting = true → w.Finds id j') : AllFound s' := by
  intro x k hx hwait
  rw [eff.waiting]
  rw [eff.rows] at hx
  split at hx
  · rename_i hid
    subst hid
    exact hself k hx hwait
  · rename_i hid
    exact hother x k hid (h x k hx hwait)

private theorem allFound_same (h : AllFound s) (jobs : s'.jobs = s.jobs)
    (hw : ∀ x k, s.waiting.Finds x k → s'.waiting.Finds x k) : AllFound s' := by
  intro x k hx hwait
  refine hw x k (h x k ?_ hwait)
  unfold Store.job? at hx ⊢
  rw [← jobs]
  exact hx

/-- A row that stops waiting, or is gone, has nothing to be found by. -/
private theorem not_waiting_new {P Q : Job → Prop} {new : Option Job}
    (gone : ∀ j' ∈ new, P j' ∧ j'.state.isTerminal = true) :
    ∀ j', new = some j' → j'.state.isWaiting = true → Q j' := by
  intro j' hj' hwait
  rw [not_waiting_of_terminal (gone j' hj').2] at hwait
  cases hwait

theorem Move.allFound (m : Move s s') (h : AllFound s) : AllFound s' := by
  cases m with
  | arrive now e absent window free eff =>
    split at eff
    · rename_i hpending
      refine allFound_of_effect h eff (fun _ _ _ hk => hk) ?_
      intro j' hj' hwait
      cases hj'
      have hstate : (newJob now e).state = .pending := hpending
      rw [hstate] at hwait
      cases hwait
    · refine allFound_of_effect h eff (fun _ _ hx hk => hk.addJob hx) ?_
      intro j' hj' _
      cases hj'
      exact Waiting.finds_addJob _ _ _
  | rewrite id j j' events row eff rate route state lease fence due =>
    refine allFound_of_effect h eff (fun _ _ _ hk => hk) ?_
    intro k hk hwait
    cases hk
    rw [state] at hwait
    exact (h id j row hwait).sameRoute route due
  | renew id j l expires row running lease eff =>
    refine allFound_of_effect h eff (fun _ _ _ hk => hk) ?_
    intro k hk hwait
    cases hk
    exact (h id j row hwait).sameRoute ⟨rfl, rfl, rfl, rfl, rfl⟩ rfl
  | retime id j j' row idle eff | requeue id j j' e row running eff
  | retry id j j' row terminal eff =>
    refine allFound_of_effect h eff (fun _ _ hx hk => hk.addJob hx) ?_
    intro k hk _
    cases hk
    exact Waiting.finds_addJob _ _ _
  | flip id j j' row waiting eff route state lease fence due =>
    refine allFound_of_effect h eff (fun _ _ _ hk => hk) ?_
    intro k hk _
    cases hk
    exact (h id j row waiting).sameRoute route due
  | park id j new events row idle eff ends gone =>
    refine allFound_of_effect h eff (fun x k hx hk => ?_) (not_waiting_new gone)
    split
    · exact hk.removeJob hx
    · exact hk
  | finish id j new e row running eff ends gone =>
    exact allFound_of_effect h eff (fun _ _ _ hk => hk) (not_waiting_new gone)
  | drop id j u row terminal eff =>
    refine allFound_of_effect h eff (fun _ _ _ hk => hk) ?_
    intro k hk
    cases hk
  | stray id idle jobs waiting | policy jobs waiting =>
    exact allFound_same h jobs fun x k hk => by rw [waiting]; exact hk

theorem ReleaseMove.allFound (m : ReleaseMove s s') (h : AllFound s) :
    AllFound s' := by
  cases m with
  | plain m => exact m.allFound h
  | release id j j' row quarantined eff =>
    refine allFound_of_effect h eff (fun _ _ hx hk => hk.addJob hx) ?_
    intro k hk _
    cases hk
    exact Waiting.finds_addJob _ _ _

theorem GateMove.allFound {lease : String} (m : GateMove lease s s') (h : AllFound s) :
    AllFound s' := by
  cases m with
  | plain m => exact m.allFound h
  | claim id j j' l events row waiting eff rate route state =>
    refine allFound_of_effect h eff (fun _ _ hx hk => hk.removeJob hx) ?_
    intro k hk hwait
    cases hk
    rw [state] at hwait
    cases hwait
  | tidy id queue part sticky absent jobs waiting =>
    refine allFound_same h jobs fun x k hk => ?_
    rw [waiting]
    -- the removed id is not in that stream, so it is no job found there
    refine hk.remove fun hc => ?_
    have hstream := hk.stream
    rw [hc.1, hc.2, absent] at hstream
    cases hstream
  | heal key jobs waiting =>
    exact allFound_same h jobs fun x k hk => by rw [waiting]; exact hk.heal
  | enlist runningp jobs waiting =>
    exact allFound_same h jobs fun x k hk => by rw [waiting]; exact hk

/-! ## Section 3: Along every run -/

theorem step_allFound (s : Store) (c : Call) (hs : EntriesOk s) (h : AllFound s) :
    AllFound (step s c) := by
  rcases step_cases s c hs with ⟨-, hmoves⟩ | ⟨fp, order, -, hmoves⟩ | ⟨req, order, -, hgate⟩
  · exact (hmoves.gate "").preserves (fun _ _ m => m.allFound) h
  · exact hmoves.preserves (fun _ _ m => m.allFound) h
  · exact hgate.moves.preserves (fun _ _ m => m.allFound) h

/-- No call of any run takes a waiting job out of the gate's reach. -/
theorem exec_allFound (calls : List Call) : AllFound (exec calls) :=
  exec_invariant allFound_init (fun calls c _ => step_allFound _ c (exec_entriesOk calls))
    (.trivial calls _)

/-- **Exact streams.**  In every reachable store the streams hold the waiting jobs, each under its
key and due time, and nothing else. -/
theorem streams_exact (calls : List Call) (key id : String) (sc : Int) :
    ((exec calls).waiting.pending key).score id = some sc ↔
      ∃ j, (exec calls).job? id = some j ∧ j.state.isWaiting = true ∧ j.pendingKey = key ∧
        j.scheduledAtMs = sc := by
  constructor
  · exact exec_entriesOk calls key id sc
  · rintro ⟨j, row, waiting, rfl, rfl⟩
    exact (exec_allFound calls id j row waiting).stream

end Headgate.Redis
