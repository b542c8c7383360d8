import Headgate.Data.Keyed
import Headgate.Redis.Admission

/-!
# Lifecycle uniqueness

A job enqueued with a unique key and no window holds that key while it is
unfinished: `unique:{key}` names it.  Every script keeps this but `q_release`,
which brings quarantined jobs back without looking at the key that the
quarantine took from them.
-/

namespace Headgate.Redis

open Headgate.Core Data Relation

variable {j j' : Job}

/-! ## Section 1: The invariant -/

/-- The lifecycle key an unfinished job carries. -/
def Job.liveKey (j : Job) : Option Bytes :=
  if j.state.isUnfinished = true ∧ j.hasLifecycleKey = true then some j.uniqueKey else none

/-- Every lifecycle key of an unfinished job is held by that job. -/
def KeysHeld (s : Store) : Prop := Holds Job.liveKey s.job? s.holders.unique

theorem keysHeld_init : KeysHeld Store.init := by
  intro id j k row
  simp at row

theorem Job.hasLifecycleKey_iff :
    j.hasLifecycleKey = true ↔ j.uniqueKey ≠ [] ∧ j.uniqueWindowMs = 0 := by
  simp [Job.hasLifecycleKey]

theorem Job.liveKey_eq_some {k : Bytes} :
    j.liveKey = some k ↔
      j.state.isUnfinished = true ∧ j.hasLifecycleKey = true ∧ j.uniqueKey = k := by
  unfold Job.liveKey
  split
  · rename_i h
    simp [h]
  · rename_i h
    simp only [reduceCtorEq, false_iff]
    exact fun hk => h ⟨hk.1, hk.2.1⟩

theorem Job.liveKey_of_terminal (h : j.state.isTerminal = true) : j.liveKey = none := by
  unfold Job.liveKey
  cases hst : j.state <;> simp_all [State.isTerminal, State.isUnfinished]

theorem Job.SameRoute.hasLifecycleKey (h : j.SameRoute j') :
    j'.hasLifecycleKey = j.hasLifecycleKey := by
  simp only [Job.hasLifecycleKey, h.uniqueKey, h.uniqueWindowMs]

/-- A job that stays unfinished carries the key it carried. -/
theorem Job.SameRoute.liveKey (h : j.SameRoute j') (unfinished : j.state.isUnfinished = true)
    {k : Bytes} (hk : j'.liveKey = some k) :
    j.liveKey = some k := by
  obtain ⟨-, hkeyed, hkey⟩ := Job.liveKey_eq_some.mp hk
  refine Job.liveKey_eq_some.mpr ⟨unfinished, ?_, ?_⟩
  · rw [← h.hasLifecycleKey]
    exact hkeyed
  · rw [← h.uniqueKey]
    exact hkey

/-! ## Section 2: Moves -/

section
variable {s s' : Store} {id : String} {row : Option Job} {w : Waiting} {r : Running}
  {u : Holders} {events : List Event}

/-- The job carries at most the key it carried, and the holders stay. -/
private theorem keysHeld_stay (h : KeysHeld s) (hrow : s.job? id = some j)
    (eff : Effect s s' id (some j') w r s.holders events)
    (hkey : ∀ k, j'.liveKey = some k → j.liveKey = some k) : KeysHeld s' := by
  unfold KeysHeld
  rw [eff.holders]
  refine h.replace eff.rows (fun j₁ k hj hk => ?_) (fun k x _ hx => hx)
  cases hj
  exact h id j k hrow (hkey k hk)

/-- The job carries no key any more; releasing its own key disturbs nobody. -/
private theorem keysHeld_leave (h : KeysHeld s) (eff : Effect s s' id row w r u events)
    (hu : u = s.holders ∨ u = s.holders.release id j)
    (hkey : ∀ j', row = some j' → j'.liveKey = none) : KeysHeld s' := by
  unfold KeysHeld
  rw [eff.holders]
  refine h.replace eff.rows (fun j' k hj hk => ?_) (fun k x hx hold => ?_)
  · rw [hkey j' hj] at hk
    cases hk
  · rcases hu with rfl | rfl
    · exact hold
    · unfold Holders.release
      split
      · rename_i hrel
        -- the released entry pointed at this job
        have hne : k ≠ j.uniqueKey := by
          intro heq
          rw [heq, hrel.2] at hold
          exact hx (Option.some.inj hold).symm
        simpa [Function.update_of_ne hne] using hold
      · exact hold

/-- The job carries a key that was free or its own, and takes it. -/
private theorem keysHeld_take (h : KeysHeld s) (eff : Effect s s' id (some j') w r u events)
    (hfree : j'.hasLifecycleKey = true → s.holders.unique j'.uniqueKey = none ∨
      s.holders.unique j'.uniqueKey = some id) (hu : u.unique = if j'.hasLifecycleKey then
      Function.update s.holders.unique j'.uniqueKey (some id) else s.holders.unique) :
    KeysHeld s' := by
  unfold KeysHeld
  rw [eff.holders, hu]
  refine h.replace eff.rows (fun j₁ k hj hk => ?_) (fun k x hx hold => ?_)
  · cases hj
    obtain ⟨-, hkeyed, rfl⟩ := Job.liveKey_eq_some.mp hk
    simp [hkeyed]
  · split
    · rename_i hkeyed
      have hne : k ≠ j'.uniqueKey := by
        intro heq
        rw [heq] at hold
        rcases hfree hkeyed with hnone | hown
        · rw [hnone] at hold
          cases hold
        · rw [hown] at hold
          exact hx (Option.some.inj hold).symm
      rw [Function.update_of_ne hne]
      exact hold
    · exact hold

private theorem keysHeld_same (h : KeysHeld s) (jobs : s'.jobs = s.jobs)
    (holders : s'.holders = s.holders) : KeysHeld s' := by
  intro x j k row hk
  rw [holders]
  refine h x j k ?_ hk
  unfold Store.job? at row ⊢
  rw [← jobs]
  exact row

end

theorem Move.keysHeld {s s' : Store} (m : Move s s') (h : KeysHeld s) : KeysHeld s' := by
  cases m with
  | arrive now e absent window free eff =>
    refine keysHeld_take h eff (fun hkeyed => ?_) ?_
    · obtain ⟨hkey, hwin⟩ := Job.hasLifecycleKey_iff.mp hkeyed
      exact .inl (free hkey hwin)
    · -- a window of zero takes the lifecycle entry, a positive one the throttle entry
      unfold claimKey
      by_cases hkey : keyArg e = []
      · simp [Job.hasLifecycleKey, newJob, hkey]
      · by_cases hwin : e.uniqueWindowMs > 0
        · have hne : e.uniqueWindowMs ≠ 0 := by omega
          cases Envelope.raises e <;>
            simp [Job.hasLifecycleKey, newJob, hkey, hwin, hne, Holders.throttle]
        · have heq : e.uniqueWindowMs = 0 := by omega
          simp [Job.hasLifecycleKey, newJob, hkey, heq, Holders.acquire]
  | rewrite id j j' events row eff rate route state =>
    refine keysHeld_stay h row eff fun k hk => ?_
    have hunf := (Job.liveKey_eq_some.mp hk).1
    rw [state] at hunf
    exact route.liveKey hunf hk
  | renew id j l expires row running lease eff =>
    exact keysHeld_stay h row eff fun k hk => hk
  | retime id j j' row idle eff route =>
    exact keysHeld_stay h row eff fun k hk => route.liveKey (isUnfinished_of_isMutable idle) hk
  | flip id j j' row waiting eff route =>
    exact keysHeld_stay h row eff fun k hk =>
      route.liveKey (State.isUnfinished_of_isWaiting waiting) hk
  | park id j new events row idle eff ends gone | finish id j new e row running eff ends gone =>
    exact keysHeld_leave h eff (.inr rfl) fun j' hj' =>
      Job.liveKey_of_terminal (gone j' hj').2
  | requeue id j j' e row running eff ends route =>
    exact keysHeld_stay h row eff fun k hk => route.liveKey (by rw [running]; rfl) hk
  | drop id j u row terminal eff released =>
    exact keysHeld_leave h eff released fun j' hj' => by cases hj'
  | retry id j j' row terminal eff route state free =>
    refine keysHeld_take h eff (fun hkeyed => ?_) ?_
    · rw [route.hasLifecycleKey] at hkeyed
      rw [route.uniqueKey]
      exact free hkeyed
    · rw [route.hasLifecycleKey, route.uniqueKey]
      split <;> rfl
  | stray id idle jobs waiting running holders | policy jobs waiting running holders =>
    exact keysHeld_same h jobs holders

theorem GateMove.keysHeld {lease : String} {s s' : Store} (m : GateMove lease s s')
    (h : KeysHeld s) : KeysHeld s' := by
  cases m with
  | plain m => exact m.keysHeld h
  | claim id j j' l events row waiting eff rate route =>
    exact keysHeld_stay h row eff fun k hk =>
      route.liveKey (State.isUnfinished_of_isWaiting waiting) hk
  | tidy id queue part sticky absent jobs waiting running holders =>
    exact keysHeld_same h jobs holders
  | heal key jobs waiting running holders | enlist runningp jobs waiting running holders =>
    exact keysHeld_same h jobs holders

/-! ## Section 3: Quarantine release -/

/-- The quarantined jobs a release would bring back carry no lifecycle key. -/
def ReleasesUnkeyed (s : Store) (c : Call) : Prop :=
  match c.op with
  | .quarantineRelease fp _ => ∀ id ∈ s.index.qjobs fp, ∀ j ∈ s.job? id,
    j.state = .quarantined → j.hasLifecycleKey = false
  | _ => True

instance (s : Store) (c : Call) : Decidable (ReleasesUnkeyed s c) := by
  obtain ⟨now, op⟩ := c
  apply Op.casesOn (motive := fun op => Decidable (ReleasesUnkeyed s ⟨now, op⟩)) op <;> intros <;>
    dsimp only [ReleasesUnkeyed] <;> infer_instance

/-- What is left of the worklist carries no lifecycle key. -/
private def UnkeyedList (s : Store) (ids : List String) : Prop :=
  ∀ id ∈ ids, ∀ j, s.job? id = some j → j.state = .quarantined → j.hasLifecycleKey = false

private theorem releaseOne_keysHeld (now : Int) (fp id : String) (ids : List String)
    (p : Store × Nat) (h : KeysHeld p.1) (hlist : UnkeyedList p.1 (id :: ids)) :
    KeysHeld (releaseOne now fp p id).1 ∧ UnkeyedList (releaseOne now fp p id).1 ids := by
  have hrest : UnkeyedList p.1 ids := fun x hx => hlist x (by simp [hx])
  unfold releaseOne
  cases hj : p.1.job? id with
  | none => exact ⟨keysHeld_same h rfl rfl, hrest⟩
  | some j =>
    dsimp only
    split
    · rename_i hq
      have hunkeyed := hlist id (by simp) j hj hq
      refine ⟨keysHeld_stay h hj (.set rfl rfl rfl rfl (rfl : _ = ([] : List Event) ++ _))
        fun k hk => ?_, fun x hx k hk hqk => ?_⟩
      · have hkeyed : j.hasLifecycleKey = true := (Job.liveKey_eq_some.mp hk).2.1
        rw [hunkeyed] at hkeyed
        cases hkeyed
      · -- the released row is available now, every other row is as before
        change Store.job? (p.1.setJob id _) x = some k at hk
        rw [Store.job?_setJob] at hk
        split at hk
        · cases hk
          cases hqk
        · exact hrest x hx k hk hqk
    · exact ⟨keysHeld_same h rfl rfl, hrest⟩

private theorem releaseLoop_keysHeld (now : Int) (fp : String) (ids : List String)
    (p : Store × Nat) (h : KeysHeld p.1) (hlist : UnkeyedList p.1 ids) :
    KeysHeld (ids.foldl (releaseOne now fp) p).1 := by
  induction ids generalizing p with
  | nil => exact h
  | cons id ids ih =>
    obtain ⟨hstep, hrest⟩ := releaseOne_keysHeld now fp id ids p h hlist
    exact ih _ hstep hrest

theorem quarantineRelease_keysHeld (now : Int) (order : SetOrder String) (fp : String) (s : Store)
    (h : KeysHeld s)
    (hunkeyed : ∀ id ∈ s.index.qjobs fp, ∀ j ∈ s.job? id,
      j.state = .quarantined → j.hasLifecycleKey = false) :
    KeysHeld (quarantineRelease now order fp s).1 := by
  refine releaseLoop_keysHeld now fp _ _ (keysHeld_same h rfl rfl) fun id hid j hj => ?_
  exact hunkeyed id ((order.mem_list _ _).mp hid) j hj

/-! ## Section 4: Whole runs -/

theorem step_keysHeld (s : Store) (c : Call) (hc : ReleasesUnkeyed s c) (hs : EntriesOk s)
    (h : KeysHeld s) : KeysHeld (step s c) := by
  rcases step_cases s c hs with ⟨-, hmoves⟩ | ⟨fp, order, hop, -⟩ | ⟨req, order, -, hgate⟩
  · exact (hmoves.gate "").preserves (fun _ _ m => m.keysHeld) h
  · obtain ⟨now, op⟩ := c
    cases hop
    exact quarantineRelease_keysHeld now order fp s h hc
  · exact hgate.moves.preserves (fun _ _ m => m.keysHeld) h

theorem exec_keysHeld {calls : List Call}
    (hreleases : EachStep step ReleasesUnkeyed Store.init calls) : KeysHeld (exec calls) :=
  exec_invariant keysHeld_init (fun calls c hc => step_keysHeld _ c hc (exec_entriesOk calls))
    hreleases

/-- **Lifecycle uniqueness.**  In a run that releases no quarantined job with a lifecycle key,
at most one unfinished job carries a given key, and the holder entry names it. -/
theorem lifecycle_uniqueness (calls : List Call)
    (releases : EachStep step ReleasesUnkeyed Store.init calls) (key : Bytes) :
    (∀ id id' j j', (exec calls).job? id = some j → (exec calls).job? id' = some j' →
      j.liveKey = some key → j'.liveKey = some key → id = id') ∧
    (∀ id j, (exec calls).job? id = some j → j.liveKey = some key →
      (exec calls).holders.unique key = some id) := by
  have hheld := exec_keysHeld releases
  refine ⟨fun id id' j j' hj hj' hk hk' => ?_, fun id j hj hk => hheld id j key hj hk⟩
  exact hheld.exclusive id id' j j' key hj hj' hk hk'

/-- A job without a key crashes into quarantine and is released while another holds a
lifecycle key. -/
def unkeyedRelease : List Call :=
  [⟨0, .enqueue [{ id := "a", kind := "k", queue := "q", fingerprint := "f" }]⟩,
    ⟨0, .admission ⟨"w", "L1", ["q"], 1, 10, 1⟩ SetOrder.increasing⟩,
    -- the crash limit of one quarantines the job
    ⟨20, .reclaim 10 1 5 5⟩,
    ⟨21, .enqueue [{ id := "b", kind := "k", queue := "q", uniqueKey := some [7] }]⟩,
    ⟨22, .quarantineRelease "f" SetOrder.increasing⟩]

theorem lifecycle_uniqueness_unkeyedRelease :
    ((exec unkeyedRelease).job? "a").map Job.state = some .available ∧
      ((exec unkeyedRelease).job? "b").bind Job.liveKey ≠ none ∧
      ∀ key id j, (exec unkeyedRelease).job? id = some j → j.liveKey = some key →
        (exec unkeyedRelease).holders.unique key = some id := by
  refine ⟨by decide +kernel, by decide +kernel, fun key id j => ?_⟩
  exact (lifecycle_uniqueness unkeyedRelease (by decide +kernel) key).2 id j

/-- A job that holds a lifecycle key crashes into quarantine, a second job takes the key,
and the quarantine is released. -/
def keyedRelease : List Call :=
  [⟨0, .enqueue [
      { id := "a", kind := "k", queue := "q", uniqueKey := some [7], fingerprint := "f" }]⟩,
    ⟨0, .admission ⟨"w", "L1", ["q"], 1, 10, 1⟩ SetOrder.increasing⟩,
    ⟨20, .reclaim 10 1 5 5⟩,
    ⟨21, .enqueue [{ id := "b", kind := "k", queue := "q", uniqueKey := some [7] }]⟩,
    ⟨22, .quarantineRelease "f" SetOrder.increasing⟩]

/-- Two unfinished jobs carry one key. -/
theorem lifecycle_shared_after_release :
    ((exec keyedRelease).job? "a").bind Job.liveKey =
        ((exec keyedRelease).job? "b").bind Job.liveKey ∧
      ((exec keyedRelease).job? "a").bind Job.liveKey ≠ none := by
  decide +kernel

end Headgate.Redis
