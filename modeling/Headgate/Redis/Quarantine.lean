import Headgate.Redis.Fingerprints
import Headgate.Redis.Transitions

/-!
# Quarantine and release

A crash at the limit quarantines the job and its fingerprint; the sweep moves the
waiting jobs of a quarantined fingerprint along, and a release brings all of them
back.  The gate's clause then hits no other fingerprint, and no quarantined job is
left behind, in runs where no job without a fingerprint comes into the quarantine and
no evicted job is still listed under its fingerprint.
-/

namespace Headgate.Redis

open Headgate.Core Data

/-! ## Section 1: Edits and eviction -/

/-- The job under `id` is not quarantined. -/
def OutAt (id : String) (s : Store) : Prop :=
  ∀ j, s.job? id = some j → j.state ≠ .quarantined

/-- An edit moves the job from the sets of its old fingerprint to those of its new one.  A
quarantined job must get one. -/
theorem editPayload_kept (id : String) (payload : Bytes) (sv : Nat) (fp : String) {s : Store}
    (hok : fp = "" → OutAt id s) : Kept s (editPayload id payload sv fp s).1 := by
  unfold editPayload
  cases row : s.job? id with
  | none => exact .refl s
  | some j =>
    dsimp only
    split
    · exact .refl s
    · split
      · rename_i hother
        have hchange : Change (.editPayload id payload sv fp) 0 j.face (s.index.listing id) _ _ :=
          .edit fp hother rfl
        refine ⟨fun h => h.update (some _) (Store.job?_setJob s id · _) ?_ (hchange.prints
          (fun _ => ⟨fun g hg hq hempty => ?_, nofun⟩) (h.row row)), rfl⟩
        · split <;> simp [Job.face, *]
        · cases hg
          exact hok hempty j row hq
      · rename_i hsame
        rw [not_not] at hsame
        refine ⟨fun h => h.update (some _) (Store.job?_setJob s id · _)
          (Function.update_eq_self id _).symm ?_, rfl⟩
        have hface := h.row row
        rw [← hsame]
        exact hface

/-- Eviction does not look at the fingerprint's set, so the job must have left it. -/
theorem evictOne_kept {s : Store} {id : String}
    (hok : ∀ j, s.job? id = some j → State.isEvictable j.state = true →
      id ∉ s.index.fpi j.fingerprint) : Kept s (evictOne s id) := by
  unfold evictOne
  cases row : s.job? id with
  | none => exact .still rfl rfl rfl rfl
  | some j =>
    dsimp only
    split
    · rename_i hevictable
      have hchange : Change (.evict 0) 0 j.face (s.index.listing id) _ _ :=
        .evict hevictable trivial
      refine ⟨fun h => h.update none (Store.job?_delJob s id) ?_ (hchange.prints
        (fun _ => ⟨nofun, fun _ => hok j row hevictable⟩) (h.row row)), rfl⟩
      simp [Store.delJob, Job.face]
    · exact .still rfl rfl rfl rfl

theorem fpi_evictOne (s : Store) (id : String) : (evictOne s id).index.fpi = s.index.fpi := by
  unfold evictOne
  split
  · rfl
  · split <;> rfl

theorem evictLoop_kept {ids : List String} {s : Store} (hnodup : ids.Nodup)
    (hok : ∀ id ∈ ids, ∀ j, s.job? id = some j → State.isEvictable j.state = true →
      id ∉ s.index.fpi j.fingerprint) : Kept s (ids.foldl evictOne s) := by
  induction ids generalizing s with
  | nil => exact .refl s
  | cons id rest ih =>
    rw [List.nodup_cons] at hnodup
    refine (evictOne_kept (hok id List.mem_cons_self)).trans (ih hnodup.2 fun x hx j row => ?_)
    -- an eviction leaves the other rows and all sets as they were
    have hne : x ≠ id := fun heq => hnodup.1 (heq ▸ hx)
    rw [job?_evictOne s hne] at row
    rw [fpi_evictOne]
    exact hok x (List.mem_cons_of_mem _ hx) j row

/-! ## Section 2: Crashes -/

/-- The next crash of this job quarantines it. -/
def Job.AtLimit (crashLimit : Int) (j : Job) : Prop :=
  j.state = .running ∧ crashLimit ≤ (j.crashAttempt : Int) + 1

instance (crashLimit : Int) (j : Job) : Decidable (j.AtLimit crashLimit) :=
  inferInstanceAs (Decidable (_ ∧ _))

/-- What reclaiming `ids` does: the quarantine grows by fingerprints of jobs at the limit. -/
structure Crashed (crashLimit : Int) (ids : List String) (s t : Store) : Prop where
  prints : PrintsOk s → PrintsOk t
  rows : ∀ x, x ∉ ids → t.job? x = s.job? x
  quarantine : ∀ fp ∈ t.policy.quarantine, fp ∈ s.policy.quarantine ∨
    ∃ id ∈ ids, ∃ j, s.job? id = some j ∧ j.AtLimit crashLimit ∧ j.fingerprint = fp

section
variable {crashLimit : Int} {id : String} {ids : List String} {s t u : Store}

theorem Kept.crashed (h : Kept s t) (rows : ∀ x, x ∉ ids → t.job? x = s.job? x) :
    Crashed crashLimit ids s t where
  prints := h.1
  rows := rows
  quarantine _ hin := .inl (h.2 ▸ hin)

/-- One expired id.  A job at the limit must have a fingerprint: without one it is parked on no
worklist. -/
theorem reclaimOne_crashed (now base cap : Int)
    (hok : ∀ j, s.job? id = some j → j.AtLimit crashLimit → j.fingerprint ≠ "") :
    Crashed crashLimit [id] s (reclaimOne now crashLimit base cap s id) := by
  unfold reclaimOne
  cases row : s.job? id with
  | none => exact Kept.crashed (.still rfl rfl rfl rfl) fun _ _ => rfl
  | some j =>
    dsimp only
    split
    case isFalse => exact Kept.crashed (.still rfl rfl rfl rfl) fun _ _ => rfl
    case isTrue running =>
      have out : j.state ≠ .quarantined := by
        rw [running]
        decide
      have hrows : ∀ j' x, x ∉ [id] → (s.setJob id j').job? x = s.job? x := fun j' x hx =>
        (Store.job?_setJob s id x j').trans (if_neg (List.mem_singleton.not.mp hx))
      split
      · rename_i hlimit
        have hchange : Change (.reclaim 0 0 0 0) now j.face (s.index.listing id) _ _ :=
          .crash running trivial
        refine ⟨fun h => h.update (some _) (Store.job?_setJob s id · _) ?_ (hchange.prints
          (fun _ => ⟨fun g hg _ => ?_, fun gone => absurd gone (Option.some_ne_none _)⟩) (h.row row)),
          fun x hx => hrows _ x hx, fun fp hin => ?_⟩
        · simp [quarantineCrashed, Store.setJob, Store.record, Job.face]
        · cases hg
          exact hok j row ⟨running, hlimit⟩
        · rcases Finset.mem_insert.mp hin with rfl | hin
          · exact .inr ⟨id, List.mem_singleton_self id, j, row, ⟨running, hlimit⟩, rfl⟩
          · exact .inl hin
      · have hchange : Change (.promote 0) now j.face (s.index.listing id) _ _ :=
          .requeue .retryable (now + backoff base cap (j.crashAttempt + 1))
            (some (now + backoff base cap (j.crashAttempt + 1))) running rfl fun _ => .inr rfl
        refine Kept.crashed ⟨fun h => h.update (some _) (Store.job?_setJob s id · _) ?_
          (hchange.prints False.elim (h.row row)), rfl⟩ fun x hx => hrows _ x hx
        simp [retryCrashed, Store.setJob, Store.record, Job.face]

theorem reclaimLoop_crashed (now base cap : Int) (hnodup : ids.Nodup)
    (hok : ∀ id ∈ ids, ∀ j, s.job? id = some j → j.AtLimit crashLimit → j.fingerprint ≠ "") :
    Crashed crashLimit ids s (ids.foldl (reclaimOne now crashLimit base cap) s) := by
  induction ids generalizing s with
  | nil => exact (Kept.refl s).crashed fun _ _ => rfl
  | cons id rest ih =>
    rw [List.nodup_cons] at hnodup
    have hone := reclaimOne_crashed now base cap (hok id List.mem_cons_self)
    -- the rows of the ids to come are those of the start
    have hlater : ∀ x ∈ rest, (reclaimOne now crashLimit base cap s id).job? x = s.job? x :=
      fun x hx => hone.rows x fun hmem => hnodup.1 (List.mem_singleton.mp hmem ▸ hx)
    have hrest := ih hnodup.2 fun x hx j row =>
      hok x (List.mem_cons_of_mem _ hx) j ((hlater x hx).symm.trans row)
    refine ⟨fun h => hrest.prints (hone.prints h), fun x hx => ?_, fun fp hin => ?_⟩
    · rw [List.mem_cons, not_or] at hx
      exact (hrest.rows x hx.2).trans (hone.rows x (List.mem_singleton.not.mpr hx.1))
    · rcases hrest.quarantine fp hin with hin | ⟨x, hx, j, row, hj⟩
      · rcases hone.quarantine fp hin with hin | ⟨x, hx, hj⟩
        · exact .inl hin
        · exact .inr ⟨x, List.mem_cons.mpr (.inl (List.mem_singleton.mp hx)), hj⟩
      · exact .inr ⟨x, List.mem_cons_of_mem _ hx, j, (hlater x hx).symm.trans row, hj⟩

end

/-! ## Section 3: The release -/

section
variable {now : Int} {fp id : String}

/-- The job under `id` is available. -/
def AvailableAt (id : String) (s : Store) : Prop := ∃ j, s.job? id = some j ∧ j.state = .available

/-- What a release does about the ids it met. -/
structure Released (ids : List String) (s t : Store) : Prop where
  prints : PrintsOk t
  rows : ∀ x, x ∉ ids → t.job? x = s.job? x
  available : ∀ x ∈ ids, AvailableAt x t
  quarantine : t.policy.quarantine = s.policy.quarantine

/-- A job on the worklist is a quarantined one of the fingerprint: it is brought back. -/
theorem releaseOne_released (now : Int) (p : Store × Nat) (h : PrintsOk p.1)
    (hin : id ∈ p.1.index.qjobs fp) :
    Released [id] p.1 (releaseOne now fp p id).1 ∧
      ∀ x, x ≠ id → x ∈ p.1.index.qjobs fp → x ∈ (releaseOne now fp p id).1.index.qjobs fp := by
  obtain ⟨j, row, was, -⟩ := (h.held fp).mp hin
  have htouches : Touches (.quarantineRelease fp .increasing) now id p.1 (releaseOne now fp p id).1 :=
    releaseOne_touches fp p hin
  refine ⟨⟨htouches.keeps (fun _ c => c.prints nofun) h, fun x hx => ?_, fun x hx => ?_, ?_⟩,
    fun x hx hold => (congrArg (fun v => v.2.qjobs fp) (htouches.other hx)).mpr hold⟩
  -- the released row was quarantined under the fingerprint, so the script takes its branch
  all_goals
    unfold releaseOne
    simp only [row, was, ↓reduceIte]
  · exact (Store.job?_setJob p.1 id x _).trans (if_neg (List.mem_singleton.not.mp hx))
  · rw [List.mem_singleton.mp hx]
    exact ⟨_, (Store.job?_setJob p.1 id id _).trans (if_pos rfl), rfl⟩
  · rfl

theorem releaseLoop_released (now : Int) {ids : List String} (p : Store × Nat) (h : PrintsOk p.1)
    (hnodup : ids.Nodup) (hin : ∀ id ∈ ids, id ∈ p.1.index.qjobs fp) :
    Released ids p.1 (ids.foldl (releaseOne now fp) p).1 := by
  induction ids generalizing p with
  | nil => exact ⟨h, fun _ _ => rfl, nofun, rfl⟩
  | cons id rest ih =>
    rw [List.nodup_cons] at hnodup
    obtain ⟨hone, hothers⟩ := releaseOne_released now p h (hin id List.mem_cons_self)
    -- the ids still to come stay in the set while one is released
    have hrest := ih (releaseOne now fp p id) hone.prints hnodup.2 fun x hx =>
      hothers x (fun heq => hnodup.1 (heq ▸ hx)) (hin x (List.mem_cons_of_mem _ hx))
    refine ⟨hrest.prints, fun x hx => ?_, fun x hx => ?_, hrest.quarantine.trans hone.quarantine⟩
    · rw [List.mem_cons, not_or] at hx
      exact (hrest.rows x hx.2).trans (hone.rows x (List.mem_singleton.not.mpr hx.1))
    · rcases List.mem_cons.mp hx with rfl | hx
      · -- its turn was this one, and the rest of the loop leaves it alone
        obtain ⟨j, row, available⟩ := hone.available x (List.mem_singleton_self x)
        exact ⟨j, (hrest.rows x hnodup.1).trans row, available⟩
      · exact hrest.available x hx

/-- A release keeps the sets right, takes its fingerprint out of the quarantine and brings every
quarantined job of it back. -/
theorem quarantineRelease_released (now : Int) (order : SetOrder String) (fp : String) {s : Store}
    (h : PrintsOk s) :
    Released (order.list (s.index.qjobs fp))
      { s with policy := { s.policy with quarantine := s.policy.quarantine.erase fp } }
      (quarantineRelease now order fp s).1 := by
  -- the sets are those of before
  exact releaseLoop_released now (_, 0) h (order.nodup _) fun id hid => (order.mem_list _ _).mp hid

end

/-! ## Section 4: Runs -/

/-- What the sets need of a call: a reclaimed job at the limit has a fingerprint, an edit leaves a
quarantined job one, and an evicted job is no longer listed under its own. -/
def QuarantineOk (s : Store) (c : Call) : Prop :=
  match c.op with
  | .reclaim limit crashLimit _ _ =>
    ∀ id ∈ s.running.lease.rangeByScore c.now limit, ∀ j ∈ s.job? id,
      j.AtLimit crashLimit → j.fingerprint ≠ ""
  | .editPayload id _ _ fp => fp = "" → ∀ j ∈ s.job? id, j.state ≠ .quarantined
  | .evict limit =>
    ∀ id ∈ s.index.ret.rangeByScore c.now limit, ∀ j ∈ s.job? id,
      State.isEvictable j.state = true → id ∉ s.index.fpi j.fingerprint
  | _ => True

instance (s : Store) (c : Call) : Decidable (QuarantineOk s c) := by
  obtain ⟨now, op⟩ := c
  apply Op.casesOn (motive := fun op => Decidable (QuarantineOk s ⟨now, op⟩)) op <;> intros <;>
    dsimp only [QuarantineOk] <;> infer_instance

/-- The call finds an expired job of the fingerprint at the crash limit. -/
def CrashesAtLimit (s : Store) (c : Call) (fp : String) : Prop :=
  match c.op with
  | .reclaim limit crashLimit _ _ =>
    ∃ id ∈ s.running.lease.rangeByScore c.now limit, ∃ j,
      s.job? id = some j ∧ j.AtLimit crashLimit ∧ j.fingerprint = fp
  | _ => False

/-- Some call of the run found a job of the fingerprint at the crash limit. -/
def ReachedLimit (calls : List Call) (fp : String) : Prop :=
  ∃ before c after, calls = before ++ c :: after ∧ CrashesAtLimit (exec before) c fp

/-- Every call but a reclaim and a release leaves the quarantine alone. -/
theorem step_kept {s : Store} {c : Call} (hentries : EntriesOk s) (hok : QuarantineOk s c)
    (hreclaim : ∀ limit crashLimit base cap, c.op ≠ .reclaim limit crashLimit base cap)
    (hrelease : ∀ fp order, c.op ≠ .quarantineRelease fp order) : Kept s (step s c) := by
  -- writes that move no fingerprint keep the sets and the quarantine
  have hwrites : c.op.isPlain → ¬ c.op.movesPrints → Kept s (step s c) := fun hplain hprints =>
    lift_writes (step_writes s c hplain) (fun _ => .refl _) (fun _ _ _ => .trans)
      fun _ _ w => w.kept hprints
  obtain ⟨now, op⟩ := c
  cases op with
  | admission req order =>
    exact lift_writes (admitCall_writes now req order hentries) (fun _ => .refl _) (fun _ _ _ => .trans)
      fun _ _ => GateWrite.kept req order
  | reclaim limit crashLimit base cap => exact absurd rfl (hreclaim limit crashLimit base cap)
  | editPayload id payload sv fp => exact editPayload_kept id payload sv fp hok
  | quarantineRelease fp order => exact absurd rfl (hrelease fp order)
  | evict limit => exact evictLoop_kept (s.index.ret.rangeByScore_nodup now limit) hok
  | _ => exact hwrites trivial id

/-- A call keeps the sets right, and only a crash at the limit adds to the quarantine. -/
theorem step_quarantine {s : Store} {c : Call} (hentries : EntriesOk s) (hok : QuarantineOk s c)
    (h : PrintsOk s) :
    PrintsOk (step s c) ∧ ∀ fp ∈ (step s c).policy.quarantine,
      fp ∈ s.policy.quarantine ∨ fp ≠ "" ∧ CrashesAtLimit s c fp := by
  by_cases hreclaim : ∀ limit crashLimit base cap, c.op ≠ .reclaim limit crashLimit base cap
  · by_cases hrelease : ∀ fp order, c.op ≠ .quarantineRelease fp order
    · have hkept := step_kept hentries hok hreclaim hrelease
      exact ⟨hkept.1 h, fun fp hin => .inl (hkept.2 ▸ hin)⟩
    · push Not at hrelease
      obtain ⟨fp, order, hop⟩ := hrelease
      obtain ⟨now, op⟩ := c
      subst hop
      have hreleased := quarantineRelease_released now order fp h
      refine ⟨hreleased.prints, fun f hin => .inl ?_⟩
      have herased : (step s ⟨now, .quarantineRelease fp order⟩).policy.quarantine
          = s.policy.quarantine.erase fp := hreleased.quarantine
      rw [herased] at hin
      exact Finset.mem_of_mem_erase hin
  · push Not at hreclaim
    obtain ⟨limit, crashLimit, base, cap, hop⟩ := hreclaim
    obtain ⟨now, op⟩ := c
    subst hop
    have hcrashed := reclaimLoop_crashed now base cap
      (s.running.lease.rangeByScore_nodup now limit) hok
    refine ⟨hcrashed.prints h, fun fp hin => ?_⟩
    rcases hcrashed.quarantine fp hin with hin | ⟨id, hid, j, row, hlimit, rfl⟩
    · exact .inl hin
    · exact .inr ⟨hok id hid j row hlimit, id, hid, j, row, hlimit, rfl⟩

theorem exec_quarantine {calls : List Call} (h : EachStep step QuarantineOk Store.init calls) :
    PrintsOk (exec calls) ∧
      ∀ fp ∈ (exec calls).policy.quarantine, fp ≠ "" ∧ ReachedLimit calls fp := by
  induction calls using List.reverseRecOn with
  | nil => exact ⟨printsOk_init, fun fp hin => absurd hin (Finset.notMem_empty fp)⟩
  | append_singleton calls c ih =>
    rw [eachStep_append] at h
    obtain ⟨hprints, hreached⟩ := ih h.1
    obtain ⟨hprints', hadded⟩ := step_quarantine (exec_entriesOk calls) h.2.1 hprints
    rw [exec_snoc]
    refine ⟨hprints', fun fp hin => ?_⟩
    rcases hadded fp hin with hin | ⟨hne, hcrash⟩
    · obtain ⟨hne, before, c', after, rfl, hcrash⟩ := hreached fp hin
      exact ⟨hne, before, c', after ++ [c], by simp, hcrash⟩
    · exact ⟨hne, calls, c, [], rfl, hcrash⟩

/-- **Quarantine by fingerprint.**  In a run that quarantines no job without a fingerprint, takes
none away from a quarantined job and evicts no job that is still listed under its own, the gate's
clause lets through every waiting job without a fingerprint, and every one whose fingerprint never
reached the crash limit; and a release of its own fingerprint makes a quarantined job available. -/
theorem quarantine_by_fingerprint (calls : List Call)
    (h : EachStep step QuarantineOk Store.init calls) :
    (∀ id j, (exec calls).job? id = some j → j.state.isWaiting = true →
      j.fingerprint = "" ∨ ¬ ReachedLimit calls j.fingerprint →
      passQuarantine ⟨id, j⟩ (exec calls) = true) ∧
    ∀ id j, (exec calls).job? id = some j → j.state = .quarantined → ∀ now order,
      AvailableAt id (step (exec calls) ⟨now, .quarantineRelease j.fingerprint order⟩) := by
  obtain ⟨hprints, hreached⟩ := exec_quarantine h
  constructor
  · intro id j _ _ hfree
    have hout : j.fingerprint ∉ (exec calls).policy.quarantine := by
      intro hin
      obtain ⟨hne, hlimit⟩ := hreached j.fingerprint hin
      rcases hfree with hempty | hnever
      · exact hne hempty
      · exact hnever hlimit
    simp [passQuarantine, hout]
  · intro id j row quarantined now order
    -- a quarantined job is in the set of its fingerprint, which the release reads
    have hheld : id ∈ (exec calls).index.qjobs j.fingerprint :=
      (hprints.held j.fingerprint).mpr ⟨j, row, quarantined, rfl⟩
    have hreleased := quarantineRelease_released now order j.fingerprint hprints
    exact hreleased.available id ((order.mem_list _ _).mpr hheld)

/-- One of two jobs crashes at the limit; both have fingerprint `fp`. -/
def crashedTwin (fp : String) : List Call :=
  [⟨0, .enqueue [
      { id := "a", kind := "k", queue := "q", fingerprint := fp },
      { id := "b", kind := "k", queue := "q", fingerprint := fp }]⟩,
    ⟨1, .admission ⟨"w", "l", ["q"], 1, 10, 1⟩ .increasing⟩,
    ⟨20, .reclaim 10 1 1 1⟩]

theorem quarantine_by_fingerprint_twin :
    EachStep step QuarantineOk Store.init (crashedTwin "f") ∧
    AvailableAt "a" (step (exec (crashedTwin "f")) ⟨21, .quarantineRelease "f" .increasing⟩) := by
  have hok : EachStep step QuarantineOk Store.init (crashedTwin "f") := by decide +kernel
  have hrow : ∃ j, (exec (crashedTwin "f")).job? "a" = some j ∧ j.state = .quarantined ∧
      j.fingerprint = "f" := ⟨_, rfl, rfl, rfl⟩
  obtain ⟨j, row, quarantined, hfp⟩ := hrow
  refine ⟨hok, ?_⟩
  have hback := (quarantine_by_fingerprint (crashedTwin "f") hok).2 "a" j row quarantined 21
    .increasing
  rw [hfp] at hback
  exact hback

/-- A finished job is edited to the fingerprint `f` and evicted; a later job under its id has the
fingerprint `h`, and a job of `f` crashes at the limit. -/
def reusedId : List Call :=
  [⟨0, .enqueue [{ id := "a", kind := "k", queue := "q", fingerprint := "g", retentionMs := 5 }]⟩,
    ⟨1, .admission ⟨"w", "l", ["q"], 1, 10, 1⟩ .increasing⟩,
    ⟨2, .ack ⟨"a", "l", 1⟩ { outcome := .success, retryBaseMs := 1, retryCapMs := 1 }⟩,
    ⟨3, .editPayload "a" [] 1 "f"⟩,
    ⟨10, .evict 10⟩,
    ⟨11, .enqueue [{ id := "b", kind := "k", queue := "q", fingerprint := "f" }]⟩,
    ⟨12, .admission ⟨"w", "m", ["q"], 1, 10, 1⟩ .increasing⟩,
    ⟨13, .enqueue [{ id := "a", kind := "k", queue := "q", fingerprint := "h" }]⟩,
    ⟨30, .reclaim 10 1 1 1⟩]

/-- Without a fingerprint, a crash at the limit keeps every job without one from the gate, and no
release brings the crashed job back; neither does one after an edit that took the fingerprint away,
or after a sweep that found a reused id under the fingerprint of its former job. -/
theorem quarantine_beside_fingerprint :
    (stateOf (crashedTwin "") "b" = some .available ∧
      (exec (crashedTwin "")).job? "b" ≠ none ∧
      (∀ j ∈ (exec (crashedTwin "")).job? "b", j.fingerprint = "" ∧
        passQuarantine ⟨"b", j⟩ (exec (crashedTwin "")) = false) ∧
      stateOf (crashedTwin "") "a" = some .quarantined ∧
      stateOf (crashedTwin "" ++ [⟨21, .quarantineRelease "" .increasing⟩]) "a"
        = some .quarantined) ∧
    (stateOf (crashedTwin "f" ++ [⟨21, .editPayload "a" [] 1 ""⟩,
        ⟨22, .quarantineRelease "" .increasing⟩]) "a" = some .quarantined) ∧
    (stateOf reusedId "a" = some .available ∧
      stateOf (reusedId ++ [⟨31, .quarantineSweep 10 .increasing⟩]) "a" = some .quarantined ∧
      stateOf (reusedId ++ [⟨31, .quarantineSweep 10 .increasing⟩,
        ⟨32, .quarantineRelease "h" .increasing⟩]) "a" = some .quarantined) := by
  decide +kernel

end Headgate.Redis
