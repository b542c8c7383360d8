import Headgate.Redis.Replay
import Headgate.Redis.StateIndex
import Headgate.Redis.LifeWrites

/-!
# The sets a quarantine is kept in

`fpi:{fp}` lists jobs of a fingerprint for the sweep, `qjobs:{fp}` the quarantined ones
for the release.  The scripts maintain both by hand, next to the fingerprint in the
hash.  `PrintsOk` says that they agree with the hashes; the calls that may break it
are a reclaim that quarantines a job without a fingerprint, an edit that takes the
fingerprint of a quarantined job away, and the eviction of a finished job that was
edited after it finished.
-/

namespace Headgate.Redis

open Headgate.Core Data

/-! ## Section 1: The sets and the hashes -/

/-- What the sets say about one id. -/
def PrintsAt : Option Face × Listing → Prop
  | (none, x) => (∀ fp, ¬ x.fpi fp) ∧ ∀ fp, ¬ x.qjobs fp
  | (some f, x) =>
    -- a listed job has that fingerprint
    (∀ fp, x.fpi fp → fp ≠ "" ∧ fp = f.fingerprint) ∧
    -- the worklist of a release holds the quarantined jobs of its fingerprint
    (∀ fp, x.qjobs fp ↔ f.state = .quarantined ∧ fp = f.fingerprint) ∧
    (f.state = .quarantined → f.fingerprint ≠ "")

def PrintsOk (s : Store) : Prop := ∀ id, PrintsAt (s.about id)

theorem printsOk_init : PrintsOk Store.init :=
  fun id => ⟨fun _ => Finset.notMem_empty id, fun _ => Finset.notMem_empty id⟩

section
variable {op : Op} {now : Int} {f : Face} {f' : Option Face} {x x' : Listing}

/-- A change keeps the sets right, if it brings no job without a fingerprint into the quarantine
and evicts none that is still listed. -/
theorem Change.prints (c : Change op now f x f' x')
    (ok : op.movesPrints → (∀ g, f' = some g → g.state = .quarantined → g.fingerprint ≠ "") ∧
      (f' = none → ¬ x.fpi f.fingerprint))
    (h : PrintsAt (some f, x)) : PrintsAt (f', x') := by
  obtain ⟨hlisted, hheld, hnamed⟩ := h
  cases c <;> simp only [PrintsAt, Listing.moveIdx, Listing.addIdx, Listing.remIdx, Listing.retain,
    Listing.putFpi, Listing.cutFpi, Listing.addFpi, Listing.remFpi, Listing.putQjobs,
    Listing.cutQjobs, Listing.addQjobs, Listing.remQjobs]
  case same | due | retain | unsched | unret | unheld => grind
  -- another fingerprint, outside the quarantine
  case debounce | reprint => grind [State.isMutable]
  -- the same fingerprint, outside the quarantine
  case activate | promote | claim | requeue | finish | retry =>
    grind [State.isWaiting, State.isUnfinished, State.isRetriable]
  -- into the quarantine, within it and out of it
  case crash | sweep | release => grind [State.isWaiting]
  case edit edits => grind [ok (Op.movesPrints_of_edits edits)]
  case finishDelete | delete | evict => grind [State.isEvictable]

theorem Touch.prints {v v' : Option Face × Listing} (c : Touch op now v v')
    (hop : ¬ op.movesPrints) (h : PrintsAt v) : PrintsAt v' := by
  cases c with
  | row change => exact change.prints (fun hmoves => absurd hmoves hop) h
  | arrive e f mem new =>
    have hmutable : State.isMutable f.state = true := new ▸ isMutable_initialState now e
    simp only [PrintsAt, Listing.addIdx, Listing.addFpi] at h ⊢
    grind [State.isMutable]
  | stray idx fpi qjobs => exact ⟨fun fp => fpi ▸ h.1 fp, fun fp hin => h.2 fp (qjobs fp hin)⟩

variable {s t : Store} {id : String} {j : Job}

theorem PrintsOk.row (h : PrintsOk s) (row : s.job? id = some j) :
    PrintsAt (some j.face, s.index.listing id) := by
  have hid := h id
  rw [Store.about, row] at hid
  exact hid

/-- The row and the entries of one id are replaced. -/
theorem PrintsOk.update {y : Listing} (h : PrintsOk s) (new : Option Job)
    (rows : ∀ x, t.job? x = if x = id then new else s.job? x)
    (index : t.index.listing = Function.update s.index.listing id y)
    (hid : PrintsAt (new.map Job.face, y)) : PrintsOk t := by
  intro x
  rw [about_update new rows index]
  by_cases hx : x = id
  · rw [hx, Function.update_self]
    exact hid
  · rw [Function.update_of_ne hx]
    exact h x

/-- The worklist of a release holds the quarantined jobs of its fingerprint. -/
theorem PrintsOk.held (h : PrintsOk s) (fp : String) : id ∈ s.index.qjobs fp ↔
    ∃ j, s.job? id = some j ∧ j.state = .quarantined ∧ j.fingerprint = fp := by
  cases row : s.job? id with
  | none =>
    have hid := h id
    rw [Store.about, row] at hid
    simp [show id ∉ s.index.qjobs fp from hid.2 fp]
  | some j =>
    rw [show id ∈ s.index.qjobs fp ↔ _ from (h.row row).2.1 fp]
    simp [Job.face, eq_comm]

end

/-! ## Section 2: Calls that cannot break them -/

/-- The sets still agree with the hashes, and no fingerprint enters or leaves the quarantine. -/
def Kept (s s' : Store) : Prop :=
  (PrintsOk s → PrintsOk s') ∧ s'.policy.quarantine = s.policy.quarantine

namespace Kept

variable {s t u : Store}

theorem refl (s : Store) : Kept s s := ⟨fun h => h, rfl⟩

theorem trans (h : Kept s t) (h' : Kept t u) : Kept s u :=
  ⟨fun hs => h'.1 (h.1 hs), h'.2.trans h.2⟩

/-- No hash and no set changes. -/
theorem still (jobs : t.jobs = s.jobs) (fpi : t.index.fpi = s.index.fpi)
    (qjobs : t.index.qjobs = s.index.qjobs)
    (quarantine : t.policy.quarantine = s.policy.quarantine) : Kept s t := by
  refine ⟨fun h x => ?_, quarantine⟩
  have hx := h x
  have hrow : t.job? x = s.job? x := by simp only [Store.job?, jobs]
  unfold Store.about Index.listing at hx ⊢
  rw [hrow, fpi, qjobs]
  cases row : s.job? x with
  | none =>
    rw [row] at hx
    exact hx
  | some j =>
    rw [row] at hx
    exact hx

end Kept

section
variable {op : Op} {now : Int} {s t : Store}

theorem Write.quarantine (w : Write op now s t) (h : ¬ op.movesPrints) :
    t.policy.quarantine = s.policy.quarantine := by
  cases w with
  | debounce e holder j row => simp [debounceHolder, row, Store.setJob]
  | payload e holder j row => simp [replacePayload, row, Store.setJob]
  | due e holder j row => simp [replaceScheduledAt, row, Store.setJob]
  | reconcile =>
    unfold Redis.reconcile
    dsimp only
    split
    · rfl
    · split <;> rfl
  | renew ref j leaseMs row held => simp [renewOne, row, held, Store.setJob]
  | sweep limit fp id j n row waiting =>
    unfold sweepOne
    simp only [row, waiting]
    split <;> rfl
  | cancel =>
    unfold doCancel
    split
    · rfl
    · split <;> rfl
  | retry =>
    unfold doRetry
    split <;> rfl
  | delete =>
    unfold doDelete
    split <;> split <;> rfl
  | policy p quarantine => exact quarantine
  | crash id j row running prints => exact absurd prints h
  | edit id j payload sv fp row idle edits => exact absurd (Op.movesPrints_of_edits edits) h
  | _ => rfl

/-- A write of a call that leaves the sets to the lifecycle of the jobs. -/
theorem Write.kept (w : Write op now s t) (h : ¬ op.movesPrints) : Kept s t := by
  refine ⟨fun hs => ?_, w.quarantine h⟩
  obtain ⟨id, htouches⟩ := w.touches
  exact htouches.keeps (fun _ c => c.prints h) hs

theorem GateWrite.kept (req : AdmitRequest) (order : SetOrder String) (w : GateWrite now s t) :
    Kept s t := by
  have htouches : ∃ id, Touches (.admission req order) now id s t := w.touches
  obtain ⟨id, htouches⟩ := htouches
  refine ⟨htouches.keeps fun _ c => c.prints nofun, ?_⟩
  cases w with
  | side jobs index enqueue quarantine => exact quarantine
  | claim id j req charge row waiting jobs index policy => rw [policy]
  | finish id j fence to_ x row live rule out jobs sched index policy =>
    rw [policy]
    rfl

end

end Headgate.Redis
