import Headgate.Redis.Quarantine

/-!
# The live jobs of a fingerprint

`admin.lua` describes `fpi:{fp}` as the waiting and running jobs of a fingerprint, and
the sweep relies on it.  The scripts keep it so, pending jobs included, with one
exception: an edit lists a finished job under its new fingerprint.  Eviction leaves the
entry behind, and a later job under the same id is then swept with a fingerprint that
is not its own.
-/

namespace Headgate.Redis

open Headgate.Core Data

/-! ## Section 1: One id -/

/-- The sets hold an id exactly while its job is unfinished, or quarantined. -/
def LiveAt : Option Face × Listing → Prop
  | (none, x) => (∀ fp, ¬ x.fpi fp) ∧ ∀ fp, ¬ x.qjobs fp
  | (some f, x) =>
    (∀ fp, x.fpi fp ↔ fp ≠ "" ∧ f.state.isUnfinished = true ∧ fp = f.fingerprint) ∧
    ∀ fp, x.qjobs fp ↔ fp ≠ "" ∧ f.state = .quarantined ∧ fp = f.fingerprint

/-- An edit may give this job the fingerprint: the job is in the sets anyway, or the edit lists
nothing. -/
def Face.Editable (f : Face) (fp : String) : Prop :=
  f.state.isUnfinished = true ∨ f.state = .quarantined ∨ fp = "" ∨ fp = f.fingerprint

section
variable {op : Op} {now : Int}

theorem Change.liveAt {f : Face} {f' : Option Face} {x x' : Listing} (c : Change op now f x f' x')
    (ok : ∀ fp, op.edits fp → f.Editable fp) (h : LiveAt (some f, x)) : LiveAt (f', x') := by
  obtain ⟨hlisted, hheld⟩ := h
  have hlive : State.isUnfinished .scheduled = true ∧ State.isUnfinished .available = true ∧
    State.isUnfinished .running = true ∧ State.isUnfinished .quarantined = false := by decide
  cases c <;> simp only [LiveAt, Listing.moveIdx, Listing.addIdx, Listing.remIdx, Listing.retain,
    Listing.putFpi, Listing.cutFpi, Listing.addFpi, Listing.remFpi, Listing.putQjobs,
    Listing.cutQjobs, Listing.addQjobs, Listing.remQjobs]
  case debounce | reprint => grind [isUnfinished_of_isMutable]
  case activate | promote | claim | requeue =>
    grind [State.isUnfinished_of_isWaiting, State.isWaiting, isUnfinished_of_isMutable, isMutable_iff]
  case finish => grind [isUnfinished_of_isTerminal]
  case retry => grind [isUnfinished_of_isTerminal, isTerminal_of_isRetriable, State.isRetriable]
  case crash | sweep | release => grind [State.isUnfinished_of_isWaiting]
  case edit => grind [Face.Editable]
  case finishDelete | delete => grind
  -- eviction does not look at the sets, but an evictable job is in none of them
  case evict => grind [isUnfinished_of_isTerminal, isTerminal_of_isEvictable, State.isEvictable]
  all_goals grind

theorem Touch.liveAt {v v' : Option Face × Listing} (c : Touch op now v v')
    (ok : ∀ fp, op.edits fp → ∀ f, v.1 = some f → f.Editable fp) (h : LiveAt v) : LiveAt v' := by
  cases c with
  | row change => exact change.liveAt (fun fp hfp => ok fp hfp _ rfl) h
  | arrive e f mem new =>
    have hmutable : State.isMutable f.state = true := new ▸ isMutable_initialState now e
    simp only [LiveAt, Listing.addIdx, Listing.addFpi] at h ⊢
    grind [isUnfinished_of_isMutable, State.isMutable]
  | stray idx fpi qjobs => exact ⟨fun fp => fpi ▸ h.1 fp, fun fp hin => h.2 fp (qjobs fp hin)⟩

end

/-! ## Section 2: Runs -/

def LiveOk (s : Store) : Prop := ∀ id, LiveAt (s.about id)

/-- The call gives no finished job another fingerprint. -/
def EditsOk (s : Store) (c : Call) : Prop :=
  match c.op with
  | .editPayload id _ _ fp => ∀ j ∈ s.job? id, j.face.Editable fp
  | _ => True

instance (s : Store) (c : Call) : Decidable (EditsOk s c) := by
  obtain ⟨now, op⟩ := c
  apply Op.casesOn (motive := fun op => Decidable (EditsOk s ⟨now, op⟩)) op <;> intros <;>
    dsimp only [EditsOk, Face.Editable] <;> infer_instance

theorem step_liveOk {s : Store} {c : Call} (hentries : EntriesOk s) (hok : EditsOk s c)
    (h : LiveOk s) : LiveOk (step s c) := by
  have hplain : (∀ fp, ¬ c.op.edits fp) → LiveOk (step s c) := fun hop =>
    (step_touches s c hentries).keeps (fun _ _ t => t.liveAt fun fp hfp => absurd hfp (hop fp)) h
  obtain ⟨now, op⟩ := c
  cases op with
  | editPayload id payload sv fp =>
    have hedit : Touches (.editPayload id payload sv fp) now id s (editPayload id payload sv fp s).1 :=
      editPayload_touches payload sv rfl
    refine hedit.keeps (fun v' t => t.liveAt fun g hg f hf => ?_) h
    obtain ⟨j, row, rfl⟩ := Option.map_eq_some_iff.mp hf
    cases hg
    exact hok j row
  | _ => exact hplain fun _ => id

theorem exec_liveOk {calls : List Call} (h : EachStep step EditsOk Store.init calls) :
    LiveOk (exec calls) :=
  @exec_invariant LiveOk EditsOk
    (fun id => ⟨fun _ => Finset.notMem_empty id, fun _ => Finset.notMem_empty id⟩)
    (fun calls _ hc => step_liveOk (exec_entriesOk calls) hc) calls h

theorem LiveOk.mem_fpi {s : Store} (h : LiveOk s) {id fp : String} :
    id ∈ s.index.fpi fp ↔ fp ≠ "" ∧
      ∃ j, s.job? id = some j ∧ j.state.isUnfinished = true ∧ j.fingerprint = fp := by
  have hid := h id
  unfold Store.about at hid
  cases row : s.job? id with
  | none =>
    rw [row] at hid
    simp [show id ∉ s.index.fpi fp from hid.1 fp]
  | some j =>
    rw [row] at hid
    rw [show id ∈ s.index.fpi fp ↔ _ from hid.1 fp]
    constructor
    · rintro ⟨hne, hlive, rfl⟩
      exact ⟨hne, j, rfl, hlive, rfl⟩
    · rintro ⟨hne, k, hk, hlive, rfl⟩
      cases hk
      exact ⟨hne, hlive, rfl⟩

theorem job?_sweepOne (now limit : Int) (fp : String) (p : Store × Int) {id x : String}
    (hx : x ≠ id) : (sweepOne now limit fp p id).1.job? x = p.1.job? x := by
  unfold sweepOne
  split
  · rfl
  · split
    · rfl
    · rename_i j _
      split
      · exact (Store.job?_setJob (dropWaiting id j p.1) id x _).trans (if_neg hx)
      · rfl

/-- A sweep leaves the jobs of other fingerprints alone. -/
theorem LiveOk.quarantineSweep_spares {s : Store} (h : LiveOk s) (now limit : Int)
    (order : SetOrder String) {id : String} {j : Job} (row : s.job? id = some j)
    (hout : j.fingerprint ∉ s.policy.quarantine) :
    (quarantineSweep now limit order s).job? id = some j := by
  -- the sets stay right from one moved job to the next
  suffices hsweep : LiveOk s → LiveOk (quarantineSweep now limit order s) ∧
      (s.job? id = some j → (quarantineSweep now limit order s).job? id = some j) from
    (hsweep h).2 row
  refine quarantineSweep_lift limit order s (r := fun s t => LiveOk s →
      LiveOk t ∧ (s.job? id = some j → t.job? id = some j)) (fun _ h => ⟨h, fun hrow => hrow⟩)
    (fun _ _ _ h h' hs => ⟨(h' (h hs).1).1, fun hrow => (h' (h hs).1).2 ((h hs).2 hrow)⟩)
    fun fp hfp p x listed hp => ?_
  have htouches : Touches (.quarantineSweep limit order) now x p.1 (sweepOne now limit fp p x).1 :=
    sweepOne_touches limit p listed
  refine ⟨htouches.keeps (fun _ t => t.liveAt nofun) hp, fun hrow => ?_⟩
  -- the moved job is one of the quarantined fingerprint
  have hx : id ≠ x := by
    rintro rfl
    obtain ⟨-, k, hk, -, rfl⟩ := hp.mem_fpi.mp listed
    rw [hrow] at hk
    cases hk
    exact hout hfp
  rw [job?_sweepOne now limit fp p hx]
  exact hrow

/-- An edit that is not allowed lists a finished job. -/
theorem editsOk_or_finished (s : Store) (c : Call) : EditsOk s c ∨ ∃ id fp j,
    (step s c).job? id = some j ∧ j.state.isUnfinished = false ∧ id ∈ (step s c).index.fpi fp := by
  by_cases hok : EditsOk s c
  · exact .inl hok
  obtain ⟨now, op⟩ := c
  cases op with
  | editPayload id payload sv fp =>
    simp only [EditsOk, not_forall, Face.Editable, not_or] at hok
    obtain ⟨j, row, hfinished, hout, hne, hother⟩ := hok
    have row : s.job? id = some j := row
    have hout : j.state ≠ .quarantined := hout
    have hfinished : j.state.isUnfinished = false := Bool.eq_false_iff.mpr hfinished
    have hidle : j.state ≠ .running := by
      intro hrun
      rw [hrun] at hfinished
      cases hfinished
    have hmoves : j.fingerprint ≠ fp := fun heq => hother heq.symm
    refine .inr ⟨id, fp, { j with payload := payload, schemaVersion := sv, fingerprint := fp }, ?_⟩
    simp only [step, editPayload, row, if_neg hidle, if_pos hmoves, if_neg hout]
    refine ⟨(Store.job?_setJob s id id _).trans (if_pos rfl), hfinished, ?_⟩
    simp [Index.addFpi, Index.putFpi, hne]
  | _ => exact absurd trivial hok

/-- **The set of a fingerprint.**  In a run that gives no finished job another fingerprint, the set
of a fingerprint holds exactly the waiting and running jobs that have it if and only if no pending
job has it, and a sweep leaves the jobs of fingerprints outside the quarantine alone.  The first
call outside the condition puts a finished job into a set. -/
theorem fpi_lists_live_iff (calls : List Call) (h : EachStep step EditsOk Store.init calls) :
    (∀ fp, fp ≠ "" → ((∀ id, id ∈ (exec calls).index.fpi fp ↔ ∃ j, (exec calls).job? id = some j ∧
        (j.state.isWaiting = true ∨ j.state = .running) ∧ j.fingerprint = fp) ↔
      ∀ id j, (exec calls).job? id = some j → j.state = .pending → j.fingerprint ≠ fp)) ∧
    (∀ now limit order id j, (exec calls).job? id = some j →
      j.fingerprint ∉ (exec calls).policy.quarantine →
      (step (exec calls) ⟨now, .quarantineSweep limit order⟩).job? id = some j) ∧
    ∀ c, EditsOk (exec calls) c ∨ ∃ id fp j, (step (exec calls) c).job? id = some j ∧
      j.state.isUnfinished = false ∧ id ∈ (step (exec calls) c).index.fpi fp := by
  have hok := exec_liveOk h
  have hlive : ∀ st : State, st.isUnfinished = true ↔
      (st.isWaiting = true ∨ st = .running) ∨ st = .pending := by
    intro st
    cases st <;> simp [State.isUnfinished, State.isWaiting]
  refine ⟨fun fp hfp => ⟨fun hsame id j row pending heq => ?_, fun hnone id => ?_⟩,
    fun now limit order id j row hout => hok.quarantineSweep_spares now limit order row hout,
    editsOk_or_finished _⟩
  · -- a pending job is in the set, though it neither waits nor runs
    have hin := hok.mem_fpi.mpr ⟨hfp, j, row, (hlive _).mpr (.inr pending), heq⟩
    obtain ⟨k, hk, hstate, -⟩ := (hsame id).mp hin
    rw [row] at hk
    cases hk
    simp [pending, State.isWaiting] at hstate
  · rw [hok.mem_fpi]
    constructor
    · rintro ⟨-, j, row, hunfinished, rfl⟩
      rcases (hlive _).mp hunfinished with hstate | pending
      · exact ⟨j, row, hstate, rfl⟩
      · exact absurd rfl (hnone id j row pending)
    · rintro ⟨j, row, hstate, rfl⟩
      exact ⟨hfp, j, row, (hlive _).mpr (.inl hstate), rfl⟩

/-- A job of `f` crashes at the limit, and a waiting job is edited from `h` to `i`. -/
def editedWaiting : List Call := reusedId.drop 5 ++ [⟨31, .editPayload "a" [] 1 "i"⟩]

theorem fpi_lists_live_iff_editedWaiting : EachStep step EditsOk Store.init editedWaiting ∧
    ∃ j, (step (exec editedWaiting) ⟨32, .quarantineSweep 10 .increasing⟩).job? "a" = some j ∧
      j.state = .available := by
  have hok : EachStep step EditsOk Store.init editedWaiting := by decide +kernel
  obtain ⟨j, row, hstate, hfp⟩ : ∃ j, (exec editedWaiting).job? "a" = some j ∧
      j.state = .available ∧ j.fingerprint = "i" := ⟨_, rfl, rfl, rfl⟩
  have hout : j.fingerprint ∉ (exec editedWaiting).policy.quarantine := by
    rw [hfp]
    decide +kernel
  exact ⟨hok, j, (fpi_lists_live_iff editedWaiting hok).2.1 32 10 .increasing "a" j row hout, hstate⟩

/-- After the edit the set of `f` holds a completed job; after its eviction it holds a later job of
the fingerprint `h`, which the sweep quarantines although `h` is not. -/
theorem fpi_lists_finished :
    (stateOf (reusedId.take 4) "a" = some .completed ∧ "a" ∈ (exec (reusedId.take 4)).index.fpi "f") ∧
    ((exec reusedId).job? "a").map Job.fingerprint = some "h" ∧
    "h" ∉ (exec reusedId).policy.quarantine ∧ stateOf reusedId "a" = some .available ∧
    stateOf (reusedId ++ [⟨31, .quarantineSweep 10 .increasing⟩]) "a" = some .quarantined := by
  decide +kernel

end Headgate.Redis
