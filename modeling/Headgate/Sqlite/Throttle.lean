import Headgate.Sql.Throttle
import Headgate.Sqlite.Uniqueness

/-!
# Throttle windows on SQLite

A job enqueued with a window holds its key until the window ends.  The window is
two columns of the job's row, so it lasts as long as the row does: the operations
that delete rows close windows early, and nothing else does.
-/

namespace Headgate.Sqlite

open Headgate.Core Data

variable {k : Bytes} {u : Int} {e : Envelope} {db : Store} {id : String}
  {back gone : String → Job → Prop}
open Sql (Client opening opening_eq_some)

/-! ## Section 1: Windows -/

/-- The key a row holds and until when. -/
def Job.window (j : Job) : Option (Bytes × Int) :=
  if j.uniqueWindowMs > 0 then j.uniqueKey.bind fun k => j.uniqueExpiresAtMs.map fun u => (k, u)
  else none

def Store.window (db : Store) (id : String) : Option (Bytes × Int) :=
  (db.jobs.get id).bind Job.window

/-- The verdict of an enqueue. -/
def verdict (db : Store) (c : Call) : Except StoreError Unit :=
  match c.op with
  | .enqueue batch order => (enqueue c.now order batch db).2
  | .enqueueTx batch order => (enqueueTx c.now order batch db).2
  | _ => .ok ()

/-- The store as its producers see it; a rejection for a key names a holder. -/
def client : Client Store Call where
  init := Store.init
  step := step
  now := Call.now
  ends := fun c e => windowEnd c.now e
  ends_le := fun c e => by
    unfold windowEnd
    split
    · exact le_refl _
    · omega
  ends_eq := fun _ _ hfits => if_pos hfits
  arriving := fun c => c.op.arriving
  stored := fun db id => (db.jobs.get id).isSome
  verdict := verdict
  keyRejection
    | .duplicate _ _ => true
    | _ => false

/-- The call deletes no row before the end of its window. -/
def ClosesNoWindow (db : Store) (c : Call) : Prop :=
  ∀ row ∈ db.jobs.entries, c.op.deletes c.now db row.1 row.2 = true →
    row.2.window.all fun w => w.2 ≤ c.now

instance (db : Store) (c : Call) : Decidable (ClosesNoWindow db c) := by
  unfold ClosesNoWindow
  infer_instance

theorem Job.window_eq_some {j : Job} :
    j.window = some (k, u) ↔
      0 < j.uniqueWindowMs ∧ j.uniqueKey = some k ∧ j.uniqueExpiresAtMs = some u := by
  unfold Job.window
  split
  · rename_i hpos
    simp only [Option.bind_eq_some_iff, Option.map_eq_some_iff, Prod.mk.injEq]
    constructor
    · rintro ⟨k', hk, u', hu, rfl, rfl⟩
      exact ⟨hpos, hk, hu⟩
    · rintro ⟨-, hk, hu⟩
      exact ⟨k, hk, u, hu, rfl, rfl⟩
  · rename_i hpos
    simp only [reduceCtorEq, false_iff]
    exact fun h => hpos h.1

theorem Job.SameUnique.window {j j' : Job} (h : j.SameUnique j') : j'.window = j.window := by
  simp only [Job.window, h.uniqueKey, h.uniqueWindowMs, h.uniqueExpiresAtMs]

theorem newJob_window {now : Int} :
    (newJob now e).window = some (k, u) ↔ opening (windowEnd now e) e = some (e.id, k, u) := by
  rw [Job.window_eq_some, opening_eq_some]
  simp only [newJob, Option.map_eq_some_iff, Option.filter_eq_some_iff, decide_eq_true_eq,
    true_and]
  constructor
  · rintro ⟨hpos, hk, k', ⟨-, -⟩, rfl⟩
    exact ⟨hk, hpos, rfl⟩
  · rintro ⟨hk, hpos, rfl⟩
    exact ⟨hpos, hk, k, ⟨hk, hpos⟩, rfl⟩

theorem Store.window_eq_some :
    db.window id = some (k, u) ↔ ∃ j, db.jobs.get id = some j ∧ j.window = some (k, u) := by
  simp only [Store.window, Option.bind_eq_some_iff]

/-! ## Section 2: What the calls do to windows -/

/-- Rows that keep their key columns keep their windows. -/
theorem carries_of_keeps {now : Int} {t t' : Table String Job} (h : Keeps back gone t t') :
    Client.Carries Job.window now gone t t' := by
  refine Client.Carries.of_evolves h (fun id j j' w hf hw => ?_) fun id j j' k u hf hw _ => ?_
  · exact hf.unique.window.symm.trans hw
  · exact hf.unique.window.trans hw

/-- What a call does to rows. -/
def RowsTo (db : Store) (c : Call) : Table String Job → List Envelope → Prop :=
  client.RowStep (fun db => db.jobs) Job.window (newJob c.now)
    (fun id j => c.op.deletes c.now db id j = true) db c

theorem Fresh.rowsTo {c : Call} {order : SetOrder String} {es : List Envelope}
    (h : Fresh c.now order db es) (hsub : es.Sublist c.op.arriving)
    (hids : (c.op.arriving.map Envelope.id).Nodup)
    (hjobs : (step db c).jobs = db.jobs.insertRows (newRows c.now es)) : RowsTo db c db.jobs es := by
  refine ⟨carries_of_keeps (.refl db.jobs : Keeps noRow _ db.jobs _), ?_, ?_, ?_, ?_, ?_⟩
  · intro id j
    rw [← h.get_insertRows, ← hjobs]
    rfl
  · exact fun e he => ⟨hsub.subset he, h.absent e he⟩
  · intro e he e' he' hid
    exact List.inj_on_of_nodup_map hids he' (hsub.subset he) hid
  · intro e he k u
    exact newJob_window
  · intro e he id j k u v hj hwin hopening
    obtain ⟨-, hkey, hpos, -⟩ := opening_eq_some.mp hopening
    have hlookup := h.unheld e he k (by simp [checkedKey, hkey, hpos])
    obtain ⟨hpos', hkey', hexpires⟩ := Job.window_eq_some.mp hwin
    -- the query would have found a window that is still open
    have hfalse := holdsKey_of_lookupHolder_none hlookup hj
    simp only [Job.holdsKey, hkey', hexpires, hpos', decide_true, Bool.true_and,
      Option.any_some, Bool.or_eq_false_iff, decide_eq_false_iff_not, gt_iff_lt] at hfalse
    exact Int.not_lt.mp hfalse.1

/-- Every call inserts fresh envelopes and nothing else, or keeps the rows it does not delete. -/
theorem step_rowsTo (db : Store) (c : Call) : ∃ t₀ es, RowsTo db c t₀ es := by
  by_cases henq : c.op.isEnqueue
  · rcases enqueue_cases db c henq with ⟨order, es, hsub, hids, hfresh, hjobs⟩ | hkeeps
    · exact ⟨db.jobs, es, hfresh.rowsTo hsub hids hjobs⟩
    · exact ⟨_, [], Client.RowStep.of_carries
        (carries_of_keeps (.weaken hkeeps : Keeps noRow _ db.jobs _))⟩
  · exact ⟨_, [], Client.RowStep.of_carries (carries_of_keeps (step_keeps db c henq))⟩

/-- **The store keeps windows**, as long as no row goes before its window ends. -/
theorem store_windows : Windows step Call.now Store.window client.opens ClosesNoWindow := by
  refine Client.windows_of_rowStep (S := client) (fun _ _ => rfl) step_rowsTo ?_
  intro db c hcloses id j k u hj hdel hwin
  have hended := hcloses (id, j) (Table.mem_entries.mpr hj) hdel
  rw [hwin] at hended
  exact of_decide_eq_true hended

/-! ## Section 3: Rejections -/

/-- A row holds the key of the envelope. -/
def RowHolds (now : Int) (db : Store) (e : Envelope) : Prop :=
  ∃ k, checkedKey e = some k ∧ ∃ x j, db.jobs.get x = some j ∧ j.holdsKey now k = true

/-- A duplicate verdict without repeated keys is due to a row. -/
theorem verdict_duplicate {c : Call} {replaced : Bool}
    (h : verdict db c = .error (.duplicate id replaced))
    (hkeys : (c.op.arriving.filterMap checkedKey).Nodup) :
    ∃ e ∈ c.op.arriving, RowHolds c.now db e := by
  -- only the first pass answers with a duplicate
  have hdepth : ∀ (fresh : List Envelope) (err : StoreError),
      (demandQueues fresh).findSome? (backpressure db fresh) = some err →
        err ≠ .duplicate id replaced := by
    rintro fresh err hsome rfl
    obtain ⟨q, -, hq⟩ := List.exists_of_findSome?_eq_some hsome
    unfold backpressure at hq
    dsimp only at hq
    split at hq
    · cases hq
    · split at hq <;> cases hq
  have hon : ∀ {batch : List Envelope} {order : SetOrder String},
      (enqueueOn c.now order batch db).2 = .error (.duplicate id replaced) →
      (batch.filterMap checkedKey).Nodup → ∃ e ∈ batch, RowHolds c.now db e := by
    intro batch order hverdict hkeys
    unfold enqueueOn at hverdict
    split at hverdict
    · rename_i db' err hcls
      obtain ⟨e, he, seen', hrejected, hnoted⟩ := classifyAll_error hcls
      refine ⟨e, he, ?_⟩
      cases hrejected with
      | conflict | quarantine => cases hverdict
      | repeated hkey hseen =>
        rw [hnoted hkeys _ hkey rfl] at hseen
        cases hseen
      | held hkey hholder => exact ⟨_, hkey, _, holdsKey_of_lookupHolder_some hholder⟩
    · split at hverdict
      · rename_i err herr
        cases hverdict
        exact absurd rfl (hdepth _ _ herr)
      · rcases (insertAll_verdict c.now _ db).2 with hok | hfailed
        · rw [hok] at hverdict
          cases hverdict
        · rw [hfailed] at hverdict
          cases hverdict
  obtain ⟨now, op⟩ := c
  cases op with
  | enqueue batch =>
    simp only [verdict, enqueue] at h
    split at h
    · cases h
    · split at h
      · rename_i hinvalid
        cases h
        exact absurd (validateEnqueue_failsWith batch _ hinvalid) (by simp [BoundaryError])
      · exact hon h hkeys
  | enqueueTx batch =>
    simp only [verdict, enqueueTx] at h
    split at h
    · rename_i hinvalid
      cases h
      exact absurd (validateEnqueue_failsWith batch _ hinvalid) (by simp [BoundaryError])
    · exact hon h hkeys
  | _ => cases h

/-! ## Section 4: The law -/

/-- Its keys are distinct, and no live job holds one of them without a window; pending jobs are
not looked for. -/
def KeysFree (db : Store) (c : Call) : Prop :=
  (c.op.arriving.filterMap checkedKey).Nodup ∧
    ∀ e ∈ c.op.arriving, ∀ row ∈ db.jobs.entries,
      (checkedKey e).isSome → row.2.liveKey = checkedKey e → row.2.state = .pending

instance (db : Store) (c : Call) : Decidable (KeysFree db c) := by
  unfold KeysFree
  infer_instance

/-- Enqueues are a window apart as long as no row goes before its window ends. -/
theorem client_spaced : client.Spaced ClosesNoWindow := Client.spaced_of_windows store_windows

/-- A key whose windows are over and that no live job holds is free. -/
theorem client_reopens : client.Reopens KeysFree := by
  intro calls c hfree hover err herr
  obtain ⟨hkeys, hlive⟩ := hfree
  cases err with
  | duplicate =>
    obtain ⟨e, he, k, hk, x, j, hj, hholds⟩ := verdict_duplicate herr hkeys
    simp only [Job.holdsKey, Bool.and_eq_true, Bool.or_eq_true, decide_eq_true_eq] at hholds
    obtain ⟨hkey, ⟨hpos, hopen⟩ | ⟨hzero, hstate⟩⟩ := hholds
    · -- an open window was opened by an earlier call
      cases hu : j.uniqueExpiresAtMs with
      | none => simp [hu] at hopen
      | some u =>
        have hlt : c.now < u := by simpa [hu] using hopen
        have hw : (client.exec calls).window x = some (k, u) :=
          Store.window_eq_some.mpr ⟨j, hj, Job.window_eq_some.mpr ⟨hpos, hkey, hu⟩⟩
        have heff : effectiveUniqueKey e = some k := (Option.filter_eq_some_iff.mp hk).1
        have hle := hover.ended store_windows (fun _ => rfl) hw he heff
        exact absurd hlt (Int.not_lt.mpr hle)
    · -- a live row without window
      have hunf : j.state.isUnfinished = true := by
        revert hstate
        cases j.state <;> simp [State.isUnfinished]
      have hlivej : j.liveKey = some k :=
        Job.liveKey_eq_some.mpr ⟨hunf, by simp [Job.lifecycleKey, hzero, hkey]⟩
      have hpending : j.state = .pending :=
        hlive e he (x, j) (Table.mem_entries.mpr hj) (by simp [hk]) (by rw [hk]; exact hlivej)
      rw [hpending] at hstate
      exact absurd hstate (by decide)
  | _ => rfl

end Headgate.Sqlite
