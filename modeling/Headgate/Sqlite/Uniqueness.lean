import Headgate.Sqlite.Arrivals

/-!
# Lifecycle uniqueness

The table has no unique index: that one unfinished job carries a lifecycle key
rests on the check an enqueue makes.  The check skips pending envelopes and does
not look for pending rows, and the operations that bring finished jobs back make
none.  `KeysApart` says when these gaps do no harm, and in a run of such steps
the key is exclusive in every state.
-/

namespace Headgate.Sqlite

open Headgate.Core Data

variable {j : Job} {k : Bytes} {e : Envelope}

/-! ## Section 1: Keys -/

/-- The lifecycle key of a row: a key without window. -/
def Job.lifecycleKey (j : Job) : Option Bytes := if j.uniqueWindowMs = 0 then j.uniqueKey else none

/-- The lifecycle key an unfinished row carries. -/
def Job.liveKey (j : Job) : Option Bytes :=
  if j.state.isUnfinished then j.lifecycleKey else none

/-- The lifecycle key of an envelope. -/
def lifecycleKey (e : Envelope) : Option Bytes :=
  if e.uniqueWindowMs = 0 then effectiveUniqueKey e else none

theorem Job.liveKey_eq_some :
    j.liveKey = some k ↔ j.state.isUnfinished = true ∧ j.lifecycleKey = some k := by
  unfold Job.liveKey
  split <;> simp_all

theorem Job.SameUnique.lifecycleKey {j' : Job} (h : j.SameUnique j') :
    j'.lifecycleKey = j.lifecycleKey := by
  simp only [Job.lifecycleKey, h.uniqueKey, h.uniqueWindowMs]

/-- An ordinary envelope is checked under its lifecycle key. -/
theorem checkedKey_of_lifecycleKey (h : lifecycleKey e = some k) (hpending : e.pending = false) :
    checkedKey e = some k := by
  unfold lifecycleKey at h
  split at h
  · simp [checkedKey, h, hpending]
  · cases h

/-- A row that is not pending is seen by the check. -/
theorem holdsKey_of_liveKey (now : Int) (h : j.liveKey = some k) (hpending : j.state ≠ .pending) :
    j.holdsKey now k = true := by
  obtain ⟨hunf, hkey⟩ := Job.liveKey_eq_some.mp h
  unfold Job.lifecycleKey at hkey
  split at hkey
  · rename_i hwindow
    cases hst : j.state <;> simp_all [Job.holdsKey, State.isUnfinished]
  · cases hkey

/-! ## Section 2: The condition on a step -/

/-- Where an enqueue makes no check, there is nothing to find: a row that carries the key of
a new envelope, or another new envelope with that key, meets the check. -/
def ChecksSuffice (db : Store) (batch : List Envelope) : Prop :=
  (∀ e ∈ batch, db.jobs.get e.id = none → lifecycleKey e ≠ none →
    ∀ row ∈ db.jobs.entries, row.2.liveKey = lifecycleKey e →
      e.pending = false ∧ row.2.state ≠ .pending) ∧
  (∀ e ∈ batch, ∀ e' ∈ batch, db.jobs.get e.id = none → db.jobs.get e'.id = none →
    e ≠ e' → lifecycleKey e ≠ none → lifecycleKey e = lifecycleKey e' → e.pending = false)

/-- A job with a lifecycle key is only brought back if no other row has the key that is
unfinished or comes back as well. -/
def Unrivalled (db : Store) (op : Op) : Prop :=
  ∀ row ∈ db.jobs.entries, op.bringsBack db row.1 row.2 = true → row.2.lifecycleKey ≠ none →
    ∀ other ∈ db.jobs.entries, other.1 ≠ row.1 → other.2.lifecycleKey = row.2.lifecycleKey →
      other.2.state.isUnfinished = false ∧ op.bringsBack db other.1 other.2 = false

/-- The step makes no two unfinished rows share a lifecycle key behind the check's back. -/
def KeysApart (db : Store) (c : Call) : Prop :=
  ChecksSuffice db c.op.arriving ∧ Unrivalled db c.op

instance (db : Store) (batch : List Envelope) : Decidable (ChecksSuffice db batch) := by
  unfold ChecksSuffice
  infer_instance

instance (db : Store) (op : Op) : Decidable (Unrivalled db op) := by
  unfold Unrivalled
  infer_instance

instance (db : Store) (c : Call) : Decidable (KeysApart db c) :=
  inferInstanceAs (Decidable (_ ∧ _))

/-! ## Section 3: Steps -/

/-- At most one unfinished row carries a key. -/
def LifecycleUnique (db : Store) : Prop := Exclusive Job.liveKey db.jobs.get

theorem Keeps.shrinks {gone : String → Job → Prop} {t t' : Table String Job}
    (h : Keeps noRow gone t t') : Shrinks Job.liveKey t.get t'.get := by
  intro id j' k hj' hk
  obtain ⟨j, hj, hf⟩ := h.rows id j' hj'
  obtain ⟨hunf, hkey⟩ := Job.liveKey_eq_some.mp hk
  rw [hf.unique.lifecycleKey] at hkey
  exact ⟨j, hj, Job.liveKey_eq_some.mpr ⟨(hf.unfinished hunf).resolve_right False.elim, hkey⟩⟩

/-- Rows that follow the old ones, with no rival among the ones brought back. -/
theorem Keeps.lifecycleUnique {db db' : Store} {op : Op} {gone : String → Job → Prop}
    (h : Keeps (fun id j => op.bringsBack db id j = true) gone db.jobs db'.jobs)
    (hunrivalled : Unrivalled db op) (hu : LifecycleUnique db) : LifecycleUnique db' := by
  -- a row brought back excludes every other row with its key
  have hclash : ∀ i i' j j' k, i' ≠ i → db.jobs.get i = some j → db.jobs.get i' = some j' →
      op.bringsBack db i j = true → j.lifecycleKey = some k → j'.lifecycleKey = some k →
      ¬ (j'.state.isUnfinished = true ∨ op.bringsBack db i' j' = true) := by
    intro i i' j j' k hne hj hj' hback hk hk'
    have hrest := hunrivalled (i, j) (Table.mem_entries.mpr hj) hback (by simp [hk])
      (i', j') (Table.mem_entries.mpr hj') hne (by simp [hk, hk'])
    simp [hrest.1, hrest.2]
  intro i i' r r' k hr hr' hk hk'
  obtain ⟨j, hj, hf⟩ := h.rows i r hr
  obtain ⟨j', hj', hf'⟩ := h.rows i' r' hr'
  obtain ⟨hunf, hkey⟩ := Job.liveKey_eq_some.mp hk
  obtain ⟨hunf', hkey'⟩ := Job.liveKey_eq_some.mp hk'
  rw [hf.unique.lifecycleKey] at hkey
  rw [hf'.unique.lifecycleKey] at hkey'
  by_contra hne
  rcases hf.unfinished hunf with hlive | hback
  · rcases hf'.unfinished hunf' with hlive' | hback'
    · exact hne (hu i i' j j' k hj hj' (Job.liveKey_eq_some.mpr ⟨hlive, hkey⟩)
        (Job.liveKey_eq_some.mpr ⟨hlive', hkey'⟩))
    · exact hclash i' i j' j k hne hj' hj hback' hkey' hkey (.inl hlive)
  · exact hclash i i' j j' k (Ne.symm hne) hj hj' hback hkey hkey' (hf'.unfinished hunf')

section Insert
variable {now : Int} {order : SetOrder String} {db : Store} {batch es : List Envelope}
variable (h : Fresh now order db es) (hsub : es ⊆ batch) (hchecks : ChecksSuffice db batch)
include h hsub hchecks

/-- A new envelope shares its key with no unfinished row. -/
theorem Fresh.key_free (he : e ∈ es) (hk : lifecycleKey e = some k) {id : String}
    (hj : db.jobs.get id = some j) :
    j.liveKey ≠ some k := by
  intro hlive
  obtain ⟨hpending, hseen⟩ := hchecks.1 e (hsub he) (h.absent e he) (by simp [hk])
    (id, j) (Table.mem_entries.mpr hj) (by simp [hk, hlive])
  have hnone := h.unheld e he k (checkedKey_of_lifecycleKey hk hpending)
  have hfalse := holdsKey_of_lookupHolder_none hnone hj
  rw [holdsKey_of_liveKey now hlive hseen] at hfalse
  cases hfalse

/-- Two new envelopes do not share a key. -/
theorem Fresh.keys_apart {e' : Envelope} (he : e ∈ es) (he' : e' ∈ es)
    (hk : lifecycleKey e = some k) (hk' : lifecycleKey e' = some k) : e = e' := by
  by_contra hne
  have hpending := hchecks.2 e (hsub he) e' (hsub he') (h.absent e he) (h.absent e' he') hne
    (by simp [hk]) (hk.trans hk'.symm)
  have hpending' := hchecks.2 e' (hsub he') e (hsub he) (h.absent e' he') (h.absent e he)
    (Ne.symm hne) (by simp [hk']) (hk'.trans hk.symm)
  exact h.distinct e he e' he' hne k (checkedKey_of_lifecycleKey hk hpending)
    (checkedKey_of_lifecycleKey hk' hpending')

theorem Fresh.lifecycleUnique {db' : Store} (hu : LifecycleUnique db)
    (hjobs : db'.jobs = db.jobs.insertRows (newRows now es)) : LifecycleUnique db' := by
  unfold LifecycleUnique
  rw [hjobs]
  intro i i' r r' k hr hr' hk hk'
  rcases h.get_insertRows.mp hr with ⟨e, he, rfl, rfl⟩ | hold
  · have hkey : lifecycleKey e = some k := (Job.liveKey_eq_some.mp hk).2
    rcases h.get_insertRows.mp hr' with ⟨e', he', rfl, rfl⟩ | hold'
    · rw [h.keys_apart hsub hchecks he he' hkey (Job.liveKey_eq_some.mp hk').2]
    · exact absurd hk' (h.key_free hsub hchecks he hkey hold')
  · rcases h.get_insertRows.mp hr' with ⟨e', he', rfl, rfl⟩ | hold'
    · exact absurd hk (h.key_free hsub hchecks he' (Job.liveKey_eq_some.mp hk').2 hold)
    · exact hu i i' r r' k hold hold' hk hk'

end Insert

theorem step_lifecycleUnique (db : Store) (c : Call) (hc : KeysApart db c)
    (h : LifecycleUnique db) : LifecycleUnique (step db c) := by
  by_cases henq : c.op.isEnqueue
  · rcases enqueue_cases db c henq with ⟨order, es, hsub, -, hfresh, hjobs⟩ | hkeeps
    · exact hfresh.lifecycleUnique hsub.subset hc.1 h hjobs
    · exact h.shrinks hkeeps.shrinks
  · exact (step_keeps db c henq).lifecycleUnique hc.2 h

/-! ## Section 4: Runs -/

/-- **Lifecycle uniqueness.**  In a run whose steps keep keys apart, at most one unfinished
job carries a given key without window. -/
theorem lifecycle_exclusive (calls : List Call)
    (apart : EachStep step KeysApart Store.init calls) (key : Bytes) (id id' : String) (j j' : Job)
    (hj : (exec calls).jobs.get id = some j) (hj' : (exec calls).jobs.get id' = some j')
    (hkey : j.liveKey = some key) (hkey' : j'.liveKey = some key) : id = id' := by
  have hinit : LifecycleUnique Store.init := by
    intro i i' r r' k hr
    cases hr
  have hrun : LifecycleUnique (exec calls) :=
    run_invariant LifecycleUnique step_lifecycleUnique hinit apart
  exact hrun id id' j j' key hj hj' hkey hkey'

/-- A key in turn: a job takes it, a second one is refused, the first finishes and comes back
after an operator cancelled it. -/
def keyInTurn : List Call :=
  [⟨0, .enqueue [{ id := "a", kind := "k", queue := "q", uniqueKey := some [7] }]
      SetOrder.increasing⟩,
    ⟨1, .enqueue [{ id := "b", kind := "k", queue := "q", uniqueKey := some [7] }]
      SetOrder.increasing⟩,
    ⟨2, .operatorCancel "a"⟩,
    ⟨3, .operatorRetry "a"⟩]

theorem lifecycle_exclusive_keyInTurn :
    ((exec keyInTurn).jobs.get "a").bind Job.liveKey ≠ none ∧
      ∀ key id j, (exec keyInTurn).jobs.get id = some j → j.liveKey = some key →
        ((exec keyInTurn).jobs.get "a").bind Job.liveKey = some key → "a" = id := by
  refine ⟨by decide +kernel, fun key id j hj hk hkey => ?_⟩
  obtain ⟨a, ha, hka⟩ := Option.bind_eq_some_iff.mp hkey
  exact lifecycle_exclusive keyInTurn (by decide +kernel) key "a" id a j ha hj hka hk

/-- A pending job holds a key and an ordinary one is enqueued with it. -/
def pendingUnseen : List Call :=
  [⟨0, .enqueue [{ id := "a", kind := "k", queue := "q", uniqueKey := some [7], pending := true }]
      SetOrder.increasing⟩,
    ⟨1, .enqueue [{ id := "b", kind := "k", queue := "q", uniqueKey := some [7] }]
      SetOrder.increasing⟩]

/-- Two unfinished jobs carry the key. -/
theorem lifecycle_shared_with_pending :
    ((exec pendingUnseen).jobs.get "a").bind Job.liveKey =
        ((exec pendingUnseen).jobs.get "b").bind Job.liveKey ∧
      ((exec pendingUnseen).jobs.get "a").bind Job.liveKey ≠ none := by
  decide +kernel

end Headgate.Sqlite
