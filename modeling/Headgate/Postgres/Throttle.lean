import Headgate.Postgres.Rows
import Headgate.Sql.Throttle

/-!
# Throttle windows on Postgres

A row holds its key until `unique_expires_at_ms`.  The throttle index refuses a
second row under the key, ended or not; an enqueue that meets it clears the
ended windows of its keys and tries again.  A released job that is still
unfinished enters the index of lifecycle keys, where it may meet another one.
-/

namespace Headgate.Postgres

open Headgate.Core Data

variable {k : Bytes} {u : Int}
open Sql (Client Job Keeps indexed newRows opening opening_eq_some postgresRust
  unstored)

/-! ## Section 1: Windows -/

/-- The key a row holds and until when. -/
def rowWindow (j : Job) : Option (Bytes × Int) :=
  j.uniqueKey.bind fun k => j.uniqueExpiresAtMs.map fun u => (k, u)

def Store.window (db : Store) (id : String) : Option (Bytes × Int) :=
  (db.jobs.get id).bind rowWindow

/-- The verdict of an enqueue. -/
def verdict (db : Store) (c : Call) : Except StoreError Unit :=
  match c.op with
  | .enqueue batch order => (Sql.enqueue postgresRust c.now order batch db.toDb).2
  | .enqueueTx batch order => (Sql.enqueueTx postgresRust c.now order batch db.toDb).2
  | _ => .ok ()

/-- The store as its producers see it. -/
def client : Client Store Call where
  init := Store.init
  step := step
  now := Call.now
  ends := fun c e => c.now + e.uniqueWindowMs
  ends_le := fun _ _ => le_refl _
  ends_eq := fun _ _ _ => rfl
  arriving := fun c => c.op.arriving
  stored := fun db id => (db.jobs.get id).isSome
  verdict := verdict
  keyRejection := Sql.keyRejection

/-- The call deletes no row before the end of its window. -/
def ClosesNoWindow (db : Store) (c : Call) : Prop :=
  ∀ row ∈ db.jobs.entries, c.op.deletes c.now db row.1 row.2 = true →
    (rowWindow row.2).all fun w => w.2 ≤ c.now

instance (db : Store) (c : Call) : Decidable (ClosesNoWindow db c) := by
  unfold ClosesNoWindow
  infer_instance

theorem rowWindow_eq_some {j : Job} :
    rowWindow j = some (k, u) ↔ j.uniqueKey = some k ∧ j.uniqueExpiresAtMs = some u := by
  simp only [rowWindow, Option.bind_eq_some_iff, Option.map_eq_some_iff, Prod.mk.injEq]
  constructor
  · rintro ⟨k', hk, u', hu, rfl, rfl⟩
    exact ⟨hk, hu⟩
  · rintro ⟨hk, hu⟩
    exact ⟨k, hk, u, hu, rfl, rfl⟩

theorem Store.window_eq_some {db : Store} {id : String} :
    db.window id = some (k, u) ↔ ∃ j, db.jobs.get id = some j ∧ rowWindow j = some (k, u) := by
  simp only [Store.window, Option.bind_eq_some_iff]

/-- The window of a new row is the one its envelope opens. -/
theorem newJob_window {now : Int} {e : Envelope} :
    rowWindow (postgresRust.dialect.newJob now (scopeKey e)) = some (k, u) ↔
      opening (now + e.uniqueWindowMs) e = some (e.id, k, u) := by
  rw [rowWindow_eq_some, opening_eq_some]
  have hkey : (postgresRust.dialect.newJob now (scopeKey e)).uniqueKey = effectiveUniqueKey e := rfl
  have hexpires : (postgresRust.dialect.newJob now (scopeKey e)).uniqueExpiresAtMs =
      if e.uniqueWindowMs > 0 then some (now + e.uniqueWindowMs) else none := rfl
  rw [hkey, hexpires, Option.ite_none_right_eq_some, Option.some.injEq]
  exact ⟨fun h => ⟨rfl, h.1, h.2.1, h.2.2⟩, fun h => ⟨h.2.1, h.2.2.1, h.2.2.2⟩⟩

/-! ## Section 2: What the calls do to windows -/

section Follows
variable {now : Int} {j j' : Job}

theorem rowWindow_of_follows (h : j.Follows now j') (hw : rowWindow j' = some (k, u)) :
    rowWindow j = some (k, u) := by
  obtain ⟨hk, hu⟩ := rowWindow_eq_some.mp hw
  rcases h.expires with hsame | ⟨hnone, -⟩
  · exact rowWindow_eq_some.mpr ⟨h.uniqueKey ▸ hk, hsame ▸ hu⟩
  · rw [hnone] at hu
    cases hu

/-- A window that is still open is not dropped. -/
theorem rowWindow_stays (h : j.Follows now j') (hw : rowWindow j = some (k, u)) (hlt : now < u) :
    rowWindow j' = some (k, u) := by
  obtain ⟨hk, hu⟩ := rowWindow_eq_some.mp hw
  rcases h.expires with hsame | ⟨-, u', hu', hle⟩
  · exact rowWindow_eq_some.mpr ⟨h.uniqueKey.trans hk, hsame.trans hu⟩
  · rw [hu] at hu'
    cases hu'
    exact absurd hlt (Int.not_lt.mpr hle)

theorem carries_of_keeps {gone : String → Job → Prop} {t t' : Table String Job}
    (h : Keeps now gone t t') : Client.Carries rowWindow now gone t t' :=
  Client.Carries.of_evolves h (fun _ _ _ _ => rowWindow_of_follows) fun _ _ _ _ _ => rowWindow_stays

end Follows

/-- The rows a call may delete. -/
def goneRow (db : Store) (c : Call) (id : String) (j : Job) : Prop :=
  c.op.deletes c.now db id j = true

/-- What a call does to rows. -/
def RowsTo (db : Store) (c : Call) : Table String Job → List Envelope → Prop :=
  client.RowStep (fun db => db.jobs) rowWindow
    (fun e => postgresRust.dialect.newJob c.now (scopeKey e)) (goneRow db c) db c

theorem rowsTo_of_insertRows {db : Store} {c : Call} {t₀ : Table String Job}
    (hids : (c.op.arriving.map Envelope.id).Nodup) (hkeeps : Keeps c.now noRow db.jobs t₀)
    (hjobs : (step db c).jobs = t₀.insertRows (newRows postgresRust.dialect c.now
      ((unstored db.toDb c.op.arriving).map scopeKey)))
    (hidx : indexed (step db c).jobs = true) :
    RowsTo db c t₀ (unstored db.toDb c.op.arriving) := by
  have hsub : (unstored db.toDb c.op.arriving).Sublist c.op.arriving := List.filter_sublist
  have habsent : ∀ e ∈ unstored db.toDb c.op.arriving, db.jobs.get e.id = none := by
    intro e he
    simpa using (List.mem_filter.mp he).2
  -- no row of these ids appeared on the way
  have habsent' : ∀ e ∈ (unstored db.toDb c.op.arriving).map scopeKey, t₀.get e.id = none := by
    intro e' he'
    obtain ⟨e, he, rfl⟩ := List.mem_map.mp he'
    cases hget : t₀.get e.id with
    | none => exact hget
    | some j₀ =>
      obtain ⟨j, hj, -⟩ := hkeeps.rows e.id j₀ hget
      rw [habsent e he] at hj
      cases hj
  have hids' : (((unstored db.toDb c.op.arriving).map scopeKey).map Envelope.id).Nodup := by
    rw [List.map_map]
    exact (hsub.map Envelope.id).nodup hids
  have hrows : ∀ {id j}, (step db c).jobs.get id = some j ↔
      (∃ e ∈ unstored db.toDb c.op.arriving, e.id = id ∧
        postgresRust.dialect.newJob c.now (scopeKey e) = j) ∨ t₀.get id = some j := by
    intro id j
    rw [hjobs, Sql.get_newRows hids' habsent']
    simp only [List.mem_map, exists_exists_and_eq_and]
    exact Iff.rfl
  refine ⟨carries_of_keeps hkeeps.weaken, hrows, fun e he => ⟨hsub.subset he, habsent e he⟩, ?_, ?_, ?_⟩
  · intro e he e' he' hid
    exact List.inj_on_of_nodup_map hids he' (hsub.subset he) hid
  · intro e he k u
    exact newJob_window
  · intro e he id j k u v hj hwin hopening
    by_contra hle
    -- otherwise both rows are in the throttle index under one key
    obtain ⟨j', hj', hwin'⟩ := ((carries_of_keeps hkeeps).stays id j k v hj hwin
      (Int.not_le.mp hle)).resolve_left fun hno => hno
    obtain ⟨hkey', hexpires'⟩ := rowWindow_eq_some.mp hwin'
    obtain ⟨hkey, hexpires⟩ := rowWindow_eq_some.mp (newJob_window.mpr hopening)
    have hthr := (Sql.indexed_iff.mp hidx).2
    have hsame := hthr e.id id _ j' k (hrows.mpr (.inl ⟨e, he, rfl, rfl⟩))
      (hrows.mpr (.inr hj')) (Sql.Job.throttleEntry_eq_some.mpr ⟨⟨_, hexpires⟩, hkey⟩)
      (Sql.Job.throttleEntry_eq_some.mpr ⟨⟨_, hexpires'⟩, hkey'⟩)
    rw [← hsame, habsent e he] at hj
    cases hj

/-- Every call inserts envelopes, or keeps the rows it does not delete. -/
theorem step_rowsTo (db : Store) (c : Call) : ∃ t₀ es, RowsTo db c t₀ es := by
  by_cases henq : c.op.isEnqueue
  · rcases enqueue_cases db c henq with ⟨hids, t₀, hkeeps, hjobs, hidx⟩ | hsound
    · exact ⟨t₀, _, rowsTo_of_insertRows hids hkeeps hjobs hidx⟩
    · exact ⟨_, [], Client.RowStep.of_carries (carries_of_keeps hsound.keeps.weaken)⟩
  · exact ⟨_, [], Client.RowStep.of_carries (carries_of_keeps (step_sound db c henq).keeps)⟩

/-- **The store keeps windows**, as long as no row goes before its window ends. -/
theorem store_windows : Windows step Call.now Store.window client.opens ClosesNoWindow := by
  refine Client.windows_of_rowStep (S := client) (fun _ _ => rfl) step_rowsTo ?_
  intro db c hcloses id j k u hj hdel hwin
  have hended := hcloses (id, j) (Table.mem_entries.mpr hj) hdel
  rw [hwin] at hended
  exact of_decide_eq_true hended

/-! ## Section 3: The law -/

/-- Its keys are distinct and throttled, and at most one unfinished job carries each of them. -/
def KeysFree (db : Store) (c : Call) : Prop :=
  client.Throttles c ∧
    ∀ e ∈ c.op.arriving, ∀ row ∈ db.jobs.entries, ∀ row' ∈ db.jobs.entries,
      (effectiveUniqueKey e).isSome → row.2.uniqueKey = effectiveUniqueKey e →
      row'.2.uniqueKey = effectiveUniqueKey e → row.2.state.isUnfinished = true →
      row'.2.state.isUnfinished = true → row.1 = row'.1

instance (db : Store) (c : Call) : Decidable (KeysFree db c) := by
  unfold KeysFree
  infer_instance

/-- Enqueues are a window apart as long as no row goes before its window ends. -/
theorem client_spaced : client.Spaced ClosesNoWindow := Client.spaced_of_windows store_windows

/-- The insert finds the keys of a call free once their windows are over. -/
theorem keysFree_of_windowsOver {calls : List Call} {c : Call}
    (hfree : KeysFree (client.exec calls) c) (hover : client.WindowsOver calls c) :
    Sql.KeysFree c.now (client.exec calls).jobs
      ((unstored (client.exec calls).toDb c.op.arriving).map scopeKey) := by
  obtain ⟨⟨hdistinct, hwindowed⟩, hsole⟩ := hfree
  have hsub : (unstored (client.exec calls).toDb c.op.arriving).Sublist c.op.arriving :=
    List.filter_sublist
  -- the keys of the rows to insert are effective keys of the call
  have hkeys : Sql.candidates ((unstored (client.exec calls).toDb c.op.arriving).map scopeKey) =
      (unstored (client.exec calls).toDb c.op.arriving).filterMap effectiveUniqueKey :=
    List.filterMap_map
  have hmem : ∀ {k}, k ∈ Sql.candidates
      ((unstored (client.exec calls).toDb c.op.arriving).map scopeKey) →
      ∃ e ∈ c.op.arriving, effectiveUniqueKey e = some k := by
    intro k hk
    rw [hkeys] at hk
    obtain ⟨e, he, hkey⟩ := List.mem_filterMap.mp hk
    exact ⟨e, hsub.subset he, hkey⟩
  refine ⟨?_, ?_, ?_, ?_⟩
  · rw [hkeys]
    exact (hsub.filterMap effectiveUniqueKey).nodup hdistinct
  · intro e' he' hsome
    obtain ⟨e, he, rfl⟩ := List.mem_map.mp he'
    exact hwindowed e (hsub.subset he) hsome
  · intro id j k u hj hk hkey hexpires
    obtain ⟨e, he, heff⟩ := hmem hk
    have hw : (client.exec calls).window id = some (k, u) :=
      Store.window_eq_some.mpr ⟨j, hj, rowWindow_eq_some.mpr ⟨hkey, hexpires⟩⟩
    exact hover.ended store_windows (fun _ => rfl) hw he heff
  · intro id id' j j' k hj hj' hk hkey hkey' hunf hunf'
    obtain ⟨e, he, heff⟩ := hmem hk
    exact hsole e he (id, j) (Table.mem_entries.mpr hj) (id', j') (Table.mem_entries.mpr hj')
      (by simp [heff]) (hkey.trans heff.symm) (hkey'.trans heff.symm) hunf hunf'

/-- A key whose windows are over is free again, unless two unfinished jobs carry it. -/
theorem client_reopens : client.Reopens KeysFree := by
  intro calls c hfree hover
  -- what the boundary rejects has nothing to do with keys
  have hboundary : ∀ batch,
      FailsWith (fun err => Sql.keyRejection err = false) (validateEnqueue batch) := by
    intro batch err herr
    rcases validateEnqueue_failsWith batch err herr with ⟨message, rfl⟩ | ⟨id, hid, rfl⟩
    · simp [Sql.keyRejection, Sql.transactionAborted]
    · simpa [Sql.keyRejection] using hid
  have hon : ∀ order, FailsWith (fun err => Sql.keyRejection err = false)
      (Sql.enqueueOn postgresRust c.now order c.op.arriving (client.exec calls).toDb).2 := by
    intro order err herr
    cases hvalid : validateEnqueue c.op.arriving with
    | error =>
      rw [(Sql.enqueue_invalid hvalid).2] at herr
      exact hboundary c.op.arriving err (hvalid.trans herr)
    | ok =>
      rw [enqueueOn_eq hvalid] at herr
      obtain ⟨hids, hok⟩ := validateEnqueue_ok hvalid
      have hscope := keysFree_of_windowsOver hfree hover
      rw [← Sql.unstored_scopeKey] at hscope
      refine Sql.enqueueScoped_keyRejection Sql.postgresRust_regular order ?_ ?_
        (exec_indexed calls) hscope err herr
      · rw [List.map_map]
        exact hids
      · intro e' he'
        obtain ⟨e, he, rfl⟩ := List.mem_map.mp he'
        exact (hok e he).idNonempty
  obtain ⟨now, op⟩ := c
  cases op with
  | enqueue batch order =>
    intro err herr
    simp only [client, verdict, Sql.enqueue, postgresRust_scopesInside, if_true] at herr
    split at herr
    · cases herr
    · split at herr
      · rename_i err' hinvalid
        cases herr
        exact hboundary batch err hinvalid
      · exact hon order err herr
  | enqueueTx batch order => exact hon order
  | _ =>
    intro err herr
    cases herr

end Headgate.Postgres
