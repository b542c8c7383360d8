import Headgate.Redis.Scripts

/-!
# The gate's pending streams, and admission as a sequence of moves

`EntriesOk` says that whatever stands in a pending stream is a waiting job of
that stream, under its due time.  It is what makes the snapshots admission draws
trustworthy: a candidate that `ZREM` still finds in the stream of the chosen
queue has the row it was drawn with and belongs to that queue, whatever the
names are.
-/

namespace Headgate.Redis

open Headgate.Core Data Relation

variable {j j' : Job} {s s' : Store} {id lease : String}

/-! ## Section 1: Streams under the waiting operations -/

/-- The stream a job waits in. -/
def Job.pendingKey (j : Job) : String :=
  Redis.pendingKey j.queue j.partitionKey j.stickyWorker

/-- Within one partition and route, the key determines the queue. -/
theorem pendingKey_queue_inj {q q' part sticky : String}
    (h : pendingKey q part sticky = pendingKey q' part sticky) : q = q' := by
  unfold pendingKey at h
  split at h
  · simpa only [String.append_left_inj] using h
  · simpa only [String.append_left_inj] using h

theorem Job.SameRoute.pendingKey (h : j.SameRoute j') :
    j'.pendingKey = j.pendingKey := by
  unfold Job.pendingKey
  rw [h.queue, h.partitionKey, h.stickyWorker]

namespace Waiting

section
variable (w : Waiting) (id queue part sticky key x : String) (j : Job)

theorem tidyPart_pending : (w.tidyPart queue part).pending = w.pending := by
  unfold tidyPart
  dsimp only
  split
  · split <;> rfl
  · rfl

theorem dropEntry_pending :
    (w.dropEntry id queue part sticky).pending =
      Function.update w.pending (pendingKey queue part sticky)
        ((w.pending (pendingKey queue part sticky)).remove id) := by
  unfold dropEntry
  dsimp only
  split <;> rfl

theorem score_remove :
    ((w.remove id queue part sticky).pending key).score x =
      if key = pendingKey queue part sticky ∧ x = id then none else (w.pending key).score x := by
  rw [remove, tidyPart_pending, dropEntry_pending]
  by_cases hkey : key = pendingKey queue part sticky
  · subst hkey
    simp
  · simp [hkey]

theorem score_add (sc : Int) :
    ((w.add id queue part sticky sc).pending key).score x =
      if key = pendingKey queue part sticky ∧ x = id then some sc else (w.pending key).score x := by
  unfold add
  by_cases hkey : key = pendingKey queue part sticky
  · subst hkey
    simp
  · simp [hkey]

theorem score_removeJob :
    ((w.removeJob id j).pending key).score x =
      if key = j.pendingKey ∧ x = id then none else (w.pending key).score x :=
  score_remove w id j.queue j.partitionKey j.stickyWorker key x

theorem score_addJob :
    ((w.addJob id j).pending key).score x =
      if key = j.pendingKey ∧ x = id then some j.scheduledAtMs else (w.pending key).score x :=
  score_add w id j.queue j.partitionKey j.stickyWorker key x j.scheduledAtMs

end

end Waiting

/-! ## Section 2: Entries are waiting jobs -/

/-- Every entry of a pending stream is a waiting job of that stream, under its due time. -/
def EntriesOk (s : Store) : Prop :=
  ∀ key id sc, (s.waiting.pending key).score id = some sc →
    ∃ j, s.job? id = some j ∧ j.state.isWaiting = true ∧ j.pendingKey = key ∧ j.scheduledAtMs = sc

theorem entriesOk_init : EntriesOk Store.init := by
  intro key id sc h
  simp [Store.init] at h

/-- A job that is not waiting is in no stream. -/
theorem EntriesOk.absent (h : EntriesOk s)
    (hidle : ∀ j, s.job? id = some j → j.state.isWaiting = false) (key : String) :
    (s.waiting.pending key).score id = none := by
  cases hsc : (s.waiting.pending key).score id with
  | none => rfl
  | some sc =>
    obtain ⟨j, hj, hw, -⟩ := h key id sc hsc
    rw [hidle j hj] at hw
    cases hw

section
variable {row : Option Job} {w : Waiting} {r : Running} {u : Holders} {events : List Event}

/-- Entries of the other jobs survive a write to one row. -/
private theorem entriesOk_of_effect (h : EntriesOk s) (eff : Effect s s' id row w r u events)
    (hother : ∀ key x sc, x ≠ id → (w.pending key).score x = some sc →
      (s.waiting.pending key).score x = some sc)
    (hself : ∀ key sc, (w.pending key).score id = some sc →
      ∃ j, row = some j ∧ j.state.isWaiting = true ∧ j.pendingKey = key ∧ j.scheduledAtMs = sc) :
    EntriesOk s' := by
  intro key x sc hx
  rw [eff.waiting] at hx
  by_cases hxid : x = id
  · subst hxid
    obtain ⟨j, hrow, hj⟩ := hself key sc hx
    exact ⟨j, by rw [eff.rows, if_pos rfl, hrow], hj⟩
  · obtain ⟨j, hjob, hj⟩ := h key x sc (hother key x sc hxid hx)
    exact ⟨j, by rw [eff.rows, if_neg hxid, hjob], hj⟩

/-- The job leaves its stream, or was in none. -/
private theorem entriesOk_leave (h : EntriesOk s) (eff : Effect s s' id row w r u events)
    (hother : ∀ key x, x ≠ id → (w.pending key).score x = (s.waiting.pending key).score x)
    (hself : ∀ key, (w.pending key).score id = none) : EntriesOk s' := by
  refine entriesOk_of_effect h eff ?_ ?_
  · intro key x sc hx hsc
    rw [← hother key x hx]
    exact hsc
  · intro key sc hsc
    rw [hself key] at hsc
    cases hsc

/-- The job stands in its own stream only, under its due time. -/
private theorem entriesOk_enter (h : EntriesOk s)
    (eff : Effect s s' id (some j') (s.waiting.addJob id j') r u events)
    (hold : ∀ key sc, (s.waiting.pending key).score id = some sc → j.pendingKey = key)
    (hkey : j'.pendingKey = j.pendingKey) (hwait : j'.state.isWaiting = true) : EntriesOk s' := by
  refine entriesOk_of_effect h eff ?_ ?_
  · intro key x sc hx hsc
    rw [Waiting.score_addJob, if_neg (fun hc => hx hc.2)] at hsc
    exact hsc
  · intro key sc hsc
    rw [Waiting.score_addJob] at hsc
    split at hsc
    · rename_i hc
      cases hsc
      exact ⟨j', rfl, hwait, hc.1.symm, rfl⟩
    · rename_i hc
      exact absurd ⟨(hold key sc hsc).symm.trans hkey.symm, rfl⟩ hc

/-- The row changes but not what the stream says about it. -/
private theorem entriesOk_stay (h : EntriesOk s) (hrow : s.job? id = some j)
    (eff : Effect s s' id (some j') s.waiting r u events) (hkey : j'.pendingKey = j.pendingKey)
    (hstate : j.state.isWaiting = true → j'.state.isWaiting = true)
    (hdue : j'.scheduledAtMs = j.scheduledAtMs) : EntriesOk s' := by
  refine entriesOk_of_effect h eff (fun _ _ _ _ hsc => hsc) ?_
  intro key sc hsc
  obtain ⟨k, hk, hw, hpk, hsched⟩ := h key id sc hsc
  rw [hrow] at hk
  cases hk
  exact ⟨j', rfl, hstate hw, hkey.trans hpk, hdue.trans hsched⟩

end

private theorem entriesOk_same (h : EntriesOk s) (jobs : s'.jobs = s.jobs)
    (pending : ∀ key x, (s'.waiting.pending key).score x = (s.waiting.pending key).score x) :
    EntriesOk s' := by
  intro key id sc hsc
  rw [pending] at hsc
  obtain ⟨j, hj, hrest⟩ := h key id sc hsc
  refine ⟨j, ?_, hrest⟩
  unfold Store.job? at hj ⊢
  rw [jobs]
  exact hj

/-- The stream a job with this row can be in. -/
private theorem EntriesOk.key_eq (h : EntriesOk s) (row : s.job? id = some j) (key : String)
    (sc : Int) (hsc : (s.waiting.pending key).score id = some sc) : j.pendingKey = key := by
  obtain ⟨k, hk, -, hkey, -⟩ := h key id sc hsc
  rw [row] at hk
  cases hk
  exact hkey

/-- A job leaving its stream is in no stream afterwards. -/
private theorem EntriesOk.removeJob_none (h : EntriesOk s) (row : s.job? id = some j) (key : String)
    :
    ((s.waiting.removeJob id j).pending key).score id = none := by
  rw [Waiting.score_removeJob]
  split
  · rfl
  · rename_i hne
    cases hsc : (s.waiting.pending key).score id with
    | none => rfl
    | some sc => exact absurd ⟨(h.key_eq row key sc hsc).symm, rfl⟩ hne

theorem not_waiting_of_terminal {st : State} (h : st.isTerminal = true) : st.isWaiting = false := by
  cases st <;> simp_all [State.isTerminal, State.isWaiting]

theorem Move.entriesOk (m : Move s s') (h : EntriesOk s) : EntriesOk s' := by
  -- a job whose row is not waiting has no entry to account for
  have hnone : ∀ {id j}, s.job? id = some j → j.state.isWaiting = false →
      ∀ key sc, (s.waiting.pending key).score id = some sc → False := by
    intro id j row hidle key sc hsc
    rw [h.absent (fun k hk => by rw [row] at hk; cases hk; exact hidle) key] at hsc
    cases hsc
  cases m with
  | arrive now e absent window free eff =>
    have habs : ∀ key, (s.waiting.pending key).score e.id = none :=
      h.absent fun j hj => by rw [absent] at hj; cases hj
    split at eff
    · exact entriesOk_leave h eff (fun _ _ _ => rfl) habs
    · rename_i hst
      refine entriesOk_enter (j := newJob now e) h eff ?_ rfl ?_
      · intro key sc hsc
        rw [habs key] at hsc
        cases hsc
      · show (initialState now e).isWaiting = true
        unfold initialState at hst ⊢
        split
        · rename_i hp
          exact absurd (if_pos hp) hst
        · split <;> rfl
  | rewrite id j j' events row eff rate route state lease fence due =>
    exact entriesOk_stay h row eff route.pendingKey (fun hw => by rw [state]; exact hw) due
  | renew id j l expires row running lease eff =>
    exact entriesOk_stay h row eff rfl (fun hw => hw) rfl
  | retime id j j' row idle eff route state =>
    exact entriesOk_enter h eff (h.key_eq row) route.pendingKey state
  | flip id j j' row waiting eff route state lease fence due =>
    exact entriesOk_stay h row eff route.pendingKey (fun _ => state) due
  | park id j new events row idle eff =>
    split at eff
    · refine entriesOk_leave h eff (fun key x hx => ?_) (h.removeJob_none row)
      rw [Waiting.score_removeJob, if_neg (fun hc => hx hc.2)]
    · rename_i hw
      refine entriesOk_leave h eff (fun _ _ _ => rfl) (h.absent fun k hk => ?_)
      rw [row] at hk
      cases hk
      simpa using hw
  | finish id j new e row running eff =>
    refine entriesOk_leave h eff (fun _ _ _ => rfl) (h.absent fun k hk => ?_)
    rw [row] at hk
    cases hk
    rw [running]
    rfl
  | requeue id j j' e row running eff ends route state =>
    refine entriesOk_enter h eff (fun key sc hsc => ?_) route.pendingKey state
    exact (hnone row (by rw [running]; rfl) key sc hsc).elim
  | drop id j u row terminal eff =>
    refine entriesOk_leave h eff (fun _ _ _ => rfl) (h.absent fun k hk => ?_)
    rw [row] at hk
    cases hk
    exact not_waiting_of_terminal terminal
  | retry id j j' row terminal eff route state =>
    refine entriesOk_enter h eff (fun key sc hsc => ?_) route.pendingKey (by rw [state]; rfl)
    exact (hnone row (not_waiting_of_terminal terminal) key sc hsc).elim
  | stray id idle jobs waiting | policy jobs waiting =>
    exact entriesOk_same h jobs fun key x => by rw [waiting]

theorem ReleaseMove.entriesOk (m : ReleaseMove s s') (h : EntriesOk s) :
    EntriesOk s' := by
  cases m with
  | plain m => exact m.entriesOk h
  | release id j j' row quarantined eff route state =>
    -- a quarantined job is in no stream
    have hnone : ∀ key, (s.waiting.pending key).score id = none := h.absent fun k hk => by
      rw [row] at hk
      cases hk
      rw [quarantined]
      rfl
    refine entriesOk_enter h eff (fun key sc hsc => ?_) route.pendingKey (by rw [state]; rfl)
    rw [hnone key] at hsc
    cases hsc

theorem GateMove.entriesOk (m : GateMove lease s s') (h : EntriesOk s) :
    EntriesOk s' := by
  cases m with
  | plain m => exact m.entriesOk h
  | claim id j j' l events row waiting eff =>
    refine entriesOk_leave h eff (fun key x hx => ?_) (h.removeJob_none row)
    rw [Waiting.score_removeJob, if_neg (fun hc => hx hc.2)]
  | tidy id queue part sticky absent jobs waiting =>
    refine entriesOk_same h jobs fun key x => ?_
    rw [waiting, Waiting.score_remove]
    split
    · rename_i hc
      rw [hc.1, hc.2, absent]
    · rfl
  | heal key jobs waiting =>
    exact entriesOk_same h jobs fun key x => by rw [waiting]; rfl
  | enlist runningp jobs waiting =>
    exact entriesOk_same h jobs fun key x => by rw [waiting]

/-- What every move preserves, a sequence of moves preserves. -/
theorem ReleaseMoves.preserves {Inv : Store → Prop}
    (hmove : ∀ s s', ReleaseMove s s' → Inv s → Inv s') (h : ReleaseMoves s s') (hs : Inv s) :
    Inv s' := by
  induction h with
  | refl => exact hs
  | tail _ m ih => exact hmove _ _ m ih

theorem ReleaseMoves.entriesOk (h : ReleaseMoves s s') (hs : EntriesOk s) :
    EntriesOk s' :=
  h.preserves (fun _ _ m => m.entriesOk) hs

/-- What every move of the gate preserves, a sequence of them preserves. -/
theorem GateMoves.preserves {Inv : Store → Prop}
    (hmove : ∀ s s', GateMove lease s s' → Inv s → Inv s') (h : GateMoves lease s s') (hs : Inv s) :
    Inv s' := by
  induction h with
  | refl => exact hs
  | tail _ m ih => exact hmove _ _ m ih

theorem GateMoves.entriesOk (h : GateMoves lease s s') (hs : EntriesOk s) : EntriesOk s' :=
  h.preserves (fun _ _ m => m.entriesOk) hs

end Headgate.Redis
