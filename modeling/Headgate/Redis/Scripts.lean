import Headgate.Redis.Writes

/-!
# Every script is a sequence of moves

One argument per write of a script.  The scripts other than admission need
nothing about the state they start in, because they read the row they change;
admission carries snapshots of rows and is treated in its own module.
-/

namespace Headgate.Redis

open Headgate.Core Data Relation

variable {st : State} {id : String} {j : Job} {s : Store}

/-! ## Section 1: Lease-guarded writes -/

section
variable {now : Int} {e : Event}

private theorem reconcile_move (actual : Int) (row : s.job? id = some j) :
    Move s (reconcile now id j actual s) := by
  have hplain : Move s (s.setJob id { j with rateCharge := 0 }) :=
    .rewrite id j _ [] row (.set rfl rfl rfl rfl rfl) (by simp)
      ⟨rfl, rfl, rfl, rfl, rfl⟩ rfl rfl rfl rfl
  unfold reconcile
  dsimp only
  split
  · exact hplain
  · split
    · exact .rewrite id j _ [.reconciled j.rateClass (actual - j.rateCharge) now] row
        (.set rfl rfl rfl rfl rfl) (by simp [Event.job]) ⟨rfl, rfl, rfl, rfl, rfl⟩ rfl rfl rfl
        rfl
    · exact hplain

private theorem finishDelete_move (row : s.job? id = some j) (running : j.state = .running)
    (ends : e.ends id j) : Move s ((finishDelete id j s).record e) := by
  refine .finish id j none e row running ⟨fun x => ?_, rfl, rfl, rfl, rfl⟩ ends (by simp)
  show ((s.setJob id { j with lease := none }).delJob id).job? x = _
  simp only [Store.job?_delJob, Store.job?_setJob]
  split <;> rfl

private theorem renewOne_move (leaseMs : Int) {ref : LeaseRef} (row : s.job? ref.jobId = some j)
    (held : j.heldBy ref = true) : Move s (renewOne now leaseMs s ref) := by
  obtain ⟨hrun, hlease, -⟩ := (j.heldBy_iff ref).mp held
  obtain ⟨l, hl, -⟩ := Option.map_eq_some_iff.mp hlease
  unfold renewOne
  rw [row]
  dsimp only
  rw [if_pos held]
  refine .renew ref.jobId j l (now + leaseMs) row hrun hl ?_
  rw [hl]
  exact .set rfl rfl rfl rfl rfl

end

/-! ## Section 2: Operator writes -/

theorem isMutable_of_unfinished (h : st.isUnfinished = true) (hr : st ≠ .running) :
    State.isMutable st = true := by
  cases st <;> simp_all [State.isUnfinished, State.isMutable]

theorem isMutable_of_isWaiting (h : st.isWaiting = true) :
    State.isMutable st = true := by
  cases st <;> simp_all [State.isWaiting, State.isMutable]

theorem isWaiting_of_due (h : st = .scheduled ∨ st = .retryable) : st.isWaiting = true := by
  rcases h with rfl | rfl
  · rfl
  · rfl

theorem isMutable_iff :
    State.isMutable st = true ↔ st = .pending ∨ st.isWaiting = true := by
  cases st <;> simp [State.isWaiting, State.isMutable]

theorem isUnfinished_of_isMutable (h : State.isMutable st = true) : st.isUnfinished = true := by
  cases st <;> simp_all [State.isMutable, State.isUnfinished]

theorem isTerminal_of_isEvictable (h : State.isEvictable st = true) :
    st.isTerminal = true := by
  cases st <;> simp_all [State.isEvictable, State.isTerminal]

theorem isTerminal_of_isRetriable (h : State.isRetriable st = true) : st.isTerminal = true := by
  cases st <;> simp_all [State.isRetriable, State.isTerminal]

theorem isTerminal_iff : st.isTerminal = true ↔ st.isUnfinished = false := by
  cases st <;> simp [State.isTerminal, State.isUnfinished]

private theorem doCancel_move {now : Int} (row : s.job? id = some j)
    (unfinished : j.state.isUnfinished = true) : Move s (doCancel now id j s) := by
  unfold doCancel
  by_cases hrun : j.state = .running
  · rw [if_pos hrun]
    refine .finish id j (some { j with
      state := .cancelled, finalizedAtMs := some now,
      lease := if j.state = .running then none else j.lease }) (.cancelled id) row hrun
      (.set rfl rfl rfl rfl rfl) rfl ?_
    intro k hk
    cases hk
    exact ⟨⟨rfl, rfl, rfl, rfl, rfl⟩, rfl⟩
  · have hidle := isMutable_of_unfinished unfinished hrun
    refine .park id j (some { j with
      state := .cancelled, finalizedAtMs := some now,
      lease := if j.state = .running then none else j.lease }) [.cancelled id] row hidle
      (.set ?_ ?_ ?_ ?_ ?_) (by simp [Event.ends]) ?_
    · rw [if_neg hrun]
      split <;> rfl
    · -- a pending job is in no stream, every other unclaimed one is
      rw [if_neg hrun]
      rcases isMutable_iff.mp hidle with hp | hw
      · rw [hp]
        rfl
      · have hne : j.state ≠ .pending := by
          intro h
          rw [h] at hw
          cases hw
        rw [if_pos hne, if_pos hw]
        rfl
    · rw [if_neg hrun]
      split <;> rfl
    · rw [if_neg hrun]
      split <;> rfl
    · rw [if_neg hrun]
      split <;> rfl
    · intro k hk
      cases hk
      exact ⟨⟨rfl, rfl, rfl, rfl, rfl⟩, rfl⟩

private theorem doRetry_move (now : Int) (row : s.job? id = some j)
    (terminal : j.state.isTerminal = true) : Move s (doRetry now id j s).1 := by
  unfold doRetry
  split
  · exact .policy rfl rfl rfl rfl rfl
  · rename_i hholder
    refine .retry id j { j with
      state := .available, scheduledAtMs := now, finalizedAtMs := none } row terminal
      (.set rfl rfl rfl rfl rfl) ⟨rfl, rfl, rfl, rfl, rfl⟩ rfl fun hkey => ?_
    rw [keyHolder, if_pos hkey] at hholder
    by_contra hne
    rw [not_or] at hne
    exact hholder hne

private theorem doDelete_move (row : s.job? id = some j) (idle : j.state ≠ .running) :
    Move s (doDelete id j s) := by
  unfold doDelete
  by_cases hmut : State.isMutable j.state = true
  · refine .park id j none [.deleted id] row hmut (.del ?_ ?_ ?_ ?_ ?_)
      (by simp [Event.ends]) (by simp)
    · split <;> rfl
    · split <;> rfl
    · split <;> rfl
    · split <;> rfl
    · split <;> rfl
  · have hwait : j.state.isWaiting = false := by
      by_contra h
      exact hmut (isMutable_of_isWaiting (by simpa using h))
    have hterm : j.state.isTerminal = true := by
      rw [isTerminal_iff]
      by_contra h
      exact hmut (isMutable_of_unfinished (by simpa using h) idle)
    rw [hwait]
    exact .drop id j (s.holders.release id j) row hterm (.del rfl rfl rfl rfl rfl) (.inr rfl)

/-! ## Section 3: Quarantine release -/

private theorem releaseOne_moves (now : Int) (fp : String) (p : Store × Nat) (id : String) :
    ReleaseMoves p.1 (releaseOne now fp p id).1 := by
  unfold releaseOne
  cases hj : p.1.job? id with
  | none => exact .single (.plain (.policy rfl rfl rfl rfl rfl))
  | some j =>
    dsimp only
    split
    · rename_i h
      exact .single (.release id j { j with
        state := .available, scheduledAtMs := now, finalizedAtMs := none } hj h
        (.set rfl rfl rfl rfl rfl) ⟨rfl, rfl, rfl, rfl, rfl⟩ rfl)
    · exact .single (.plain (.policy rfl rfl rfl rfl rfl))

theorem quarantineRelease_moves (now : Int) (order : SetOrder String) (fp : String) (s : Store) :
    ReleaseMoves s (quarantineRelease now order fp s).1 := by
  have herase : ReleaseMoves s
      { s with policy := { s.policy with quarantine := s.policy.quarantine.erase fp } } :=
    .single (.plain (.policy rfl rfl rfl rfl rfl))
  have hloop : ∀ (ids : List String) (p : Store × Nat),
      ReleaseMoves p.1 (ids.foldl (releaseOne now fp) p).1 := by
    intro ids
    induction ids with
    | nil => exact fun _ => .refl
    | cons x ids ih => exact fun p => .trans (releaseOne_moves now fp p x) (ih _)
  exact .trans herase (hloop (order.list (s.index.qjobs fp)) (_, 0))

/-! ## Section 4: Every plain call -/

theorem Write.move {op : Op} {now : Int} {t : Store} (w : Write op now s t) : Move s t := by
  cases w with
  | debounce e holder j row idle =>
    unfold debounceHolder
    rw [row]
    exact .retime holder j _ row idle (.set rfl rfl rfl rfl rfl) ⟨rfl, rfl, rfl, rfl, rfl⟩
      rfl rfl rfl
  | payload e holder j row =>
    unfold replacePayload
    rw [row]
    exact .rewrite holder j _ [] row (.set rfl rfl rfl rfl rfl) (by simp)
      ⟨rfl, rfl, rfl, rfl, rfl⟩ rfl rfl rfl rfl
  | due e holder j row scheduled =>
    unfold replaceScheduledAt
    rw [row]
    have hwaiting : j.state.isWaiting = true := isWaiting_of_due (.inl scheduled)
    exact .retime holder j _ row (isMutable_of_isWaiting hwaiting) (.set rfl rfl rfl rfl rfl)
      ⟨rfl, rfl, rfl, rfl, rfl⟩ hwaiting rfl rfl
  | refit holder j priority maxAttempts row =>
    exact .rewrite holder j _ [] row (.set rfl rfl rfl rfl rfl) (by simp)
      ⟨rfl, rfl, rfl, rfl, rfl⟩ rfl rfl rfl rfl
  | arrive e mem absent window retention free =>
    refine .arrive now e absent window free (.set rfl ?_ rfl rfl rfl)
    show (if initialState now e ≠ .pending then _ else _) = _
    by_cases h : initialState now e = .pending
    · rw [if_neg (not_not_intro h), if_pos h]
      rfl
    · rw [if_pos h, if_neg h]
      rfl
  | reconcile id j actual row => exact reconcile_move actual row
  | finishKeep id j attempt errors result to_ e row running terminal out ends =>
    refine .finish id j (some _) e row running (.set rfl rfl rfl rfl rfl) ends ?_
    intro k hk
    cases hk
    exact ⟨⟨rfl, rfl, rfl, rfl, rfl⟩, terminal⟩
  | finishDelete id j e row running ends => exact finishDelete_move row running ends
  | requeue id j attempt errors score to_ e row running waiting ends =>
    exact .requeue id j _ e row running (.set rfl rfl rfl rfl rfl) ends
      ⟨rfl, rfl, rfl, rfl, rfl⟩ waiting
  | renew ref j leaseMs row held => exact renewOne_move leaseMs row held
  | fenced id j checkpoint output progress row =>
    exact .rewrite id j _ [] row (.set rfl rfl rfl rfl rfl) (by simp)
      ⟨rfl, rfl, rfl, rfl, rfl⟩ rfl rfl rfl rfl
  | crash id j row running =>
    refine .finish id j (some _) (.reclaimed id) row running (.set rfl rfl rfl rfl rfl) rfl ?_
    intro k hk
    cases hk
    exact ⟨⟨rfl, rfl, rfl, rfl, rfl⟩, rfl⟩
  | retryCrash base cap id j row running =>
    exact .requeue id j _ (.reclaimed id) row running (.set rfl rfl rfl rfl rfl) rfl
      ⟨rfl, rfl, rfl, rfl, rfl⟩ rfl
  | stray id idle => exact .stray id idle rfl rfl rfl rfl rfl
  | promote id j row due =>
    exact .flip id j _ row (isWaiting_of_due due) (.set rfl rfl rfl rfl rfl)
      ⟨rfl, rfl, rfl, rfl, rfl⟩ rfl rfl rfl rfl
  | evict id j row evictable =>
    exact .drop id j s.holders row (isTerminal_of_isEvictable evictable)
      (.del rfl rfl rfl rfl rfl) (.inl rfl)
  | sweep limit fp id j n row waiting =>
    unfold sweepOne
    split
    · exact .policy rfl rfl rfl rfl rfl
    · rw [row]
      dsimp only
      rw [if_pos waiting]
      refine .park id j (some _) [] row (isMutable_of_isWaiting waiting)
        (.set rfl ?_ rfl rfl rfl) (by simp) ?_
      · rw [if_pos waiting]
        rfl
      · intro k hk
        cases hk
        exact ⟨⟨rfl, rfl, rfl, rfl, rfl⟩, rfl⟩
  | cancel id j row unfinished => exact doCancel_move row unfinished
  | retry id j row retriable => exact doRetry_move now row (isTerminal_of_isRetriable retriable)
  | delete id j row idle => exact doDelete_move row idle
  | activate id j to_ at_ x row pending waiting =>
    exact .retime id j _ row (isMutable_iff.mpr (.inl pending)) (.set rfl rfl rfl rfl rfl)
      ⟨rfl, rfl, rfl, rfl, rfl⟩ waiting rfl rfl
  | reschedule id j at_ row delayed =>
    have hwaiting : j.state.isWaiting = true := isWaiting_of_due delayed
    exact .retime id j { j with scheduledAtMs := at_ } row (isMutable_of_isWaiting hwaiting)
      (.set rfl rfl rfl rfl rfl) ⟨rfl, rfl, rfl, rfl, rfl⟩ hwaiting rfl rfl
  | edit id j payload sv fp row idle =>
    unfold editPayload
    rw [row]
    dsimp only
    rw [if_neg idle]
    exact .rewrite id j _ [] row (.set rfl rfl rfl rfl rfl) (by simp)
      ⟨rfl, rfl, rfl, rfl, rfl⟩ rfl rfl rfl rfl
  | retain | unsched | unret | policy => exact .policy rfl rfl rfl rfl rfl

theorem step_moves (s : Store) (c : Call) (h : c.op.isPlain) : Moves s (step s c) :=
  .mono (fun _ _ => Write.move) s _ (step_writes s c h)

end Headgate.Redis
