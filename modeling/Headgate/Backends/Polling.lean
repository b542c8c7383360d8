import Headgate.Mysql.Gate
import Headgate.Postgres.Adaptive
import Headgate.Redis.Rate
import Headgate.Sqlite.Gate

/-!
# Polling and refill

Every gate refills its token buckets when it looks at them, by a floor division
of the time since the last refill.  The SQL gates then move the mark of every
bucket to the present, the Redis gate only if a whole token was gained; either
way what the time was worth beyond whole tokens is lost.  So an admission that
claims nothing still costs tokens, unless the rests do not add up to one or the
bucket is full.
-/

namespace Headgate

open Headgate.Core Headgate.Data

variable {now refilled tokens t₀ t₁ t₂ : Int} {req : AdmitRequest} {name : String} {b : Bucket}
  {order : SetOrder String} {s : Store}

/-! ## Section 1: What an idle admission writes -/

namespace Sql

/-- A call that claims nothing refills every bucket and moves its mark. -/
theorem settle_idle {d : GateDialect} {db db' : GateDb} {seen : List Part}
    {selected : List Decision} (h : settle d now req db true seen selected = (db', []))
    (hb : db.buckets.get name = some b) :
    db'.buckets.get name = some { b with tokens := b.avail now, refilledAtMs := now } := by
  unfold settle at h
  simp only [if_true, Prod.mk.injEq, List.map_eq_nil_iff] at h
  obtain ⟨hdb, hrows⟩ := h
  -- nothing is claimed, so nothing is spent; the refill is written all the same
  have hspent : spentBy d db (locked db selected) name = 0 := by
    unfold spentBy
    rw [hrows]
    simp
  rw [← hdb]
  unfold settleBuckets
  rw [Table.get_update, hb]
  simp [hspent]

/-- The tokens of a bucket whose mark lies in the past. -/
theorem avail_eq (r : Rate) (hmark : refilled ≤ now) :
    Bucket.avail now ⟨tokens, r.burst, r.limit, r.window, refilled⟩
      = min r.burst (tokens + r.gain (now - refilled)) := by
  have hnonneg : 0 ≤ (now - refilled) * r.limit := mul_nonneg (by omega) r.limit_nonneg
  unfold Bucket.avail Rate.gain
  rw [Int.tdiv_eq_ediv_of_nonneg hnonneg]

/-- What an idle call at `t₁` costs a bucket that is looked at again at `t₂`. -/
theorem settle_polled {d : GateDialect} {db db' : GateDb} {seen : List Part}
    {selected : List Decision} (r : Rate) (h₁ : t₀ ≤ t₁) (h₂ : t₁ ≤ t₂)
    (h : settle d t₁ req db true seen selected = (db', []))
    (hb : db.buckets.get name = some ⟨tokens, r.burst, r.limit, r.window, t₀⟩) :
    ∃ b', db'.buckets.get name = some b' ∧
      (b'.avail t₂ = Bucket.avail t₂ ⟨tokens, r.burst, r.limit, r.window, t₀⟩
        ↔ r.LosesNothing tokens (t₁ - t₀) (t₂ - t₁)) := by
  refine ⟨_, settle_idle h hb, ?_⟩
  rw [avail_eq r h₁, avail_eq r h₂, avail_eq r (h₁.trans h₂)]
  have hsplit : t₂ - t₀ = (t₁ - t₀) + (t₂ - t₁) := by omega
  rw [hsplit]
  exact r.two_looks_iff (by omega) (by omega)

end Sql

namespace Sqlite

/-- A call that claims nothing leaves a bucket alone or refills it and moves its mark. -/
theorem admitCall_idle {db : Store} (h : (admitCall now req db).2 = .ok [])
    (hb : db.buckets.get name = some b) :
    (admitCall now req db).1.buckets.get name = some b
      ∨ (admitCall now req db).1.buckets.get name = some (refillBucket now b) := by
  unfold admitCall at h ⊢
  dsimp only at h ⊢
  split
  · exact .inl hb
  · split
    · exact .inl hb
    · rename_i hlease hrequest
      rw [if_neg hlease, if_neg hrequest] at h
      unfold admitOn at h ⊢
      dsimp only at h ⊢
      split
      · exact .inl hb
      · rename_i hqueues
        rw [if_neg hqueues, Except.ok.injEq] at h
        right
        show (gateLoop _ _ _).buckets.get name = _
        -- the buckets are refilled before the loop, and a loop without a claim leaves them
        rw [gateLoop_idle _ h]
        show (db.buckets.update (fun _ _ => true) fun _ => refillBucket now).get name = _
        rw [Table.get_update, hb]
        rfl

theorem saturate_eq {n : Int} (hlow : -2 ^ 63 ≤ n) (hhigh : n < 2 ^ 63) : saturate n = n := by
  unfold saturate
  omega

/-- Within the range of the integers, the refill is the rate's gain. -/
theorem refillBucket_tokens (r : Rate) (paused : Bool) (hmark : refilled ≤ now)
    (hfull : tokens ≤ r.burst) (hlow : -2 ^ 63 ≤ tokens)
    (hworth : (now - refilled) * r.limit < 2 ^ 63)
    (hhigh : tokens + (now - refilled) * r.limit < 2 ^ 63) :
    (refillBucket now ⟨tokens, r.burst, r.limit, r.window, refilled, paused⟩).tokens
      = min r.burst (tokens + r.gain (now - refilled)) := by
  have hlimit := r.limit_nonneg
  have hnonneg : 0 ≤ (now - refilled) * r.limit := mul_nonneg (by omega) hlimit
  have hgain : 0 ≤ r.gain (now - refilled) := r.gain_nonneg (by omega)
  have hgainle := r.gain_le_worth (show 0 ≤ now - refilled by omega)
  unfold refillBucket
  dsimp only
  by_cases hpos : 0 < now - refilled ∧ 0 < r.limit
  · -- a limit of at least one bounds the elapsed time as well
    have helapsed : now - refilled ≤ (now - refilled) * r.limit :=
      le_mul_of_one_le_right (by omega) hpos.2
    rw [saturate_eq (n := now - refilled) (by omega) (by omega), if_pos hpos,
      saturate_eq (by omega) hworth]
    show min r.burst (saturate (tokens + r.gain (now - refilled))) = _
    rw [saturate_eq (by omega) (by omega)]
  · have hzero : (now - refilled) * r.limit = 0 := by
      rcases Int.lt_or_eq_of_le hlimit with hlt | heq
      · rw [show now - refilled = 0 by omega, zero_mul]
      · rw [← heq, mul_zero]
    have hgain0 : r.gain (now - refilled) = 0 := by omega
    have hcond : ¬ (saturate (now - refilled) > 0 ∧ r.limit > 0) := by
      intro hboth
      apply hpos
      refine ⟨?_, hboth.2⟩
      have := hboth.1
      unfold saturate at this
      omega
    rw [if_neg hcond, hgain0]
    omega

/-- What an idle call at `t₁` costs a bucket that is looked at again at `t₂`. -/
theorem admitCall_polled (r : Rate) (hbelow : tokens < r.burst) (h₁ : t₀ ≤ t₁) (h₂ : t₁ ≤ t₂)
    {db : Store} {paused : Bool}
    (hb : db.buckets.get name = some ⟨tokens, r.burst, r.limit, r.window, t₀, paused⟩)
    (hcall : (admitCall t₁ req db).2 = .ok []) (hlow : -2 ^ 63 ≤ tokens)
    (hworth : (t₂ - t₀) * r.limit < 2 ^ 63) (hhigh : tokens + (t₂ - t₀) * r.limit < 2 ^ 63) :
    ∃ b', (admitCall t₁ req db).1.buckets.get name = some b' ∧
      (b' = ⟨tokens, r.burst, r.limit, r.window, t₀, paused⟩ ∨
        ((refillBucket t₂ b').tokens
            = (refillBucket t₂ ⟨tokens, r.burst, r.limit, r.window, t₀, paused⟩).tokens
          ↔ r.LosesNothing tokens (t₁ - t₀) (t₂ - t₁))) := by
  rcases admitCall_idle hcall hb with hsame | hrefilled
  · exact ⟨_, hsame, .inl rfl⟩
  refine ⟨_, hrefilled, .inr ?_⟩
  have hsplit : t₂ - t₀ = (t₁ - t₀) + (t₂ - t₁) := by omega
  -- both looks stay within the range, since together they are worth no more
  have hfirst : 0 ≤ (t₁ - t₀) * r.limit := mul_nonneg (by omega) r.limit_nonneg
  have hsecond : 0 ≤ (t₂ - t₁) * r.limit := mul_nonneg (by omega) r.limit_nonneg
  have hworth' : (t₂ - t₀) * r.limit = (t₁ - t₀) * r.limit + (t₂ - t₁) * r.limit := by
    rw [hsplit, add_mul]
  have hgain : 0 ≤ r.gain (t₁ - t₀) := r.gain_nonneg (by omega)
  have hgainle := r.gain_le_worth (show 0 ≤ t₁ - t₀ by omega)
  have htokens := refillBucket_tokens r paused h₁ hbelow.le hlow (by omega) (by omega)
  have hmark : refillBucket t₁ ⟨tokens, r.burst, r.limit, r.window, t₀, paused⟩
      = ⟨min r.burst (tokens + r.gain (t₁ - t₀)), r.burst, r.limit, r.window, t₁, paused⟩ := by
    rw [← htokens]
    rfl
  rw [hmark, refillBucket_tokens r paused (h₁.trans h₂) hbelow.le hlow hworth hhigh,
    refillBucket_tokens r paused h₂ (min_le_left _ _) (by omega) (by omega) (by omega), hsplit]
  exact r.two_looks_iff (by omega) (by omega)

end Sqlite

namespace Redis

/-- A call that claims nothing has taken nothing of any class. -/
theorem selection_idle {queues : List String}
    (h : (selection now req order queues s).1.claimed = []) (rc : String) :
    (selection now req order queues s).1.takenClass rc = 0 := by
  obtain ⟨routes, -, hsel⟩ := selection_eq now req order queues s
  rw [hsel] at h ⊢
  have hloop : ∀ fuel, ((selectLoop now req (qweight s) queues fuel
      (startSelection (s.withRoutes routes) (drawnCands now req order queues s))).claimed = [] →
      (selectLoop now req (qweight s) queues fuel
        (startSelection (s.withRoutes routes) (drawnCands now req order queues s))).takenClass rc
          = 0) := by
    -- by the rounds: tokens are taken with a claim only
    intro fuel
    apply selectLoop_induct (P := fun l => l.claimed = [] → l.takenClass rc = 0) _ fuel _
      fun _ => rfl
    intro l q c rest hl _ _ _ hempty
    rcases considerCandidate_tables now req q c (l.pop q rest) with hsame | ⟨a, -, -, hdecided⟩
    · rw [hsame.claimed] at hempty
      rw [hsame.takenClass]
      exact hl hempty
    · rw [hdecided.claimed] at hempty
      rw [hdecided.takenClass]
      split at hempty
      · exact absurd hempty (by simp)
      · rename_i ha
        rw [if_neg ha]
        exact hl hempty
  exact hloop _ h

/-- A call that claims nothing leaves a bucket alone or refills it. -/
theorem admitCall_idle (hentries : EntriesOk s) (h : (admitCall now req order s).2 = .ok [])
    {rc : String} (hb : s.policy.rate rc = some b) :
    (admitCall now req order s).1.policy.rate rc = some b
      ∨ (admitCall now req order s).1.policy.rate rc = some (refill now b) := by
  by_cases hlease : req.leaseMs < 1
  · rw [admitCall_refused hlease]
    exact .inl hb
  · rw [admitCall_eq (by omega)] at h ⊢
    have hbooks := selection_books now req order hentries hb (requestQueues req)
    have hidle := selection_idle (Except.ok.inj h) rc
    rw [settle_rate]
    unfold spend
    dsimp only
    rw [hbooks.bucket, hidle]
    simp only [gt_iff_lt, lt_self_iff_false, false_and, if_false, Option.map_some]
    split
    · exact .inr rfl
    · exact .inl rfl

/-- Where doubles are exact, the scripts compute the rate's gain. -/
theorem gained_eq_gain (r : Rate) {elapsed : Int} (hworth : elapsed * r.limit < 2 ^ 53)
    (hwindow : r.window ≤ 2 ^ 53) :
    Bucket.gained elapsed ⟨tokens, r.burst, r.limit, r.window, refilled⟩ = r.gain elapsed :=
  Bucket.gained_eq r.window_pos ⟨hworth, hwindow⟩

/-- The tokens found in a bucket whose mark lies in the past. -/
theorem refill_tokens (r : Rate) (hmark : refilled ≤ now) (hfull : tokens ≤ r.burst)
    (hworth : (now - refilled) * r.limit < 2 ^ 53) (hwindow : r.window ≤ 2 ^ 53) :
    (refill now ⟨tokens, r.burst, r.limit, r.window, refilled⟩).tokens
      = min r.burst (tokens + r.gain (now - refilled)) := by
  have hgain : 0 ≤ r.gain (now - refilled) := r.gain_nonneg (by omega)
  unfold refill
  rw [gained_eq_gain r hworth hwindow]
  dsimp only
  split
  · rfl
  · -- without a whole token the bucket is not written
    dsimp only
    omega

/-- What an idle call at `t₁` costs a bucket that is looked at again at `t₂`. -/
theorem admitCall_polled (r : Rate) (hbelow : tokens < r.burst) (h₁ : t₀ ≤ t₁) (h₂ : t₁ ≤ t₂)
    (hworth : (t₂ - t₀) * r.limit < 2 ^ 53) (hwindow : r.window ≤ 2 ^ 53)
    {rc : String} (hentries : EntriesOk s)
    (hb : s.policy.rate rc = some ⟨tokens, r.burst, r.limit, r.window, t₀⟩)
    (hcall : (admitCall t₁ req order s).2 = .ok []) :
    ∃ b', (admitCall t₁ req order s).1.policy.rate rc = some b' ∧
      (b' = ⟨tokens, r.burst, r.limit, r.window, t₀⟩ ∨
        0 < r.gain (t₁ - t₀) ∧
        ((refill t₂ b').tokens = (refill t₂ ⟨tokens, r.burst, r.limit, r.window, t₀⟩).tokens
          ↔ r.LosesNothing tokens (t₁ - t₀) (t₂ - t₁))) := by
  rcases admitCall_idle hentries hcall hb with hsame | hrefilled
  · exact ⟨_, hsame, .inl rfl⟩
  refine ⟨_, hrefilled, ?_⟩
  have hshorter : ∀ {elapsed : Int}, elapsed ≤ t₂ - t₀ → elapsed * r.limit < 2 ^ 53 := fun hle =>
    lt_of_le_of_lt (mul_le_mul_of_nonneg_right hle r.limit_nonneg) hworth
  have hgained : Bucket.gained (t₁ - t₀) ⟨tokens, r.burst, r.limit, r.window, t₀⟩
      = r.gain (t₁ - t₀) := gained_eq_gain r (hshorter (by omega)) hwindow
  by_cases hgain : 0 < r.gain (t₁ - t₀)
  · right
    refine ⟨hgain, ?_⟩
    have hmark : refill t₁ ⟨tokens, r.burst, r.limit, r.window, t₀⟩
        = ⟨min r.burst (tokens + r.gain (t₁ - t₀)), r.burst, r.limit, r.window, t₁⟩ := by
      unfold refill
      rw [hgained, if_pos hgain]
    have hsplit : t₂ - t₀ = (t₁ - t₀) + (t₂ - t₁) := by omega
    rw [hmark, refill_tokens r (h₁.trans h₂) hbelow.le hworth hwindow,
      refill_tokens r h₂ (min_le_left _ _) (hshorter (by omega)) hwindow, hsplit]
    exact r.two_looks_iff (by omega) (by omega)
  · -- less than a token: the mark stays
    left
    unfold refill
    rw [hgained, if_neg hgain]

end Redis

/-! ## Section 2: The four gates -/

/-- **Refill under polling.**  A bucket of every gate, marked at `t₀`, is looked at by an
admission at `t₁` that claims nothing, and again at `t₂`.  It then holds what it would have held
without the first admission exactly if that admission lost nothing; SQLite and Redis may also
leave the bucket alone, SQLite when no requested queue is open, Redis when no candidate of the
class is looked at. -/
theorem refill_under_polling (r : Rate) (tokens t₀ t₁ t₂ : Int) (hbelow : tokens < r.burst)
    (h₁ : t₀ ≤ t₁) (h₂ : t₁ ≤ t₂) :
    -- Postgres
    (∀ overfetch req db db' name,
      db.buckets.get name = some (Sql.Bucket.mk tokens r.burst r.limit r.window t₀) →
      Postgres.admitQueries overfetch t₁ req db = .ok (db', []) →
      ∃ b', db'.buckets.get name = some b' ∧
        (b'.avail t₂ = Sql.Bucket.avail t₂ ⟨tokens, r.burst, r.limit, r.window, t₀⟩
          ↔ r.LosesNothing tokens (t₁ - t₀) (t₂ - t₁)))
    -- MySQL
    ∧ (∀ overfetch req db db' name,
      db.buckets.get name = some (Sql.Bucket.mk tokens r.burst r.limit r.window t₀) →
      Mysql.admitTx overfetch t₁ req db = .ok (db', []) →
      ∃ b', db'.buckets.get name = some b' ∧
        (b'.avail t₂ = Sql.Bucket.avail t₂ ⟨tokens, r.burst, r.limit, r.window, t₀⟩
          ↔ r.LosesNothing tokens (t₁ - t₀) (t₂ - t₁)))
    -- SQLite, within the range of its integers
    ∧ (∀ req db name paused,
      db.buckets.get name = some (Sqlite.Bucket.mk tokens r.burst r.limit r.window t₀ paused) →
      (Sqlite.admitCall t₁ req db).2 = .ok [] →
      -2 ^ 63 ≤ tokens → (t₂ - t₀) * r.limit < 2 ^ 63 → tokens + (t₂ - t₀) * r.limit < 2 ^ 63 →
      ∃ b', (Sqlite.admitCall t₁ req db).1.buckets.get name = some b' ∧
        (b' = ⟨tokens, r.burst, r.limit, r.window, t₀, paused⟩ ∨
          ((Sqlite.refillBucket t₂ b').tokens
              = (Sqlite.refillBucket t₂ ⟨tokens, r.burst, r.limit, r.window, t₀, paused⟩).tokens
            ↔ r.LosesNothing tokens (t₁ - t₀) (t₂ - t₁))))
    -- Redis, in every state that a run can reach, where its doubles are exact
    ∧ (∀ calls order req rc,
      (Redis.exec calls).policy.rate rc
        = some (Redis.Bucket.mk tokens r.burst r.limit r.window t₀) →
      (Redis.admitCall t₁ req order (Redis.exec calls)).2 = .ok [] →
      (t₂ - t₀) * r.limit < 2 ^ 53 → r.window ≤ 2 ^ 53 →
      ∃ b', (Redis.admitCall t₁ req order (Redis.exec calls)).1.policy.rate rc = some b' ∧
        (b' = ⟨tokens, r.burst, r.limit, r.window, t₀⟩ ∨
          0 < r.gain (t₁ - t₀) ∧
          ((Redis.refill t₂ b').tokens
              = (Redis.refill t₂ ⟨tokens, r.burst, r.limit, r.window, t₀⟩).tokens
            ↔ r.LosesNothing tokens (t₁ - t₀) (t₂ - t₁)))) := by
  refine ⟨?_, ?_, ?_, ?_⟩
  · intro overfetch req db db' name hb hcall
    obtain ⟨wide, hsettle⟩ := Postgres.admitQueries_settle hcall
    exact Sql.settle_polled r h₁ h₂ hsettle hb
  · intro overfetch req db db' name hb hcall
    -- the rows created beforehand are not buckets
    have hb' : (Mysql.seeded overfetch req db).buckets.get name
        = some ⟨tokens, r.burst, r.limit, r.window, t₀⟩ := hb
    unfold Mysql.admitTx at hcall
    split at hcall
    · exact Sql.settle_polled r h₁ h₂ (Except.ok.inj hcall) hb'
    · cases hcall
  · intro req db name paused hb hcall hlow hworth hhigh
    exact Sqlite.admitCall_polled r hbelow h₁ h₂ hb hcall hlow hworth hhigh
  · intro calls order req rc hb hcall hworth hwindow
    exact Redis.admitCall_polled r hbelow h₁ h₂ hworth hwindow (Redis.exec_entriesOk calls) hb hcall

/-- One token a second, up to five. -/
def oneASecond : Rate where
  burst := 5
  limit := 1
  window := 1000
  window_pos := by decide
  limit_nonneg := by decide

/-- An empty bucket of that rate and nothing else. -/
def emptyBucket : Sql.GateDb where
  jobs := .empty
  buckets := Table.empty.insert "r" ⟨0, 5, 1, 1000, 0⟩
  quarantine := .empty
  limits := .empty
  activePartitions := .empty
  queueStates := fun _ => none
  deficits := fun _ => none
  inflight := fun _ => none

def pollRequest : AdmitRequest where
  worker := "w"
  leaseId := "l"
  queues := ["q"]
  capacity := 1
  leaseMs := 1000
  quantum := 1

/-- The same bucket in SQLite. -/
def emptySqliteBucket : Sqlite.Store :=
  { Sqlite.Store.init with buckets := Table.empty.insert "r" ⟨0, 5, 1, 1000, 0, false⟩ }

/-- The same bucket in Redis: a first job has emptied it, a second one waits for it. -/
def emptyRedisBucket : List Redis.Call :=
  [⟨0, .upsertRateClass "r" 1 1000 5 false⟩,
    ⟨0, .enqueue [{ id := "a", kind := "k", queue := "q", rateClass := "r", weight := 5 }]⟩,
    ⟨0, .enqueue [{ id := "b", kind := "k", queue := "q", rateClass := "r", weight := 5 }]⟩,
    ⟨0, .admission pollRequest .increasing⟩]

/-- An admission after 500 ms loses nothing of the first 900 ms. -/
theorem refill_under_polling_earlyLook :
    ∃ db' b', Postgres.admitQueries 8 500 pollRequest emptyBucket = .ok (db', [])
      ∧ db'.buckets.get "r" = some b'
      ∧ b'.avail 900 = Sql.Bucket.avail 900 ⟨0, 5, 1, 1000, 0⟩ := by
  have hpoll := (refill_under_polling oneASecond 0 0 500 900 (by decide) (by decide) (by decide)).1
  have hcall : ∃ db', Postgres.admitQueries 8 500 pollRequest emptyBucket = .ok (db', []) :=
    ⟨_, rfl⟩
  obtain ⟨db', hdb'⟩ := hcall
  obtain ⟨b', hb', hiff⟩ := hpoll 8 pollRequest emptyBucket db' "r" (by decide) hdb'
  exact ⟨db', b', hdb', hb', hiff.mpr (by decide)⟩

/-- Polled once on the way, a bucket holds one token less than it would have held. -/
theorem polling_loses_tokens :
    (∃ db', Postgres.admitQueries 8 500 pollRequest emptyBucket = .ok (db', [])
      ∧ (db'.buckets.get "r").map (Sql.Bucket.avail 1000) = some 0)
    ∧ (∃ db', Mysql.admitTx 8 500 pollRequest emptyBucket = .ok (db', [])
      ∧ (db'.buckets.get "r").map (Sql.Bucket.avail 1000) = some 0)
    ∧ (emptyBucket.buckets.get "r").map (Sql.Bucket.avail 1000) = some 1
    ∧ (Sqlite.admitCall 500 pollRequest emptySqliteBucket).2 = .ok []
    ∧ ((Sqlite.admitCall 500 pollRequest emptySqliteBucket).1.buckets.get "r").map
        (fun b => (Sqlite.refillBucket 1000 b).tokens) = some 0
    ∧ (emptySqliteBucket.buckets.get "r").map (fun b => (Sqlite.refillBucket 1000 b).tokens)
        = some 1
    ∧ (Redis.admitCall 1500 pollRequest .increasing (Redis.exec emptyRedisBucket)).2 = .ok []
    ∧ ((Redis.admitCall 1500 pollRequest .increasing (Redis.exec emptyRedisBucket)).1.policy.rate
        "r").map (fun b => (Redis.refill 2000 b).tokens) = some 1
    ∧ ((Redis.exec emptyRedisBucket).policy.rate "r").map (fun b => (Redis.refill 2000 b).tokens)
        = some 2 := by
  refine ⟨⟨_, rfl, by decide +kernel⟩, ⟨_, rfl, by decide +kernel⟩, by decide +kernel, ?_,
    by decide +kernel, by decide +kernel, ?_, by decide +kernel, by decide +kernel⟩
  · rfl
  · rfl

end Headgate
