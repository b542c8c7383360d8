import Headgate.Postgres.Pending
import Headgate.Redis.Pending

/-!
# Pending jobs wait for their call

A job enqueued as pending is to stay out of the gate's reach until an operator or a
workflow promotes or schedules it.  On Redis and on Postgres a debouncing enqueue that
finds the job holding its unique key schedules it; on Postgres a quarantine sweep and
the release after it make it available.  Runs without these steps keep it where it is.
-/

namespace Headgate

open Headgate.Core Headgate.Data

/-- **Pending jobs stay.**  Enqueues, promotions of due jobs, sweeps, releases, admissions and
every other call that is not about the job leave it pending on Redis, and pending or swept on
Postgres, as long as no debouncing enqueue brings its unique key and no release finds it swept. -/
theorem pending_stays (id : String) :
    (∀ pre calls j, (Redis.exec pre).job? id = some j → j.state = .pending →
      EachStep Redis.step (Redis.Undisturbed id) (Redis.exec pre) calls →
      ∃ j', (Redis.exec (pre ++ calls)).job? id = some j' ∧ j'.state = .pending) ∧
    (∀ pre calls j, (Postgres.exec pre).jobs.get id = some j → j.state = .pending →
      EachStep Postgres.step (Postgres.Undisturbed id) (Postgres.exec pre) calls →
      ∃ j', (Postgres.exec (pre ++ calls)).jobs.get id = some j' ∧
        (j'.state = .pending ∨ j'.state = .quarantined)) := by
  constructor
  · intro pre calls j row hpending hquiet
    exact Redis.run_keepsPending row hpending hquiet
  · intro pre calls j row hpending hquiet
    have happend : Postgres.exec (pre ++ calls) = run Postgres.step (Postgres.exec pre) calls :=
      run_append Postgres.step Postgres.Store.init pre calls
    rw [happend]
    exact Postgres.run_rests ⟨j, row, .inl hpending⟩ hquiet

/-! ## Two ways out -/

def pendingHolder : Envelope :=
  { id := "a", kind := "k", queue := "q", fingerprint := "f", pending := true,
    uniqueKey := some [1] }

def debouncer : Envelope :=
  { id := "b", kind := "k", queue := "q", fingerprint := "f", uniqueKey := some [1],
    uniqueDebounceMs := 5 }

/-- A crash of a job with the same fingerprint. -/
def crashingSibling : Envelope := { id := "c", kind := "k", queue := "q", fingerprint := "f" }

namespace Redis

/-- The debouncing duplicate, the promotion and the next admission. -/
def debouncedPending : List Call :=
  [⟨0, .enqueue [pendingHolder]⟩, ⟨1, .enqueue [debouncer]⟩, ⟨10, .promote 10⟩,
    ⟨11, .admission ⟨"w", "l", ["q"], 1, 10, 1⟩ .increasing⟩]

end Redis

namespace Postgres

def debouncedPending : List Call :=
  [⟨0, .enqueue [pendingHolder] .increasing⟩, ⟨1, .enqueue [debouncer] .increasing⟩,
    ⟨10, .promoteDue 10⟩]

/-- The sibling crashes at the limit; the sweep takes the pending job along and the release
makes it available. -/
def sweptPending : List Call :=
  [⟨0, .enqueue [pendingHolder, crashingSibling] .increasing⟩,
    ⟨1, .admission ⟨"w", "l", ["q"], 1, 10, 1⟩ 10 [("c", .claim false)]⟩,
    ⟨20, .reclaimExpired { crashLimit := 1 } 10⟩,
    ⟨21, .quarantineSweep 10 .increasing⟩,
    ⟨22, .quarantineRelease "f"⟩]

def stateOf (calls : List Call) (id : String) : Option State :=
  ((exec calls).jobs.get id).map Sql.Job.state

end Postgres

/-- A pending job survives a replacement, a promotion of due jobs and an admission. -/
theorem pending_stays_redis :
    ∃ j', (Redis.exec ([⟨0, .enqueue [pendingHolder]⟩] ++
      [⟨1, .enqueue [{ debouncer with uniqueDebounceMs := 0, uniqueReplace := 15 }]⟩,
        ⟨10, .promote 10⟩, ⟨11, .admission ⟨"w", "l", ["q"], 1, 10, 1⟩ .increasing⟩])).job? "a"
        = some j' ∧ j'.state = .pending :=
  (pending_stays "a").1 _ _ _ rfl rfl (by decide +kernel)

theorem pending_released :
    Redis.stateOf (Redis.debouncedPending.take 1) "a" = some .pending ∧
    Redis.stateOf (Redis.debouncedPending.take 2) "a" = some .scheduled ∧
    Redis.stateOf Redis.debouncedPending "a" = some .running ∧
    Postgres.stateOf (Postgres.debouncedPending.take 1) "a" = some .pending ∧
    Postgres.stateOf (Postgres.debouncedPending.take 2) "a" = some .scheduled ∧
    Postgres.stateOf Postgres.debouncedPending "a" = some .available ∧
    Postgres.stateOf (Postgres.sweptPending.take 3) "a" = some .pending ∧
    Postgres.stateOf (Postgres.sweptPending.take 4) "a" = some .quarantined ∧
    Postgres.stateOf Postgres.sweptPending "a" = some .available := by
  decide +kernel

end Headgate
