import Headgate.Postgres.Throttle
import Headgate.Sqlite.Throttle

/-!
# The throttle law on both stores

SQLite and Postgres keep the two halves of the law under conditions: a row must
not be deleted before its window ends, the window must end within the range of
timestamps, and on Postgres a key must not be carried
by two unfinished jobs when its window is released.
-/

namespace Headgate.Sql

open Headgate.Core Data

/-- The stores that keep a window on the row of its job. -/
inductive RowWindows where
  | sqlite
  | postgres
  deriving DecidableEq, Repr

/-- Accepted enqueues of one key are a window apart while no step closes a window early. -/
def RowWindows.Spaced : RowWindows → Prop
  | .sqlite => Sqlite.client.Spaced Sqlite.ClosesNoWindow
  | .postgres => Postgres.client.Spaced Postgres.ClosesNoWindow

/-- A key whose windows are over is accepted again while the keys of the call are free. -/
def RowWindows.Reopens : RowWindows → Prop
  | .sqlite => Sqlite.client.Reopens Sqlite.KeysFree
  | .postgres => Postgres.client.Reopens Postgres.KeysFree

/-- **The throttle law.**  On either store, enqueues of one key are a window apart if the window
ends within the range of timestamps and no step in between deletes a row before its window ends,
and a key is free again once its windows are over. -/
theorem throttle_law (store : RowWindows) : store.Spaced ∧ store.Reopens := by
  cases store with
  | sqlite => exact ⟨Sqlite.client_spaced, Sqlite.client_reopens⟩
  | postgres => exact ⟨Postgres.client_spaced, Postgres.client_reopens⟩

/-- A job that throttles its key for a hundred milliseconds. -/
def throttled (id : String) (retentionMs : Int) : Envelope :=
  { id := id, kind := "k", queue := "q", uniqueKey := some [7], uniqueWindowMs := 100
    retentionMs := retentionMs }

def claimOne : AdmitRequest :=
  { leaseId := "l", queues := ["q"], capacity := 1, leaseMs := 1000, quantum := 1 }

def sqliteEnqueue (now : Int) (e : Envelope) : Sqlite.Call := ⟨now, .enqueue [e] .increasing⟩

/-- The job is claimed and succeeds. -/
def sqliteSuccess : List Sqlite.Call :=
  [⟨1, .admission claimOne⟩, ⟨2, .ack {} ⟨"a", "l", 1⟩ { outcome := .success }⟩]

def postgresEnqueue (now : Int) (e : Envelope) : Postgres.Call := ⟨now, .enqueue [e] .increasing⟩

def postgresSuccess : List Postgres.Call :=
  [⟨1, .admission claimOne 1000 [("a", .claim false)]⟩,
    ⟨2, .ack {} 0 ⟨"a", "l", 1⟩ { outcome := .success }⟩]

/-- A retained job keeps its window, and its key is accepted again when the window ends. -/
theorem throttle_law_retained :
    (throttled "b" 0 ∈ Sqlite.client.accepted
        (Sqlite.client.exec (sqliteEnqueue 0 (throttled "a" 9) :: sqliteSuccess))
        (sqliteEnqueue 100 (throttled "b" 0)) ∧ (0 : Int) + 100 ≤ 100) ∧
      FailsWith (fun err => Sqlite.client.keyRejection err = false)
        (Sqlite.client.verdict
          (Sqlite.client.exec (sqliteEnqueue 0 (throttled "a" 9) :: sqliteSuccess))
          (sqliteEnqueue 100 (throttled "b" 0))) ∧
      (throttled "b" 0 ∈ Postgres.client.accepted
        (Postgres.client.exec (postgresEnqueue 0 (throttled "a" 9) :: postgresSuccess))
        (postgresEnqueue 100 (throttled "b" 0)) ∧ (0 : Int) + 100 ≤ 100) ∧
      FailsWith (fun err => Postgres.client.keyRejection err = false)
        (Postgres.client.verdict
          (Postgres.client.exec (postgresEnqueue 0 (throttled "a" 9) :: postgresSuccess))
          (postgresEnqueue 100 (throttled "b" 0))) := by
  refine ⟨⟨by decide +kernel, ?_⟩, ?_, ⟨by decide +kernel, ?_⟩, ?_⟩
  · exact (throttle_law .sqlite).1 [] (sqliteEnqueue 0 (throttled "a" 9)) sqliteSuccess
      (sqliteEnqueue 100 (throttled "b" 0)) (by decide +kernel) (by decide +kernel)
      (throttled "a" 9) (by decide +kernel) (throttled "b" 0) (by decide +kernel) _ rfl rfl
      (by decide) (by decide) (by decide)
  · exact (throttle_law .sqlite).2 _ _ (by decide +kernel) (by decide +kernel)
  · exact (throttle_law .postgres).1 [] (postgresEnqueue 0 (throttled "a" 9)) postgresSuccess
      (postgresEnqueue 100 (throttled "b" 0)) (by decide +kernel) (by decide +kernel)
      (throttled "a" 9) (by decide +kernel) (throttled "b" 0) (by decide +kernel) _ rfl rfl
      (by decide) (by decide) (by decide)
  · exact (throttle_law .postgres).2 _ _ (by decide +kernel) (by decide +kernel)

/-- Without the conditions the law fails: a job that succeeds with retention 0 takes its window
along, and on Postgres the third of three long jobs aborts its transaction. -/
theorem throttle_law_unconditional :
    ¬ Sqlite.client.Spaced (fun _ _ => True) ∧ ¬ Postgres.client.Spaced (fun _ _ => True) ∧
      ¬ Postgres.client.Reopens (fun _ c => Postgres.client.Throttles c) := by
  refine ⟨fun hspaced => ?_, fun hspaced => ?_, fun hreopens => ?_⟩
  · have hle := hspaced [] (sqliteEnqueue 0 (throttled "a" 0)) sqliteSuccess
      (sqliteEnqueue 3 (throttled "b" 0)) (by decide +kernel) (EachStep.trivial _ _)
      (throttled "a" 0) (by decide +kernel) (throttled "b" 0) (by decide +kernel) _ rfl rfl
      (by decide) (by decide) (by decide)
    exact absurd hle (by decide)
  · have hle := hspaced [] (postgresEnqueue 0 (throttled "a" 0)) postgresSuccess
      (postgresEnqueue 3 (throttled "b" 0)) (by decide +kernel) (EachStep.trivial _ _)
      (throttled "a" 0) (by decide +kernel) (throttled "b" 0) (by decide +kernel) _ rfl rfl
      (by decide) (by decide) (by decide)
    exact absurd hle (by decide)
  · have hok := hreopens
      [postgresEnqueue 0 (throttled "a" 0), postgresEnqueue 100 (throttled "b" 0)]
      (postgresEnqueue 200 (throttled "c" 0)) (by decide +kernel) (by decide +kernel)
      transactionAborted (by decide +kernel)
    exact absurd hok (by decide)

end Headgate.Sql
