import Mathlib

/-!
# Loops that run until nothing is left to do

`iterateUntil stop next n` runs `next` until `stop`, at most `n` times.  A property that every
round keeps holds at the end (`iterateUntil_induct`), and a measure that every round lowers
shows that `n` rounds were enough (`iterateUntil_stops`).
-/

namespace Headgate.Data

variable {σ : Type*}

/-- The loop, with a bound on the number of its rounds. -/
def iterateUntil (stop : σ → Bool) (next : σ → σ) : Nat → σ → σ
  | 0, s => s
  | n + 1, s => if stop s then s else iterateUntil stop next n (next s)

/-- **Loop rule.** -/
theorem iterateUntil_induct {stop : σ → Bool} {next : σ → σ} {P : σ → Prop}
    (hnext : ∀ s, stop s = false → P s → P (next s))
    (n : Nat) {s : σ} (hs : P s) : P (iterateUntil stop next n s) := by
  induction n generalizing s with
  | zero => exact hs
  | succ n ih =>
    unfold iterateUntil
    cases hstop : stop s with
    | true => simpa using hs
    | false => simpa using ih (hnext s hstop hs)

/-- **Termination rule.**  With as many rounds as the measure allows, the loop stops by itself. -/
theorem iterateUntil_stops (stop : σ → Bool) (next : σ → σ) {P : σ → Prop} (μ : σ → Nat)
    (hnext : ∀ s, stop s = false → P s → P (next s))
    (hless : ∀ s, stop s = false → P s → μ (next s) < μ s)
    {n : Nat} {s : σ} (hs : P s) (henough : μ s ≤ n) :
    stop (iterateUntil stop next n s) = true := by
  induction n generalizing s with
  | zero =>
    cases hstop : stop s with
    | true => exact hstop
    | false =>
      -- a round that is still to come would lower a measure of zero
      have hlow := hless s hstop hs
      omega
  | succ n ih =>
    unfold iterateUntil
    cases hstop : stop s with
    | true => simpa using hstop
    | false =>
      have hlow := hless s hstop hs
      simpa using ih (hnext s hstop hs) (by omega)

end Headgate.Data
