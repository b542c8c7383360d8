import Mathlib

/-!
# Token buckets with lazy refill

A bucket gains `limit` tokens per `window`, up to `burst`.  The gain is computed
when somebody looks, by a floor division of the time since the last refill, and
the remainder of that division is either kept (the refill mark stays) or lost
(it moves).  This module has the two facts that matter about such buckets:

* how much can leave a bucket over an interval, whatever the sequence of refills,
  spends and corrections (`Rate.Within`);
* when looking at a bucket in between changes what is found later
  (`Rate.gain_add`).
-/

namespace Headgate.Data

variable {elapsed : Int}

/-- A refill rate. -/
structure Rate where
  burst : Int
  limit : Int
  window : Int
  window_pos : 0 < window
  limit_nonneg : 0 ≤ limit

namespace Rate

variable (r : Rate)

/-! ## Section 1: Gains -/

/-- What an elapsed time is worth, in whole tokens. -/
def gain (elapsed : Int) : Int := elapsed * r.limit / r.window

/-- What an elapsed time is worth beyond whole tokens. -/
def rest (elapsed : Int) : Int := elapsed * r.limit % r.window

theorem gain_rest (elapsed : Int) :
    r.window * r.gain elapsed + r.rest elapsed = elapsed * r.limit :=
  Int.mul_ediv_add_emod _ _

theorem rest_nonneg (elapsed : Int) : 0 ≤ r.rest elapsed :=
  Int.emod_nonneg _ r.window_pos.ne'

theorem rest_lt (elapsed : Int) : r.rest elapsed < r.window :=
  Int.emod_lt_of_pos _ r.window_pos

theorem gain_nonneg (h : 0 ≤ elapsed) : 0 ≤ r.gain elapsed :=
  Int.ediv_nonneg (mul_nonneg h r.limit_nonneg) r.window_pos.le

theorem gain_mul_le (elapsed : Int) : r.window * r.gain elapsed ≤ elapsed * r.limit := by
  have hsplit := r.gain_rest elapsed
  have hrest := r.rest_nonneg elapsed
  omega

theorem gain_le_worth (h : 0 ≤ elapsed) : r.gain elapsed ≤ elapsed * r.limit := by
  have hmul := r.gain_mul_le elapsed
  have hone := le_mul_of_one_le_left (r.gain_nonneg h) r.window_pos
  omega

/-- No whole token has been gained. -/
theorem lt_window_of_gain (h : r.gain elapsed ≤ 0) :
    elapsed * r.limit < r.window := by
  have hsplit := r.gain_rest elapsed
  have hlt := r.rest_lt elapsed
  have hmul : r.window * r.gain elapsed ≤ 0 :=
    mul_nonpos_of_nonneg_of_nonpos r.window_pos.le h
  omega

/-- Two periods in a row gain what they gain apart, and one token more if their rests add
up to one. -/
theorem gain_add (a b : Int) :
    r.gain (a + b) = r.gain a + r.gain b + if r.rest a + r.rest b < r.window then 0 else 1 := by
  have ha := r.gain_rest a
  have hb := r.gain_rest b
  have ha₀ := r.rest_nonneg a
  have hb₀ := r.rest_nonneg b
  have ha₁ := r.rest_lt a
  have hb₁ := r.rest_lt b
  have hsum : (a + b) * r.limit =
      r.window * (r.gain a + r.gain b) + (r.rest a + r.rest b) := by
    rw [add_mul, ← ha, ← hb]
    ring
  show (a + b) * r.limit / r.window = _
  rw [hsum, Int.add_comm, Int.add_mul_ediv_left _ _ r.window_pos.ne']
  split
  · rename_i hlt
    rw [Int.ediv_eq_zero_of_lt (by omega) hlt]
    omega
  · rename_i hge
    have hone : (r.rest a + r.rest b) / r.window = 1 := by
      rw [Int.ediv_eq_iff_of_pos r.window_pos]
      omega
    omega

/-- Looking at a bucket of `tokens` after a first period, and moving its mark, loses nothing
over a second period: the bucket is full anyway, or no rests add up to a token. -/
def LosesNothing (tokens a b : Int) : Prop :=
  r.burst ≤ tokens + r.gain a + r.gain b ∨ r.rest a + r.rest b < r.window

instance (tokens a b : Int) : Decidable (r.LosesNothing tokens a b) := instDecidableOr

/-- Two looks find what one would have found exactly when the first loses nothing. -/
theorem two_looks_iff {tokens a b : Int} (ha : 0 ≤ a) (hb : 0 ≤ b) :
    min r.burst (min r.burst (tokens + r.gain a) + r.gain b) = min r.burst (tokens + r.gain (a + b))
      ↔ r.LosesNothing tokens a b := by
  have hga := r.gain_nonneg ha
  have hgb := r.gain_nonneg hb
  rw [r.gain_add a b]
  unfold LosesNothing
  split <;> omega

/-! ## Section 2: What can leave a bucket over an interval -/

/-- The books of an interval that begins at `start`: `net` has left the bucket since, and
`tokens` are in it, as of `refilled`.  As long as the mark lies before the interval, what
left and what is there fit into one burst, and something can have left only if the time
before the interval was worth less than a token.  Afterwards the books are bounded by
what the time since `start` is worth, and less than one token more. -/
def Within (start net tokens refilled : Int) : Prop :=
  (refilled < start ∧ net + tokens ≤ r.burst ∧
    (net ≤ 0 ∨ (start - refilled) * r.limit < r.window)) ∨
  (start ≤ refilled ∧
    r.window * (net + tokens - r.burst) ≤ (refilled - start) * r.limit + (r.window - 1))

variable {r} {start net tokens refilled : Int}

/-- A bucket within its burst opens the books. -/
theorem within_start (htokens : tokens ≤ r.burst) (hmark : refilled ≤ start) :
    r.Within start 0 tokens refilled := by
  rcases lt_or_eq_of_le hmark with hlt | rfl
  · exact .inl ⟨hlt, by omega, .inl le_rfl⟩
  · right
    have hneg : r.window * (0 + tokens - r.burst) ≤ 0 :=
      mul_nonpos_of_nonneg_of_nonpos r.window_pos.le (by omega)
    have hpos := r.window_pos
    refine ⟨le_rfl, ?_⟩
    rw [sub_self, zero_mul]
    omega

section
variable (h : r.Within start net tokens refilled)
include h

/-- A refill: the mark moves to `t`, and at most the gain is added. -/
theorem Within.credit {t tokens' : Int} (ht : start ≤ t)
    (hburst : tokens' ≤ r.burst) (hgain : tokens' ≤ tokens + r.gain (t - refilled)) :
    r.Within start net tokens' t := by
  have hpos := r.window_pos
  have hmul := r.gain_mul_le (t - refilled)
  have hstep : r.window * (net + tokens' - r.burst) ≤
      r.window * (net + tokens - r.burst) + r.window * r.gain (t - refilled) := by
    rw [← mul_add]
    exact mul_le_mul_of_nonneg_left (by omega) hpos.le
  have hsplit : (t - refilled) * r.limit = (t - start) * r.limit + (start - refilled) * r.limit := by
    ring
  refine .inr ⟨ht, ?_⟩
  rcases h with ⟨-, hfit, hnet | hbefore⟩ | ⟨-, hbooks⟩
  · -- nothing has left yet, and the bucket holds one burst at most
    have hneg : r.window * (net + tokens' - r.burst) ≤ 0 :=
      mul_nonpos_of_nonneg_of_nonpos hpos.le (by omega)
    have htime : 0 ≤ (t - start) * r.limit := mul_nonneg (by omega) r.limit_nonneg
    omega
  · have hneg : r.window * (net + tokens - r.burst) ≤ 0 :=
      mul_nonpos_of_nonneg_of_nonpos hpos.le (by omega)
    omega
  · have hback : (start - refilled) * r.limit = -((refilled - start) * r.limit) := by ring
    omega

/-- A spend without refill, at a time that has gained no whole token. -/
theorem Within.spend {t n : Int} (ht : start ≤ t)
    (hgain : r.gain (t - refilled) ≤ 0) :
    r.Within start (net + n) (tokens - n) refilled := by
  have hsum : net + n + (tokens - n) = net + tokens := by ring
  rcases h with ⟨hmark, hfit, -⟩ | ⟨hmark, hbooks⟩
  · refine .inl ⟨hmark, by omega, .inr ?_⟩
    have hlt := r.lt_window_of_gain hgain
    have hle : (start - refilled) * r.limit ≤ (t - refilled) * r.limit :=
      mul_le_mul_of_nonneg_right (by omega) r.limit_nonneg
    omega
  · refine .inr ⟨hmark, ?_⟩
    rw [hsum]
    exact hbooks

/-- A booking after the mark has reached the interval: what leaves is taken from the tokens. -/
theorem Within.book (hmark : start ≤ refilled)
    {net' tokens' : Int} (hsum : net' + tokens' ≤ net + tokens) :
    r.Within start net' tokens' refilled := by
  rcases h with ⟨hbefore, -⟩ | ⟨-, hbooks⟩
  · omega
  · refine .inr ⟨hmark, le_trans ?_ hbooks⟩
    exact mul_le_mul_of_nonneg_left (by omega) r.window_pos.le

/-- **The interval bound.**  One burst, what the interval is worth rounded up, and what
the bucket owes at the end. -/
theorem Within.bound {stop : Int} (hstart : start ≤ stop)
    (hmark : refilled ≤ stop) :
    net ≤ r.burst + ((stop - start) * r.limit + (r.window - 1)) / r.window + max 0 (-tokens) := by
  have hpos := r.window_pos
  have hceil : 0 ≤ ((stop - start) * r.limit + (r.window - 1)) / r.window := by
    apply Int.ediv_nonneg _ hpos.le
    have htime : 0 ≤ (stop - start) * r.limit := mul_nonneg (by omega) r.limit_nonneg
    omega
  rcases h with ⟨-, hfit, -⟩ | ⟨-, hbooks⟩
  · omega
  · have htime : (refilled - start) * r.limit ≤ (stop - start) * r.limit :=
      mul_le_mul_of_nonneg_right (by omega) r.limit_nonneg
    have hquot : net + tokens - r.burst ≤
        ((stop - start) * r.limit + (r.window - 1)) / r.window := by
      apply Int.le_ediv_of_mul_le hpos
      rw [mul_comm]
      omega
    omega

end

end Rate

end Headgate.Data
