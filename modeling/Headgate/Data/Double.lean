import Mathlib

/-!
# Floor divisions in double precision

A script without integers computes `math.floor(x / y)` in binary64: a product is
rounded to 53 significant bits, the quotient is rounded again, and then the floor
is taken.  On natural numbers all of this can be followed in integers.  If the
product is below 2^53, the result is the floor of the exact quotient
(`floorDiv_eq`); above that either rounding can cross an integer.
-/

namespace Headgate.Data

variable {a b s : Nat} {x y : Int}

/-- `a / b` rounded to the nearest integer, ties to even. -/
def roundDiv (a b : Nat) : Nat :=
  if 2 * (a % b) < b ∨ 2 * (a % b) = b ∧ a / b % 2 = 0 then a / b else a / b + 1

/-- A number rounded to 53 significant bits. -/
def round53 (n : Nat) : Nat :=
  let ulp := 2 ^ (n.log2 - 52)
  roundDiv n ulp * ulp

/-- The floor of `a / b` rounded to 53 significant bits. -/
def floorQuotient (a b : Nat) : Nat :=
  let e := (a / b).log2
  -- below one the last bit is worth 2^-53 at most, and only a half or more can reach one
  let up := if a < b then 2 ^ 53 else 2 ^ (52 - e)
  let down := 2 ^ (e - 52)
  roundDiv (a * up) (b * down) * down / up

/-- `math.floor(x / y)` of an exact product `x`. -/
def floorDiv (x y : Int) : Int :=
  if 0 < x then floorQuotient (round53 x.toNat) y.toNat else x / y

@[simp] theorem floorDiv_zero : floorDiv 0 y = 0 := by simp [floorDiv]

theorem round53_eq (h : a < 2 ^ 53) : round53 a = a := by
  have hlog : a.log2 - 52 = 0 := by
    rcases Nat.eq_zero_or_pos a with rfl | hpos
    · rfl
    · have hlt := (Nat.log2_lt hpos.ne').mpr h
      omega
  simp [round53, roundDiv, hlog, Nat.mod_one]

/-- A rounding in units of `1 / s` does not reach the next integer if these are fine enough. -/
theorem roundDiv_scaled (hb : 0 < b) (hs : b < 2 * s) : roundDiv (a * s) b / s = a / b := by
  have hspos : 0 < s := by omega
  have hr := Nat.mod_lt a hb
  have hsplit := Nat.div_add_mod a b
  have hsplit' := Nat.div_add_mod (a * s) b
  generalize a / b = q, a % b = r at hr hsplit ⊢
  subst hsplit
  have hlow : q * s ≤ (b * q + r) * s / b := by
    rw [Nat.le_div_iff_mul_le hb]
    nlinarith
  have hhigh : (b * q + r) * s / b < (q + 1) * s := by
    rw [Nat.div_lt_iff_lt_mul hb]
    nlinarith
  have hround : roundDiv ((b * q + r) * s) b < (q + 1) * s := by
    unfold roundDiv
    split
    · exact hhigh
    · rename_i hup
      by_contra hreach
      -- the quotient would be within half a unit of the next integer
      have hnext : (b * q + r) * s / b + 1 = (q + 1) * s := by omega
      generalize (b * q + r) * s / b = m at *
      have hm : m = (q + 1) * s - 1 := by omega
      subst hm
      generalize (b * q + r) * s % b = ρ at *
      have hρ : ρ + s * (b - r) = b := by
        have hbr : b - r + r = b := by omega
        have h1 : 1 ≤ (q + 1) * s := by nlinarith
        zify [h1] at hsplit'
        zify [hr.le]
        nlinarith
      have hsr : s ≤ s * (b - r) := Nat.le_mul_of_pos_right s (by omega)
      omega
  rw [Nat.div_eq_iff hspos]
  have hle : (b * q + r) * s / b ≤ roundDiv ((b * q + r) * s) b := by
    unfold roundDiv
    split <;> omega
  constructor
  · omega
  · have : (q + 1) * s = q * s + s := by ring
    omega

theorem floorQuotient_eq (hb : 0 < b) (ha : a < 2 ^ 53) (hb' : b ≤ 2 ^ 53) :
    floorQuotient a b = a / b := by
  by_cases hlt : a < b
  · have hzero : (a / b).log2 - 52 = 0 := by
      rw [Nat.div_eq_of_lt hlt]
      rfl
    simp only [floorQuotient, hlt, if_true, hzero, pow_zero, mul_one]
    exact roundDiv_scaled hb (by omega)
  · have hq : 0 < a / b := Nat.div_pos (not_lt.mp hlt) hb
    have hpow := Nat.log2_self_le hq.ne'
    have hlog : (a / b).log2 < 53 :=
      (Nat.log2_lt hq.ne').mpr (lt_of_le_of_lt (Nat.div_le_self a b) ha)
    have hzero : (a / b).log2 - 52 = 0 := by omega
    simp only [floorQuotient, hlt, if_false, hzero, pow_zero, mul_one]
    apply roundDiv_scaled hb
    -- a quotient of `e` bits leaves `53 - e` bits for the divisor
    have hmul : b * 2 ^ (a / b).log2 < 2 ^ (53 - (a / b).log2) * 2 ^ (a / b).log2 := by
      rw [← pow_add, Nat.sub_add_cancel hlog.le]
      exact lt_of_le_of_lt (Nat.mul_le_mul_left b hpow)
        (lt_of_le_of_lt (Nat.mul_div_le a b) ha)
    have hb := lt_of_mul_lt_mul_right hmul (Nat.zero_le _)
    rwa [show 53 - (a / b).log2 = 52 - (a / b).log2 + 1 by omega, pow_succ, mul_comm] at hb

/-- **Below 2^53 the division is exact.** -/
theorem floorDiv_eq (hy : 0 < y) (hx : x < 2 ^ 53) (hy' : y ≤ 2 ^ 53) : floorDiv x y = x / y := by
  unfold floorDiv
  split
  · rename_i hpos
    lift x to Nat using hpos.le
    lift y to Nat using hy.le
    rw [Int.toNat_natCast, Int.toNat_natCast, round53_eq (by exact_mod_cast hx),
      floorQuotient_eq (by exact_mod_cast hy) (by exact_mod_cast hx) (by exact_mod_cast hy')]
    rfl
  · rfl

end Headgate.Data
