import Mathlib.Data.List.Basic
import Mathlib.Tactic.IntervalCases

/-!
# Trace headers

A `traceparent` has four fields between dashes: the version, the trace, the span and the flags.
Reading undoes rendering and rendering undoes reading.  The `tracestate` travels in a header of
its own, and reading leaves it empty.
-/

namespace Headgate.Core

structure TraceContext where
  traceId : List Char
  spanId : List Char
  traceFlags : UInt8
  traceState : List Char

def hexDigits : List Char := "0123456789abcdef".toList

/-- A byte as two digits, the format `02x`. -/
def hexByte (b : UInt8) : List Char :=
  [Nat.digitChar (b.toNat / 16), Nat.digitChar (b.toNat % 16)]

def TraceContext.toTraceparent (c : TraceContext) : List Char :=
  "00-".toList ++ c.traceId ++ '-' :: c.spanId ++ '-' :: hexByte c.traceFlags

def isLowerHex (s : List Char) (len : Nat) : Bool :=
  s.length == len && s.all fun b => b.isDigit || ('a' ≤ b && b ≤ 'f')

/-- The byte that lower-case digits of base sixteen write. -/
def fromStrRadix (s : List Char) : Option UInt8 := do
  let n ← s.foldlM (fun n c => (hexDigits.idxOf? c).map (16 * n + ·)) 0
  if n < 256 then some (.ofNat n) else none

def parseTraceparent (value : List Char) : Option TraceContext :=
  match value.splitOn '-' with
  | [version, traceId, spanId, flags] =>
    if version ≠ "00".toList ∨ !isLowerHex traceId 32 ∨ !isLowerHex spanId 16
        ∨ !isLowerHex flags 2 then none
    else if traceId.all (· == '0') ∨ spanId.all (· == '0') then none
    else (fromStrRadix flags).map fun traceFlags => ⟨traceId, spanId, traceFlags, []⟩
  | _ => none

/-! ## Section 1: The grammar -/

def HexField (len : Nat) (s : List Char) : Prop := s.length = len ∧ ∀ c ∈ s, c ∈ hexDigits

/-- An identifier has a digit that is not zero. -/
def IdField (len : Nat) (s : List Char) : Prop := HexField len s ∧ ∃ c ∈ s, c ≠ '0'

structure TraceContext.Valid (c : TraceContext) : Prop where
  traceId : IdField 32 c.traceId
  spanId : IdField 16 c.spanId

/-- The accepted version with valid identifiers and two digits of flags. -/
def Supported (value : List Char) : Prop :=
  ∃ traceId spanId flags, IdField 32 traceId ∧ IdField 16 spanId ∧ HexField 2 flags ∧
    value = ['-'].intercalate ["00".toList, traceId, spanId, flags]

theorem mem_hexDigits {c : Char} : c ∈ hexDigits ↔ ∃ n < 16, Nat.digitChar n = c := by
  have hdigits : hexDigits = (List.range 16).map Nat.digitChar := by decide
  simp only [hdigits, List.mem_map, List.mem_range]

theorem isLowerHex_iff {s : List Char} {len : Nat} : isLowerHex s len = true ↔ HexField len s := by
  have hdigit (c : Char) : (c.isDigit || ('a' ≤ c && c ≤ 'f')) = true ↔ c ∈ hexDigits := by
    constructor
    · intro h
      simp only [Char.isDigit, Char.le_def, UInt32.le_iff_toNat_le, Bool.or_eq_true,
        Bool.and_eq_true, decide_eq_true_eq] at h
      change (48 ≤ c.toNat ∧ c.toNat ≤ 57) ∨ (97 ≤ c.toNat ∧ c.toNat ≤ 102) at h
      rw [← Char.ofNat_toNat c]
      generalize c.toNat = n at h
      rcases h with ⟨hlow, hhigh⟩ | ⟨hlow, hhigh⟩
      · interval_cases n <;> decide
      · interval_cases n <;> decide
    · intro h
      obtain ⟨n, hn, rfl⟩ := mem_hexDigits.mp h
      interval_cases n <;> decide
  simp only [isLowerHex, HexField, Bool.and_eq_true, beq_iff_eq, List.all_eq_true, hdigit]

theorem hexField_hexByte (b : UInt8) : HexField 2 (hexByte b) := by
  have hb := b.toNat_lt
  refine ⟨rfl, ?_⟩
  simp only [hexByte, List.forall_mem_cons, mem_hexDigits]
  exact ⟨⟨_, by omega, rfl⟩, ⟨_, by omega, rfl⟩, nofun⟩

theorem fromStrRadix_hexByte (b : UInt8) : fromStrRadix (hexByte b) = some b := by
  have hdigit : ∀ n : Fin 16, hexDigits.idxOf? (Nat.digitChar n) = some n.val := by decide
  have hb := b.toNat_lt
  have hhigh := hdigit ⟨b.toNat / 16, by omega⟩
  have hlow := hdigit ⟨b.toNat % 16, by omega⟩
  have hsum : 16 * (b.toNat / 16) + b.toNat % 16 = b.toNat := by omega
  simp [fromStrRadix, hexByte, hhigh, hlow, hsum, hb]

/-- Two digits are the digits of a byte. -/
theorem exists_hexByte {s : List Char} (h : HexField 2 s) : ∃ b, s = hexByte b := by
  obtain ⟨hlength, hall⟩ := h
  obtain ⟨c, d, rfl⟩ := List.length_eq_two.mp hlength
  obtain ⟨m, hm, rfl⟩ := mem_hexDigits.mp (hall c (by simp))
  obtain ⟨n, hn, rfl⟩ := mem_hexDigits.mp (hall d (by simp))
  refine ⟨.ofNat (16 * m + n), ?_⟩
  have hvalue : (UInt8.ofNat (16 * m + n)).toNat = 16 * m + n := by
    simp only [UInt8.toNat_ofNat']
    omega
  unfold hexByte
  rw [hvalue]
  congr <;> omega

/-! ## Section 2: The round trips -/

theorem toTraceparent_eq (c : TraceContext) : c.toTraceparent =
    ['-'].intercalate ["00".toList, c.traceId, c.spanId, hexByte c.traceFlags] := by
  simp [TraceContext.toTraceparent, List.intercalate]

/-- The contexts that reading gives, and the texts it gives them for. -/
theorem parseTraceparent_eq_some_iff {value : List Char} {c : TraceContext} :
    parseTraceparent value = some c ↔ c.Valid ∧ c.traceState = [] ∧ c.toTraceparent = value := by
  constructor
  · intro h
    have hvalue : ['-'].intercalate (value.splitOn '-') = value := List.intercalate_splitOn '-'
    unfold parseTraceparent at h
    split at h
    · rename_i version traceId spanId flags hparts
      rw [hparts] at hvalue
      split_ifs at h with hfields hzero
      simp only [ne_eq, Bool.not_eq_true', not_or, not_not, Bool.not_eq_false,
        isLowerHex_iff] at hfields
      obtain ⟨rfl, htrace, hspan, hflags⟩ := hfields
      simp only [List.all_eq_true, beq_iff_eq, not_or, not_forall, exists_prop] at hzero
      obtain ⟨b, rfl⟩ := exists_hexByte hflags
      rw [fromStrRadix_hexByte] at h
      cases h
      exact ⟨⟨⟨htrace, hzero.1⟩, hspan, hzero.2⟩, rfl, (toTraceparent_eq _).trans hvalue⟩
    · cases h
  · rintro ⟨⟨htrace, hspan⟩, hstate, rfl⟩
    have hflags := hexField_hexByte c.traceFlags
    have hdash {len : Nat} {s : List Char} (h : HexField len s) : '-' ∉ s :=
      fun hin => absurd (h.2 _ hin) (by decide)
    have hparts : c.toTraceparent.splitOn '-' =
        ["00".toList, c.traceId, c.spanId, hexByte c.traceFlags] := by
      rw [toTraceparent_eq]
      apply List.splitOn_intercalate
      · simp [hdash htrace.1, hdash hspan.1, hdash hflags]
      · simp
    unfold parseTraceparent
    rw [hparts]
    dsimp only
    rw [if_neg, if_neg, fromStrRadix_hexByte, ← hstate]
    · rfl
    · simpa using ⟨htrace.2, hspan.2⟩
    · simpa [isLowerHex_iff] using ⟨htrace.1, hspan.1, hflags⟩

/-- **Trace headers round-trip**: reading accepts the supported texts, it gives a rendered
context back with an empty `tracestate`, and rendering gives an accepted text back. -/
theorem traceparent_roundTrip :
    (∀ value, (∃ c, parseTraceparent value = some c) ↔ Supported value) ∧
    (∀ c : TraceContext, c.Valid →
      parseTraceparent c.toTraceparent = some { c with traceState := [] }) ∧
    ∀ value c, parseTraceparent value = some c → c.toTraceparent = value := by
  simp only [parseTraceparent_eq_some_iff]
  refine ⟨fun value => ⟨?_, ?_⟩, fun c hvalid => ⟨⟨hvalid.1, hvalid.2⟩, trivial, rfl⟩,
    fun value c h => h.2.2⟩
  · rintro ⟨c, hvalid, -, rfl⟩
    exact ⟨_, _, _, hvalid.traceId, hvalid.spanId, hexField_hexByte _, toTraceparent_eq c⟩
  · rintro ⟨traceId, spanId, flags, htrace, hspan, hflags, rfl⟩
    obtain ⟨b, rfl⟩ := exists_hexByte hflags
    exact ⟨⟨traceId, spanId, b, []⟩, ⟨htrace, hspan⟩, rfl, toTraceparent_eq _⟩

/-- A `tracestate` is lost on the way. -/
theorem tracestate_lost : ∃ c : TraceContext, c.Valid ∧
    parseTraceparent c.toTraceparent ≠ some c := by
  have hones (n : Nat) : IdField (n + 1) (List.replicate (n + 1) '1') :=
    ⟨⟨List.length_replicate, fun c hc => List.eq_of_mem_replicate hc ▸ by decide⟩, '1',
      List.mem_cons_self, by decide⟩
  refine ⟨⟨_, _, 1, "vendor=1".toList⟩, ⟨hones 31, hones 15⟩, fun h => ?_⟩
  exact absurd (parseTraceparent_eq_some_iff.mp h).2.1 (by decide)

end Headgate.Core
