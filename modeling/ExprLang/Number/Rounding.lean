/-
Rounding an exact quotient to the nearest magnitude, a tie going to the even
significand. Every operation of the language that can be inexact, and every
numeral that is read, is one exact quotient of natural numbers rounded here.

`round?_units`: a magnitude is its own rounding.
-/
import ExprLang.Number

namespace ExprLang

/-- `a / d` to the nearest natural number, a tie to the even one. -/
def nearestEven (a d : Nat) : Nat :=
  let q := a / d
  let r := a % d
  if 2 * r < d then q
  else if d < 2 * r then q + 1
  else q + q % 2

namespace Magnitude

/-- The least exponent in whose unit `a / d` has no more binary digits than a significand. -/
def unitExponent (a d : Nat) : Nat := (a / d).log2 - fractionBits

/-- The magnitude nearest to `a / d` units; none if that is past the largest. -/
def round? (a d : Nat) : Option Magnitude :=
  let exponent := unitExponent a d
  let significand := nearestEven a (d * Nat.pow 2 exponent)
  if significand = 2 * leadingBit then ofParts? leadingBit (exponent + 1)
  else ofParts? significand exponent

/-- The exponent of a magnitude is the least that its units need. -/
theorem log2_units (m : Magnitude) : m.units.log2 - fractionBits = m.exponent := by
  have hs := m.significand_lt
  have hn := m.normal
  simp only [leadingBit, Nat.pow_eq, ← Nat.pow_succ'] at hs hn
  simp only [units, Nat.pow_eq]
  rcases hn with h | h
  · have hp := Nat.two_pow_pos m.exponent
    have : (m.significand * 2 ^ m.exponent).log2 = fractionBits + m.exponent := by
      refine (Nat.log2_eq_iff (Nat.ne_of_gt (Nat.mul_pos ?_ hp))).2 ⟨?_, ?_⟩
      · exact Nat.lt_of_lt_of_le (Nat.two_pow_pos _) h
      · rw [Nat.pow_add]; exact Nat.mul_le_mul_right _ h
      · rw [Nat.add_right_comm, Nat.pow_add]
        exact Nat.mul_lt_mul_of_pos_right hs hp
    omega
  · rw [h, Nat.pow_zero, Nat.mul_one]
    by_cases h0 : m.significand = 0
    · simp [h0]
    · have := (Nat.log2_lt h0).2 hs
      omega

/-- A magnitude is its own rounding, whatever the quotient that writes it. -/
theorem round?_units (m : Magnitude) {d : Nat} (hd : 0 < d) :
    round? (m.units * d) d = some m := by
  have he : unitExponent (m.units * d) d = m.exponent := by
    rw [unitExponent, Nat.mul_div_cancel _ hd, log2_units]
  have hd2 : 0 < d * Nat.pow 2 m.exponent := Nat.mul_pos hd (Nat.two_pow_pos _)
  have hu : m.units * d = m.significand * (d * Nat.pow 2 m.exponent) := by
    simp only [units, Nat.mul_assoc, Nat.mul_comm d]
  have hn : nearestEven (m.units * d) (d * Nat.pow 2 m.exponent) = m.significand := by
    simp only [nearestEven, hu, Nat.mul_mod_left, Nat.mul_div_cancel _ hd2, Nat.mul_zero, hd2,
      if_true]
  simp only [round?, he, hn, Nat.ne_of_lt m.significand_lt, if_false]
  exact ofParts?_self m

end Magnitude

namespace Number

/-- The number nearest to `a / d` units of that sign; past the largest magnitude, infinity. -/
def ofQuotient (negative : Bool) (a d : Nat) : Number :=
  match Magnitude.round? a d with
  | some m => .finite negative m
  | none => .infinite negative

end Number
end ExprLang
