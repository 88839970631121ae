/-
Decimals, `coefficient * 10 ^ exponent`, and the magnitude nearest to one.
-/
import ExprLang.Number.Rounding

namespace ExprLang

/-- The exact value `coefficient * 10 ^ exponent`. -/
structure Decimal where
  coefficient : Nat
  exponent : Int
deriving DecidableEq, Inhabited

namespace Decimal

/-- The magnitude nearest to the decimal; none if that is past the largest. -/
def magnitude? (d : Decimal) : Option Magnitude :=
  if 0 ≤ d.exponent then
    Magnitude.round? (d.coefficient * Nat.pow 10 d.exponent.toNat * Nat.pow 2 unitPlaces) 1
  else Magnitude.round? (d.coefficient * Nat.pow 2 unitPlaces) (Nat.pow 10 (-d.exponent).toNat)

/-- The number nearest to the decimal with that sign; past the largest magnitude, infinity. -/
def toNumber (negative : Bool) (d : Decimal) : Number :=
  match d.magnitude? with
  | some m => .finite negative m
  | none => .infinite negative

/-- The same value with the zeros at the coefficient's end moved into the exponent. -/
def stripZeros (d : Decimal) : Decimal :=
  if h : d.coefficient = 0 then ⟨0, 0⟩
  else if d.coefficient % 10 = 0 then stripZeros ⟨d.coefficient / 10, d.exponent + 1⟩
  else d
termination_by d.coefficient
decreasing_by omega

end Decimal
end ExprLang
