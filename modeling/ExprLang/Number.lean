/-
The numbers of the language: double precision, as data. A finite number is a
sign and a magnitude, a whole count of units of `2 ^ -unitPlaces`, the smallest
positive double; so every finite double is an integer here and the arithmetic
on them is exact arithmetic on `Nat` and `Int`, rounded once at the end.

There is one NaN: neither its sign nor its payload can be told apart by any
operation of the language.
-/

namespace ExprLang

/-! ## The format -/

/-- The binary digits of a significand after its first. -/
def fractionBits : Nat := 52

/-- The weight of a full significand's first digit. -/
def leadingBit : Nat := Nat.pow 2 fractionBits

/-- The exponent of the largest magnitudes. -/
def largestExponent : Nat := 2045

/-- The binary places after the point of the smallest positive number. What is
proved of numbers does not depend on how many there are, and a power of two with
this exponent is better not computed in passing. -/
@[irreducible] def unitPlaces : Nat := 1074

/-! ## Magnitudes -/

/-- A finite magnitude, `significand * 2 ^ exponent` units, in its one normal
form: the significand has all its binary digits unless the exponent is the least. -/
structure Magnitude where
  significand : Nat
  exponent : Nat
  significand_lt : significand < 2 * leadingBit
  normal : leadingBit ≤ significand ∨ exponent = 0
  exponent_le : exponent ≤ largestExponent
deriving DecidableEq

namespace Magnitude

/-- The magnitude with these two fields, if they are in normal form and in range. -/
def ofParts? (significand exponent : Nat) : Option Magnitude :=
  if h : significand < 2 * leadingBit ∧ (leadingBit ≤ significand ∨ exponent = 0) ∧
      exponent ≤ largestExponent then
    some ⟨significand, exponent, h.1, h.2.1, h.2.2⟩
  else none

def zero : Magnitude := ⟨0, 0, by decide, .inr rfl, by decide⟩

instance : Inhabited Magnitude := ⟨zero⟩

/-- The magnitude as a count of units. -/
def units (m : Magnitude) : Nat := m.significand * Nat.pow 2 m.exponent

theorem ofParts?_self (m : Magnitude) : ofParts? m.significand m.exponent = some m := by
  simp only [ofParts?, m.significand_lt, m.normal, m.exponent_le, and_self, dite_true]

end Magnitude

/-! ## Numbers -/

/-- A double precision number. -/
inductive Number where
  | nan
  | infinite (negative : Bool)
  | finite (negative : Bool) (magnitude : Magnitude)
deriving DecidableEq

namespace Number

instance : Inhabited Number := ⟨.nan⟩

/-- The value of a finite number in units. -/
def signedUnits (negative : Bool) (m : Magnitude) : Int :=
  if negative then -(m.units : Int) else m.units

/-! ## The 64-bit interchange form -/

/-- How many values the exponent field has. -/
def exponentValues : Nat := 2048

/-- The exponent field of infinities and NaNs. -/
def allOnes : Nat := exponentValues - 1

/-- What the sign bit adds to a word. -/
def signBit (negative : Bool) : Nat := if negative then exponentValues * leadingBit else 0

/-- Reads sign, biased exponent and fraction out of 64 bits. -/
def ofBits (bits : UInt64) : Number :=
  let word := bits.toNat
  let negative := decide (signBit true ≤ word)
  let biased := word / leadingBit % exponentValues
  let fraction := word % leadingBit
  if biased = allOnes then
    if fraction = 0 then .infinite negative else .nan
  else if biased = 0 then
    ((Magnitude.ofParts? fraction 0).map (.finite negative)).getD .nan
  else
    ((Magnitude.ofParts? (leadingBit + fraction) (biased - 1)).map (.finite negative)).getD .nan

/-- The 64 bits of a number; the NaN is written as the quiet one without sign. -/
def toBits : Number → UInt64
  | .nan => UInt64.ofNat (allOnes * leadingBit + leadingBit / 2)
  | .infinite negative => UInt64.ofNat (signBit negative + allOnes * leadingBit)
  | .finite negative m =>
    UInt64.ofNat (signBit negative +
      if m.significand < leadingBit then m.significand
      else m.exponent * leadingBit + m.significand)

end Number
end ExprLang
