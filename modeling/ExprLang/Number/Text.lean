/-
The text of a number: the fewest decimal digits that read back to the same
number, always written positionally. Of two decimals with that many digits the
nearer one is taken, and of two equally near ones the larger.

`shortestDecimal_magnitude?`: the decimal that is written reads back.
-/
import ExprLang.Number.Decimal

namespace ExprLang

namespace Magnitude

/-- The decimal that is exactly the magnitude. With `k` binary places after the
point, `2 ^ -k` is `5 ^ k * 10 ^ -k`; a magnitude of whole numbers has `k = 0`. -/
def exactDecimal (m : Magnitude) : Decimal :=
  ⟨m.significand * Nat.pow 2 (m.exponent - unitPlaces) * Nat.pow 5 (unitPlaces - m.exponent),
    -((unitPlaces - m.exponent : Nat) : Int)⟩

/-- The grid of decimals whose last place is `place` places above that of the
exact decimal has two points next to the magnitude, one below and one above; of
those that read back to it, the nearer. -/
def onGrid? (m : Magnitude) (place : Nat) : Option Decimal :=
  let exact := m.exactDecimal
  let step := Nat.pow 10 place
  let below := Decimal.stripZeros ⟨exact.coefficient / step, exact.exponent + place⟩
  let above := Decimal.stripZeros ⟨exact.coefficient / step + 1, exact.exponent + place⟩
  match below.magnitude? == some m, above.magnitude? == some m with
  | true, true => some (if 2 * (exact.coefficient % step) < step then below else above)
  | true, false => some below
  | false, true => some above
  | false, false => none

/-- The shortest decimal that reads back to the magnitude: the grids are tried
from one digit up, and seventeen digits tell any two magnitudes apart. -/
def shortestDecimal (m : Magnitude) : Decimal :=
  let length := (Nat.toDigits 10 m.exactDecimal.coefficient).length
  ((List.range 17).findSome? fun n => m.onGrid? (length - (n + 1))).getD m.exactDecimal

/-- The exact decimal reads back. -/
theorem exactDecimal_magnitude? (m : Magnitude) : m.exactDecimal.magnitude? = some m := by
  by_cases h : unitPlaces ≤ m.exponent
  · have hk : unitPlaces - m.exponent = 0 := by omega
    have hp : Nat.pow 2 (m.exponent - unitPlaces) * Nat.pow 2 unitPlaces =
        Nat.pow 2 m.exponent := by
      simp only [Nat.pow_eq]
      rw [← Nat.pow_add]; congr 1; omega
    have hz (b : Nat) : Nat.pow b 0 = 1 := rfl
    have := round?_units m Nat.one_pos
    simpa only [Decimal.magnitude?, exactDecimal, hk, Int.natCast_zero, Int.neg_zero, Int.le_refl,
      if_true, Int.toNat_zero, hz, Nat.mul_one, Nat.mul_assoc, hp, units] using this
  · have hk : m.exponent - unitPlaces = 0 := by omega
    have hneg : ¬ (0 : Int) ≤ -((unitPlaces - m.exponent : Nat) : Int) := by omega
    have hp : Nat.pow 5 (unitPlaces - m.exponent) * Nat.pow 2 unitPlaces =
        Nat.pow 2 m.exponent * Nat.pow 10 (unitPlaces - m.exponent) := by
      simp only [Nat.pow_eq]
      rw [show (10 : Nat) = 5 * 2 from rfl, Nat.mul_pow, Nat.mul_left_comm, ← Nat.pow_add]
      congr 2; omega
    have hz (b : Nat) : Nat.pow b 0 = 1 := rfl
    have hd : 0 < Nat.pow 10 (unitPlaces - m.exponent) := Nat.pow_pos (show 0 < 10 by decide)
    have := round?_units m hd
    simpa only [Decimal.magnitude?, exactDecimal, hneg, if_false, hk, hz, Nat.mul_one,
      Int.neg_neg, Int.toNat_natCast, Nat.mul_assoc, hp, units] using this

/-- A decimal found on a grid reads back: it was taken for no other reason. -/
theorem onGrid?_magnitude? {m : Magnitude} {place : Nat} {d : Decimal}
    (h : m.onGrid? place = some d) : d.magnitude? = some m := by
  simp only [onGrid?] at h
  split at h
  · next hb ha =>
    simp only [Option.some.injEq] at h
    split at h
    · subst h; exact eq_of_beq hb
    · subst h; exact eq_of_beq ha
  · next hb _ => cases h; exact eq_of_beq hb
  · next _ ha => cases h; exact eq_of_beq ha
  · cases h

/-- The shortest decimal reads back. -/
theorem shortestDecimal_magnitude? (m : Magnitude) : m.shortestDecimal.magnitude? = some m := by
  simp only [shortestDecimal]
  cases h : (List.range 17).findSome? fun n =>
      m.onGrid? ((Nat.toDigits 10 m.exactDecimal.coefficient).length - (n + 1)) with
  | none => exact exactDecimal_magnitude? m
  | some d =>
    obtain ⟨n, _, hd⟩ := List.exists_of_findSome?_eq_some h
    exact onGrid?_magnitude? hd

end Magnitude

namespace Decimal

/-- The positional form: zeros up to the point if the exponent is not negative,
else a point before the last places, with at least one digit in front of it. -/
def digits (d : Decimal) : List Char :=
  let ds := Nat.toDigits 10 d.coefficient
  if 0 ≤ d.exponent then ds ++ List.replicate d.exponent.toNat '0'
  else
    let places := (-d.exponent).toNat
    let padded := List.replicate (places + 1 - ds.length) '0' ++ ds
    padded.take (padded.length - places) ++ '.' :: padded.drop (padded.length - places)

end Decimal

namespace Number

/-- The characters of a number's text. -/
def chars : Number → List Char
  | .nan => ['N', 'a', 'N']
  | .infinite negative => sign negative ++ ['i', 'n', 'f']
  | .finite negative m => sign negative ++ m.shortestDecimal.digits
where
  sign (negative : Bool) : List Char := if negative then ['-'] else []

/-- The text of a number. -/
def text (x : Number) : String := String.ofList x.chars

end Number
end ExprLang
