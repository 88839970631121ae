/-
The operations on numbers: negation, the four arithmetic operations and the
comparison. Sums, products and quotients of finite numbers are computed
exactly and rounded once; the rest are the rules for zeros, infinities and NaN.
-/
import ExprLang.Number.Rounding

namespace ExprLang.Number

/-- The same number with the other sign. -/
def neg : Number → Number
  | .nan => .nan
  | .infinite s => .infinite (!s)
  | .finite s m => .finite (!s) m

/-- A sum that is exactly zero is negative only if both terms are. -/
def add : Number → Number → Number
  | .nan, _ => .nan
  | _, .nan => .nan
  | .infinite s, .infinite t => if s = t then .infinite s else .nan
  | .infinite s, .finite _ _ => .infinite s
  | .finite _ _, .infinite t => .infinite t
  | .finite s x, .finite t y =>
    let sum := signedUnits s x + signedUnits t y
    if sum = 0 then .finite (s && t) .zero
    else ofQuotient (decide (sum < 0)) sum.natAbs 1

def sub (x y : Number) : Number := add x (neg y)

/-- The product of two units is `2 ^ -unitPlaces` of a unit. -/
def mul : Number → Number → Number
  | .nan, _ => .nan
  | _, .nan => .nan
  | .infinite s, .infinite t => .infinite (s ^^ t)
  | .infinite s, .finite t y => if y.units = 0 then .nan else .infinite (s ^^ t)
  | .finite s x, .infinite t => if x.units = 0 then .nan else .infinite (s ^^ t)
  | .finite s x, .finite t y => ofQuotient (s ^^ t) (x.units * y.units) (Nat.pow 2 unitPlaces)

def div : Number → Number → Number
  | .nan, _ => .nan
  | _, .nan => .nan
  | .infinite _, .infinite _ => .nan
  | .infinite s, .finite t _ => .infinite (s ^^ t)
  | .finite s _, .infinite t => .finite (s ^^ t) .zero
  | .finite s x, .finite t y =>
    if y.units = 0 then
      if x.units = 0 then .nan else .infinite (s ^^ t)
    else ofQuotient (s ^^ t) (x.units * Nat.pow 2 unitPlaces) y.units

/-- The order of two numbers; a NaN has none, and the two zeros are equal. -/
def compare? : Number → Number → Option Ordering
  | .nan, _ => none
  | _, .nan => none
  | .infinite s, .infinite t => some (compare t.toNat s.toNat)
  | .infinite s, .finite _ _ => some (if s then .lt else .gt)
  | .finite _ _, .infinite t => some (if t then .gt else .lt)
  | .finite s x, .finite t y => some (compare (signedUnits s x) (signedUnits t y))

def lt (x y : Number) : Bool := compare? x y == some .lt

def le (x y : Number) : Bool := compare? x y == some .lt || compare? x y == some .eq

/-- Equality of the values: a NaN differs from itself, the two zeros agree. -/
def equal (x y : Number) : Bool := compare? x y == some .eq

end ExprLang.Number
