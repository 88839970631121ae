/-
Numerals, the texts that stand for a number: an optional sign, then digits with
at most one point and at least one digit, then an optional exponent; or, in any
letter case, `inf`, `infinity` or `nan`.
-/
import ExprLang.Number.Decimal

namespace ExprLang.Numeral

/-- The sign in front, if there is one, and the rest; true for a minus. -/
def sign : List Char → Bool × List Char
  | '-' :: rest => (true, rest)
  | '+' :: rest => (false, rest)
  | cs => (false, cs)

/-- The digits at the front and the rest. -/
def digits (cs : List Char) : List Char × List Char :=
  (cs.takeWhile Char.isDigit, cs.dropWhile Char.isDigit)

/-- The natural number that digits write. -/
def natural (ds : List Char) : Nat := Nat.ofDigitChars 10 ds 0

/-- An exponent part, the whole of `cs`: none at all is zero. An exponent further
than `limit` from zero is read as one at that distance. -/
def exponent? (limit : Nat) : List Char → Option Int
  | [] => some 0
  | c :: rest =>
    if c = 'e' ∨ c = 'E' then
      match sign rest with
      | (negative, cs) =>
        if cs ≠ [] ∧ cs.all Char.isDigit then
          let size : Int := min (natural cs) limit
          some (if negative then -size else size)
        else none
    else none

/-- A numeral without sign and words. Three hundred and fifty places beyond the
numeral's own digits the value is past the largest magnitude or under half the
smallest, so an exponent need not be followed further. -/
def decimal? (cs : List Char) : Option Decimal :=
  match digits cs with
  | (whole, rest) =>
    match (match rest with | '.' :: r => digits r | r => ([], r)) with
    | (fraction, rest) =>
      if whole = [] ∧ fraction = [] then none
      else (exponent? (cs.length + 350) rest).map fun e =>
        ⟨natural (whole ++ fraction), e - fraction.length⟩

/-- The number a whole text stands for. -/
def read? (cs : List Char) : Option Number :=
  match sign cs with
  | (negative, body) =>
    match decimal? body with
    | some d => some (d.toNumber negative)
    | none =>
      match body.map Char.toLower with
      | ['n', 'a', 'n'] => some .nan
      | ['i', 'n', 'f'] => some (.infinite negative)
      | ['i', 'n', 'f', 'i', 'n', 'i', 't', 'y'] => some (.infinite negative)
      | _ => none

end ExprLang.Numeral
