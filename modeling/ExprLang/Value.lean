/-
The values of the language, which are also what a literal stands for: nil, the
truth values, numbers and strings.
-/
import ExprLang.Number.Arithmetic
import ExprLang.Number.Text

namespace ExprLang

inductive Value where
  | nil
  | bool (value : Bool)
  | number (value : Number)
  | string (value : String)
deriving DecidableEq, Inhabited

namespace Value

/-- The text that printing a value writes; a string is written without its quotes. -/
def text : Value → String
  | .nil => "nil"
  | .bool true => "true"
  | .bool false => "false"
  | .number x => x.text
  | .string s => s

/-- Nil and false count as false, every other value as true. -/
def isTruthy : Value → Bool
  | .nil => false
  | .bool b => b
  | .number _ => true
  | .string _ => true

/-- The number, if the value is one. -/
def number? : Value → Option Number
  | .number x => some x
  | _ => none

def isString : Value → Bool
  | .string _ => true
  | _ => false

/-- Equality as the language has it: values of two types differ, numbers are
compared by value. -/
def equal : Value → Value → Bool
  | .nil, .nil => true
  | .bool a, .bool b => a == b
  | .number x, .number y => x.equal y
  | .string s, .string t => s == t
  | _, _ => false

end Value
end ExprLang
