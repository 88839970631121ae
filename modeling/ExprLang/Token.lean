/-
Tokens: a kind, the text it was read from, the value it stands for if it is a
literal, and the line its text ends on.
-/
import ExprLang.Token.Kind
import ExprLang.Value
import ExprLang.Number.Numeral

namespace ExprLang

structure Token where
  kind : Kind
  lexeme : String
  literal : Option Value
  line : Nat
deriving DecidableEq, Inhabited

namespace Token

/-- What stands between a quote at the start and another at the end. -/
def unquote? : List Char → Option (List Char)
  | '"' :: rest => if rest.getLast? = some '"' then some rest.dropLast else none
  | _ => none

/-- The value that a lexeme of this kind stands for: a number's numeral is read,
a string's quotes are taken off. -/
def literalOf (kind : Kind) (lexeme : String) : Option Value :=
  match kind with
  | .number => (Numeral.read? lexeme.toList).map .number
  | .string => (unquote? lexeme.toList).map fun cs => .string (String.ofList cs)
  | _ => none

/-- The token with this text, its value read from the text. -/
def ofLexeme (kind : Kind) (lexeme : String) (line : Nat) : Token :=
  ⟨kind, lexeme, literalOf kind lexeme, line⟩

/-- One line that shows all of a token but its line number. -/
def text (t : Token) : String :=
  "type: " ++ t.kind.name ++ " lexeme: " ++ t.lexeme ++ " literal: " ++
    (match t.literal with | some v => v.text | none => "null")

end Token
end ExprLang
