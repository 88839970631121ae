/-
Expressions, each node with its line, and their written form: the operator first
and every node in parentheses of its own, so that the shape of the tree shows.
-/
import ExprLang.Operator
import ExprLang.Value

namespace ExprLang

inductive Expr where
  | literal (value : Value) (line : Nat)
  | grouping (body : Expr) (line : Nat)
  | unary (op : UnaryOp) (operand : Expr) (line : Nat)
  | binary (left : Expr) (op : BinaryOp) (right : Expr) (line : Nat)
deriving DecidableEq, Inhabited

/-- A value as a literal is written: its text, a string's in quotes. -/
def Value.quotedText : Value → String
  | .string s => "\"" ++ s ++ "\""
  | v => v.text

namespace Expr

/-- The line of the outermost node. -/
def line : Expr → Nat
  | .literal _ line => line
  | .grouping _ line => line
  | .unary _ _ line => line
  | .binary _ _ _ line => line

/-- The written form of an expression; lines do not show. -/
def text : Expr → String
  | .literal value _ => value.quotedText
  | .grouping body _ => "(group " ++ body.text ++ ")"
  | .unary op operand _ => "(" ++ op.symbol ++ " " ++ operand.text ++ ")"
  | .binary left op right _ => "(" ++ op.symbol ++ " " ++ left.text ++ " " ++ right.text ++ ")"

end Expr
end ExprLang
