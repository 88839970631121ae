/-
Programs: lists of statements, each of which prints the value of an expression
or evaluates it and drops the value.
-/
import ExprLang.Expr

namespace ExprLang

inductive Statement where
  | print (expr : Expr) (line : Nat)
  | expression (expr : Expr) (line : Nat)
deriving DecidableEq, Inhabited

/-- A program is its statements in order. -/
abbrev Program := List Statement

namespace Statement

def line : Statement → Nat
  | .print _ line => line
  | .expression _ line => line

def expr : Statement → Expr
  | .print expr _ => expr
  | .expression expr _ => expr

/-- The written form of a statement; lines do not show. -/
def text : Statement → String
  | .print expr _ => "(print " ++ expr.text ++ ")"
  | .expression expr _ => "(; " ++ expr.text ++ ")"

end Statement
end ExprLang
