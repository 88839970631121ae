/-
Reading a list of tokens as a program: statements until the token that ends the
input, or until there are no more tokens.
-/
import ExprLang.Expr.Reading
import ExprLang.Program
import ExprLang.Token.Scan

namespace ExprLang

namespace Statement

/-- An expression and the semicolon after it. -/
def readBody (message : String) (ts : List Token) : Phrase Expr ts.length :=
  match Expr.read ts with
  | .refused error rest => .refused error rest
  | .taken expr rest shorter =>
    ((Phrase.expect .semicolon message rest).map fun _ => expr).weaken (Nat.le_of_lt shorter)

/-- One statement. Its line is that of its first token. -/
def read (ts : List Token) : Phrase Statement ts.length :=
  match ts with
  | [] => (readBody "Expect ';' after expression." []).map fun expr => .expression expr 0
  | t :: ts =>
    if t.kind = .printWord then
      ((readBody "Expect ';' after value." ts).map fun expr => .print expr t.line).weaken
        (length_le_cons t ts)
    else (readBody "Expect ';' after expression." (t :: ts)).map fun expr => .expression expr t.line

end Statement

namespace Program

/-- The statements up to the end of the input. -/
def read (ts : List Token) : Except SyntaxError Program :=
  match ts with
  | [] => .ok []
  | t :: ts =>
    if t.kind = .endOfInput then .ok []
    else
      match Statement.read (t :: ts) with
      | .refused error _ => .error error
      | .taken statement rest _ =>
        match read rest with
        | .ok statements => .ok (statement :: statements)
        | .error error => .error error
termination_by ts.length
decreasing_by assumption

/-- The program that a source text is. -/
def parse (source : String) : Except Error Program :=
  match Token.scan source with
  | .error error => .error (.lexical error)
  | .ok tokens =>
    match read tokens with
    | .error error => .error (.syntactic error)
    | .ok program => .ok program

end Program
end ExprLang
