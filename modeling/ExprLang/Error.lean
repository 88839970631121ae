/-
What can go wrong, by stage: cutting the text into tokens, reading the tokens as
a program, and running the program. An error is a cause and a line; its message
is made from these and from nothing else.
-/
import ExprLang.Token

namespace ExprLang

/-! ## Cutting the text into tokens -/

inductive LexicalCause where
  | unexpectedCharacter (character : Char)
  | unterminatedString
deriving DecidableEq, Inhabited

structure LexicalError where
  cause : LexicalCause
  line : Nat
deriving DecidableEq, Inhabited

def LexicalCause.message : LexicalCause → String
  | .unexpectedCharacter _ => "Unexpected character."
  | .unterminatedString => "Unterminated string."

def LexicalError.message (e : LexicalError) : String :=
  "[line " ++ e.line.repr ++ "] Error : " ++ e.cause.message

/-! ## Reading the tokens as a program -/

/-- What the grammar asked for and did not find. -/
inductive Expected where
  | expression
  /-- A token of one certain kind; the message says which and where. -/
  | token (message : String)
deriving DecidableEq, Inhabited

/-- A syntax error stands at a token: `found` is its text, or nothing at the end
of the input. -/
structure SyntaxError where
  expected : Expected
  found : Option String
  line : Nat
deriving DecidableEq, Inhabited

def Expected.message : Expected → String
  | .expression => "Expect expression."
  | .token message => message

namespace SyntaxError

/-- The error at a token. The token that ends the input has no text to show, and
where there is no token at all there is no line either. -/
def located (expected : Expected) : Option Token → SyntaxError
  | some t => ⟨expected, if t.kind = .endOfInput then none else some t.lexeme, t.line⟩
  | none => ⟨expected, none, 0⟩

def message (e : SyntaxError) : String :=
  "[line " ++ e.line.repr ++ "] Error at " ++
    (match e.found with | some lexeme => "'" ++ lexeme ++ "'" | none => "end") ++
    ": " ++ e.expected.message

end SyntaxError

/-! ## Running the program -/

/-- The rules that serve several operators and are handed the one they are to apply.
Addition has a rule to itself, which is handed none. -/
inductive OperatorRule where
  | scalar | comparison | equality
deriving DecidableEq, Inhabited

inductive RuntimeCause where
  | expectedNumber
  | expectedNumbers (op : BinaryOp)
  | invalidAddition
  | output (details : String)
  /-- An operator was handed to a rule that does not serve it. -/
  | foreignOperator (rule : OperatorRule)
deriving DecidableEq, Inhabited

structure RuntimeError where
  cause : RuntimeCause
  line : Nat
deriving DecidableEq, Inhabited

/-- The text of a defect that no program can bring about. -/
def OperatorRule.foreignMessage (rule : OperatorRule) : String :=
  "internal error: entered unreachable code: " ++
    match rule with
    | .scalar => "eval_scalar_op used with non arithmetic operator"
    | .comparison => "eval_comparison used with non relational operator"
    | .equality => "eval_equality used with non equality operator"

def RuntimeCause.message : RuntimeCause → String
  | .expectedNumber => "Operand must be a number."
  | .expectedNumbers _ => "Operands must be numbers."
  | .invalidAddition => "Operands must be two numbers or at least one string."
  | .output details => "Failed to write output: " ++ details ++ "."
  | .foreignOperator rule => rule.foreignMessage

def RuntimeError.message (e : RuntimeError) : String :=
  "[line " ++ e.line.repr ++ "] Runtime error: " ++ e.cause.message

/-! ## An error of any stage -/

inductive Error where
  | lexical (error : LexicalError)
  | syntactic (error : SyntaxError)
  | runtime (error : RuntimeError)
deriving DecidableEq, Inhabited

namespace Error

def message : Error → String
  | .lexical e => e.message
  | .syntactic e => e.message
  | .runtime e => e.message

def line : Error → Nat
  | .lexical e => e.line
  | .syntactic e => e.line
  | .runtime e => e.line

/-- A program that cannot be read is bad data, one that fails when run is a
failure of the run. -/
def exitCode : Error → Nat
  | .lexical _ => 65
  | .syntactic _ => 65
  | .runtime _ => 70

end Error
end ExprLang
