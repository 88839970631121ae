/-
A text as tokens: its lexemes, less comments and blanks, each with the line that
it ends on, and one more token for the end of the input. A text that cannot be
cut to its end is refused at the place where the cutting stops: there stands a
quote that nothing closes, or a character that begins no lexeme.
-/
import ExprLang.Lexeme
import ExprLang.Error

namespace ExprLang.Token

/-- The token that stands for the end of the input. -/
def endOfInput (line : Nat) : Token := ⟨.endOfInput, "", none, line⟩

/-- How many lines further on a text ends than it begins. -/
def lineFeeds (cs : List Char) : Nat := cs.count '\n'

/-- The tokens among lexemes that begin on this line, and the line that they end on. -/
def ofLexemes (line : Nat) : List Lexeme → List Token × Nat
  | [] => ([], line)
  | l :: ls =>
    let last := line + lineFeeds l.text
    let rest := ofLexemes last ls
    if l.kind.isSkipped then rest
    else (ofLexeme l.kind (String.ofList l.text) last :: rest.1, rest.2)

/-- Why a text that no lexeme begins, and that begins with this character, is refused. -/
def refusal (c : Char) : LexicalCause :=
  if c = '"' then .unterminatedString else .unexpectedCharacter c

/-- The tokens of a text. -/
def scanChars (cs : List Char) : Except LexicalError (List Token) :=
  let cut := Lexeme.split cs
  let found := ofLexemes 1 cut.1
  match cut.2 with
  | [] => .ok (found.1 ++ [endOfInput found.2])
  | c :: _ => .error ⟨refusal c, found.2⟩

/-- The tokens of a source text. -/
def scan (source : String) : Except LexicalError (List Token) := scanChars source.toList

end ExprLang.Token
