/-
Lexemes: the pieces a text is cut into. A lexeme has one of a few shapes, and at
each place the longest piece of any shape is taken, so that `<=` is one lexeme
and `classy` is a name and no keyword.

`split` cuts as far as it can and hands back what is left: nothing, or a text
that begins with no lexeme of any shape.
-/
import ExprLang.Token.Kind

namespace ExprLang

/-! ## Characters -/

def isWordStart (c : Char) : Bool := c.isAlpha || c == '_'

def isWordChar (c : Char) : Bool := c.isAlpha || c.isDigit || c == '_'

/-- Blanks within a line; a line feed is a lexeme of its own. -/
def isBlank (c : Char) : Bool := c == ' ' || c == '\t' || c == '\r'

/-! ## Shapes -/

/-- The shapes of lexemes. -/
inductive Shape where
  /-- An operator or punctuation mark. -/
  | symbol (spelling : List Char)
  /-- A letter or underscore, then letters, digits and underscores. -/
  | word
  /-- A quote, anything but quotes, and a quote. -/
  | quoted
  | digits
  /-- Digits, a point and digits. -/
  | decimal
  /-- Two slashes and the rest of the line, without its line feed. -/
  | comment
  | lineFeed
  | blanks
deriving DecidableEq, Inhabited

namespace Shape

/-- The texts of a shape. -/
def Matches : Shape → List Char → Prop
  | .symbol spelling, cs => cs = spelling
  | .word, cs => ∃ c rest, cs = c :: rest ∧ isWordStart c ∧ ∀ d ∈ rest, isWordChar d
  | .quoted, cs => ∃ body, cs = '"' :: (body ++ ['"']) ∧ '"' ∉ body
  | .digits, cs => cs ≠ [] ∧ ∀ d ∈ cs, d.isDigit
  | .decimal, cs => ∃ whole fraction, cs = whole ++ '.' :: fraction ∧
      whole ≠ [] ∧ fraction ≠ [] ∧ (∀ d ∈ whole, d.isDigit) ∧ ∀ d ∈ fraction, d.isDigit
  | .comment, cs => ∃ body, cs = '/' :: '/' :: body ∧ '\n' ∉ body
  | .lineFeed, cs => cs = ['\n']
  | .blanks, cs => cs ≠ [] ∧ ∀ c ∈ cs, isBlank c

/-- The length of the longest text of the shape at the front of `cs`. -/
def length? : Shape → List Char → Option Nat
  | .symbol spelling, cs => if spelling.isPrefixOf cs then some spelling.length else none
  | .word, c :: rest =>
    if isWordStart c then some (1 + (rest.takeWhile isWordChar).length) else none
  | .word, [] => none
  | .quoted, '"' :: rest =>
    let body := rest.takeWhile (· != '"')
    if body.length < rest.length then some (body.length + 2) else none
  | .quoted, _ => none
  | .digits, cs =>
    let whole := cs.takeWhile Char.isDigit
    if whole = [] then none else some whole.length
  | .decimal, cs =>
    let whole := cs.takeWhile Char.isDigit
    match cs.dropWhile Char.isDigit with
    | '.' :: rest =>
      let fraction := rest.takeWhile Char.isDigit
      if whole = [] ∨ fraction = [] then none else some (whole.length + 1 + fraction.length)
    | _ => none
  | .comment, '/' :: '/' :: rest => some (2 + (rest.takeWhile (· != '\n')).length)
  | .comment, _ => none
  | .lineFeed, '\n' :: _ => some 1
  | .lineFeed, _ => none
  | .blanks, cs =>
    let front := cs.takeWhile isBlank
    if front = [] then none else some front.length

end Shape

/-! ## The longest lexeme -/

/-- A piece of text with the kind of token it is. -/
structure Lexeme where
  kind : Kind
  text : List Char
deriving DecidableEq, Inhabited

namespace Lexeme

/-- The lexical grammar: which shape gives which kind. -/
def rules : List (Shape × Kind) :=
  (Kind.symbols.map fun (spelling, kind) => (.symbol spelling.toList, kind)) ++
    [(.word, .identifier), (.quoted, .string), (.digits, .number), (.decimal, .number),
     (.comment, .comment), (.lineFeed, .newLine), (.blanks, .blank)]

/-- The longest match of these rules at the front of `cs`, with its kind. -/
def longestOf : List (Shape × Kind) → List Char → Option (Nat × Kind)
  | [], _ => none
  | (shape, kind) :: rules, cs =>
    match shape.length? cs, longestOf rules cs with
    | none, best => best
    | some n, none => some (n, kind)
    | some n, some (m, other) => if m ≤ n then some (n, kind) else some (m, other)

/-- A word that is reserved has its own kind; any other lexeme the kind of its shape. -/
def kindOf (kind : Kind) (text : List Char) : Kind :=
  if kind = .identifier then (Kind.ofKeyword? (String.ofList text)).getD kind else kind

/-- Cuts the text into lexemes, as far as they go. -/
def split : List Char → List Lexeme × List Char
  | [] => ([], [])
  | c :: cs =>
    match longestOf rules (c :: cs) with
    | none => ([], c :: cs)
    | some (n, kind) =>
      let text := c :: cs.take (n - 1)
      let cut := split (cs.drop (n - 1))
      (⟨kindOf kind text, text⟩ :: cut.1, cut.2)
termination_by cs => cs.length
decreasing_by simp only [List.length_drop, List.length_cons]; omega

/-- Cutting loses nothing. -/
theorem split_text (cs : List Char) : (split cs).1.flatMap (·.text) ++ (split cs).2 = cs := by
  fun_induction split cs with
  | case1 => rfl
  | case2 c cs h => rfl
  | case3 c cs n kind h text cut ih =>
    simp only [List.flatMap_cons, List.append_assoc, ih, text, cut, List.cons_append,
      List.take_append_drop]

end Lexeme
end ExprLang
