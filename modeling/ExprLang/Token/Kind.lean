/-
The kinds of tokens, their names, and the two tables of fixed spellings:
operators and punctuation, and the sixteen keywords.
-/
import ExprLang.Operator

namespace ExprLang

/-- The kind of a token. Comments, line feeds and blanks have kinds too, though
a scan leaves them out. -/
inductive Kind where
  | leftParen | rightParen | leftBrace | rightBrace
  | comma | dot | minus | plus | semicolon | slash | star
  | bang | bangEqual | equal | equalEqual
  | greater | greaterEqual | less | lessEqual
  | identifier | string | number
  | andWord | classWord | elseWord | falseWord | funWord | forWord | ifWord | nilWord
  | orWord | printWord | returnWord | superWord | thisWord | trueWord | varWord | whileWord
  | endOfInput
  | comment | newLine | blank
deriving DecidableEq, Inhabited

namespace Kind

def name : Kind → String
  | .leftParen => "LEFT_PAREN"
  | .rightParen => "RIGHT_PAREN"
  | .leftBrace => "LEFT_BRACE"
  | .rightBrace => "RIGHT_BRACE"
  | .comma => "COMMA"
  | .dot => "DOT"
  | .minus => "MINUS"
  | .plus => "PLUS"
  | .semicolon => "SEMICOLON"
  | .slash => "SLASH"
  | .star => "STAR"
  | .bang => "BANG"
  | .bangEqual => "BANG_EQUAL"
  | .equal => "EQUAL"
  | .equalEqual => "EQUAL_EQUAL"
  | .greater => "GREATER"
  | .greaterEqual => "GREATER_EQUAL"
  | .less => "LESS"
  | .lessEqual => "LESS_EQUAL"
  | .identifier => "IDENTIFIER"
  | .string => "STRING"
  | .number => "NUMBER"
  | .andWord => "AND"
  | .classWord => "CLASS"
  | .elseWord => "ELSE"
  | .falseWord => "FALSE"
  | .funWord => "FUN"
  | .forWord => "FOR"
  | .ifWord => "IF"
  | .nilWord => "NIL"
  | .orWord => "OR"
  | .printWord => "PRINT"
  | .returnWord => "RETURN"
  | .superWord => "SUPER"
  | .thisWord => "THIS"
  | .trueWord => "TRUE"
  | .varWord => "VAR"
  | .whileWord => "WHILE"
  | .endOfInput => "EOF"
  | .comment => "COMMENT"
  | .newLine => "NEW_LINE"
  | .blank => "IGNORED"

/-- The operators and punctuation marks with their spellings. -/
def symbols : List (String × Kind) :=
  [("(", .leftParen), (")", .rightParen), ("\x7b", .leftBrace), ("\x7d", .rightBrace),
   (",", .comma), (".", .dot), ("-", .minus), ("+", .plus), (";", .semicolon),
   ("/", .slash), ("*", .star), ("!", .bang), ("!=", .bangEqual), ("=", .equal),
   ("==", .equalEqual), (">", .greater), (">=", .greaterEqual), ("<", .less),
   ("<=", .lessEqual)]

/-- The reserved words. -/
def keywords : List (String × Kind) :=
  [("and", .andWord), ("class", .classWord), ("else", .elseWord), ("false", .falseWord),
   ("for", .forWord), ("fun", .funWord), ("if", .ifWord), ("nil", .nilWord),
   ("or", .orWord), ("print", .printWord), ("return", .returnWord), ("super", .superWord),
   ("this", .thisWord), ("true", .trueWord), ("var", .varWord), ("while", .whileWord)]

/-- The kind that a reserved word has. -/
def ofKeyword? (word : String) : Option Kind := keywords.lookup word

def all : List Kind :=
  symbols.map (·.2) ++ [.identifier, .string, .number] ++ keywords.map (·.2) ++
    [.endOfInput, .comment, .newLine, .blank]

def ofName? (name : String) : Option Kind := all.find? (·.name == name)

/-- No two kinds have the same name, and every kind has one. -/
theorem ofName?_name (k : Kind) : ofName? k.name = some k := by
  cases k <;> decide +kernel

/-- The operator that a token of this kind is between two operands. -/
def binaryOp? : Kind → Option BinaryOp
  | .plus => some .add
  | .minus => some .subtract
  | .star => some .multiply
  | .slash => some .divide
  | .less => some .less
  | .greater => some .greater
  | .lessEqual => some .lessEqual
  | .greaterEqual => some .greaterEqual
  | .equalEqual => some .equal
  | .bangEqual => some .notEqual
  | _ => none

/-- The operator that a token of this kind is in front of an operand. -/
def unaryOp? : Kind → Option UnaryOp
  | .minus => some .negate
  | .bang => some .not
  | _ => none

/-- Comments, line feeds and blanks, which stand between tokens and are none. -/
def isSkipped : Kind → Bool
  | .comment | .newLine | .blank => true
  | _ => false

end Kind
end ExprLang
