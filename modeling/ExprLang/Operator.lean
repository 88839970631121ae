/-
The operators: two in front of an operand, ten between two operands. The ten
fall into four families, by what they do with their operands' types, and into
four levels, by how tightly they bind.
-/

namespace ExprLang

inductive UnaryOp where
  | negate | not
deriving DecidableEq, Inhabited

inductive BinaryOp where
  | add | subtract | multiply | divide
  | less | greater | lessEqual | greaterEqual
  | equal | notEqual
deriving DecidableEq, Inhabited

/-- The levels of binary operators, the loosest first. -/
inductive Level where
  | equality | comparison | term | factor
deriving DecidableEq, Inhabited

/-- What a binary operator asks of its operands. -/
inductive Family where
  /-- Two numbers, or a string on either side. -/
  | addition
  /-- Two numbers, giving a number. -/
  | scalar
  /-- Two numbers, giving a truth value. -/
  | comparison
  /-- Any two values, giving a truth value. -/
  | equality
deriving DecidableEq, Inhabited

def UnaryOp.symbol : UnaryOp → String
  | .negate => "-"
  | .not => "!"

namespace BinaryOp

def symbol : BinaryOp → String
  | .add => "+"
  | .subtract => "-"
  | .multiply => "*"
  | .divide => "/"
  | .less => "<"
  | .greater => ">"
  | .lessEqual => "<="
  | .greaterEqual => ">="
  | .equal => "=="
  | .notEqual => "!="

def all : List BinaryOp :=
  [.add, .subtract, .multiply, .divide, .less, .greater, .lessEqual, .greaterEqual,
    .equal, .notEqual]

def ofSymbol? (symbol : String) : Option BinaryOp := all.find? (·.symbol == symbol)

/-- No two operators have the same symbol. -/
theorem ofSymbol?_symbol (op : BinaryOp) : ofSymbol? op.symbol = some op := by
  cases op <;> decide +kernel

def level : BinaryOp → Level
  | .add | .subtract => .term
  | .multiply | .divide => .factor
  | .less | .greater | .lessEqual | .greaterEqual => .comparison
  | .equal | .notEqual => .equality

def family : BinaryOp → Family
  | .add => .addition
  | .subtract | .multiply | .divide => .scalar
  | .less | .greater | .lessEqual | .greaterEqual => .comparison
  | .equal | .notEqual => .equality

end BinaryOp

def UnaryOp.ofSymbol? (symbol : String) : Option UnaryOp :=
  [UnaryOp.negate, .not].find? (·.symbol == symbol)

namespace Level

/-- The next tighter level; the operands of the tightest are unary expressions. -/
def tighter? : Level → Option Level
  | .equality => some .comparison
  | .comparison => some .term
  | .term => some .factor
  | .factor => none

/-- How many levels stand between this one and the unary expressions, itself included. -/
def height : Level → Nat
  | .equality => 4
  | .comparison => 3
  | .term => 2
  | .factor => 1

theorem height_tighter {l t : Level} (h : l.tighter? = some t) : t.height < l.height := by
  cases l <;> simp only [tighter?, Option.some.injEq, reduceCtorEq] at h <;> subst h <;> decide

theorem height_pos (l : Level) : 0 < l.height := by cases l <;> decide

theorem height_le (l : Level) : l.height ≤ 4 := by cases l <;> decide

end Level
end ExprLang
