/-
Reading an expression off the front of a list of tokens.

The grammar has a rule for each level of binary operators, the loosest first,
whose operands are phrases of the next tighter level; a chain of operators of one
level groups to the left. Below the levels stand the unary operators, which group
to the right, and the primary expressions: literals and expressions in parentheses.

A rule calls itself on fewer tokens, or a tighter rule on the same tokens; the
measure counts ten for every token left and less than ten for the rule.
-/
import ExprLang.Phrase
import ExprLang.Expr

namespace ExprLang.Expr

/-- The operator of this level that a token is. -/
def operatorAt? (level : Level) (t : Token) : Option BinaryOp :=
  t.kind.binaryOp?.filter (·.level = level)

/-- The value of a literal token; a number or a string has it as its literal. -/
def literal? (t : Token) : Option Value :=
  match t.kind with
  | .falseWord => some (.bool false)
  | .trueWord => some (.bool true)
  | .nilWord => some .nil
  | .number => t.literal
  | .string => t.literal
  | _ => none

mutual

/-- An operand of the level, and the chain of the level's operators after it. -/
def readLevel (level : Level) (ts : List Token) : Phrase Expr ts.length :=
  match readOperand level ts with
  | .refused error rest => .refused error rest
  | .taken left rest shorter => (readChain level left rest).weaken shorter
termination_by 10 * ts.length + 2 * level.height + 1
decreasing_by
  · omega
  · omega

/-- What the level's operators stand between. -/
def readOperand (level : Level) (ts : List Token) : Phrase Expr ts.length :=
  match _ : level.tighter? with
  | some tighter => readLevel tighter ts
  | none => readUnary ts
termination_by 10 * ts.length + 2 * level.height
decreasing_by
  · have := Level.height_tighter ‹_›
    omega
  · have := level.height_pos
    omega

/-- The level's operators, each with its right operand, after what stands to their left. -/
def readChain (level : Level) (left : Expr) (ts : List Token) : Phrase Expr (ts.length + 1) :=
  match ts with
  | [] => .taken left [] (Nat.lt_succ_self _)
  | t :: ts =>
    match operatorAt? level t with
    | none => .taken left (t :: ts) (Nat.lt_succ_self _)
    | some op =>
      match readOperand level ts with
      | .refused error rest => .refused error rest
      | .taken right rest shorter =>
        (readChain level (.binary left op right t.line) rest).weaken
          (Nat.le_succ_of_le (Nat.le_succ_of_le shorter))
termination_by 10 * ts.length
decreasing_by
  · have := level.height_le
    simp only [List.length_cons]; omega
  · simp only [List.length_cons]; omega

/-- Unary operators, the outermost first, and the primary expression that they apply to. -/
def readUnary (ts : List Token) : Phrase Expr ts.length :=
  match ts with
  | [] => readPrimary []
  | t :: ts =>
    match t.kind.unaryOp? with
    | some op =>
      ((readUnary ts).map fun operand => .unary op operand t.line).weaken (length_le_cons t ts)
    | none => readPrimary (t :: ts)
termination_by 10 * ts.length + 1
decreasing_by
  all_goals simp only [List.length_cons, List.length_nil]; omega

/-- A literal, or an expression in parentheses. -/
def readPrimary (ts : List Token) : Phrase Expr ts.length :=
  match ts with
  | [] => .refuse .expression []
  | t :: ts =>
    if t.kind = .leftParen then
      match readLevel .equality ts with
      | .refused error rest => .refused error rest
      | .taken body rest shorter =>
        ((Phrase.expect .rightParen "Expect ')' after expression." rest).map fun _ =>
          .grouping body t.line).weaken (Nat.le_of_lt (Nat.lt_succ_of_lt shorter))
    else
      match literal? t with
      | some value => .taken (.literal value t.line) ts (length_lt_cons t ts)
      | none => .refuse .expression (t :: ts)
termination_by 10 * ts.length
decreasing_by
  simp only [List.length_cons, Level.height]; omega

end

/-- An expression: the loosest level. -/
def read (ts : List Token) : Phrase Expr ts.length := readLevel .equality ts

/-- An expression in parentheses. It is asked for where an opening parenthesis stands
(`readPrimary_eq_readGrouping`), so that its own complaint of one missing is never heard. -/
def readGrouping (ts : List Token) : Phrase Expr ts.length :=
  match Phrase.expect .leftParen "Expect '('." ts with
  | .refused error rest => .refused error rest
  | .taken opening rest shorter =>
    match read rest with
    | .refused error rest => .refused error rest
    | .taken body rest shorter' =>
      ((Phrase.expect .rightParen "Expect ')' after expression." rest).map fun _ =>
        .grouping body opening.line).weaken (Nat.le_of_lt (Nat.lt_trans shorter' shorter))

theorem readPrimary_eq_readGrouping {t : Token} (h : t.kind = .leftParen) (ts : List Token) :
    readPrimary (t :: ts) = readGrouping (t :: ts) := by
  rw [readPrimary, readGrouping, if_pos h, Phrase.expect, if_pos h]
  rfl

end ExprLang.Expr
