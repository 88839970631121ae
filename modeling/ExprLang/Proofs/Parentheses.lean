/-
Parentheses show a tree and change no value. With parentheses round every node but the
literals, the tokens of an expression are read as that expression, but for groupings
(`Expr.Parenthesized.derives`), whatever its shape; and groupings have no say in an
evaluation (`Expr.evaluate_ungrouped`).
-/
import ExprLang.Evaluation
import ExprLang.Proofs.Reading

namespace ExprLang

/-! ## Groupings -/

namespace Expr

/-- The expression without its groupings. -/
def ungrouped : Expr → Expr
  | .literal value line => .literal value line
  | .grouping body _ => body.ungrouped
  | .unary op operand line => .unary op operand.ungrouped line
  | .binary left op right line => .binary left.ungrouped op right.ungrouped line

/-- Groupings have no say in an evaluation, nor in the line of its error. -/
theorem evaluate_ungrouped (e : Expr) : e.ungrouped.evaluate = e.evaluate := by
  induction e with
  | literal value line => rfl
  | grouping body line ih => exact ih
  | unary op operand line ih => simp only [ungrouped, evaluate, ih]
  | binary left op right line ihl ihr => simp only [ungrouped, evaluate, ihl, ihr]

theorem evaluate_congr {e e' : Expr} (h : e.ungrouped = e'.ungrouped) : e.evaluate = e'.evaluate := by
  rw [← e.evaluate_ungrouped, h, e'.evaluate_ungrouped]

end Expr

/-! ## Expressions as tokens -/

namespace Value

/-- The kind of token that a literal is written as. -/
def kind : Value → Kind
  | .nil => .nilWord
  | .bool true => .trueWord
  | .bool false => .falseWord
  | .number _ => .number
  | .string _ => .string

/-- What such a token has as its literal: the words have none. -/
def carried : Value → Option Value
  | .nil | .bool _ => none
  | .number x => some (.number x)
  | .string s => some (.string s)

/-- The token that a literal is written as. -/
def token (v : Value) (line : Nat) : Token := ⟨v.kind, v.quotedText, v.carried, line⟩

theorem isLiteral_token (v : Value) (line : Nat) : IsLiteral (v.token line) v := by
  cases v with
  | nil => exact .nilWord rfl
  | bool b =>
    cases b with
    | false => exact .falseWord rfl
    | true => exact .trueWord rfl
  | number x => exact .number rfl rfl
  | string s => exact .string rfl rfl

end Value

namespace Expr

/-- These tokens between parentheses. -/
def enclose (line : Nat) (ts : List Token) : List Token :=
  ⟨.leftParen, "(", none, line⟩ :: (ts ++ [⟨.rightParen, ")", none, line⟩])

/-- The tokens of an expression, with parentheses round every node that is no literal. -/
def full : Expr → List Token
  | .literal value line => [value.token line]
  | .grouping body line => enclose line body.full
  | .unary op operand line => enclose line (⟨op.kind, op.symbol, none, line⟩ :: operand.full)
  | .binary left op right line => enclose line (left.full ++ ⟨op.kind, op.symbol, none, line⟩ :: right.full)

/-- The lists of tokens that are an expression with parentheses round every node that is no
literal, once or more. A token that gives a node has the node's line; what a token was
written as, and the lines of other parentheses, can be anything. -/
inductive Parenthesized : Expr → List Token → Prop
  | literal {t v} : IsLiteral t v → Parenthesized (.literal v t.line) [t]
  | grouping {opening ts body closing} : opening.kind = .leftParen → Parenthesized body ts →
      closing.kind = .rightParen → Parenthesized (.grouping body opening.line) (opening :: (ts ++ [closing]))
  | unary {opening t op ts operand closing} : opening.kind = .leftParen → t.kind = op.kind →
      Parenthesized operand ts → closing.kind = .rightParen →
      Parenthesized (.unary op operand t.line) (opening :: (t :: ts ++ [closing]))
  | binary {opening ts left t op us right closing} : opening.kind = .leftParen → Parenthesized left ts →
      t.kind = op.kind → Parenthesized right us → closing.kind = .rightParen →
      Parenthesized (.binary left op right t.line) (opening :: (ts ++ t :: us ++ [closing]))
  | again {opening ts e closing} : opening.kind = .leftParen → Parenthesized e ts →
      closing.kind = .rightParen → Parenthesized e (opening :: (ts ++ [closing]))

theorem parenthesized_full (e : Expr) : e.Parenthesized e.full := by
  induction e with
  | literal value line => exact .literal (value.isLiteral_token line)
  | grouping body line ih => exact @Parenthesized.grouping ⟨.leftParen, "(", none, line⟩ _ _ _ rfl ih rfl
  | unary op operand line ih => exact .unary (t := ⟨op.kind, op.symbol, none, line⟩) rfl rfl ih rfl
  | binary left op right line ihl ihr =>
    exact .binary (t := ⟨op.kind, op.symbol, none, line⟩) rfl ihl rfl ihr rfl

end Expr

/-! ## Reading them -/

/-- A phrase of any rule is an expression. -/
theorem Derives.expression {r ts e} (h : Derives r ts e) : Derives .expression ts e := by
  have hcomparison : Derives (.level .comparison) ts e → Derives .expression ts e := fun h => .operand h
  have hterm : Derives (.level .term) ts e → Derives .expression ts e := fun h => hcomparison (.operand h)
  have hfactor : Derives (.level .factor) ts e → Derives .expression ts e := fun h => hterm (.operand h)
  match r with
  | .primary => exact h.of_primary .expression
  | .unary => exact hfactor (.operand h)
  | .level .factor => exact hfactor h
  | .level .term => exact hterm h
  | .level .comparison => exact hcomparison h
  | .level .equality => exact h

namespace Expr

/-- With its parentheses a node is a primary expression, which can stand as an operand of any
operator, also of one that binds more tightly than its own. -/
theorem Parenthesized.derives {e : Expr} {ts : List Token} (h : e.Parenthesized ts) :
    ∃ e', Derives .primary ts e' ∧ e'.ungrouped = e.ungrouped := by
  induction h with
  | literal hv => exact ⟨_, .literal hv, rfl⟩
  | grouping ho _ hc ih =>
    obtain ⟨body', hbody, heq⟩ := ih
    exact ⟨_, .grouping ho hbody.expression hc, heq⟩
  | unary ho hop _ hc ih =>
    obtain ⟨operand', hoperand, heq⟩ := ih
    have hnode := Derives.unary hop (hoperand.of_primary .unary)
    exact ⟨_, .grouping ho hnode.expression hc, by simp only [ungrouped, heq]⟩
  | @binary _ _ _ _ op _ _ _ ho _ hop _ hc ihl ihr =>
    obtain ⟨left', hleft, heql⟩ := ihl
    obtain ⟨right', hright, heqr⟩ := ihr
    have hnode := Derives.binary (hleft.of_primary (.level op.level)) hop rfl (hright.of_primary _)
    exact ⟨_, .grouping ho hnode.expression hc, by simp only [ungrouped, heql, heqr]⟩
  | again ho _ hc ih =>
    obtain ⟨e', he, heq⟩ := ih
    exact ⟨_, .grouping ho he.expression hc, heq⟩

/-- **Parentheses show every tree and change no value.** Every expression can be written with
parentheses round its nodes; all tokens so written are taken, as an expression that is the same
but for groupings, and that has the same value or fails with the same error. -/
theorem read_parenthesized (e : Expr) : e.Parenthesized e.full ∧ ∀ ts, e.Parenthesized ts →
    ∃ e', (read ts).result = .ok e' ∧ (read ts).rest = [] ∧ e'.ungrouped = e.ungrouped ∧
      e'.evaluate = e.evaluate := by
  refine ⟨e.parenthesized_full, fun ts h => ?_⟩
  obtain ⟨e', hderives, heq⟩ := h.derives
  have hread := readRule_whole hderives.expression
  exact ⟨e', congrArg Prod.fst hread, congrArg Prod.snd hread, heq, evaluate_congr heq⟩

/-- `true * (nil == -("a"))`, each node on a line of its own: an equality under a product, and
a negation that fails. -/
def looseUnderTight : Expr :=
  .binary (.literal (.bool true) 1) .multiply
    (.binary (.literal .nil 3) .equal (.unary .negate (.grouping (.literal (.string "a") 6) 6) 5) 4) 2

/-- The equality stands in two pairs of parentheses. -/
def looseUnderTightTokens : List Token :=
  [Token.ofLexeme .leftParen "(" 9, Token.ofLexeme .trueWord "true" 1, Token.ofLexeme .star "*" 2,
    Token.ofLexeme .leftParen "(" 9, Token.ofLexeme .leftParen "(" 9, Token.ofLexeme .nilWord "nil" 3,
    Token.ofLexeme .equalEqual "==" 4, Token.ofLexeme .leftParen "(" 9, Token.ofLexeme .minus "-" 5,
    Token.ofLexeme .leftParen "(" 6, Token.ofLexeme .string "\"a\"" 6, Token.ofLexeme .rightParen ")" 7,
    Token.ofLexeme .rightParen ")" 9, Token.ofLexeme .rightParen ")" 9, Token.ofLexeme .rightParen ")" 9,
    Token.ofLexeme .rightParen ")" 9]

theorem read_looseUnderTight : looseUnderTight.Parenthesized looseUnderTightTokens ∧
    ∃ e', (read looseUnderTightTokens).result = .ok e' ∧ (read looseUnderTightTokens).rest = [] ∧
      e'.ungrouped = looseUnderTight.ungrouped ∧ e'.evaluate = .error ⟨.expectedNumber, 5⟩ := by
  have hopening : (Token.ofLexeme .leftParen "(" 9).kind = .leftParen := rfl
  have hclosing : (Token.ofLexeme .rightParen ")" 9).kind = .rightParen := rfl
  have hminus : (Token.ofLexeme .minus "-" 5).kind = UnaryOp.negate.kind := rfl
  have hequal : (Token.ofLexeme .equalEqual "==" 4).kind = BinaryOp.equal.kind := rfl
  have hstar : (Token.ofLexeme .star "*" 2).kind = BinaryOp.multiply.kind := rfl
  have htrue : IsLiteral (Token.ofLexeme .trueWord "true" 1) (.bool true) := .trueWord rfl
  have hnil : IsLiteral (Token.ofLexeme .nilWord "nil" 3) .nil := .nilWord rfl
  have hstring : IsLiteral (Token.ofLexeme .string "\"a\"" 6) (.string "a") := .string rfl (by decide +kernel)
  have hgrouping := @Parenthesized.grouping (Token.ofLexeme .leftParen "(" 6) _ _
    (Token.ofLexeme .rightParen ")" 7) rfl (.literal hstring) rfl
  have hnegation := Parenthesized.unary hopening hminus hgrouping hclosing
  have hequality := Parenthesized.binary hopening (.literal hnil) hequal hnegation hclosing
  have hproduct := Parenthesized.binary hopening (.literal htrue) hstar (.again hopening hequality hclosing) hclosing
  exact ⟨hproduct, (read_parenthesized looseUnderTight).2 looseUnderTightTokens hproduct⟩

end Expr
end ExprLang
