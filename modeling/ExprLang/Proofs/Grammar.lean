/-
The grammar that programs are written in, as derivations: which lists of tokens
each rule derives, and the tree that the derivation builds.

`level := operand (op operand)*`, its operators grouped to the left, is said here
as `level := operand | level op operand`; the tree of a level's phrase then has
the last operator of the chain at its root. `DerivesProgram` is `statement*`.
-/
import ExprLang.Program
import ExprLang.Token

namespace ExprLang

/-! ## The tokens of operators and literals -/

/-- The kind of token that an operator in front of an operand is written as. -/
def UnaryOp.kind : UnaryOp → Kind
  | .negate => .minus
  | .not => .bang

/-- The kind of token that an operator between operands is written as. -/
def BinaryOp.kind : BinaryOp → Kind
  | .add => .plus
  | .subtract => .minus
  | .multiply => .star
  | .divide => .slash
  | .less => .less
  | .greater => .greater
  | .lessEqual => .lessEqual
  | .greaterEqual => .greaterEqual
  | .equal => .equalEqual
  | .notEqual => .bangEqual

theorem Kind.unaryOp?_eq_some {k : Kind} {op : UnaryOp} : k.unaryOp? = some op ↔ k = op.kind := by
  constructor
  · intro h
    cases k <;> simp only [Kind.unaryOp?, Option.some.injEq, reduceCtorEq] at h <;> subst h <;> rfl
  · rintro rfl
    cases op <;> rfl

theorem Kind.binaryOp?_eq_some {k : Kind} {op : BinaryOp} : k.binaryOp? = some op ↔ k = op.kind := by
  constructor
  · intro h
    cases k <;> simp only [Kind.binaryOp?, Option.some.injEq, reduceCtorEq] at h <;> subst h <;> rfl
  · rintro rfl
    cases op <;> rfl

/-- The tokens that are an expression by themselves, with the value they stand for.
A number or a string has it as its literal; the words have no use for theirs. -/
inductive IsLiteral (t : Token) : Value → Prop
  | falseWord : t.kind = .falseWord → IsLiteral t (.bool false)
  | trueWord : t.kind = .trueWord → IsLiteral t (.bool true)
  | nilWord : t.kind = .nilWord → IsLiteral t .nil
  | number {v} : t.kind = .number → t.literal = some v → IsLiteral t v
  | string {v} : t.kind = .string → t.literal = some v → IsLiteral t v

/-! ## The rules -/

/-- The rules for expressions: one for each level of binary operators, and two below. -/
inductive Rule where
  | level (level : Level)
  | unary
  | primary
deriving DecidableEq, Inhabited

/-- What stands between the operators of a level. -/
def Level.operand : Level → Rule
  | .equality => .level .comparison
  | .comparison => .level .term
  | .term => .level .factor
  | .factor => .unary

/-- The rule that a whole expression is a phrase of. -/
abbrev Rule.expression : Rule := .level .equality

/-- The phrases of each rule, with their trees. -/
inductive Derives : Rule → List Token → Expr → Prop
  | literal {t v} : IsLiteral t v → Derives .primary [t] (.literal v t.line)
  | grouping {opening ts body closing} : opening.kind = .leftParen → Derives .expression ts body →
      closing.kind = .rightParen → Derives .primary (opening :: (ts ++ [closing])) (.grouping body opening.line)
  | primary {ts e} : Derives .primary ts e → Derives .unary ts e
  | unary {t op ts e} : t.kind = op.kind → Derives .unary ts e → Derives .unary (t :: ts) (.unary op e t.line)
  | operand {l : Level} {ts e} : Derives l.operand ts e → Derives (.level l) ts e
  | binary {l : Level} {ts left t op us right} : Derives (.level l) ts left → t.kind = op.kind → op.level = l →
      Derives l.operand us right → Derives (.level l) (ts ++ t :: us) (.binary left op right t.line)

/-- The statements, with the line of their first token. -/
inductive DerivesStatement : List Token → Statement → Prop
  | print {word ts e semicolon} : word.kind = .printWord → Derives .expression ts e →
      semicolon.kind = .semicolon → DerivesStatement (word :: (ts ++ [semicolon])) (.print e word.line)
  | expression {t ts e semicolon} : Derives .expression (t :: ts) e → semicolon.kind = .semicolon →
      DerivesStatement (t :: (ts ++ [semicolon])) (.expression e t.line)

/-- The programs: any number of statements. -/
inductive DerivesProgram : List Token → Program → Prop
  | nil : DerivesProgram [] []
  | cons {ts s us p} : DerivesStatement ts s → DerivesProgram us p → DerivesProgram (ts ++ us) (s :: p)

/-! ## The ends of a phrase -/

/-- The kinds of the last tokens of expressions. -/
def Kind.endsOperand : Kind → Bool
  | .number | .string | .trueWord | .falseWord | .nilWord | .rightParen => true
  | _ => false

/-- The tokens that expressions begin with. -/
def StartsOperand (t : Token) : Prop :=
  (∃ op : UnaryOp, t.kind = op.kind) ∨ t.kind = .leftParen ∨ ∃ v, IsLiteral t v

/-- The kinds of tokens that stand in no expression. -/
def Kind.delimits : Kind → Bool
  | .endOfInput | .semicolon | .printWord => true
  | _ => false

theorem Kind.of_not_delimits {k : Kind} (h : k.delimits = false) :
    k ≠ .endOfInput ∧ k ≠ .semicolon ∧ k ≠ .printWord := by
  refine ⟨?_, ?_, ?_⟩ <;> rintro rfl <;> cases h

theorem IsLiteral.endsOperand {t v} (h : IsLiteral t v) : t.kind.endsOperand = true := by
  cases h <;> simp only [*, Kind.endsOperand]

theorem IsLiteral.not_delimits {t v} (h : IsLiteral t v) : t.kind.delimits = false := by
  cases h <;> simp only [*, Kind.delimits]

theorem UnaryOp.not_delimits (op : UnaryOp) : op.kind.delimits = false := by cases op <;> rfl

theorem BinaryOp.not_delimits (op : BinaryOp) : op.kind.delimits = false := by cases op <;> rfl

namespace Derives

theorem head {r ts e} (h : Derives r ts e) : ∃ t us, ts = t :: us ∧ StartsOperand t := by
  induction h with
  | literal hv => exact ⟨_, _, rfl, .inr (.inr ⟨_, hv⟩)⟩
  | grouping ho => exact ⟨_, _, rfl, .inr (.inl ho)⟩
  | primary _ ih | operand _ ih => exact ih
  | unary hop => exact ⟨_, _, rfl, .inl ⟨_, hop⟩⟩
  | binary _ _ _ _ ih =>
    obtain ⟨t, us, rfl, ht⟩ := ih
    exact ⟨_, _, rfl, ht⟩

theorem getLast {r ts e} (h : Derives r ts e) : ∃ us t, ts = us ++ [t] ∧ t.kind.endsOperand = true := by
  induction h with
  | literal hv => exact ⟨[], _, rfl, hv.endsOperand⟩
  | grouping _ _ hc => exact ⟨_ :: _, _, rfl, by simp only [hc, Kind.endsOperand]⟩
  | primary _ ih | operand _ ih => exact ih
  | unary _ _ ih =>
    obtain ⟨us, t, rfl, ht⟩ := ih
    exact ⟨_ :: us, t, rfl, ht⟩
  | @binary _ ts _ o _ _ _ _ _ _ _ _ ih =>
    obtain ⟨us, t, rfl, ht⟩ := ih
    exact ⟨ts ++ o :: us, t, by simp only [List.append_assoc, List.cons_append], ht⟩

/-- No token of an expression ends a statement or the input, or begins a print statement. -/
theorem not_delimits {r ts e} (h : Derives r ts e) : ∀ t ∈ ts, t.kind.delimits = false := by
  induction h with
  | literal hv =>
    intro t ht
    rw [List.mem_singleton] at ht
    subst ht
    exact hv.not_delimits
  | grouping ho _ hc ih =>
    intro t ht
    simp only [List.mem_cons, List.mem_append, List.not_mem_nil, or_false] at ht
    rcases ht with rfl | ht | rfl
    · simp only [ho, Kind.delimits]
    · exact ih t ht
    · simp only [hc, Kind.delimits]
  | primary _ ih | operand _ ih => exact ih
  | @unary _ op _ _ hop _ ih =>
    intro t ht
    rcases List.mem_cons.1 ht with rfl | ht
    · rw [hop]; exact op.not_delimits
    · exact ih t ht
  | @binary _ _ _ _ op _ _ _ hop _ _ ihl ihr =>
    intro t ht
    simp only [List.mem_append, List.mem_cons] at ht
    rcases ht with ht | rfl | ht
    · exact ihl t ht
    · rw [hop]; exact op.not_delimits
    · exact ihr t ht

theorem ne_print {r t ts e} (h : Derives r (t :: ts) e) : t.kind ≠ .printWord :=
  (Kind.of_not_delimits (h.not_delimits t List.mem_cons_self)).2.2

/-- A primary expression is a phrase of every rule. -/
theorem of_primary {ts e} (h : Derives .primary ts e) (r : Rule) : Derives r ts e := by
  have hu : Derives .unary ts e := .primary h
  have hf : Derives (.level .factor) ts e := .operand hu
  have ht : Derives (.level .term) ts e := .operand hf
  have hc : Derives (.level .comparison) ts e := .operand ht
  match r with
  | .primary => exact h
  | .unary => exact hu
  | .level .factor => exact hf
  | .level .term => exact ht
  | .level .comparison => exact hc
  | .level .equality => exact .operand hc

end Derives

/-- An expression and a semicolon are a statement. -/
theorem DerivesStatement.of_expression {ts e semicolon} (he : Derives .expression ts e)
    (hs : semicolon.kind = .semicolon) : ∃ line, DerivesStatement (ts ++ [semicolon]) (.expression e line) := by
  obtain ⟨t, us, rfl, -⟩ := he.head
  exact ⟨t.line, .expression he hs⟩

end ExprLang
