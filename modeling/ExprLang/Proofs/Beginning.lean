/-
The beginnings of phrases and statements: the lists of tokens that a phrase can
begin with, each with what is wanted next. Every beginning can be completed
(`Begins.complete`, `BeginsStatement.complete`), and the tokens of a beginning
tell what is wanted: its last token whether that is an operand, its parentheses
whether it is a closing one.
-/
import ExprLang.Error
import ExprLang.Proofs.Grammar

namespace ExprLang

/-- What may be wanted after a beginning. Where an operand has just ended, an operator
could follow as well. -/
inductive Wanted where
  | statement
  | operand
  | closing
  /-- The semicolon of a statement, a print statement or not. -/
  | ending (print : Bool)
deriving DecidableEq, Inhabited

namespace Wanted

def expected : Wanted → Expected
  | .statement | .operand => .expression
  | .closing => .token "Expect ')' after expression."
  | .ending true => .token "Expect ';' after value."
  | .ending false => .token "Expect ';' after expression."

/-- What is wanted where an operand has just ended. -/
def afterOperand : Wanted → Bool
  | .statement | .operand => false
  | .closing | .ending _ => true

/-- The tokens that can stand next. -/
def Suits : Wanted → Token → Prop
  | .statement, t => t.kind = .printWord ∨ StartsOperand t
  | .operand, t => StartsOperand t
  | .closing, t => t.kind = .rightParen ∨ ∃ op : BinaryOp, t.kind = op.kind
  | .ending _, t => t.kind = .semicolon ∨ ∃ op : BinaryOp, t.kind = op.kind

/-- No token that can stand next is first in the list. -/
def Blocks (w : Wanted) (rest : List Token) : Prop := ∀ t ∈ rest.head?, ¬ w.Suits t

theorem Blocks.congr {w : Wanted} {rest rest' : List Token} (h : w.Blocks rest) (he : rest'.head? = rest.head?) :
    w.Blocks rest' := by
  rw [Blocks, he]; exact h

end Wanted

/-- The beginnings of the phrases of each rule. -/
inductive Begins : Rule → List Token → Wanted → Prop
  | start {r} : Begins r [] .operand
  | body {opening ts w} : opening.kind = .leftParen → Begins .expression ts w → Begins .primary (opening :: ts) w
  | closing {opening ts e} : opening.kind = .leftParen → Derives .expression ts e →
      Begins .primary (opening :: ts) .closing
  | primary {ts w} : Begins .primary ts w → Begins .unary ts w
  | unary {t ts w} {op : UnaryOp} : t.kind = op.kind → Begins .unary ts w → Begins .unary (t :: ts) w
  | operand {l : Level} {ts w} : Begins l.operand ts w → Begins (.level l) ts w
  | right {l : Level} {ts left t us w} {op : BinaryOp} : Derives (.level l) ts left → t.kind = op.kind →
      op.level = l → Begins l.operand us w → Begins (.level l) (ts ++ t :: us) w

/-- The beginnings of statements. -/
inductive BeginsStatement : List Token → Wanted → Prop
  | start : BeginsStatement [] .statement
  | print {word ts w} : word.kind = .printWord → Begins .expression ts w → BeginsStatement (word :: ts) w
  | printed {word ts e} : word.kind = .printWord → Derives .expression ts e →
      BeginsStatement (word :: ts) (.ending true)
  | expression {t ts w} : Begins .expression (t :: ts) w → BeginsStatement (t :: ts) w
  | expressed {ts e} : Derives .expression ts e → BeginsStatement ts (.ending false)

/-! ## Completion -/

/-- Every beginning of a phrase is the beginning of one. -/
theorem Begins.complete {r ts w} (h : Begins r ts w) : ∃ us e, Derives r (ts ++ us) e := by
  induction h with
  | @start r =>
    have hnil : IsLiteral ⟨.nilWord, "nil", none, 1⟩ .nil := .nilWord rfl
    exact ⟨_, _, (Derives.literal hnil).of_primary r⟩
  | body ho _ ih =>
    obtain ⟨us, e, he⟩ := ih
    have hc : (⟨.rightParen, ")", none, 1⟩ : Token).kind = .rightParen := rfl
    have hg := Derives.grouping ho he hc
    exact ⟨us ++ [_], _, by rw [List.cons_append, ← List.append_assoc]; exact hg⟩
  | closing ho he => exact ⟨[⟨.rightParen, ")", none, 1⟩], _, .grouping ho he rfl⟩
  | primary _ ih =>
    obtain ⟨us, e, he⟩ := ih
    exact ⟨us, e, .primary he⟩
  | unary hop _ ih =>
    obtain ⟨us, e, he⟩ := ih
    exact ⟨us, _, .unary hop he⟩
  | operand _ ih =>
    obtain ⟨us, e, he⟩ := ih
    exact ⟨us, e, .operand he⟩
  | right hleft hop hl _ ih =>
    obtain ⟨us, e, he⟩ := ih
    have hb := Derives.binary hleft hop hl he
    exact ⟨us, _, by rw [List.append_assoc, List.cons_append]; exact hb⟩

/-- Every beginning of a statement is the beginning of one. -/
theorem BeginsStatement.complete {ts w} (h : BeginsStatement ts w) : ∃ us s, DerivesStatement (ts ++ us) s := by
  have hs : (⟨.semicolon, ";", none, 1⟩ : Token).kind = .semicolon := rfl
  cases h with
  | start =>
    obtain ⟨us, e, he⟩ := (Begins.start (r := .expression)).complete
    obtain ⟨line, h⟩ := DerivesStatement.of_expression he hs
    exact ⟨_, _, h⟩
  | print hw hb =>
    obtain ⟨us, e, he⟩ := hb.complete
    have hp := DerivesStatement.print hw he hs
    exact ⟨us ++ [_], _, by rw [List.cons_append, ← List.append_assoc]; exact hp⟩
  | printed hw he => exact ⟨[_], _, .print hw he hs⟩
  | expression hb =>
    obtain ⟨us, e, he⟩ := hb.complete
    obtain ⟨line, h⟩ := DerivesStatement.of_expression he hs
    exact ⟨us ++ [_], _, by rw [← List.append_assoc]; exact h⟩
  | expressed he =>
    obtain ⟨line, h⟩ := DerivesStatement.of_expression he hs
    exact ⟨_, _, h⟩

/-! ## What the tokens of a beginning tell -/

/-- Whether the last token of the list, if there is one, ends an operand. -/
def endsInOperand (ts : List Token) : Bool := ts.getLast?.any (·.kind.endsOperand)

theorem Begins.not_delimits {r ts w} (h : Begins r ts w) : ∀ t ∈ ts, t.kind.delimits = false := by
  obtain ⟨us, e, he⟩ := h.complete
  exact fun t ht => he.not_delimits t (List.mem_append_left us ht)

theorem Begins.ne_print {r t ts w} (h : Begins r (t :: ts) w) : t.kind ≠ .printWord :=
  (Kind.of_not_delimits (h.not_delimits t List.mem_cons_self)).2.2

theorem endsInOperand_append_cons (us : List Token) {t : Token} (ts : List Token)
    (ht : t.kind.endsOperand = false) : endsInOperand (us ++ t :: ts) = endsInOperand ts := by
  cases ts with
  | nil => simp [endsInOperand, ht]
  | cons u ts => simp [endsInOperand, List.getLast?_append, List.getLast?_cons]

theorem Derives.endsInOperand {r ts e} (h : Derives r ts e) (us : List Token) :
    endsInOperand (us ++ ts) = true := by
  obtain ⟨vs, t, rfl, ht⟩ := h.getLast
  rw [← List.append_assoc]
  simp [ExprLang.endsInOperand, ht]

theorem Begins.afterOperand {r ts w} (h : Begins r ts w) : w.afterOperand = endsInOperand ts := by
  induction h with
  | start => rfl
  | @body opening ts _ ho _ ih =>
    rw [ih]
    exact (endsInOperand_append_cons [] ts (by rw [ho]; rfl)).symm
  | @closing opening _ _ _ he => exact (he.endsInOperand [opening]).symm
  | primary _ ih | operand _ ih => exact ih
  | @unary t ts _ op hop _ ih =>
    rw [ih]
    exact (endsInOperand_append_cons [] ts (by rw [hop]; cases op <;> rfl)).symm
  | @right _ ts _ t us _ op _ hop _ _ ih =>
    rw [ih]
    exact (endsInOperand_append_cons ts us (by rw [hop]; cases op <;> rfl)).symm

/-- Within an expression an operand or a closing parenthesis is wanted. -/
theorem Begins.wanted {r ts w} (h : Begins r ts w) : w = .operand ∨ w = .closing := by
  induction h with
  | start => exact .inl rfl
  | closing => exact .inr rfl
  | body _ _ ih | primary _ ih | unary _ _ ih | operand _ ih | right _ _ _ _ ih => exact ih

theorem Begins.wanted_nil {r w} (h : Begins r [] w) : w = .operand := by
  rcases h.wanted with rfl | rfl
  · rfl
  · exact absurd h.afterOperand (by decide)

theorem BeginsStatement.afterOperand {ts w} (h : BeginsStatement ts w) : w.afterOperand = endsInOperand ts := by
  cases h with
  | start => rfl
  | @print word ts _ hw hb =>
    rw [hb.afterOperand]
    exact (endsInOperand_append_cons [] ts (by rw [hw]; rfl)).symm
  | @printed word _ _ _ he => exact (he.endsInOperand [word]).symm
  | expression hb => exact hb.afterOperand
  | expressed he => exact (he.endsInOperand []).symm

/-- How many tokens of the list are of this kind. -/
def countKind (k : Kind) (ts : List Token) : Nat := ts.countP (·.kind = k)

@[simp] theorem countKind_nil (k : Kind) : countKind k [] = 0 := rfl

@[simp] theorem countKind_cons (k : Kind) (t : Token) (ts : List Token) :
    countKind k (t :: ts) = countKind k ts + if t.kind = k then 1 else 0 := by
  simp [countKind, List.countP_cons]

@[simp] theorem countKind_append (k : Kind) (ts us : List Token) :
    countKind k (ts ++ us) = countKind k ts + countKind k us := List.countP_append

theorem UnaryOp.kind_not_paren (op : UnaryOp) : op.kind ≠ .leftParen ∧ op.kind ≠ .rightParen := by
  cases op <;> decide

theorem BinaryOp.kind_not_paren (op : BinaryOp) : op.kind ≠ .leftParen ∧ op.kind ≠ .rightParen := by
  cases op <;> decide

theorem IsLiteral.kind_not_paren {t v} (h : IsLiteral t v) : t.kind ≠ .leftParen ∧ t.kind ≠ .rightParen := by
  cases h <;> simp only [*, ne_eq, reduceCtorEq, not_false_eq_true, and_self]

theorem IsLiteral.kind_ne_unary {t v} (h : IsLiteral t v) (op : UnaryOp) : t.kind ≠ op.kind := by
  cases h <;> cases op <;> simp only [*, UnaryOp.kind, ne_eq, reduceCtorEq, not_false_eq_true]

/-- The parentheses of a phrase come in pairs. -/
theorem Derives.parens {r ts e} (h : Derives r ts e) : countKind .leftParen ts = countKind .rightParen ts := by
  induction h with
  | literal hv => simp [hv.kind_not_paren]
  | grouping ho _ hc ih => simp [ho, hc, ih]
  | primary _ ih | operand _ ih => exact ih
  | @unary _ op _ _ hop _ ih => simp [hop, op.kind_not_paren, ih]
  | @binary _ _ _ _ op _ _ _ hop _ _ ihl ihr => simp [hop, op.kind_not_paren, ihl, ihr]

/-- In a beginning a parenthesis may be open, and one is where a closing one is wanted. -/
theorem Begins.parens {r ts w} (h : Begins r ts w) : countKind .rightParen ts ≤ countKind .leftParen ts ∧
    (w = .closing → countKind .rightParen ts < countKind .leftParen ts) := by
  induction h with
  | start => simp
  | body ho _ ih => simp [ho]; omega
  | closing ho he => simp [ho, he.parens]
  | primary _ ih | operand _ ih => exact ih
  | @unary _ _ _ op hop _ ih => simpa [hop, op.kind_not_paren] using ih
  | @right _ _ _ _ _ _ op hleft hop _ _ ih => simpa [hop, op.kind_not_paren, hleft.parens] using ih

/-- The semicolon of a statement is not among the tokens of a beginning. -/
theorem BeginsStatement.not_semicolon {ts w} (h : BeginsStatement ts w) : ∀ t ∈ ts, t.kind ≠ .semicolon := by
  intro t ht
  cases h with
  | start => cases ht
  | print hw hb =>
    rcases List.mem_cons.1 ht with rfl | ht
    · rw [hw]; decide
    · exact (Kind.of_not_delimits (hb.not_delimits t ht)).2.1
  | printed hw he =>
    rcases List.mem_cons.1 ht with rfl | ht
    · rw [hw]; decide
    · exact (Kind.of_not_delimits (he.not_delimits t ht)).2.1
  | expression hb => exact (Kind.of_not_delimits (hb.not_delimits t ht)).2.1
  | expressed he => exact (Kind.of_not_delimits (he.not_delimits t ht)).2.1

end ExprLang
