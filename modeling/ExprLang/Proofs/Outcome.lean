/-
The reading functions by their outcomes: what a rule made of the tokens and the
tokens it left over, without the bound that ends their recursion. There is one
equation for each way a rule can go, and later proofs use these alone.
-/
import ExprLang.Program.Reading
import ExprLang.Proofs.Beginning

namespace ExprLang

/-- A list begins with a token of the kind, or with none of it. -/
theorem head_kind_cases (k : Kind) (ts : List Token) :
    (∃ t rest, ts = t :: rest ∧ t.kind = k) ∨ ∀ t ∈ ts.head?, t.kind ≠ k := by
  cases ts with
  | nil => exact .inr (by simp)
  | cons t rest =>
    by_cases h : t.kind = k
    · exact .inl ⟨t, rest, rfl, h⟩
    · exact .inr (by simpa using h)

/-! ## Outcomes -/

namespace Phrase

variable {α β : Type} {m n : Nat}

/-- What was made of the tokens, and the tokens left over. -/
def outcome (p : Phrase α n) : Except SyntaxError α × List Token := (p.result, p.rest)

@[simp] theorem outcome_taken (value : α) (rest : List Token) (h : rest.length < n) :
    (taken value rest h).outcome = (.ok value, rest) := rfl

@[simp] theorem outcome_refused (error : SyntaxError) (rest : List Token) :
    (refused error rest : Phrase α n).outcome = (.error error, rest) := rfl

theorem outcome_eq_ok {p : Phrase α n} {value rest} :
    p.outcome = (.ok value, rest) ↔ ∃ shorter, p = .taken value rest shorter := by
  constructor
  · intro h
    cases p with
    | refused => cases h
    | taken value' rest' shorter =>
      simp only [outcome_taken, Prod.mk.injEq, Except.ok.injEq] at h
      obtain ⟨rfl, rfl⟩ := h
      exact ⟨shorter, rfl⟩
  · rintro ⟨shorter, rfl⟩
    rfl

theorem outcome_eq_error {p : Phrase α n} {error rest} :
    p.outcome = (.error error, rest) ↔ p = .refused error rest := by
  cases p <;> simp

@[simp] theorem outcome_weaken (h : m ≤ n) (p : Phrase α m) : (p.weaken h).outcome = p.outcome := by
  cases p <;> rfl

@[simp] theorem outcome_refuse (x : Expected) (ts : List Token) :
    (refuse x ts : Phrase α n).outcome = (.error (SyntaxError.located x ts.head?), ts) := rfl

@[simp] theorem outcome_map (f : α → β) (p : Phrase α n) :
    (p.map f).outcome = (p.outcome.1.map f, p.outcome.2) := by
  cases p <;> rfl

theorem outcome_expect_taken {k : Kind} (message : String) {t : Token} (ts : List Token) (h : t.kind = k) :
    (expect k message (t :: ts)).outcome = (.ok t, ts) := by
  rw [expect, if_pos h, outcome_taken]

theorem outcome_expect_refused {k : Kind} (message : String) {ts : List Token}
    (h : ∀ t ∈ ts.head?, t.kind ≠ k) :
    (expect k message ts).outcome = (.error (SyntaxError.located (.token message) ts.head?), ts) := by
  cases ts with
  | nil => rfl
  | cons t ts => rw [expect, if_neg (h t rfl), outcome_refuse]

end Phrase

namespace Expr

/-! ## The rules for expressions -/

/-- The reading function of each rule. -/
def readRule (r : Rule) (ts : List Token) : Phrase Expr ts.length :=
  match r with
  | .level l => readLevel l ts
  | .unary => readUnary ts
  | .primary => readPrimary ts

theorem operatorAt?_eq_some {l : Level} {t : Token} {op : BinaryOp} :
    operatorAt? l t = some op ↔ t.kind = op.kind ∧ op.level = l := by
  rw [operatorAt?, Option.filter_eq_some_iff, Kind.binaryOp?_eq_some, decide_eq_true_eq]

theorem operatorAt?_eq_none {l : Level} {t : Token} :
    operatorAt? l t = none ↔ ∀ op : BinaryOp, t.kind = op.kind → op.level ≠ l := by
  rw [Option.eq_none_iff_forall_not_mem]
  simp only [Option.mem_def, operatorAt?_eq_some, not_and, ne_eq]

theorem literal?_eq_some {t : Token} {v : Value} : literal? t = some v ↔ IsLiteral t v := by
  constructor
  · intro h
    rw [literal?] at h
    split at h
    next hk => cases h; exact .falseWord hk
    next hk => cases h; exact .trueWord hk
    next hk => cases h; exact .nilWord hk
    next hk => exact .number hk h
    next hk => exact .string hk h
    next => cases h
  · intro h
    cases h <;> simp only [literal?, *]

theorem outcome_readOperand (l : Level) (ts : List Token) :
    (readOperand l ts).outcome = (readRule l.operand ts).outcome := by
  rw [readOperand]
  cases l <;> rfl

theorem outcome_readLevel_taken {l ts left rest} (h : (readRule l.operand ts).outcome = (.ok left, rest)) :
    (readLevel l ts).outcome = (readChain l left rest).outcome := by
  rw [← outcome_readOperand] at h
  obtain ⟨shorter, ho⟩ := Phrase.outcome_eq_ok.1 h
  rw [readLevel, ho]
  exact Phrase.outcome_weaken _ _

theorem outcome_readLevel_refused {l ts error rest} (h : (readRule l.operand ts).outcome = (.error error, rest)) :
    (readLevel l ts).outcome = (.error error, rest) := by
  rw [← outcome_readOperand] at h
  rw [readLevel, Phrase.outcome_eq_error.1 h]
  rfl

theorem outcome_readChain_stop {l left ts} (h : ∀ t ∈ ts.head?, operatorAt? l t = none) :
    (readChain l left ts).outcome = (.ok left, ts) := by
  cases ts with
  | nil => rw [readChain]; rfl
  | cons t ts => rw [readChain, h t rfl]; rfl

theorem outcome_readChain_taken {l left t op ts right rest} (hop : operatorAt? l t = some op)
    (h : (readRule l.operand ts).outcome = (.ok right, rest)) :
    (readChain l left (t :: ts)).outcome = (readChain l (.binary left op right t.line) rest).outcome := by
  rw [← outcome_readOperand] at h
  obtain ⟨shorter, ho⟩ := Phrase.outcome_eq_ok.1 h
  rw [readChain, hop]
  simp only [ho]
  exact Phrase.outcome_weaken _ _

theorem outcome_readChain_refused {l left t op ts error rest} (hop : operatorAt? l t = some op)
    (h : (readRule l.operand ts).outcome = (.error error, rest)) :
    (readChain l left (t :: ts)).outcome = (.error error, rest) := by
  rw [← outcome_readOperand] at h
  rw [readChain, hop]
  simp only [Phrase.outcome_eq_error.1 h]
  rfl

theorem outcome_readUnary_operator {t : Token} {op : UnaryOp} (hop : t.kind = op.kind) (ts : List Token) :
    (readUnary (t :: ts)).outcome =
      ((readUnary ts).outcome.1.map (.unary op · t.line), (readUnary ts).outcome.2) := by
  rw [readUnary, Kind.unaryOp?_eq_some.2 hop]
  simp only [Phrase.outcome_weaken, Phrase.outcome_map]

theorem outcome_readUnary_primary {ts : List Token} (h : ∀ t ∈ ts.head?, ∀ op : UnaryOp, t.kind ≠ op.kind) :
    (readUnary ts).outcome = (readPrimary ts).outcome := by
  cases ts with
  | nil => rw [readUnary]
  | cons t ts =>
    have hop : t.kind.unaryOp? = none := by
      rw [Option.eq_none_iff_forall_ne_some]
      exact fun op hop => h t rfl op (Kind.unaryOp?_eq_some.1 hop)
    rw [readUnary, hop]

theorem outcome_readPrimary_refused {opening : Token} {ts error rest} (ho : opening.kind = .leftParen)
    (h : (readLevel .equality ts).outcome = (.error error, rest)) :
    (readPrimary (opening :: ts)).outcome = (.error error, rest) := by
  rw [readPrimary, if_pos ho, Phrase.outcome_eq_error.1 h]
  rfl

theorem outcome_readPrimary_closed {opening closing : Token} {ts body rest} (ho : opening.kind = .leftParen)
    (h : (readLevel .equality ts).outcome = (.ok body, closing :: rest)) (hc : closing.kind = .rightParen) :
    (readPrimary (opening :: ts)).outcome = (.ok (.grouping body opening.line), rest) := by
  obtain ⟨shorter, hb⟩ := Phrase.outcome_eq_ok.1 h
  rw [readPrimary, if_pos ho, hb]
  simp only [Phrase.outcome_weaken, Phrase.outcome_map, Phrase.outcome_expect_taken _ _ hc, Except.map]

theorem outcome_readPrimary_unclosed {opening : Token} {ts body rest} (ho : opening.kind = .leftParen)
    (h : (readLevel .equality ts).outcome = (.ok body, rest)) (hc : ∀ t ∈ rest.head?, t.kind ≠ .rightParen) :
    (readPrimary (opening :: ts)).outcome =
      (.error (SyntaxError.located Wanted.closing.expected rest.head?), rest) := by
  obtain ⟨shorter, hb⟩ := Phrase.outcome_eq_ok.1 h
  rw [readPrimary, if_pos ho, hb]
  simp only [Phrase.outcome_weaken, Phrase.outcome_map, Phrase.outcome_expect_refused _ hc, Except.map,
    Wanted.expected]

theorem outcome_readPrimary_literal {t : Token} {v : Value} (h : IsLiteral t v) (ts : List Token) :
    (readPrimary (t :: ts)).outcome = (.ok (.literal v t.line), ts) := by
  rw [readPrimary, if_neg h.kind_not_paren.1, literal?_eq_some.2 h]
  rfl

/-- Where no primary expression begins, one is missed. -/
theorem outcome_readPrimary_none {ts : List Token} (h : ∀ t ∈ ts.head?, t.kind ≠ .leftParen ∧ ∀ v, ¬ IsLiteral t v) :
    (readPrimary ts).outcome = (.error (SyntaxError.located .expression ts.head?), ts) := by
  cases ts with
  | nil => rw [readPrimary]; rfl
  | cons t ts =>
    have hv : literal? t = none := by
      rw [Option.eq_none_iff_forall_ne_some]
      exact fun v hv => (h t rfl).2 v (literal?_eq_some.1 hv)
    rw [readPrimary, if_neg (h t rfl).1, hv]
    rfl

end Expr

/-! ## Statements -/

namespace Statement

theorem outcome_readBody_refused {ts error rest} (message : String)
    (h : (Expr.readLevel .equality ts).outcome = (.error error, rest)) :
    (readBody message ts).outcome = (.error error, rest) := by
  rw [readBody, Expr.read, Phrase.outcome_eq_error.1 h]
  rfl

theorem outcome_readBody_ended {ts e semicolon rest} (message : String)
    (h : (Expr.readLevel .equality ts).outcome = (.ok e, semicolon :: rest)) (hs : semicolon.kind = .semicolon) :
    (readBody message ts).outcome = (.ok e, rest) := by
  obtain ⟨shorter, he⟩ := Phrase.outcome_eq_ok.1 h
  rw [readBody, Expr.read, he]
  simp only [Phrase.outcome_weaken, Phrase.outcome_map, Phrase.outcome_expect_taken _ _ hs, Except.map]

theorem outcome_readBody_unended {ts e rest} (message : String)
    (h : (Expr.readLevel .equality ts).outcome = (.ok e, rest)) (hs : ∀ t ∈ rest.head?, t.kind ≠ .semicolon) :
    (readBody message ts).outcome = (.error (SyntaxError.located (.token message) rest.head?), rest) := by
  obtain ⟨shorter, he⟩ := Phrase.outcome_eq_ok.1 h
  rw [readBody, Expr.read, he]
  simp only [Phrase.outcome_weaken, Phrase.outcome_map, Phrase.outcome_expect_refused _ hs, Except.map]

theorem outcome_read_print {word : Token} (hw : word.kind = .printWord) (ts : List Token) :
    (read (word :: ts)).outcome =
      ((readBody "Expect ';' after value." ts).outcome.1.map (.print · word.line),
        (readBody "Expect ';' after value." ts).outcome.2) := by
  rw [read, if_pos hw]
  simp only [Phrase.outcome_weaken, Phrase.outcome_map]

theorem outcome_read_expression {t : Token} (ht : t.kind ≠ .printWord) (ts : List Token) :
    (read (t :: ts)).outcome =
      ((readBody "Expect ';' after expression." (t :: ts)).outcome.1.map (.expression · t.line),
        (readBody "Expect ';' after expression." (t :: ts)).outcome.2) := by
  rw [read, if_neg ht, Phrase.outcome_map]

end Statement

/-! ## Programs -/

namespace Program

/-- There is nothing to read: no token, or the one that ends the input. -/
def AtEnd (ts : List Token) : Prop := ∀ t ∈ ts.head?, t.kind = .endOfInput

theorem read_atEnd {ts} (h : AtEnd ts) : read ts = .ok [] := by
  cases ts with
  | nil => rw [read]
  | cons t ts => rw [read, if_pos (h t rfl)]

theorem read_taken {t ts s rest} (ht : t.kind ≠ .endOfInput)
    (h : (Statement.read (t :: ts)).outcome = (.ok s, rest)) : read (t :: ts) = (read rest).map (s :: ·) := by
  obtain ⟨shorter, hs⟩ := Phrase.outcome_eq_ok.1 h
  rw [read, if_neg ht, hs]
  simp only
  cases read rest <;> rfl

theorem read_refused {t ts error rest} (ht : t.kind ≠ .endOfInput)
    (h : (Statement.read (t :: ts)).outcome = (.error error, rest)) : read (t :: ts) = .error error := by
  rw [read, if_neg ht, Phrase.outcome_eq_error.1 h]

end Program
end ExprLang
