/-
The reading functions, call by call. The body of a routine says what it calls and how it
goes on from the answer, whatever the answer is; a loop is taken round by round. That the
calls come to an end is no part of a body: run to a limited depth (`Call.run`) it may give
nothing. What it gives is what the reading functions give (`Call.run_sound`).
-/
import ExprLang.Proofs.Outcome

namespace ExprLang

/-- What is called for in the course of reading, the rounds of the two loops included. -/
inductive Routine where
  /-- A round of the loop over statements, after the statements that it has read. -/
  | statements (before : Program)
  | statement
  | expression
  | rule (r : Rule)
  /-- A round of the loop over a level's operators, after what it has made so far. -/
  | operators (l : Level) (left : Expr)
  | grouping
deriving DecidableEq, Inhabited

/-- What a routine gives: what it makes of the tokens, and the tokens that it leaves. Of a
program nothing is left to anyone. -/
abbrev Routine.Answer : Routine → Type
  | .statements _ => Except SyntaxError Program
  | .statement => Except SyntaxError Statement × List Token
  | .expression | .rule _ | .operators _ _ | .grouping => Except SyntaxError Expr × List Token

/-- A routine with the tokens that are left when it is called. -/
structure Call where
  routine : Routine
  tokens : List Token
deriving DecidableEq, Inhabited

/-- What a routine does up to its answer. -/
inductive Body (α : Type) where
  | done (answer : α)
  | call (c : Call) (next : c.routine.Answer → Body α)

namespace Body

variable {α β : Type}

/-- An operand of the level, and from there a round of its loop. -/
def operand (l : Level) (ts : List Token) (f : Expr → Expr) : Body (Except SyntaxError Expr × List Token) :=
  .call ⟨.rule l.operand, ts⟩ fun
    | (.error error, rest) => .done (.error error, rest)
    | (.ok e, rest) => .call ⟨.operators l (f e), rest⟩ .done

/-- An expression and the one token that ends it. -/
def ended (ts : List Token) (kind : Kind) (message : String) (f : Expr → β) : Body (Except SyntaxError β × List Token) :=
  .call ⟨.expression, ts⟩ fun
    | (.error error, rest) => .done (.error error, rest)
    | (.ok e, rest) => .done ((Phrase.expect kind message rest).map fun _ => f e).outcome

end Body

/-- The bodies of the routines. -/
def Routine.body : (r : Routine) → List Token → Body r.Answer
  | .statements before, [] => .done (.ok before)
  | .statements before, t :: ts =>
    if t.kind = .endOfInput then .done (.ok before)
    else .call ⟨.statement, t :: ts⟩ fun
      | (.error error, _) => .done (.error error)
      | (.ok s, rest) => .call ⟨.statements (before ++ [s]), rest⟩ .done
  | .statement, [] => .ended [] .semicolon "Expect ';' after expression." (.expression · 0)
  | .statement, t :: ts =>
    if t.kind = .printWord then .ended ts .semicolon "Expect ';' after value." (.print · t.line)
    else .ended (t :: ts) .semicolon "Expect ';' after expression." (.expression · t.line)
  | .expression, ts => .call ⟨.rule .expression, ts⟩ .done
  | .rule (.level l), ts => .operand l ts id
  -- the round that finds no operator of its level is the last
  | .operators _ left, [] => .done (.ok left, [])
  | .operators l left, t :: ts =>
    match Expr.operatorAt? l t with
    | none => .done (.ok left, t :: ts)
    | some op => .operand l ts (.binary left op · t.line)
  | .rule .unary, [] => .call ⟨.rule .primary, []⟩ .done
  | .rule .unary, t :: ts =>
    match t.kind.unaryOp? with
    | none => .call ⟨.rule .primary, t :: ts⟩ .done
    | some op => .call ⟨.rule .unary, ts⟩ fun answer => .done (answer.1.map (.unary op · t.line), answer.2)
  | .rule .primary, [] => .done (.error (SyntaxError.located .expression none), [])
  | .rule .primary, t :: ts =>
    if t.kind = .leftParen then .call ⟨.grouping, t :: ts⟩ .done
    else match Expr.literal? t with
      | some value => .done (.ok (.literal value t.line), ts)
      | none => .done (.error (SyntaxError.located .expression (some t)), t :: ts)
  | .grouping, ts =>
    match Phrase.expect .leftParen "Expect '('." ts with
    | .refused error rest => .done (.error error, rest)
    | .taken opening rest _ => .ended rest .rightParen "Expect ')' after expression." (.grouping · opening.line)

namespace Call

/-- What the call's routine does with its tokens. -/
def body (c : Call) : Body c.routine.Answer := c.routine.body c.tokens

/-- What the reading functions give. -/
def answer : (c : Call) → c.routine.Answer
  | ⟨.statements before, ts⟩ => (Program.read ts).map (before ++ ·)
  | ⟨.statement, ts⟩ => (Statement.read ts).outcome
  | ⟨.expression, ts⟩ => (Expr.read ts).outcome
  | ⟨.rule r, ts⟩ => (Expr.readRule r ts).outcome
  | ⟨.operators l left, ts⟩ => (Expr.readChain l left ts).outcome
  | ⟨.grouping, ts⟩ => (Expr.readGrouping ts).outcome

end Call

namespace Body

variable {α : Type}

/-- What a body comes to if its calls are answered by the reading functions. -/
def result : Body α → α
  | .done answer => answer
  | .call c next => (next c.answer).result

/-- The calls that a body then makes, in order. -/
def calls : Body α → List Call
  | .done _ => []
  | .call c next => c :: (next c.answer).calls

/-- What a body comes to if its calls are answered like this, as far as they are answered. -/
def resultWith (answer? : (c : Call) → Option c.routine.Answer) : Body α → Option α
  | .done answer => some answer
  | .call c next => (answer? c).bind fun answer => (next answer).resultWith answer?

end Body

namespace Call

/-- The calls that a call makes by itself. -/
def calls (c : Call) : List Call := c.body.calls

/-- The answer to a call, if it is found with calls within calls to this depth at most. -/
def run : Nat → (c : Call) → Option c.routine.Answer
  | 0, _ => none
  | depth + 1, c => c.body.resultWith (run depth)

end Call

/-! ## A body answers as the reading functions do -/

theorem Body.result_ended {β : Type} (ts : List Token) (kind : Kind) (message : String) (f : Expr → β) :
    (Body.ended ts kind message f).result =
      match Expr.read ts with
      | .refused error rest => (.error error, rest)
      | .taken e rest _ => ((Phrase.expect kind message rest).map fun _ => f e).outcome := by
  simp only [Body.ended, Body.result, Call.answer]
  cases Expr.read ts <;> rfl

theorem Body.result_ended_semicolon {β : Type} (message : String) (ts : List Token) (f : Expr → β) :
    (Body.ended ts .semicolon message f).result = ((Statement.readBody message ts).map f).outcome := by
  rw [Body.result_ended, Statement.readBody]
  cases Expr.read ts with
  | refused => rfl
  | taken e rest =>
    simp only [Phrase.outcome_map, Phrase.outcome_weaken]
    cases Phrase.expect .semicolon message rest <;> rfl

theorem Body.result_operand (l : Level) (ts : List Token) (f : Expr → Expr) :
    (Body.operand l ts f).result =
      match (Expr.readRule l.operand ts).outcome with
      | (.error error, rest) => (.error error, rest)
      | (.ok e, rest) => (Expr.readChain l (f e) rest).outcome := by
  simp only [Body.operand, Body.result, Call.answer]
  rcases (Expr.readRule l.operand ts).outcome with ⟨error | e, rest⟩ <;> rfl

namespace Routine

theorem result_statements (before : Program) (ts : List Token) :
    (body (.statements before) ts).result = (Program.read ts).map (before ++ ·) := by
  cases ts with
  | nil =>
    rw [Program.read_atEnd (by simp [Program.AtEnd])]
    simp [body, Body.result, Except.map]
  | cons t ts =>
    by_cases ht : t.kind = .endOfInput
    · rw [Program.read_atEnd (by simpa [Program.AtEnd] using ht)]
      simp [body, Body.result, Except.map, ht]
    · simp only [body, if_neg ht, Body.result, Call.answer]
      rcases hs : (Statement.read (t :: ts)).outcome with ⟨error | s, rest⟩
      · rw [Program.read_refused ht hs]
        rfl
      · rw [Program.read_taken ht hs]
        show (Program.read rest).map _ = _
        cases Program.read rest <;> simp [Except.map]

theorem result_statement (ts : List Token) : (body .statement ts).result = (Statement.read ts).outcome := by
  cases ts with
  | nil => exact Body.result_ended_semicolon _ _ _
  | cons t ts =>
    by_cases ht : t.kind = .printWord
    · simp only [body, Statement.read, if_pos ht, Phrase.outcome_weaken]
      exact Body.result_ended_semicolon _ _ _
    · simp only [body, Statement.read, if_neg ht]
      exact Body.result_ended_semicolon _ _ _

theorem result_level (l : Level) (ts : List Token) :
    (body (.rule (.level l)) ts).result = (Expr.readLevel l ts).outcome := by
  rw [body, Body.result_operand]
  rcases ho : (Expr.readRule l.operand ts).outcome with ⟨error | left, rest⟩
  · exact (Expr.outcome_readLevel_refused ho).symm
  · exact (Expr.outcome_readLevel_taken ho).symm

theorem result_operators (l : Level) (left : Expr) (ts : List Token) :
    (body (.operators l left) ts).result = (Expr.readChain l left ts).outcome := by
  cases ts with
  | nil => rw [Expr.outcome_readChain_stop (by simp)]; rfl
  | cons t ts =>
    cases hop : Expr.operatorAt? l t with
    | none =>
      rw [Expr.outcome_readChain_stop (by simpa using hop)]
      simp only [body, hop, Body.result]
    | some op =>
      simp only [body, hop, Body.result_operand]
      rcases ho : (Expr.readRule l.operand ts).outcome with ⟨error | right, rest⟩
      · exact (Expr.outcome_readChain_refused hop ho).symm
      · exact (Expr.outcome_readChain_taken hop ho).symm

theorem result_unary (ts : List Token) : (body (.rule .unary) ts).result = (Expr.readUnary ts).outcome := by
  cases ts with
  | nil => rw [Expr.readUnary]; rfl
  | cons t ts =>
    cases hop : t.kind.unaryOp? with
    | none =>
      rw [Expr.readUnary, hop]
      simp only [body, hop]
      rfl
    | some op =>
      rw [Expr.outcome_readUnary_operator (Kind.unaryOp?_eq_some.1 hop)]
      simp only [body, hop]
      rfl

theorem result_primary (ts : List Token) : (body (.rule .primary) ts).result = (Expr.readPrimary ts).outcome := by
  cases ts with
  | nil => rw [Expr.readPrimary]; rfl
  | cons t ts =>
    by_cases ht : t.kind = .leftParen
    · rw [Expr.readPrimary_eq_readGrouping ht]
      simp only [body, if_pos ht]
      rfl
    · rw [Expr.readPrimary, if_neg ht]
      simp only [body, if_neg ht]
      cases Expr.literal? t <;> rfl

theorem result_grouping (ts : List Token) : (body .grouping ts).result = (Expr.readGrouping ts).outcome := by
  simp only [body, Expr.readGrouping]
  cases Phrase.expect .leftParen "Expect '('." ts with
  | refused => rfl
  | taken opening rest =>
    dsimp only
    rw [Body.result_ended]
    cases Expr.read rest with
    | refused => rfl
    | taken => exact (Phrase.outcome_weaken _ _).symm

end Routine

/-- **A body answers as the reading functions do**, if its calls are answered as they do. -/
theorem Call.result_body : ∀ c : Call, c.body.result = c.answer
  | ⟨.statements before, ts⟩ => Routine.result_statements before ts
  | ⟨.statement, ts⟩ => Routine.result_statement ts
  | ⟨.expression, _⟩ => rfl
  | ⟨.rule (.level l), ts⟩ => Routine.result_level l ts
  | ⟨.rule .unary, ts⟩ => Routine.result_unary ts
  | ⟨.rule .primary, ts⟩ => Routine.result_primary ts
  | ⟨.operators l left, ts⟩ => Routine.result_operators l left ts
  | ⟨.grouping, ts⟩ => Routine.result_grouping ts

/-! ## Runs -/

theorem Body.eq_result_of_resultWith {α : Type} {answer? : (c : Call) → Option c.routine.Answer}
    (hanswer : ∀ c a, answer? c = some a → a = c.answer) {b : Body α} {r : α} (h : b.resultWith answer? = some r) :
    r = b.result := by
  induction b with
  | done a => exact (Option.some.inj h).symm
  | call c next ih =>
    obtain ⟨a, ha, hr⟩ := Option.bind_eq_some_iff.1 h
    obtain rfl := hanswer c a ha
    exact ih _ hr

/-- A run that comes to something comes to what the reading functions give. -/
theorem Call.run_sound : ∀ (depth : Nat) (c : Call) (a : c.routine.Answer), c.run depth = some a → a = c.answer := by
  intro depth
  induction depth with
  | zero => intro c a h; cases h
  | succ depth ih =>
    intro c a h
    rw [← c.result_body]
    exact Body.eq_result_of_resultWith ih h

end ExprLang
