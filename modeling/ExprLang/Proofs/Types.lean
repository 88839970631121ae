/-
The types of expressions, read off their operators, the types of their literals
and their lines. They say exactly how an evaluation ends: with which error, or
with a value of which type (`Expr.evaluate_type`). What a literal's value is,
within its type, has no part in it, so two programs that differ in nothing else
fail at the same statement or both run to the end; only a bounded sink, which may
have room for one's output and not for the other's, can tell them apart.
-/
import Mathlib.Data.List.Forall2
import ExprLang.Execution

namespace ExprLang

/-- The types of values. -/
inductive Ty where
  | nil | bool | number | string
deriving DecidableEq, Inhabited

def Value.type : Value → Ty
  | .nil => .nil
  | .bool _ => .bool
  | .number _ => .number
  | .string _ => .string

namespace Ty

def unary (op : UnaryOp) (t : Ty) (line : Nat) : Except RuntimeError Ty :=
  match op with
  | .not => .ok .bool
  | .negate => if t = .number then .ok .number else .error ⟨.expectedNumber, line⟩

def binary (op : BinaryOp) (l r : Ty) (line : Nat) : Except RuntimeError Ty :=
  match op with
  | .add =>
    if l = .number ∧ r = .number then .ok .number
    else if l = .string ∨ r = .string then .ok .string
    else .error ⟨.invalidAddition, line⟩
  | .subtract | .multiply | .divide =>
    if l = .number ∧ r = .number then .ok .number else .error ⟨.expectedNumbers op, line⟩
  | .less | .greater | .lessEqual | .greaterEqual =>
    if l = .number ∧ r = .number then .ok .bool else .error ⟨.expectedNumbers op, line⟩
  | .equal | .notEqual => .ok .bool

end Ty

/-- The type of an expression's value, or the error of its evaluation: of two operands that
fail the left one's is the expression's. -/
def Expr.type : Expr → Except RuntimeError Ty
  | .literal value _ => .ok value.type
  | .grouping body _ => body.type
  | .unary op operand line =>
    match operand.type with
    | .error error => .error error
    | .ok t => Ty.unary op t line
  | .binary left op right line =>
    match left.type with
    | .error error => .error error
    | .ok l =>
      match right.type with
      | .error error => .error error
      | .ok r => Ty.binary op l r line

/-! ## Values and operators -/

namespace Value

theorem unary_type (op : UnaryOp) (v : Value) (line : Nat) :
    (unary op v line).map type = Ty.unary op v.type line := by
  cases op with
  | not => rfl
  | negate => cases v <;> rfl

theorem add_type (v w : Value) (line : Nat) : (add v w line).map type = Ty.binary .add v.type w.type line := by
  cases v <;> cases w <;> rfl

theorem scalar_type {op : BinaryOp} (h : op.family = .scalar) (v w : Value) (line : Nat) :
    (scalar op v w line).map type = Ty.binary op v.type w.type line := by
  cases op <;> cases h <;> cases v <;> cases w <;> rfl

theorem comparison_type {op : BinaryOp} (h : op.family = .comparison) (v w : Value) (line : Nat) :
    (comparison op v w line).map type = Ty.binary op v.type w.type line := by
  cases op <;> cases h <;> cases v <;> cases w <;> rfl

theorem equality_type {op : BinaryOp} (h : op.family = .equality) (v w : Value) (line : Nat) :
    (equality op v w line).map type = Ty.binary op v.type w.type line := by
  cases op <;> cases h <;> rfl

/-- Each operator is handed to the rule of its own family. -/
theorem binary_type (op : BinaryOp) (v w : Value) (line : Nat) :
    (binary op v w line).map type = Ty.binary op v.type w.type line := by
  rw [binary]
  split
  next h =>
    obtain rfl : op = .add := by cases op <;> first | rfl | cases h
    exact add_type v w line
  next h => exact scalar_type h v w line
  next h => exact comparison_type h v w line
  next h => exact equality_type h v w line

end Value

/-! ## Expressions -/

namespace Expr

theorem evaluate_type (e : Expr) : e.evaluate.map Value.type = e.type := by
  induction e with
  | literal value line => rfl
  | grouping body line ih => exact ih
  | unary op operand line ih =>
    rw [evaluate, type, ← ih]
    cases operand.evaluate with
    | error error => rfl
    | ok v => exact Value.unary_type op v line
  | binary left op right line ihl ihr =>
    rw [evaluate, type, ← ihl, ← ihr]
    cases left.evaluate with
    | error error => rfl
    | ok v =>
      cases right.evaluate with
      | error error => rfl
      | ok w => exact Value.binary_type op v w line

end Expr

theorem Ty.unary_not_foreign {op t line rule line'} :
    Ty.unary op t line ≠ .error ⟨.foreignOperator rule, line'⟩ := by
  cases op with
  | not => simp [Ty.unary]
  | negate => rw [Ty.unary]; split <;> simp

theorem Ty.binary_not_foreign {op l r line rule line'} :
    Ty.binary op l r line ≠ .error ⟨.foreignOperator rule, line'⟩ := by
  cases op <;> simp only [Ty.binary] <;> (repeat' split) <;> simp

theorem Expr.type_not_foreign (e : Expr) (rule : OperatorRule) (line : Nat) :
    e.type ≠ .error ⟨.foreignOperator rule, line⟩ := by
  induction e with
  | literal value line => simp [type]
  | grouping body line ih => exact ih
  | unary op operand line ih =>
    rw [type]
    cases h : operand.type with
    | error error => rwa [h] at ih
    | ok t => exact Ty.unary_not_foreign
  | binary left op right line ihl ihr =>
    rw [type]
    cases hl : left.type with
    | error error => rwa [hl] at ihl
    | ok l =>
      cases hr : right.type with
      | error error => rwa [hr] at ihr
      | ok r => exact Ty.binary_not_foreign

theorem Expr.evaluate_not_foreign (e : Expr) (rule : OperatorRule) (line : Nat) :
    e.evaluate ≠ .error ⟨.foreignOperator rule, line⟩ := by
  intro h
  have ht := e.evaluate_type
  rw [h] at ht
  exact e.type_not_foreign rule line ht.symm

/-! ## Programs -/

/-- The error that the types of an expression tell, if they do. -/
def Expr.failure? (e : Expr) : Option RuntimeError :=
  match e.type with
  | .error error => some error
  | .ok _ => none

/-- The failure of a write that a bounded sink has no room for. -/
def Sink.CutOff (sink : Sink) (failure : Option RuntimeError) : Prop :=
  sink.settings.capacity ≠ none ∧ ∃ line, failure = some (sink.fullFault.blame line)

theorem Sink.CutOff.congr {sink sink' : Sink} {failure : Option RuntimeError} (h : sink.CutOff failure)
    (hs : sink.settings = sink'.settings) : sink'.CutOff failure := by
  obtain ⟨hc, line, hf⟩ := h
  refine ⟨by rwa [← hs], line, ?_⟩
  rw [hf, fullFault, fullFault, hs]

theorem Sink.not_cutOff_none (sink : Sink) : ¬ sink.CutOff none := by
  intro h
  obtain ⟨-, line, hf⟩ := h
  cases hf

/-- A write fails for want of room only. -/
theorem Sink.write_fault {sink : Sink} {bytes : List UInt8} {fault : SinkFault}
    (h : (sink.write bytes).2 = some fault) : sink.settings.capacity ≠ none ∧ fault = sink.fullFault := by
  simp only [write] at h
  split at h
  · cases h
  · next hlen =>
    cases h
    refine ⟨fun hc => hlen ?_, rfl⟩
    simp [fitting, room?, hc]

theorem Statement.execute_settings (sink : Sink) (s : Statement) :
    (s.execute sink).sink.settings = sink.settings := by
  cases s with
  | expression e line => rw [execute]; cases e.evaluate <;> rfl
  | print e line => rw [execute]; cases e.evaluate <;> rfl

/-- A statement fails just as its types say, unless its sink has no room for what it prints. -/
theorem Statement.execute_failure (sink : Sink) (s : Statement) :
    (s.execute sink).failure = s.expr.failure? ∨ sink.CutOff (s.execute sink).failure := by
  cases s with
  | expression e line =>
    left
    rw [execute, expr, Expr.failure?, ← e.evaluate_type]
    cases e.evaluate <;> rfl
  | print e line =>
    rw [execute, expr, Expr.failure?, ← e.evaluate_type]
    cases e.evaluate with
    | error error => exact .inl rfl
    | ok v =>
      cases hw : (sink.write v.printed).2 with
      | none =>
        left
        simp [hw, Except.map]
      | some fault =>
        right
        obtain ⟨hc, rfl⟩ := Sink.write_fault hw
        exact ⟨hc, line, by simp [hw]⟩

theorem Program.execute_settings (sink : Sink) (p : Program) :
    (execute sink p).sink.settings = sink.settings := by
  induction p generalizing sink with
  | nil => rfl
  | cons s p ih =>
    rw [execute]
    have hs := s.execute_settings sink
    split
    next error h => rw [h] at hs; exact hs
    next sink' h => rw [h] at hs; exact (ih sink').trans hs

/-- A program fails at the first statement whose types tell an error, unless its sink has no
room for what it prints before. -/
theorem Program.execute_failure (sink : Sink) (p : Program) :
    (execute sink p).failure = p.findSome? (·.expr.failure?) ∨ sink.CutOff (execute sink p).failure := by
  induction p generalizing sink with
  | nil => exact .inl rfl
  | cons s p ih =>
    have hf := s.execute_failure sink
    have hs := s.execute_settings sink
    rw [execute, List.findSome?_cons]
    split
    next error he =>
      rw [he] at hf
      rcases hf with hf | hf
      · rw [← hf]
        exact .inl rfl
      · exact .inr hf
    next sink' he =>
      rw [he] at hf hs
      rcases hf with hf | hf
      · rw [← hf]
        exact (ih sink').imp_right fun h => h.congr hs
      · exact absurd hf sink.not_cutOff_none

/-- Two expressions that differ in the values of literals and not in their types. -/
inductive Expr.Alike : Expr → Expr → Prop
  | literal {v w line} : v.type = w.type → Alike (.literal v line) (.literal w line)
  | grouping {e e' line} : Alike e e' → Alike (.grouping e line) (.grouping e' line)
  | unary {op e e' line} : Alike e e' → Alike (.unary op e line) (.unary op e' line)
  | binary {l l' op r r' line} : Alike l l' → Alike r r' → Alike (.binary l op r line) (.binary l' op r' line)

theorem Expr.Alike.type_eq {e e' : Expr} (h : e.Alike e') : e.type = e'.type := by
  induction h with
  | literal hv => rw [type, type, hv]
  | grouping _ ih => exact ih
  | unary _ ih => rw [type, type, ih]
  | binary _ _ ihl ihr => rw [type, type, ihl, ihr]

inductive Statement.Alike : Statement → Statement → Prop
  | print {e e' line} : e.Alike e' → Alike (.print e line) (.print e' line)
  | expression {e e' line} : e.Alike e' → Alike (.expression e line) (.expression e' line)

theorem Statement.Alike.failure?_eq {s s' : Statement} (h : s.Alike s') : s.expr.failure? = s'.expr.failure? := by
  cases h with
  | print he | expression he => simp only [expr, Expr.failure?, he.type_eq]

theorem Statement.Alike.line_eq {s s' : Statement} (h : s.Alike s') : s.line = s'.line := by
  cases h <;> rfl

/-- Programs that differ in the values of literals and not in their types. -/
abbrev Program.Alike (p q : Program) : Prop := List.Forall₂ Statement.Alike p q

theorem Program.Alike.findSome?_eq {p q : Program} (h : p.Alike q) :
    p.findSome? (·.expr.failure?) = q.findSome? (·.expr.failure?) := by
  induction h with
  | nil => rfl
  | cons hst _ ih => rw [List.findSome?_cons, List.findSome?_cons, hst.failure?_eq, ih]

/-- Two runs fail alike, or a sink cuts one of them off. -/
def Sink.AlikeUnlessCutOff (s t : Sink) (f g : Option RuntimeError) : Prop :=
  f = g ∨ s.CutOff f ∨ t.CutOff g

theorem Program.Alike.execute_failure {p q : Program} (h : p.Alike q) (s t : Sink) :
    s.AlikeUnlessCutOff t (execute s p).failure (execute t q).failure := by
  rcases Program.execute_failure s p with hp | hp
  · rcases Program.execute_failure t q with hq | hq
    · exact .inl (hp.trans (h.findSome?_eq.trans hq.symm))
    · exact .inr (.inr hq)
  · exact .inr (.inl hp)

theorem Program.Alike.take {p q : Program} (h : p.Alike q) (n : Nat) : Program.Alike (p.take n) (q.take n) :=
  List.forall₂_take n h

theorem Program.Alike.lastLine_eq {p q : Program} (h : p.Alike q) : p.lastLine = q.lastLine := by
  have hline : ∀ p : Program, p.lastLine = ((p.map Statement.line).getLast?).getD 1 := by
    intro p
    rw [Program.lastLine, List.getLast?_map]
    cases p.getLast? <;> rfl
  have hlines : p.map Statement.line = q.map Statement.line := by
    induction h with
    | nil => rfl
    | cons hst _ ih => rw [List.map_cons, List.map_cons, hst.line_eq, ih]
  rw [hline, hline, hlines]

/-- A run that no statement ends fails if its flush does. -/
theorem Program.interpret_failure (sink : Sink) (p : Program) : (interpret sink p).failure =
    (execute sink p).failure.or
      (if sink.settings.flushFails then some (SinkFault.closed.blame p.lastLine) else none) := by
  have hs := execute_settings sink p
  rw [interpret]
  split
  next error h => rw [h]; rfl
  next sink' h =>
    rw [h] at hs ⊢
    simp only at hs
    rw [← hs, Option.none_or]
    cases hf : sink'.settings.flushFails <;> simp [Sink.flush, hf]

theorem Sink.CutOff.interpret {sink : Sink} {p : Program} (h : sink.CutOff (Program.execute sink p).failure) :
    sink.CutOff (Program.interpret sink p).failure := by
  obtain ⟨hc, line, hf⟩ := h
  refine ⟨hc, line, ?_⟩
  rw [Program.interpret_failure, hf, Option.some_or]

theorem Program.Alike.interpret_failure {p q : Program} (h : p.Alike q) {s t : Sink}
    (hf : s.settings.flushFails = t.settings.flushFails) :
    s.AlikeUnlessCutOff t (interpret s p).failure (interpret t q).failure := by
  rcases h.execute_failure s t with he | hp | hq
  · left
    rw [Program.interpret_failure, Program.interpret_failure, he, hf, h.lastLine_eq]
  · exact .inr (.inl hp.interpret)
  · exact .inr (.inr hq.interpret)

/-- **Types predict evaluation.** An expression's evaluation ends as its type says, with that
error or a value of that type, and never in a rule that does not serve its operator.
So two programs alike but for the values of literals fail at the same statement with the same
error or both run to the end, unless a bounded sink cuts one of them off. -/
theorem Program.types_predict :
    (∀ e : Expr, e.evaluate.map Value.type = e.type ∧
      ∀ rule line, e.evaluate ≠ .error ⟨.foreignOperator rule, line⟩) ∧
    ∀ p q : Program, p.Alike q → ∀ s t : Sink,
      (∀ n, s.AlikeUnlessCutOff t (execute s (p.take n)).failure (execute t (q.take n)).failure) ∧
        (s.settings.flushFails = t.settings.flushFails →
          s.AlikeUnlessCutOff t (interpret s p).failure (interpret t q).failure) := by
  refine ⟨fun e => ⟨e.evaluate_type, e.evaluate_not_foreign⟩, fun p q hpq s t => ⟨fun n => ?_, fun hf => ?_⟩⟩
  · exact (hpq.take n).execute_failure s t
  · exact hpq.interpret_failure hf

/-- A program that prints a quotient and then fails to negate a text. -/
def Program.quotient (x y : Number) (text : String) : Program :=
  [.print (.binary (.literal (.number x) 1) .divide (.literal (.number y) 1) 1) 1,
    .expression (.unary .negate (.literal (.string text) 2) 2) 2]

/-- It prints `1`. -/
def Program.quotientOfOnes : Program :=
  quotient (Decimal.toNumber false ⟨1, 0⟩) (Decimal.toNumber false ⟨1, 0⟩) "a"

/-- It prints `NaN`. -/
def Program.quotientOfZeros : Program :=
  quotient (.finite false .zero) (.finite false .zero) "bcd"

/-- A sink with room for the first of these lines and not for the second. -/
def Sink.narrow : Sink := { settings := { capacity := some 2 } }

theorem Program.quotients_alike :
    (quotientOfOnes ≠ quotientOfZeros ∧ quotientOfOnes.Alike quotientOfZeros) ∧
    (interpret {} quotientOfOnes).failure = some ⟨.expectedNumber, 2⟩ ∧
    (∀ sink : Sink, sink.settings.capacity = none →
      (interpret sink quotientOfOnes).failure = (interpret sink quotientOfZeros).failure) ∧
    (interpret .narrow quotientOfOnes).failure = some ⟨.expectedNumber, 2⟩ ∧
    Sink.narrow.CutOff (interpret .narrow quotientOfZeros).failure := by
  have hne : quotientOfOnes ≠ quotientOfZeros := by decide +kernel
  have halike : quotientOfOnes.Alike quotientOfZeros :=
    .cons (.print (.binary (.literal rfl) (.literal rfl))) (.cons (.expression (.unary (.literal rfl))) .nil)
  have hones : (interpret .narrow quotientOfOnes).failure = some ⟨.expectedNumber, 2⟩ := by decide +kernel
  have hdiffer : (interpret .narrow quotientOfOnes).failure ≠ (interpret .narrow quotientOfZeros).failure := by
    decide +kernel
  refine ⟨⟨hne, halike⟩, by decide +kernel, fun sink hroom => ?_, hones, ?_⟩
  · rcases (types_predict.2 _ _ halike sink sink).2 rfl with h | h | h
    · exact h
    · exact absurd hroom h.1
    · exact absurd hroom h.1
  · -- the failures differ, and that of the first is none of the sink's
    rcases (types_predict.2 _ _ halike .narrow .narrow).2 rfl with h | ⟨-, line, h⟩ | h
    · exact absurd h hdiffer
    · rw [hones] at h
      cases h
    · exact h

end ExprLang
