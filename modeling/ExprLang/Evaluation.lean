/-
The value of an expression. Operands are evaluated from left to right, all of
them always; the first failure is the expression's.

Each family of operators has a rule of its own, which looks at the types of the
operands first. A rule for several operators is stated for every operator, and
answers one that is not of its family as a defect; `Expr.evaluate` hands each
operator to the rule of its own family.
-/
import ExprLang.Error
import ExprLang.Expr

namespace ExprLang

/-- What an arithmetic operator other than addition does. -/
def BinaryOp.scalar? : BinaryOp → Option (Number → Number → Number)
  | .subtract => some Number.sub
  | .multiply => some Number.mul
  | .divide => some Number.div
  | _ => none

/-- The relation that a comparison asks about. -/
def BinaryOp.relation? : BinaryOp → Option (Number → Number → Bool)
  | .less => some Number.lt
  | .greater => some fun x y => y.lt x
  | .lessEqual => some Number.le
  | .greaterEqual => some fun x y => y.le x
  | _ => none

namespace Value

/-- The number, or the complaint that one was needed. -/
def asNumber (v : Value) (line : Nat) : Except RuntimeError Number :=
  match v.number? with
  | some x => .ok x
  | none => .error ⟨.expectedNumber, line⟩

def unary (op : UnaryOp) (v : Value) (line : Nat) : Except RuntimeError Value :=
  match op with
  | .negate => (v.asNumber line).map fun x => .number x.neg
  | .not => .ok (.bool !v.isTruthy)

/-- The sum of two numbers; if either is a string, the two texts joined. -/
def add (left right : Value) (line : Nat) : Except RuntimeError Value :=
  match left, right with
  | .number x, .number y => .ok (.number (x.add y))
  | left, right =>
    if left.isString || right.isString then .ok (.string (left.text ++ right.text))
    else .error ⟨.invalidAddition, line⟩

def scalar (op : BinaryOp) (left right : Value) (line : Nat) : Except RuntimeError Value :=
  match left, right with
  | .number x, .number y =>
    match op.scalar? with
    | some f => .ok (.number (f x y))
    | none => .error ⟨.foreignOperator .scalar, line⟩
  | _, _ => .error ⟨.expectedNumbers op, line⟩

def comparison (op : BinaryOp) (left right : Value) (line : Nat) : Except RuntimeError Value :=
  match left, right with
  | .number x, .number y =>
    match op.relation? with
    | some r => .ok (.bool (r x y))
    | none => .error ⟨.foreignOperator .comparison, line⟩
  | _, _ => .error ⟨.expectedNumbers op, line⟩

def equality (op : BinaryOp) (left right : Value) (line : Nat) : Except RuntimeError Value :=
  match op with
  | .equal => .ok (.bool (left.equal right))
  | .notEqual => .ok (.bool !left.equal right)
  | _ => .error ⟨.foreignOperator .equality, line⟩

/-- A binary operator by the rule of its family. -/
def binary (op : BinaryOp) (left right : Value) (line : Nat) : Except RuntimeError Value :=
  match op.family with
  | .addition => add left right line
  | .scalar => scalar op left right line
  | .comparison => comparison op left right line
  | .equality => equality op left right line

end Value

/-- The value of an expression. -/
def Expr.evaluate : Expr → Except RuntimeError Value
  | .literal value _ => .ok value
  | .grouping body _ => body.evaluate
  | .unary op operand line =>
    match operand.evaluate with
    | .error error => .error error
    | .ok value => Value.unary op value line
  | .binary left op right line =>
    match left.evaluate with
    | .error error => .error error
    | .ok l =>
      match right.evaluate with
      | .error error => .error error
      | .ok r => Value.binary op l r line

end ExprLang
