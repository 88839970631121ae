/-
A phrase is what a rule of the grammar takes off the front of a list of tokens.
A rule that succeeds takes at least one token, and the result carries the proof;
this is what ends the recursion of the grammar. A rule that fails has taken the
tokens before the one it stands at.
-/
import ExprLang.Error

namespace ExprLang

/-- What a rule makes of a list of tokens: a value and fewer than `bound` tokens
left over, or an error and the tokens from the place of the error on. -/
inductive Phrase (α : Type) (bound : Nat) where
  | taken (value : α) (rest : List Token) (shorter : rest.length < bound)
  | refused (error : SyntaxError) (rest : List Token)

/-- What is left without its first token is shorter; the same, weaker. -/
theorem length_lt_cons (t : Token) (ts : List Token) : ts.length < (t :: ts).length :=
  Nat.lt_succ_self _

theorem length_le_cons (t : Token) (ts : List Token) : ts.length ≤ (t :: ts).length :=
  Nat.le_succ _

namespace Phrase

/-- The value, or the error. -/
def result {α : Type} {bound : Nat} : Phrase α bound → Except SyntaxError α
  | .taken value _ _ => .ok value
  | .refused error _ => .error error

/-- The tokens that were not taken. -/
def rest {α : Type} {bound : Nat} : Phrase α bound → List Token
  | .taken _ rest _ => rest
  | .refused _ rest => rest

/-- The same phrase under a larger bound. -/
def weaken {α : Type} {m n : Nat} (h : m ≤ n) : Phrase α m → Phrase α n
  | .taken value rest shorter => .taken value rest (Nat.lt_of_lt_of_le shorter h)
  | .refused error rest => .refused error rest

/-- The phrase with its value changed. -/
def map {α β : Type} {bound : Nat} (f : α → β) : Phrase α bound → Phrase β bound
  | .taken value rest shorter => .taken (f value) rest shorter
  | .refused error rest => .refused error rest

/-- Refuses at the first token. -/
def refuse {α : Type} {bound : Nat} (expected : Expected) (ts : List Token) : Phrase α bound :=
  .refused (SyntaxError.located expected ts.head?) ts

/-- Takes one token of this kind. -/
def expect (kind : Kind) (message : String) : (ts : List Token) → Phrase Token ts.length
  | [] => refuse (.token message) []
  | t :: ts =>
    if t.kind = kind then .taken t ts (length_lt_cons t ts)
    else refuse (.token message) (t :: ts)

/-! ## What is left over -/

/-- One token is taken or none. -/
theorem rest_expect_suffix (kind : Kind) (message : String) (ts : List Token) :
    (expect kind message ts).rest <:+ ts := by
  cases ts with
  | nil => exact List.suffix_refl _
  | cons t ts =>
    simp only [expect]
    split
    · exact List.suffix_cons t ts
    · exact List.suffix_refl _

end Phrase
end ExprLang
