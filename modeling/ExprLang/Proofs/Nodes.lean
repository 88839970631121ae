/-
The nodes of a tree and the tokens that they are built from. Every node has a token
of its own, an operator, an opening parenthesis or a literal, and its line
(`Derives.exists_token`); and but for the closing parentheses there are no tokens
more than nodes (`Derives.length_eq`).
-/
import ExprLang.Proofs.Grammar

namespace ExprLang

namespace Expr

/-- An expression and all expressions within it. -/
def nodes : Expr → List Expr
  | .literal value line => [.literal value line]
  | .grouping body line => .grouping body line :: body.nodes
  | .unary op operand line => .unary op operand line :: operand.nodes
  | .binary left op right line => .binary left op right line :: (left.nodes ++ right.nodes)

def isGrouping : Expr → Bool
  | .grouping _ _ => true
  | _ => false

end Expr

/-- The node that a token gives, with its line. -/
inductive NodeOf (t : Token) : Expr → Prop
  | literal {v} : IsLiteral t v → NodeOf t (.literal v t.line)
  | grouping {body} : t.kind = .leftParen → NodeOf t (.grouping body t.line)
  | unary {op operand} : t.kind = op.kind → NodeOf t (.unary op operand t.line)
  | binary {left op right} : t.kind = op.kind → NodeOf t (.binary left op right t.line)

theorem NodeOf.line_eq {t n} (h : NodeOf t n) : n.line = t.line := by cases h <;> rfl

namespace Derives

/-- Every node is given by a token. -/
theorem exists_token {r ts e} (h : Derives r ts e) : ∀ n ∈ e.nodes, ∃ t ∈ ts, NodeOf t n := by
  have weaken : ∀ {n : Expr} {ts us : List Token}, ts ⊆ us → (∃ t ∈ ts, NodeOf t n) →
      ∃ t ∈ us, NodeOf t n := by
    intro n ts us hsub h
    obtain ⟨t, ht, hn⟩ := h
    exact ⟨t, hsub ht, hn⟩
  induction h with
  | literal hv =>
    intro n hn
    obtain rfl := List.mem_singleton.1 hn
    exact ⟨_, List.mem_cons_self, .literal hv⟩
  | grouping ho _ _ ih =>
    intro n hn
    rcases List.mem_cons.1 hn with rfl | hn
    · exact ⟨_, List.mem_cons_self, .grouping ho⟩
    · exact weaken (fun t ht => by simp [ht]) (ih n hn)
  | primary _ ih | operand _ ih => exact ih
  | unary hop _ ih =>
    intro n hn
    rcases List.mem_cons.1 hn with rfl | hn
    · exact ⟨_, List.mem_cons_self, .unary hop⟩
    · exact weaken (List.subset_cons_self _ _) (ih n hn)
  | binary _ hop _ _ ihl ihr =>
    intro n hn
    rcases List.mem_cons.1 hn with rfl | hn
    · exact ⟨_, by simp, .binary hop⟩
    · rcases List.mem_append.1 hn with hn | hn
      · exact weaken (List.subset_append_left _ _) (ihl n hn)
      · exact weaken (fun t ht => by simp [ht]) (ihr n hn)

/-- A phrase has a token for each node, and one more for each grouping. -/
theorem length_eq {r ts e} (h : Derives r ts e) :
    ts.length = e.nodes.countP (!·.isGrouping) + 2 * e.nodes.countP (·.isGrouping) := by
  induction h with
  | literal => rfl
  | grouping _ _ _ ih =>
    simp [Expr.nodes, Expr.isGrouping, ih]
    omega
  | primary _ ih | operand _ ih => exact ih
  | unary _ _ ih =>
    simp [Expr.nodes, Expr.isGrouping, ih]
    omega
  | binary _ _ _ _ ihl ihr =>
    simp [Expr.nodes, Expr.isGrouping, ihl, ihr]
    omega

end Derives
end ExprLang
