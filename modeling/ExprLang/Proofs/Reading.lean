/-
Reading follows the grammar. A rule that succeeds takes a phrase of its own, and
as much as it can: what is left begins with no operator of its level or a tighter
one. A rule that fails has taken the beginning of a phrase, and stands at a token
that cannot follow it (`readRule_meets`). The other way round, a phrase that
nothing continues is read as its tree (`readRule_of_derives`), and a beginning
that nothing suitable follows is refused there (`readRule_of_begins`).
-/
import ExprLang.Proofs.Outcome

namespace ExprLang

/-- How loosely the operators of a rule's own level bind; the rules below the levels have none. -/
def Rule.height : Rule → Nat
  | .level l => l.height
  | .unary | .primary => 0

/-- The list does not begin with an operator that a phrase of the rule could go on with:
one of its own level or of a tighter one. -/
def Rule.Stops (r : Rule) (rest : List Token) : Prop :=
  ∀ t ∈ rest.head?, ∀ op : BinaryOp, t.kind = op.kind → r.height < op.level.height

theorem Rule.Stops.of_height_le {r r' : Rule} {rest : List Token} (h : r.Stops rest) (hr : r'.height ≤ r.height) :
    r'.Stops rest :=
  fun t ht op hop => Nat.lt_of_le_of_lt hr (h t ht op hop)

theorem Rule.Stops.operand {l : Level} {rest : List Token} (h : (Rule.level l).Stops rest) :
    l.operand.Stops rest := by
  refine h.of_height_le ?_
  cases l <;> decide

theorem Level.eq_of_height {l l' : Level} (h : l.operand.height < l'.height) (h' : l'.height ≤ l.height) : l' = l := by
  cases l <;> cases l' <;> first | rfl | (exfalso; revert h h'; decide)

/-- What is left stops the level's rule if it stops the operand's and is no operator of the level itself. -/
theorem Rule.Stops.level {l : Level} {rest : List Token} (h : l.operand.Stops rest)
    (hl : ∀ t ∈ rest.head?, Expr.operatorAt? l t = none) : (Rule.level l).Stops rest := by
  intro t ht op hop
  have hne := Expr.operatorAt?_eq_none.1 (hl t ht) op hop
  exact Nat.lt_of_not_le fun hle => hne (Level.eq_of_height (h t ht op hop) hle)

theorem BinaryOp.kind_inj {op op' : BinaryOp} (h : op.kind = op'.kind) : op = op' := by
  have h' := Kind.binaryOp?_eq_some.2 h
  rw [Kind.binaryOp?_eq_some.2 rfl] at h'
  exact Option.some.inj h'

/-- An operator stops the operand on its left. -/
theorem Rule.stops_operator {t : Token} {op : BinaryOp} (hop : t.kind = op.kind) (ts : List Token) :
    op.level.operand.Stops (t :: ts) := by
  intro t' ht' op' hop'
  cases ht'
  rw [← BinaryOp.kind_inj (hop.symm.trans hop')]
  cases op.level <;> decide

/-- What blocks an operator, wanted after an operand, stops every rule. -/
theorem Wanted.Blocks.stops {w : Wanted} {rest : List Token} (h : w.Blocks rest) (hw : w.afterOperand = true)
    (r : Rule) : r.Stops rest := by
  intro t ht op hop
  refine absurd ?_ (h t ht)
  cases w with
  | statement | operand => cases hw
  | closing => exact .inr ⟨op, hop⟩
  | ending print => exact .inr ⟨op, hop⟩

namespace Expr

/-! ## What a rule takes is a phrase or the beginning of one -/

/-- What a rule does, when it is done as the grammar says. -/
def Meets (r : Rule) (ts : List Token) : Except SyntaxError Expr × List Token → Prop
  | (.ok e, rest) => ∃ us, ts = us ++ rest ∧ Derives r us e ∧ r.Stops rest
  | (.error error, rest) => ∃ us w, ts = us ++ rest ∧ Begins r us w ∧ w.Blocks rest ∧
      error = SyntaxError.located w.expected rest.head?

/-- The error of a rule is that of the rule that called it. -/
theorem Meets.lift {r r' ts error rest} (h : Meets r ts (.error error, rest)) (vs : List Token)
    (hb : ∀ us w, Begins r us w → Begins r' (vs ++ us) w) : Meets r' (vs ++ ts) (.error error, rest) := by
  obtain ⟨us, w, rfl, hbegins, hblocks, he⟩ := h
  exact ⟨vs ++ us, w, (List.append_assoc vs us rest).symm, hb us w hbegins, hblocks, he⟩

/-- What the chain of a level's operators makes of a phrase of the level and the tokens after it. -/
def ChainMeets (l : Level) (left : Expr) (ts : List Token) : Prop :=
  ∀ us, Derives (.level l) us left → l.operand.Stops ts → Meets (.level l) (us ++ ts) (readChain l left ts).outcome

theorem meets_level_refused {l ts error rest} (ho : (readRule l.operand ts).outcome = (.error error, rest))
    (ih : Meets l.operand ts (.error error, rest)) : Meets (.level l) ts (readLevel l ts).outcome := by
  rw [outcome_readLevel_refused ho]
  exact ih.lift [] fun us w hus => .operand hus

theorem meets_level_taken {l ts left rest} (ho : (readRule l.operand ts).outcome = (.ok left, rest))
    (ih : Meets l.operand ts (.ok left, rest)) (ihc : ChainMeets l left rest) :
    Meets (.level l) ts (readLevel l ts).outcome := by
  rw [outcome_readLevel_taken ho]
  obtain ⟨us, rfl, hus, hstops⟩ := ih
  exact ihc us (.operand hus) hstops

theorem chainMeets_stop {l left ts} (h : ∀ t ∈ ts.head?, operatorAt? l t = none) : ChainMeets l left ts := by
  intro us hus hstops
  rw [outcome_readChain_stop h]
  exact ⟨us, rfl, hus, hstops.level h⟩

theorem chainMeets_refused {l left t ts op error rest} (hop : operatorAt? l t = some op)
    (ho : (readRule l.operand ts).outcome = (.error error, rest)) (ih : Meets l.operand ts (.error error, rest)) :
    ChainMeets l left (t :: ts) := by
  intro us hus _
  obtain ⟨hkind, hlevel⟩ := operatorAt?_eq_some.1 hop
  rw [outcome_readChain_refused hop ho, List.append_cons]
  exact ih.lift _ fun vs w hvs => by rw [← List.append_cons]; exact .right hus hkind hlevel hvs

theorem chainMeets_taken {l left t ts op right rest} (hop : operatorAt? l t = some op)
    (ho : (readRule l.operand ts).outcome = (.ok right, rest)) (ih : Meets l.operand ts (.ok right, rest))
    (ihc : ChainMeets l (.binary left op right t.line) rest) : ChainMeets l left (t :: ts) := by
  intro us hus _
  obtain ⟨hkind, hlevel⟩ := operatorAt?_eq_some.1 hop
  rw [outcome_readChain_taken hop ho]
  obtain ⟨vs, rfl, hvs, hstops⟩ := ih
  have h := ihc (us ++ t :: vs) (.binary hus hkind hlevel hvs) hstops
  rwa [List.append_assoc, List.cons_append] at h

theorem meets_unary_operator {t ts} {op : UnaryOp} (hop : t.kind = op.kind)
    (ih : Meets .unary ts (readUnary ts).outcome) : Meets .unary (t :: ts) (readUnary (t :: ts)).outcome := by
  rw [outcome_readUnary_operator hop]
  generalize (readUnary ts).outcome = o at ih ⊢
  obtain ⟨error | e, rest⟩ := o
  · exact ih.lift [t] fun us w hus => .unary hop hus
  · obtain ⟨us, rfl, hus, hstops⟩ := ih
    exact ⟨t :: us, rfl, .unary hop hus, hstops⟩

theorem meets_unary_primary {ts} (h : ∀ t ∈ ts.head?, ∀ op : UnaryOp, t.kind ≠ op.kind)
    (ih : Meets .primary ts (readPrimary ts).outcome) : Meets .unary ts (readUnary ts).outcome := by
  rw [outcome_readUnary_primary h]
  generalize (readPrimary ts).outcome = o at ih ⊢
  obtain ⟨error | e, rest⟩ := o
  · exact ih.lift [] fun us w hus => .primary hus
  · obtain ⟨us, rfl, hus, hstops⟩ := ih
    exact ⟨us, rfl, .primary hus, hstops⟩

theorem meets_primary_none {ts : List Token} (hop : ∀ t ∈ ts.head?, ∀ op : UnaryOp, t.kind ≠ op.kind)
    (h : ∀ t ∈ ts.head?, t.kind ≠ .leftParen ∧ ∀ v, ¬ IsLiteral t v) :
    Meets .primary ts (readPrimary ts).outcome := by
  rw [outcome_readPrimary_none h]
  refine ⟨[], .operand, rfl, .start, fun t ht hstarts => ?_, rfl⟩
  rcases hstarts with ⟨op, ho⟩ | ho | ⟨v, hv⟩
  · exact hop t ht op ho
  · exact (h t ht).1 ho
  · exact (h t ht).2 v hv

theorem meets_primary_literal {t v} (hv : IsLiteral t v) (ts : List Token) :
    Meets .primary (t :: ts) (readPrimary (t :: ts)).outcome := by
  rw [outcome_readPrimary_literal hv]
  exact ⟨[t], rfl, .literal hv, fun _ _ op _ => op.level.height_pos⟩

theorem meets_primary_refused {opening ts error rest} (ho : opening.kind = .leftParen)
    (hb : (readLevel .equality ts).outcome = (.error error, rest)) (ih : Meets .expression ts (.error error, rest)) :
    Meets .primary (opening :: ts) (readPrimary (opening :: ts)).outcome := by
  rw [outcome_readPrimary_refused ho hb]
  exact ih.lift [opening] fun us w hus => .body ho hus

/-- After the body of a grouping its closing parenthesis is wanted. An operator there would
have been taken with the body. -/
theorem meets_primary_body {opening ts body rest} (ho : opening.kind = .leftParen)
    (hb : (readLevel .equality ts).outcome = (.ok body, rest)) (ih : Meets .expression ts (.ok body, rest)) :
    Meets .primary (opening :: ts) (readPrimary (opening :: ts)).outcome := by
  obtain ⟨us, rfl, hus, hstops⟩ := ih
  rcases head_kind_cases .rightParen rest with ⟨closing, rest', rfl, hc⟩ | hc
  · rw [outcome_readPrimary_closed ho hb hc]
    exact ⟨opening :: (us ++ [closing]), by simp, .grouping ho hus hc, fun _ _ op _ => op.level.height_pos⟩
  · rw [outcome_readPrimary_unclosed ho hb hc]
    refine ⟨opening :: us, .closing, rfl, .closing ho hus, fun t ht hsuits => ?_, rfl⟩
    rcases hsuits with htc | ⟨op, hop⟩
    · exact hc t ht htc
    · exact absurd (hstops t ht op hop) (Nat.not_lt_of_le op.level.height_le)

/-- **What a rule takes**: a phrase of its own, as long as the rule can make it, or the
beginning of a phrase that the next token cannot follow. -/
theorem rules_meet : (∀ l ts, Meets (.level l) ts (readLevel l ts).outcome) ∧
    (∀ l left ts, ChainMeets l left ts) ∧ (∀ l ts, Meets l.operand ts (readOperand l ts).outcome) ∧
    (∀ ts, Meets .unary ts (readUnary ts).outcome) ∧
    (∀ ts, (∀ t ∈ ts.head?, ∀ op : UnaryOp, t.kind ≠ op.kind) → Meets .primary ts (readPrimary ts).outcome) := by
  refine readLevel.mutual_induct _ _ _ _ _ ?_ ?_ ?_ ?_ ?_ ?_ ?_ ?_ ?_ ?_ ?_ ?_ ?_ ?_ ?_ ?_
  · intro l ts error rest ho ih
    rw [ho] at ih
    exact meets_level_refused (by rw [← outcome_readOperand, ho]; rfl) ih
  · intro l ts left rest shorter ho ih ihc
    rw [ho] at ih
    exact meets_level_taken (by rw [← outcome_readOperand, ho]; rfl) ih ihc
  · exact fun l left => chainMeets_stop (by simp)
  · exact fun l left t ts hop => chainMeets_stop (by simpa using hop)
  · intro l left t ts op hop error rest ho ih
    rw [ho] at ih
    exact chainMeets_refused hop (by rw [← outcome_readOperand, ho]; rfl) ih
  · intro l left t ts op hop right rest shorter ho ih ihc
    rw [ho] at ih
    exact chainMeets_taken hop (by rw [← outcome_readOperand, ho]; rfl) ih ihc
  · intro l ts tighter ht ih
    cases l <;> cases ht <;> rw [outcome_readOperand] <;> exact ih
  · intro l ts ht ih
    cases l <;> cases ht
    rw [outcome_readOperand]
    exact ih
  · exact fun ih => meets_unary_primary (by simp) (ih (by simp))
  · exact fun t ts op hop ih => meets_unary_operator (Kind.unaryOp?_eq_some.1 hop) ih
  · intro t ts hop ih
    have hne : ∀ t' ∈ (t :: ts).head?, ∀ op : UnaryOp, t'.kind ≠ op.kind := by
      rintro t' ht' op hop'
      cases ht'
      rw [Kind.unaryOp?_eq_some.2 hop'] at hop
      cases hop
    exact meets_unary_primary hne (ih hne)
  · exact fun _ => meets_primary_none (by simp) (by simp)
  · intro t ts ho error rest hb ih _
    rw [hb] at ih
    exact meets_primary_refused ho (by rw [hb]; rfl) ih
  · intro t ts ho body rest shorter hb ih _
    rw [hb] at ih
    exact meets_primary_body ho (by rw [hb]; rfl) ih
  · exact fun t ts _ v hv _ => meets_primary_literal (literal?_eq_some.1 hv) ts
  · intro t ts ho hv hop
    refine meets_primary_none hop fun t' ht' => ?_
    cases ht'
    exact ⟨ho, fun v h => by rw [literal?_eq_some.2 h] at hv; cases hv⟩

theorem readRule_meets (l : Level) (ts : List Token) : Meets (.level l) ts (readLevel l ts).outcome :=
  rules_meet.1 l ts

/-! ## A phrase is read as its tree -/

/-- A phrase of a level is read up to its end, and the chain of the level's operators may
go on there; a phrase of a rule below the levels is read and no more. -/
def Continues (r : Rule) (us : List Token) (e : Expr) : Prop :=
  match r with
  | .level l => ∀ rest, l.operand.Stops rest → (readLevel l (us ++ rest)).outcome = (readChain l e rest).outcome
  | .unary => ∀ rest, (readUnary (us ++ rest)).outcome = (.ok e, rest)
  | .primary => ∀ rest, (readPrimary (us ++ rest)).outcome = (.ok e, rest)

theorem outcome_readChain_of_stops {l : Level} {rest} (h : (Rule.level l).Stops rest) (e : Expr) :
    (readChain l e rest).outcome = (.ok e, rest) := by
  refine outcome_readChain_stop fun t ht => operatorAt?_eq_none.2 fun op hop hl => ?_
  have hlt := h t ht op hop
  rw [hl] at hlt
  exact Nat.lt_irrefl _ hlt

theorem Continues.outcome_readRule {r us e rest} (h : Continues r us e) (hs : r.Stops rest) :
    (readRule r (us ++ rest)).outcome = (.ok e, rest) := by
  match r with
  | .level l => exact (h rest hs.operand).trans (outcome_readChain_of_stops hs e)
  | .unary => exact h rest
  | .primary => exact h rest

/-- A primary expression begins with no unary operator. -/
theorem head_primary {ts e} (h : Derives .primary ts e) (rest : List Token) :
    ∀ t ∈ (ts ++ rest).head?, ∀ op : UnaryOp, t.kind ≠ op.kind := by
  intro t ht op hop
  cases h with
  | literal hv => cases ht; exact hv.kind_ne_unary op hop
  | grouping ho => cases ht; exact op.kind_not_paren.1 (hop.symm.trans ho)

theorem continues_of_derives {r us e} (h : Derives r us e) : Continues r us e := by
  induction h with
  | literal hv => exact outcome_readPrimary_literal hv
  | @grouping opening ts body closing ho _ hc ih =>
    intro rest
    have hstops : Rule.expression.Stops (closing :: rest) := by
      intro t ht op hop
      cases ht
      exact absurd (hop.symm.trans hc) op.kind_not_paren.2
    have hb := outcome_readPrimary_closed ho (ih.outcome_readRule hstops) hc
    rwa [List.append_cons] at hb
  | primary hp ih => exact fun rest => (outcome_readUnary_primary (head_primary hp rest)).trans (ih rest)
  | unary hop _ ih =>
    intro rest
    rw [List.cons_append, outcome_readUnary_operator hop, ih rest]
    rfl
  | operand _ ih => exact fun rest hs => outcome_readLevel_taken (ih.outcome_readRule hs)
  | @binary l ts left t op us right _ hop hl _ ihl ihr =>
    intro rest hs
    rw [List.append_assoc, List.cons_append, ihl _ (hl ▸ Rule.stops_operator hop _)]
    exact outcome_readChain_taken (operatorAt?_eq_some.2 ⟨hop, hl⟩) (ihr.outcome_readRule hs)

/-- **A phrase that nothing continues is read as its tree**, and nothing more is taken. -/
theorem readRule_of_derives {r us e rest} (h : Derives r us e) (hs : r.Stops rest) :
    (readRule r (us ++ rest)).outcome = (.ok e, rest) :=
  (continues_of_derives h).outcome_readRule hs

/-- A phrase by itself is taken whole. -/
theorem readRule_whole {r us e} (h : Derives r us e) : (readRule r us).outcome = (.ok e, []) := by
  have hend : r.Stops [] := fun t ht => by cases ht
  have hread := readRule_of_derives h hend
  rwa [List.append_nil] at hread

/-! ## A beginning is refused at its end -/

/-- Every rule refuses where no operand begins. -/
theorem readRule_blocked (r : Rule) {rest : List Token} (h : Wanted.operand.Blocks rest) :
    (readRule r rest).outcome = (.error (SyntaxError.located .expression rest.head?), rest) := by
  have hprimary : (readPrimary rest).outcome = (.error (SyntaxError.located .expression rest.head?), rest) :=
    outcome_readPrimary_none fun t ht =>
      ⟨fun ho => h t ht (.inr (.inl ho)), fun v hv => h t ht (.inr (.inr ⟨v, hv⟩))⟩
  have hunary : (readUnary rest).outcome = (.error (SyntaxError.located .expression rest.head?), rest) :=
    (outcome_readUnary_primary fun t ht op hop => h t ht (.inl ⟨op, hop⟩)).trans hprimary
  have hfactor := outcome_readLevel_refused (l := .factor) hunary
  have hterm := outcome_readLevel_refused (l := .term) hfactor
  have hcomparison := outcome_readLevel_refused (l := .comparison) hterm
  match r with
  | .primary => exact hprimary
  | .unary => exact hunary
  | .level .factor => exact hfactor
  | .level .term => exact hterm
  | .level .comparison => exact hcomparison
  | .level .equality => exact outcome_readLevel_refused (l := .equality) hcomparison

/-- A beginning of a primary expression, and what blocks it, begin with no unary operator. -/
theorem head_begins_primary {ts w rest} (h : Begins .primary ts w) (hb : w.Blocks rest) :
    ∀ t ∈ (ts ++ rest).head?, ∀ op : UnaryOp, t.kind ≠ op.kind := by
  intro t ht op hop
  cases h with
  | start => exact hb t ht (.inl ⟨op, hop⟩)
  | body ho => cases ht; exact op.kind_not_paren.1 (hop.symm.trans ho)
  | closing ho => cases ht; exact op.kind_not_paren.1 (hop.symm.trans ho)

/-- **A beginning is refused where it ends**, if the next token cannot follow it; what stands
after that token has no say. -/
theorem readRule_of_begins {r us w rest} (h : Begins r us w) (hb : w.Blocks rest) :
    (readRule r (us ++ rest)).outcome = (.error (SyntaxError.located w.expected rest.head?), rest) := by
  induction h with
  | @start r => exact readRule_blocked r hb
  | body ho _ ih => exact outcome_readPrimary_refused ho (ih hb)
  | closing ho he =>
    have hbody := readRule_of_derives he (hb.stops rfl _)
    exact outcome_readPrimary_unclosed ho hbody fun t ht htk => hb t ht (.inl htk)
  | primary hp ih => exact (outcome_readUnary_primary (head_begins_primary hp hb)).trans (ih hb)
  | @unary t ts w op hop _ ih =>
    have ih' : (readUnary (ts ++ rest)).outcome = _ := ih hb
    rw [List.cons_append]
    refine (outcome_readUnary_operator hop _).trans ?_
    rw [ih']
    rfl
  | operand _ ih => exact outcome_readLevel_refused (ih hb)
  | @right l ts left t us w op hleft hop hl _ ih =>
    rw [List.append_assoc, List.cons_append]
    refine (continues_of_derives hleft _ (hl ▸ Rule.stops_operator hop _)).trans ?_
    exact outcome_readChain_refused (operatorAt?_eq_some.2 ⟨hop, hl⟩) (ih hb)

end Expr
end ExprLang
