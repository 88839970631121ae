/-
Reading makes progress. A rule that succeeds has taken a token, and none puts tokens back.
So a call that follows a success, or a token that the routine has taken itself, starts with
fewer tokens than the call that makes it; every other call is of a lower rank
(`Call.descends`). By these two measures every call comes to an end (`Call.run_advances`).
-/
import ExprLang.Proofs.Calls

namespace ExprLang

/-! ## What is taken -/

/-- The tokens left are the end of those given; of a success, `n` tokens or more are taken. -/
structure Takes {α : Type} (n : Nat) (ts : List Token) (answer : Except SyntaxError α × List Token) : Prop where
  suffix : answer.2 <:+ ts
  length_le : ∀ v, answer.1 = .ok v → answer.2.length + n ≤ ts.length

namespace Takes

variable {α β : Type} {m n : Nat} {ts rest : List Token} {answer : Except SyntaxError α × List Token}

theorem refused (h : rest <:+ ts) (error : SyntaxError) : Takes (α := α) n ts (.error error, rest) :=
  ⟨h, fun _ hv => by cases hv⟩

theorem nothing (v : α) (ts : List Token) : Takes 0 ts (.ok v, ts) :=
  ⟨List.suffix_refl _, fun _ _ => Nat.le_refl _⟩

theorem mono (h : Takes n ts answer) (hm : m ≤ n) : Takes m ts answer :=
  ⟨h.suffix, fun v hv => Nat.le_trans (Nat.add_le_add_left hm _) (h.length_le v hv)⟩

/-- What is taken of the rest is taken besides what left that rest. -/
theorem after (h : Takes n rest answer) (hs : rest <:+ ts) (hm : rest.length + m ≤ ts.length) :
    Takes (m + n) ts answer := by
  refine ⟨h.suffix.trans hs, fun v hv => ?_⟩
  have hn := h.length_le v hv
  omega

theorem map (h : Takes n ts answer) (f : α → β) : Takes n ts (answer.1.map f, answer.2) := by
  obtain ⟨error | v, rest⟩ := answer
  · exact .refused h.suffix error
  · exact ⟨h.suffix, fun _ _ => h.length_le v rfl⟩

theorem expect (kind : Kind) (message : String) (ts : List Token) :
    Takes 1 ts (Phrase.expect kind message ts).outcome := by
  refine ⟨Phrase.rest_expect_suffix kind message ts, fun v hv => ?_⟩
  cases h : Phrase.expect kind message ts with
  | taken t rest shorter => exact shorter
  | refused error rest =>
    rw [h] at hv
    cases hv

end Takes

/-! ## The measure -/

/-- Where a rule stands in the grammar: its phrases are made of phrases of lower rules. -/
def Rule.rank : Rule → Nat
  | .level l => l.height + 2
  | .unary => 2
  | .primary => 1

theorem Rule.rank_operand (l : Level) : l.operand.rank < (Rule.level l).rank := by cases l <;> decide

theorem Rule.rank_le (r : Rule) : r.rank ≤ 6 := by
  cases r with
  | level l => exact Nat.add_le_add_right l.height_le 2
  | unary | primary => decide

/-- A round has the rank of what it is a round of. -/
def Routine.rank : Routine → Nat
  | .statements _ => 9
  | .statement => 8
  | .expression => 7
  | .rule r => r.rank
  | .operators l _ => (Rule.level l).rank
  | .grouping => 0

theorem Routine.rank_le (r : Routine) : r.rank ≤ 9 := by
  cases r with
  | rule r => exact Nat.le_trans r.rank_le (by decide)
  | operators l => exact Nat.le_trans (Rule.level l).rank_le (by decide)
  | statements | statement | expression | grouping => simp [rank]

namespace Call

/-- The tokens left, and the rank of the routine. -/
def measure (c : Call) : Nat × Nat := (c.tokens.length, c.routine.rank)

/-- Fewer tokens are left, or as many and the rank is lower. -/
def Below (k c : Call) : Prop := Prod.Lex (· < ·) (· < ·) k.measure c.measure

variable {c k : Call}

theorem Below.of_shorter (h : k.tokens.length < c.tokens.length) : k.Below c := .left _ _ h

theorem below_iff : k.Below c ↔ k.tokens.length < c.tokens.length ∨
    k.tokens.length = c.tokens.length ∧ k.routine.rank < c.routine.rank := by
  simp only [Below, Prod.lex_def, measure]

theorem Below.of_rank (h : k.tokens = c.tokens) (hr : k.routine.rank < c.routine.rank) : k.Below c :=
  below_iff.2 (.inr ⟨congrArg List.length h, hr⟩)

/-- A call that is not of a lower rank starts with fewer tokens. -/
theorem Below.shorter (h : k.Below c) (hr : c.routine.rank ≤ k.routine.rank) :
    k.tokens.length < c.tokens.length := by
  rcases below_iff.1 h with h | ⟨-, h⟩
  · exact h
  · exact absurd hr (Nat.not_le_of_lt h)

/-- One number for both measures; there are ten ranks. -/
def depth (c : Call) : Nat := 10 * c.tokens.length + c.routine.rank

theorem Below.depth_lt (h : k.Below c) : k.depth < c.depth := by
  have hk := k.routine.rank_le
  unfold depth
  rcases below_iff.1 h with h | ⟨h, hr⟩ <;> omega

end Call

/-! ## What one body does -/

/-- The progress that an answer shows. The loop over statements has two tokens for each
statement that it adds. -/
def Call.Advances : (c : Call) → c.routine.Answer → Prop
  | ⟨.statements before, ts⟩, answer => ∀ p, answer = .ok p → 2 * p.length ≤ 2 * before.length + ts.length
  | ⟨.statement, ts⟩, answer => Takes 2 ts answer
  | ⟨.expression, ts⟩, answer => Takes 1 ts answer
  | ⟨.rule _, ts⟩, answer => Takes 1 ts answer
  | ⟨.operators _ _, ts⟩, answer => Takes 0 ts answer
  | ⟨.grouping, ts⟩, answer => Takes 3 ts answer

/-- The body, made by the call `c`, comes to an answer as wanted if its calls come to answers
that advance. They are all below `c`; the first starts with fewer tokens than `bound`, and
each other with fewer than the one before it. -/
def Body.Descends (c : Call) {α : Type} (wanted : α → Prop) : Nat → Body α → Prop
  | _, .done answer => wanted answer
  | bound, .call k next => k.tokens.length < bound ∧ k.Below c ∧
      ∀ answer, k.Advances answer → (next answer).Descends c wanted k.tokens.length

namespace Body.Descends

variable {α β : Type} {c : Call} {wanted : α → Prop} {bound bound' : Nat} {b : Body α}

theorem weaken (h : b.Descends c wanted bound) (hb : bound ≤ bound') : b.Descends c wanted bound' := by
  cases b with
  | done => exact h
  | call k next => exact ⟨Nat.lt_of_lt_of_le h.1 hb, h.2⟩

theorem imp {wanted' : α → Prop} (himp : ∀ answer, wanted answer → wanted' answer) (h : b.Descends c wanted bound) :
    b.Descends c wanted' bound := by
  induction b generalizing bound with
  | done => exact himp _ h
  | call k next ih => exact ⟨h.1, h.2.1, fun answer hanswer => ih answer (h.2.2 answer hanswer)⟩

/-- An operand is a token or more, besides those before it, and the loop that follows starts
with fewer tokens than the operand. -/
theorem operand {l : Level} {ts : List Token} {m : Nat} (hb : ts.length < bound)
    (hk : (Call.mk (.rule l.operand) ts).Below c) (hs : ts <:+ c.tokens) (hm : ts.length + m ≤ c.tokens.length)
    (f : Expr → Expr) : (Body.operand l ts f).Descends c (Takes (m + 1) c.tokens) bound := by
  refine ⟨hb, hk, ?_⟩
  rintro ⟨error | e, rest⟩ (hread : Takes 1 ts _)
  · exact .refused (hread.suffix.trans hs) error
  · have hrest : rest.length < ts.length := hread.length_le e rfl
    have hround : rest.length < c.tokens.length := by omega
    refine ⟨hrest, .of_shorter hround, fun answer hanswer => ?_⟩
    have hloop : Takes 0 rest answer := hanswer
    exact hloop.after (hread.suffix.trans hs) (by omega)

/-- An expression and the token that ends it are two tokens or more, besides those before them. -/
theorem ended {ts : List Token} {m : Nat} (hb : ts.length < bound) (hk : (Call.mk .expression ts).Below c)
    (hs : ts <:+ c.tokens) (hm : ts.length + m ≤ c.tokens.length) (kind : Kind) (message : String) (f : Expr → β) :
    (Body.ended ts kind message f).Descends c (Takes (m + 2) c.tokens) bound := by
  refine ⟨hb, hk, ?_⟩
  rintro ⟨error | e, rest⟩ (hread : Takes 1 ts _)
  · exact .refused (hread.suffix.trans hs) error
  · have hrest : rest.length + 1 ≤ ts.length := hread.length_le e rfl
    have hend := (Takes.expect kind message rest).map fun _ => f e
    show Takes (m + 1 + 1) c.tokens (Phrase.outcome _)
    rw [Phrase.outcome_map]
    exact hend.after (hread.suffix.trans hs) (by omega)

end Body.Descends

namespace Routine

theorem descends_statements (before : Program) (ts : List Token) :
    (body (.statements before) ts).Descends ⟨.statements before, ts⟩ (Call.Advances ⟨.statements before, ts⟩)
      (ts.length + 1) := by
  cases ts with
  | nil =>
    intro p hp
    cases hp
    exact Nat.le_refl _
  | cons t ts =>
    by_cases ht : t.kind = .endOfInput
    · simp only [body, if_pos ht]
      intro p hp
      cases hp
      exact Nat.le_add_right _ _
    · simp only [body, if_neg ht]
      refine ⟨Nat.lt_succ_self _, .of_rank rfl (by simp [rank]), ?_⟩
      rintro ⟨error | s, rest⟩ (hread : Takes 2 (t :: ts) _)
      · intro p hp
        cases hp
      · have hrest : rest.length + 2 ≤ (t :: ts).length := hread.length_le s rfl
        have hshorter : rest.length < (t :: ts).length := by omega
        refine ⟨hshorter, .of_shorter hshorter, fun answer hanswer p hp => ?_⟩
        have hcount : 2 * p.length ≤ 2 * (before ++ [s]).length + rest.length := hanswer p hp
        rw [List.length_append, List.length_singleton] at hcount
        omega

theorem descends_statement (ts : List Token) :
    (body .statement ts).Descends ⟨.statement, ts⟩ (Takes 2 ts) (ts.length + 1) := by
  have hexpression : (Call.mk .expression ts).Below ⟨.statement, ts⟩ := .of_rank rfl (by simp [rank])
  cases ts with
  | nil => exact .ended (m := 0) (Nat.lt_succ_self _) hexpression (List.suffix_refl _) (Nat.le_refl _) _ _ _
  | cons t ts =>
    by_cases ht : t.kind = .printWord
    · simp only [body, if_pos ht]
      exact .ended (c := ⟨.statement, t :: ts⟩) (m := 0) (Nat.lt_succ_of_lt (length_lt_cons t ts))
        (.of_shorter (length_lt_cons t ts)) (List.suffix_cons t ts) (length_le_cons t ts) _ _ _
    · simp only [body, if_neg ht]
      exact .ended (m := 0) (Nat.lt_succ_self _) hexpression (List.suffix_refl _) (Nat.le_refl _) _ _ _

theorem descends_expression (ts : List Token) :
    (body .expression ts).Descends ⟨.expression, ts⟩ (Takes 1 ts) (ts.length + 1) :=
  ⟨Nat.lt_succ_self _, .of_rank rfl (by simp [rank, Rule.rank, Level.height]), fun _ hanswer => hanswer⟩

theorem descends_level (l : Level) (ts : List Token) :
    (body (.rule (.level l)) ts).Descends ⟨.rule (.level l), ts⟩ (Takes 1 ts) (ts.length + 1) :=
  .operand (c := ⟨.rule (.level l), ts⟩) (m := 0) (Nat.lt_succ_self _) (.of_rank rfl (Rule.rank_operand l))
    (List.suffix_refl _) (Nat.le_refl _) id

/-- A round that goes on takes an operator first, so that even its first call starts with
fewer tokens. -/
theorem descends_operators (l : Level) (left : Expr) (ts : List Token) :
    (body (.operators l left) ts).Descends ⟨.operators l left, ts⟩ (Takes 0 ts) ts.length := by
  cases ts with
  | nil => exact .nothing left []
  | cons t ts =>
    cases hop : Expr.operatorAt? l t with
    | none =>
      simp only [body, hop]
      exact .nothing left (t :: ts)
    | some op =>
      simp only [body, hop]
      refine Body.Descends.imp (fun answer (h : Takes 2 (t :: ts) answer) => h.mono (Nat.zero_le _)) ?_
      exact .operand (c := ⟨.operators l left, t :: ts⟩) (m := 1) (length_lt_cons t ts)
        (.of_shorter (length_lt_cons t ts)) (List.suffix_cons t ts) (Nat.le_refl _) _

theorem descends_unary (ts : List Token) :
    (body (.rule .unary) ts).Descends ⟨.rule .unary, ts⟩ (Takes 1 ts) (ts.length + 1) := by
  have hprimary : (Call.mk (.rule .primary) ts).Below ⟨.rule .unary, ts⟩ := .of_rank rfl (by simp [rank, Rule.rank])
  cases ts with
  | nil => exact ⟨Nat.lt_succ_self _, hprimary, fun _ hanswer => hanswer⟩
  | cons t ts =>
    cases hop : t.kind.unaryOp? with
    | none =>
      simp only [body, hop]
      exact ⟨Nat.lt_succ_self _, hprimary, fun _ hanswer => hanswer⟩
    | some op =>
      simp only [body, hop]
      refine ⟨Nat.lt_succ_of_lt (length_lt_cons t ts), .of_shorter (length_lt_cons t ts), fun answer hanswer => ?_⟩
      have hread : Takes 1 ts answer := hanswer
      have hoperand : Takes (0 + 1) (t :: ts) answer := hread.after (List.suffix_cons t ts) (length_le_cons t ts)
      exact hoperand.map _

theorem descends_primary (ts : List Token) :
    (body (.rule .primary) ts).Descends ⟨.rule .primary, ts⟩ (Takes 1 ts) (ts.length + 1) := by
  cases ts with
  | nil => exact .refused (List.suffix_refl _) _
  | cons t ts =>
    by_cases ht : t.kind = .leftParen
    · simp only [body, if_pos ht]
      refine ⟨Nat.lt_succ_self _, .of_rank rfl (by simp [rank, Rule.rank]), fun answer hanswer => ?_⟩
      have hgrouping : Takes 3 (t :: ts) answer := hanswer
      exact hgrouping.mono (by decide)
    · simp only [body, if_neg ht]
      cases Expr.literal? t with
      | none => exact .refused (List.suffix_refl _) _
      | some value => exact ⟨List.suffix_cons t ts, fun _ _ => Nat.le_refl _⟩

theorem descends_grouping (ts : List Token) :
    (body .grouping ts).Descends ⟨.grouping, ts⟩ (Takes 3 ts) (ts.length + 1) := by
  have hopening := Takes.expect .leftParen "Expect '('." ts
  simp only [body]
  cases h : Phrase.expect .leftParen "Expect '('." ts with
  | refused error rest =>
    rw [h] at hopening
    exact .refused hopening.suffix error
  | taken opening rest shorter =>
    rw [h] at hopening
    exact .ended (c := ⟨.grouping, ts⟩) (m := 1) (Nat.lt_succ_of_lt shorter) (.of_shorter shorter) hopening.suffix
      shorter _ _ _

end Routine

/-- **What one body does**: it advances if its calls do, and they are all below it. -/
theorem Call.descends : ∀ c : Call, c.body.Descends c c.Advances (c.tokens.length + 1)
  | ⟨.statements before, ts⟩ => Routine.descends_statements before ts
  | ⟨.statement, ts⟩ => Routine.descends_statement ts
  | ⟨.expression, ts⟩ => Routine.descends_expression ts
  | ⟨.rule (.level l), ts⟩ => Routine.descends_level l ts
  | ⟨.rule .unary, ts⟩ => Routine.descends_unary ts
  | ⟨.rule .primary, ts⟩ => Routine.descends_primary ts
  | ⟨.operators l left, ts⟩ => (Routine.descends_operators l left ts).weaken (Nat.le_succ _)
  | ⟨.grouping, ts⟩ => Routine.descends_grouping ts

/-! ## Whole runs -/

theorem Body.Descends.resultWith {c : Call} {α : Type} {wanted : α → Prop}
    {answer? : (k : Call) → Option k.routine.Answer}
    (hanswer : ∀ k, k.Below c → ∃ answer, answer? k = some answer ∧ k.Advances answer) {b : Body α} {bound : Nat}
    (h : b.Descends c wanted bound) : ∃ r, b.resultWith answer? = some r ∧ wanted r := by
  induction b generalizing bound with
  | done answer => exact ⟨answer, rfl, h⟩
  | call k next ih =>
    obtain ⟨-, hk, hnext⟩ := h
    obtain ⟨answer, ha, hadvances⟩ := hanswer k hk
    obtain ⟨r, hr, hwanted⟩ := ih answer (hnext answer hadvances)
    exact ⟨r, by rw [Body.resultWith, ha, Option.bind_some, hr], hwanted⟩

namespace Call

/-- **Every call comes to an end**, and to an answer that advances. -/
theorem run_advances : ∀ (depth : Nat) (c : Call), c.depth < depth →
    ∃ answer, c.run depth = some answer ∧ c.Advances answer := by
  intro depth
  induction depth with
  | zero => exact fun c h => absurd h (Nat.not_lt_zero _)
  | succ depth ih =>
    intro c hc
    refine c.descends.resultWith fun k hk => ih k ?_
    exact Nat.lt_of_lt_of_le hk.depth_lt (Nat.le_of_lt_succ hc)

theorem run_eq {c : Call} {depth : Nat} (h : c.depth < depth) : c.run depth = some c.answer := by
  obtain ⟨answer, hrun, -⟩ := run_advances depth c h
  rw [hrun, run_sound depth c answer hrun]

theorem answer_advances (c : Call) : c.Advances c.answer := by
  obtain ⟨answer, hrun, hadvances⟩ := run_advances (c.depth + 1) c (Nat.lt_succ_self _)
  rwa [← run_sound _ c answer hrun]

end Call

/-! ## The calls of one body -/

namespace Body.Descends

variable {α : Type} {c : Call} {wanted : α → Prop} {bound : Nat} {b : Body α}

theorem of_mem_calls (h : b.Descends c wanted bound) : ∀ k ∈ b.calls, k.tokens.length < bound ∧ k.Below c := by
  induction b generalizing bound with
  | done => intro k hk; cases hk
  | call k next ih =>
    obtain ⟨hshorter, hbelow, hnext⟩ := h
    intro k' hk'
    rcases List.mem_cons.1 hk' with rfl | hk'
    · exact ⟨hshorter, hbelow⟩
    · obtain ⟨hshorter', hbelow'⟩ := ih _ (hnext _ k.answer_advances) k' hk'
      exact ⟨Nat.lt_trans hshorter' hshorter, hbelow'⟩

/-- Of two calls the later starts with fewer tokens. -/
theorem pairwise_calls (h : b.Descends c wanted bound) :
    b.calls.Pairwise fun k k' => k'.tokens.length < k.tokens.length := by
  induction b generalizing bound with
  | done => exact .nil
  | call k next ih =>
    have hnext := h.2.2 _ k.answer_advances
    exact .cons (fun k' hk' => (hnext.of_mem_calls k' hk').1) (ih _ hnext)

end Body.Descends

/-! ## Calls that go on with their caller -/

/-- The second routine goes on with the first, which calls it: the expression inside parentheses,
the operand of a unary operator, the loop of a level, the loop's operands and further rounds,
and the further rounds of the loop over statements. -/
inductive Routine.Resumes : Routine → Routine → Prop
  | inside : Resumes .grouping .expression
  | unary : Resumes (.rule .unary) (.rule .unary)
  | loop {l left} : Resumes (.rule (.level l)) (.operators l left)
  | operand {l left} : Resumes (.operators l left) (.rule l.operand)
  | round {l left left'} : Resumes (.operators l left) (.operators l left')
  | statements {before before'} : Resumes (.statements before) (.statements before')

namespace Call

theorem below_of_mem_calls {c k : Call} (h : k ∈ c.calls) : k.Below c := (c.descends.of_mem_calls k h).2

theorem wellFounded_calls : WellFounded fun k c : Call => k ∈ c.calls := by
  have hlex : WellFounded (Prod.Lex (· < ·) (· < ·) : Nat × Nat → Nat × Nat → Prop) :=
    (Prod.lex Nat.lt_wfRel Nat.lt_wfRel).wf
  exact Subrelation.wf below_of_mem_calls (InvImage.wf measure hlex)

theorem shorter_of_mem_operators {l : Level} {left : Expr} {ts : List Token} {k : Call}
    (h : k ∈ (Call.mk (.operators l left) ts).calls) : k.tokens.length < ts.length :=
  ((Routine.descends_operators l left ts).of_mem_calls k h).1

theorem shorter_of_resumes {c k : Call} (hk : k ∈ c.calls) (h : c.routine.Resumes k.routine) :
    k.tokens.length < c.tokens.length := by
  have hbelow := below_of_mem_calls hk
  obtain ⟨r, ts⟩ := c
  obtain ⟨r', us⟩ := k
  cases h with
  | inside => exact hbelow.shorter (Nat.zero_le _)
  | unary | loop | round | statements => exact hbelow.shorter (Nat.le_refl _)
  | operand => exact shorter_of_mem_operators hk

end Call

theorem Body.calls_ended {α : Type} (ts : List Token) (kind : Kind) (message : String) (f : Expr → α) :
    (Body.ended ts kind message f).calls = [⟨.expression, ts⟩] := by
  simp only [Body.ended, Body.calls]
  split <;> rfl

theorem Body.calls_operand (l : Level) (ts : List Token) (f : Expr → Expr) :
    (Body.operand l ts f).calls = ⟨.rule l.operand, ts⟩ ::
      match (Expr.readRule l.operand ts).outcome with
      | (.error _, _) => []
      | (.ok e, rest) => [⟨.operators l (f e), rest⟩] := by
  simp only [Body.operand, Body.calls, Call.answer]
  rcases (Expr.readRule l.operand ts).outcome with ⟨error | e, rest⟩ <;> rfl

theorem Body.calls_operand_eq {l l' : Level} {left : Expr} {ts us : List Token} {f : Expr → Expr}
    (h : ⟨.operators l left, us⟩ ∈ (Body.operand l' ts f).calls) :
    (Body.operand l' ts f).calls = [⟨.rule l.operand, ts⟩, ⟨.operators l left, us⟩] := by
  rw [Body.calls_operand] at h ⊢
  generalize (Expr.readRule l'.operand ts).outcome = o at h ⊢
  obtain ⟨error | e, rest⟩ := o
  · simp at h
  · simp only [List.mem_cons, Call.mk.injEq, reduceCtorEq, false_and, false_or, Routine.operators.injEq,
      List.not_mem_nil, or_false] at h
    obtain ⟨⟨rfl, rfl⟩, rfl⟩ := h
    rfl

/-- Only a level and the rounds of its loop call a round. -/
theorem Call.loop_of_mem {c : Call} {l : Level} {left : Expr} {us : List Token}
    (h : ⟨.operators l left, us⟩ ∈ c.calls) :
    (∃ l', c.routine = .rule (.level l')) ∨ ∃ l' left', c.routine = .operators l' left' := by
  obtain ⟨r, ts⟩ := c
  unfold Call.calls Call.body at h
  cases r with
  | operators l' left' => exact .inr ⟨l', left', rfl⟩
  | rule r =>
    cases r with
    | level l' => exact .inl ⟨l', rfl⟩
    | unary | primary => cases ts <;> grind [Routine.body, Body.calls]
  | statements before => cases ts <;> grind [Routine.body, Body.calls]
  | statement => cases ts <;> grind [Routine.body, Body.calls_ended]
  | expression => grind [Routine.body, Body.calls]
  | grouping => grind [Routine.body, Body.calls, Body.calls_ended]

/-- A round of a level's loop is called where an operand of the level has just been read. -/
theorem Call.calls_eq_of_mem {c : Call} {l : Level} {left : Expr} {ts : List Token}
    (h : ⟨.operators l left, ts⟩ ∈ c.calls) :
    ∃ us, c.calls = [⟨.rule l.operand, us⟩, ⟨.operators l left, ts⟩] := by
  have hloop := loop_of_mem h
  obtain ⟨r, us⟩ := c
  obtain ⟨l', rfl⟩ | ⟨l', left', rfl⟩ := hloop
  · exact ⟨us, Body.calls_operand_eq h⟩
  · cases us with
    | nil => cases h
    | cons t us =>
      simp only [Call.calls, Call.body, Routine.body] at h ⊢
      split at h
      · cases h
      · exact ⟨us, Body.calls_operand_eq h⟩

/-! ## The law -/

/-- How reading makes progress, on tokens of all kinds in any order. -/
structure ProgressLaw : Prop where
  /-- A statement, as every rule for expressions, leaves the end of the tokens, and it has taken
  one of them at least if it succeeds. -/
  statement : ∀ ts, Takes 1 ts (Statement.read ts).outcome
  expression : ∀ ts, Takes 1 ts (Expr.read ts).outcome
  rule : ∀ r ts, Takes 1 ts (Expr.readRule r ts).outcome
  grouping : ∀ ts, Takes 1 ts (Expr.readGrouping ts).outcome
  /-- A call that goes on with the one that makes it starts with fewer tokens. -/
  resumes : ∀ c : Call, ∀ k ∈ c.calls, c.routine.Resumes k.routine → k.tokens.length < c.tokens.length
  /-- A round of a level's loop follows an operand of the level. It starts with fewer tokens than
  that operand, and the operand and the round that it calls itself with fewer still. -/
  operands : ∀ (c : Call) l left ts, ⟨.operators l left, ts⟩ ∈ c.calls →
    ∃ us, c.calls = [⟨.rule l.operand, us⟩, ⟨.operators l left, ts⟩] ∧ ts.length < us.length ∧
      ∀ k ∈ (Call.mk (.operators l left) ts).calls, k.tokens.length < ts.length
  /-- Every call starts with fewer tokens than the one that makes it, or with as many and a lower rank. -/
  descends : ∀ c : Call, ∀ k ∈ c.calls, Prod.Lex (· < ·) (· < ·) k.measure c.measure
  /-- No calls within calls go on without end. -/
  wellFounded : WellFounded fun k c : Call => k ∈ c.calls
  /-- Run as deep as the measure says, every routine comes to what the reading functions give. -/
  ends : ∀ (c : Call) depth, c.depth < depth → c.run depth = some c.answer
  /-- A statement has two tokens at least. -/
  count : ∀ ts p, Program.read ts = .ok p → p.length ≤ ts.length / 2

namespace Program

theorem length_le_of_read {ts : List Token} {p : Program} (h : read ts = .ok p) : p.length ≤ ts.length / 2 := by
  have hadvances := (Call.mk (.statements []) ts).answer_advances
  have hanswer : (Call.mk (.statements []) ts).answer = .ok p := by
    simp only [Call.answer, h, Except.map, List.nil_append]
  have hcount : 2 * p.length ≤ 2 * ([] : Program).length + ts.length := hadvances p hanswer
  rw [List.length_nil] at hcount
  omega

/-- **Reading makes progress**, and so it ends. -/
theorem read_progresses : ProgressLaw where
  statement ts := Takes.mono (Call.mk .statement ts).answer_advances (by decide)
  expression ts := (Call.mk .expression ts).answer_advances
  rule r ts := (Call.mk (.rule r) ts).answer_advances
  grouping ts := Takes.mono (Call.mk .grouping ts).answer_advances (by decide)
  resumes _ _ hk h := Call.shorter_of_resumes hk h
  operands c l left ts h := by
    obtain ⟨us, hcalls⟩ := Call.calls_eq_of_mem h
    have hpairwise : c.calls.Pairwise fun k k' => k'.tokens.length < k.tokens.length := c.descends.pairwise_calls
    rw [hcalls, List.pairwise_pair] at hpairwise
    exact ⟨us, hcalls, hpairwise, fun k hk => Call.shorter_of_mem_operators hk⟩
  descends _ _ hk := Call.below_of_mem_calls hk
  wellFounded := Call.wellFounded_calls
  ends _ _ h := Call.run_eq h
  count _ _ h := length_le_of_read h

/-- An operand is missed behind `-(-`, seventeen calls deep. -/
example :
    let ts := [Token.ofLexeme .minus "-" 1, Token.ofLexeme .leftParen "(" 1, Token.ofLexeme .minus "-" 1]
    ((Call.mk .expression ts).run 16).isNone ∧ ((Call.mk .expression ts).run 17).isSome := by
  decide

end Program
end ExprLang
