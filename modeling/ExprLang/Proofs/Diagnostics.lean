/-
Where errors stand. The error of a text that scans is on the line of one of its tokens,
and of one of the right kind: a syntax error at the token that it shows, an error of
evaluation at the operator that it is about, a failed write at a `print`; only a failed
flush of an empty program has no token, and is on line 1 (`Program.run_pointsAt`).

The lines are handed on from the tokens to the nodes of the tree, so the induction is on
the derivation of the tree from the tokens.
-/
import ExprLang.Proofs.LineLaw
import ExprLang.Proofs.Types

namespace ExprLang

/-! ## Operators -/

/-- An error of evaluation on the line of a token of the operator that it is about. -/
inductive RuntimeError.AtOperator (ts : List Token) : RuntimeError → Prop
  | expectedNumber {t} : t ∈ ts → t.kind = .minus → AtOperator ts ⟨.expectedNumber, t.line⟩
  | expectedNumbers {t op} : t ∈ ts → t.kind.binaryOp? = some op → AtOperator ts ⟨.expectedNumbers op, t.line⟩
  | invalidAddition {t} : t ∈ ts → t.kind = .plus → AtOperator ts ⟨.invalidAddition, t.line⟩

theorem RuntimeError.AtOperator.mono {ts us : List Token} {error : RuntimeError} (h : error.AtOperator ts)
    (hsub : ts ⊆ us) : error.AtOperator us := by
  cases h with
  | expectedNumber ht hk => exact .expectedNumber (hsub ht) hk
  | expectedNumbers ht hk => exact .expectedNumbers (hsub ht) hk
  | invalidAddition ht hk => exact .invalidAddition (hsub ht) hk

namespace Ty

/-- Of the operators in front, negation alone can fail. -/
theorem unary_error {op : UnaryOp} {t : Ty} {line : Nat} {error : RuntimeError}
    (h : unary op t line = .error error) : op = .negate ∧ error = ⟨.expectedNumber, line⟩ := by
  cases op with
  | not => cases h
  | negate =>
    simp only [unary] at h
    split at h
    · cases h
    · cases h
      exact ⟨rfl, rfl⟩

/-- An operator between operands fails as an addition or for want of numbers. -/
theorem binary_error {op : BinaryOp} {l r : Ty} {line : Nat} {error : RuntimeError}
    (h : binary op l r line = .error error) :
    (op = .add ∧ error = ⟨.invalidAddition, line⟩) ∨ error = ⟨.expectedNumbers op, line⟩ := by
  cases op with
  | add =>
    simp only [binary] at h
    split at h
    · cases h
    · split at h
      · cases h
      · cases h
        exact .inl ⟨rfl, rfl⟩
  | subtract | multiply | divide | less | greater | lessEqual | greaterEqual =>
    simp only [binary] at h
    split at h
    · cases h
    · cases h
      exact .inr rfl
  | equal | notEqual => cases h

end Ty

/-! ## Expressions -/

/-- The error of a tree is at one of the tokens that derive it. -/
theorem Derives.type_error {r ts e} (h : Derives r ts e) {error : RuntimeError} (he : e.type = .error error) :
    error.AtOperator ts := by
  induction h with
  | literal => cases he
  | grouping _ _ _ ih => exact (ih he).mono fun t ht => by simp [ht]
  | primary _ ih | operand _ ih => exact ih he
  | @unary t op ts e hop _ ih =>
    simp only [Expr.type] at he
    cases hoperand : e.type with
    | error inner =>
      rw [hoperand] at he
      cases he
      exact (ih hoperand).mono (List.subset_cons_self t ts)
    | ok type =>
      rw [hoperand] at he
      obtain ⟨rfl, rfl⟩ := Ty.unary_error he
      exact .expectedNumber List.mem_cons_self hop
  | @binary _ ts left t op us right _ hop _ _ ihl ihr =>
    have hoperator : t ∈ ts ++ t :: us := by simp
    simp only [Expr.type] at he
    cases hleft : left.type with
    | error inner =>
      rw [hleft] at he
      cases he
      exact (ihl hleft).mono fun u hu => by simp [hu]
    | ok l =>
      rw [hleft] at he
      cases hright : right.type with
      | error inner =>
        simp only [hright] at he
        cases he
        exact (ihr hright).mono fun u hu => by simp [hu]
      | ok r =>
        simp only [hright] at he
        rcases Ty.binary_error he with ⟨rfl, rfl⟩ | rfl
        · exact .invalidAddition hoperator hop
        · exact .expectedNumbers hoperator (Kind.binaryOp?_eq_some.2 hop)

theorem Expr.error?_eq_some {e : Expr} {error : RuntimeError} (h : e.error? = some error) :
    e.type = .error error := by
  rw [← e.evaluate_type, error?_eq_some_iff.1 h]
  rfl

/-! ## Programs -/

theorem DerivesStatement.error_atOperator {ts s} (h : DerivesStatement ts s) {error : RuntimeError}
    (he : s.expr.error? = some error) : error.AtOperator ts := by
  cases h with
  | print _ hexpr _ => exact (hexpr.type_error (Expr.error?_eq_some he)).mono fun t ht => by simp [ht]
  | @expression t ts _ _ hexpr _ =>
    refine (hexpr.type_error (Expr.error?_eq_some he)).mono fun u hu => ?_
    rw [← List.cons_append]
    exact List.mem_append_left _ hu

theorem DerivesStatement.line_eq {t ts s} (h : DerivesStatement (t :: ts) s) : s.line = t.line := by
  cases h <;> rfl

theorem DerivesProgram.error_atOperator {ts p} (h : DerivesProgram ts p) {error : RuntimeError}
    (he : Program.error? p = some error) : error.AtOperator ts := by
  induction h with
  | nil => cases he
  | @cons ts s us p hs _ ih =>
    by_cases hsucceeds : s.succeeds = true
    · rw [Program.error?_cons hsucceeds] at he
      exact (ih he).mono (List.subset_append_right ts us)
    · obtain ⟨inner, hinner⟩ := Statement.error?_eq_some_of_not_succeeds hsucceeds
      rw [Program.error?_cons_of_fails hinner] at he
      cases he
      exact (hs.error_atOperator hinner).mono (List.subset_append_left ts us)

/-- A print statement has the line of a `print`. -/
theorem DerivesProgram.exists_print {ts p} (h : DerivesProgram ts p) {e line}
    (hmem : Statement.print e line ∈ p) : ∃ t ∈ ts, t.kind = .printWord ∧ t.line = line := by
  induction h with
  | nil => cases hmem
  | @cons ts s us p hs _ ih =>
    rcases List.mem_cons.1 hmem with rfl | hmem
    · cases hs with
      | @print word _ _ _ hw _ _ => exact ⟨word, by simp, hw, rfl⟩
    · obtain ⟨t, ht, hk⟩ := ih hmem
      exact ⟨t, List.mem_append_right ts ht, hk⟩

/-- The line that a failed flush is blamed on, by the tokens of the program: that of the first
token of its last statement, and line 1 if it has none. -/
inductive BlamesFlush : List Token → Program → Nat → Prop
  | empty : BlamesFlush [] [] 1
  | statement {ts q t us s} : DerivesProgram ts q → DerivesStatement (t :: us) s →
      BlamesFlush (ts ++ t :: us) (q ++ [s]) t.line

theorem BlamesFlush.lastLine_eq {ts p line} (h : BlamesFlush ts p line) : p.lastLine = line := by
  cases h with
  | empty => rfl
  | statement _ hs =>
    rw [Program.lastLine, List.getLast?_concat]
    exact hs.line_eq

theorem DerivesProgram.exists_blamesFlush {ts p} (h : DerivesProgram ts p) : ∃ line, BlamesFlush ts p line := by
  induction h with
  | nil => exact ⟨1, .empty⟩
  | @cons ts s us p hs _ ih =>
    obtain ⟨line, hlast⟩ := ih
    cases hlast with
    | empty =>
      obtain ⟨t, ts, rfl⟩ := List.exists_cons_of_ne_nil hs.ne_nil
      exact ⟨t.line, by rw [List.append_nil]; exact .statement .nil hs⟩
    | @statement front q t us s' hq hs' =>
      refine ⟨t.line, ?_⟩
      rw [← List.append_assoc, ← List.cons_append]
      exact .statement (.cons hs hq) hs'

namespace Program

/-- Statements fail in evaluation, or at a print statement that the sink has no room for. -/
theorem execute_failure_cases {sink : Sink} {p : Program} {error : RuntimeError}
    (h : (execute sink p).failure = some error) :
    p.error? = some error ∨ ∃ e line, .print e line ∈ p ∧ error = sink.fullFault.blame line := by
  by_cases hfits : sink.Fits p.output
  · rw [execute_fits hfits] at h
    exact .inl h
  · simp only [Sink.Fits, not_forall, Nat.not_le] at hfits
    obtain ⟨room, hroom, hlt⟩ := hfits
    obtain ⟨before, s, after, rfl, hs, hle, hlt'⟩ := exists_overflow hlt
    obtain ⟨e, line, rfl, hexec⟩ := execute_overflows hroom hs hle hlt'
    rw [hexec, Option.some.injEq] at h
    exact .inr ⟨e, line, by simp, h.symm⟩

/-- A syntax error stands at a token, where the input has an end. -/
theorem read_error_located {ts : List Token} (hend : ∃ t ∈ ts, t.kind = .endOfInput) {error : SyntaxError}
    (h : read ts = .error error) : ∃ t ∈ ts, error = SyntaxError.located error.expected (some t) := by
  obtain ⟨done, us, w, t, rest, rfl, -, rfl⟩ := read_eq_error_at hend h
  exact ⟨t, by simp, rfl⟩

/-! ## Runs of texts -/

/-- What the error of a run of a text points at, among its tokens. -/
inductive PointsAt (source : String) (ts : List Token) (sink : Sink) : Error → Prop
  /-- A syntax error shows the token that it is at, or nothing at the end of the input. -/
  | syntactic {t expected} : t ∈ ts →
      PointsAt source ts sink
        (.syntactic ⟨expected, if t.kind = .endOfInput then none else some t.lexeme, t.line⟩)
  /-- An error of evaluation is at its operator. -/
  | evaluation {error} : error.AtOperator ts → PointsAt source ts sink (.runtime error)
  /-- A write that failed is at a `print`. -/
  | write {p t} : parse source = .ok p →
      (execute sink p).failure = some (sink.fullFault.blame t.line) → t ∈ ts → t.kind = .printWord →
      PointsAt source ts sink (.runtime (sink.fullFault.blame t.line))
  /-- A flush that failed, after all statements, is at the last of them. -/
  | flush {p line} : parse source = .ok p → (execute sink p).failure = none →
      sink.settings.flushFails = true → BlamesFlush (beforeEnd ts) p line →
      PointsAt source ts sink (.runtime (SinkFault.closed.blame line))

variable {source : String} {ts : List Token} {sink : Sink} {error : Error}

theorem mem_of_mem_beforeEnd {t : Token} (h : t ∈ beforeEnd ts) : t ∈ ts :=
  (List.takeWhile_sublist _).subset h

/-- The line of an error is that of a token, or line 1. -/
theorem PointsAt.line_cases (h : PointsAt source ts sink error) :
    error.line = 1 ∨ ∃ t ∈ ts, error.line = t.line := by
  cases h with
  | @syntactic t _ ht => exact .inr ⟨t, ht, rfl⟩
  | evaluation hoperator =>
    cases hoperator with
    | expectedNumber ht | expectedNumbers ht | invalidAddition ht => exact .inr ⟨_, ht, rfl⟩
  | @write _ t _ _ ht _ => exact .inr ⟨t, ht, rfl⟩
  | @flush _ line _ _ _ hblames =>
    generalize hbefore : beforeEnd ts = before at hblames
    cases hblames with
    | empty => exact .inl rfl
    | @statement _ _ t _ _ _ _ => exact .inr ⟨t, mem_of_mem_beforeEnd (by rw [hbefore]; simp), rfl⟩

theorem pointsAt_of_parse {p : Program} (hparse : parse source = .ok p) (hp : DerivesProgram (beforeEnd ts) p)
    {error : RuntimeError} (h : (interpret sink p).failure = some error) :
    PointsAt source ts sink (.runtime error) := by
  rw [interpret_failure] at h
  cases hexec : (execute sink p).failure with
  | some inner =>
    rw [hexec, Option.some_or, Option.some.injEq] at h
    subst h
    rcases execute_failure_cases hexec with he | ⟨e, line, hmem, rfl⟩
    · exact .evaluation ((hp.error_atOperator he).mono fun t => mem_of_mem_beforeEnd)
    · obtain ⟨t, ht, hk, rfl⟩ := hp.exists_print hmem
      exact .write hparse hexec (mem_of_mem_beforeEnd ht) hk
  | none =>
    rw [hexec, Option.none_or] at h
    obtain ⟨line, hblames⟩ := hp.exists_blamesFlush
    split at h
    · next hflush =>
      rw [hblames.lastLine_eq, Option.some.injEq] at h
      subst h
      exact .flush hparse hexec hflush hblames
    · cases h

/-- **Errors point at tokens.** If a text scans and its run fails, on any sink, the error is on a line
of the text, and on that of a token of the kind that the error is about. -/
theorem run_pointsAt (hscan : Token.scan source = .ok ts) (h : (run source sink).failure = some error) :
    (∃ before last, ts = before ++ [last] ∧ last.kind = .endOfInput ∧ 1 ≤ error.line ∧ error.line ≤ last.line) ∧
      PointsAt source ts sink error := by
  have hlines := Token.hasLines_of_scan hscan
  obtain ⟨before, hlast⟩ := hlines.ending
  have hpoints : PointsAt source ts sink error := by
    cases hread : read ts with
    | error inner =>
      have hparse : parse source = .error (.syntactic inner) := by simp only [parse, hscan, hread]
      rw [run_of_parse_error hparse] at h
      cases h
      obtain ⟨t, ht, hlocated⟩ := read_error_located (by rw [hlast]; exact Token.exists_end) hread
      rw [hlocated]
      exact .syntactic ht
    | ok p =>
      have hparse := parse_eq_ok.2 ⟨ts, hscan, hread⟩
      rw [run_of_parse hparse, Outcome.mapFailure, Option.map_eq_some_iff] at h
      obtain ⟨inner, hinner, rfl⟩ := h
      exact pointsAt_of_parse hparse (read_eq_ok.1 hread) hinner
  refine ⟨⟨before, _, hlast, rfl, ?_⟩, hpoints⟩
  rcases hpoints.line_cases with hone | ⟨t, ht, hline⟩
  · rw [hone]
    exact ⟨Nat.le_refl 1, lineAfter_pos _⟩
  · rw [hline]
    exact hlines.bounds ht

/-- A sum over three lines, in a comparison, whose operator is on the second. -/
def scattered : String := "print (nil\n+ 1\n) < 2;"

def scatteredTokens : List Token :=
  [⟨.printWord, "print", none, 1⟩, ⟨.leftParen, "(", none, 1⟩, ⟨.nilWord, "nil", none, 1⟩,
    ⟨.plus, "+", none, 2⟩, Token.ofLexeme .number "1" 2, ⟨.rightParen, ")", none, 3⟩, ⟨.less, "<", none, 3⟩,
    Token.ofLexeme .number "2" 3, ⟨.semicolon, ";", none, 3⟩, Token.endOfInput 3]

theorem run_scattered_pointsAt :
    (Token.scan scattered = .ok scatteredTokens ∧
      (run scattered {}).failure = some (.runtime ⟨.invalidAddition, 2⟩)) ∧
    (∃ before last, scatteredTokens = before ++ [last] ∧ last.kind = .endOfInput ∧ 1 ≤ 2 ∧ 2 ≤ last.line) ∧
      PointsAt scattered scatteredTokens {} (.runtime ⟨.invalidAddition, 2⟩) := by
  have hscan : Token.scan scattered = .ok scatteredTokens := by decide +kernel
  have hrun : (run scattered {}).failure = some (.runtime ⟨.invalidAddition, 2⟩) := by decide +kernel
  exact ⟨⟨hscan, hrun⟩, run_pointsAt hscan hrun⟩

end Program
end ExprLang
