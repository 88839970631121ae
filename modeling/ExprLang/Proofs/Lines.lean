/-
Lines have no say. If the tokens are the same but for their lines, so are the programs
read from them, and the errors (`Program.read_mapLine`, `Program.read_mapLine_error`);
if programs are the same but for their lines, so are their runs, which leave the same
sink (`Program.interpret_congr`). A change of lines is a function from lines to lines.
-/
import ExprLang.Proofs.Output
import ExprLang.Proofs.Programs

namespace ExprLang

/-! ## Changing lines -/

def Token.mapLine (f : Nat → Nat) (t : Token) : Token := { t with line := f t.line }

def Expr.mapLine (f : Nat → Nat) : Expr → Expr
  | .literal value line => .literal value (f line)
  | .grouping body line => .grouping (body.mapLine f) (f line)
  | .unary op operand line => .unary op (operand.mapLine f) (f line)
  | .binary left op right line => .binary (left.mapLine f) op (right.mapLine f) (f line)

def Statement.mapLine (f : Nat → Nat) : Statement → Statement
  | .print e line => .print (e.mapLine f) (f line)
  | .expression e line => .expression (e.mapLine f) (f line)

def Program.mapLine (f : Nat → Nat) (p : Program) : Program := p.map (Statement.mapLine f)

def LexicalError.mapLine (f : Nat → Nat) (e : LexicalError) : LexicalError := { e with line := f e.line }

def SyntaxError.mapLine (f : Nat → Nat) (e : SyntaxError) : SyntaxError := { e with line := f e.line }

def RuntimeError.mapLine (f : Nat → Nat) (e : RuntimeError) : RuntimeError := { e with line := f e.line }

def Error.mapLine (f : Nat → Nat) : Error → Error
  | .lexical e => .lexical (e.mapLine f)
  | .syntactic e => .syntactic (e.mapLine f)
  | .runtime e => .runtime (e.mapLine f)

/-- A program with other lines, or an error with another. -/
def Program.mapResult (f : Nat → Nat) : Except Error Program → Except Error Program
  | .ok p => .ok (p.mapLine f)
  | .error e => .error (e.mapLine f)

/-- Every line made the same. What is equal after this is equal up to lines. -/
def noLine : Nat → Nat := fun _ => 0

variable {f : Nat → Nat}

@[simp] theorem Token.kind_mapLine (f : Nat → Nat) (t : Token) : (t.mapLine f).kind = t.kind := rfl

@[simp] theorem Token.literal_mapLine (f : Nat → Nat) (t : Token) : (t.mapLine f).literal = t.literal := rfl

/-! ## Reading -/

theorem isLiteral_mapLine {t : Token} {v : Value} : IsLiteral (t.mapLine f) v ↔ IsLiteral t v := by
  simp only [← Expr.literal?_eq_some, Expr.literal?, Token.kind_mapLine, Token.literal_mapLine]

theorem startsOperand_mapLine {t : Token} : StartsOperand (t.mapLine f) ↔ StartsOperand t := by
  simp only [StartsOperand, Token.kind_mapLine, isLiteral_mapLine]

theorem Wanted.suits_mapLine {w : Wanted} {t : Token} : w.Suits (t.mapLine f) ↔ w.Suits t := by
  cases w <;> simp only [Suits, Token.kind_mapLine, startsOperand_mapLine]

theorem Wanted.Blocks.mapLine {w : Wanted} {rest : List Token} (h : w.Blocks rest) :
    w.Blocks (rest.map (Token.mapLine f)) := by
  intro t ht hs
  rw [List.head?_map, Option.mem_def, Option.map_eq_some_iff] at ht
  obtain ⟨t, ht, rfl⟩ := ht
  exact h t ht (suits_mapLine.1 hs)

theorem Derives.mapLine {r ts e} (h : Derives r ts e) : Derives r (ts.map (Token.mapLine f)) (e.mapLine f) := by
  induction h with
  | literal hv => exact .literal (isLiteral_mapLine.2 hv)
  | grouping ho _ hc ih =>
    rw [List.map_cons, List.map_append]
    exact .grouping ho ih hc
  | primary _ ih => exact .primary ih
  | unary hop _ ih => exact .unary hop ih
  | operand _ ih => exact .operand ih
  | binary _ hop hl _ ihl ihr =>
    rw [List.map_append, List.map_cons]
    exact .binary ihl hop hl ihr

theorem DerivesStatement.mapLine {ts s} (h : DerivesStatement ts s) :
    DerivesStatement (ts.map (Token.mapLine f)) (s.mapLine f) := by
  cases h with
  | print hw he hs =>
    rw [List.map_cons, List.map_append]
    exact .print hw he.mapLine hs
  | expression he hs =>
    have he' := he.mapLine (f := f)
    rw [List.map_cons] at he'
    rw [List.map_cons, List.map_append]
    exact .expression he' hs

theorem DerivesProgram.mapLine {ts p} (h : DerivesProgram ts p) :
    DerivesProgram (ts.map (Token.mapLine f)) (Program.mapLine f p) := by
  induction h with
  | nil => exact .nil
  | cons hs _ ih =>
    rw [List.map_append]
    exact .cons hs.mapLine ih

theorem Begins.mapLine {r ts w} (h : Begins r ts w) : Begins r (ts.map (Token.mapLine f)) w := by
  induction h with
  | start => exact .start
  | body ho _ ih => exact .body ho ih
  | closing ho he => exact .closing ho he.mapLine
  | primary _ ih => exact .primary ih
  | unary hop _ ih => exact .unary hop ih
  | operand _ ih => exact .operand ih
  | right hleft hop hl _ ih =>
    rw [List.map_append, List.map_cons]
    exact .right hleft.mapLine hop hl ih

theorem BeginsStatement.mapLine {ts w} (h : BeginsStatement ts w) : BeginsStatement (ts.map (Token.mapLine f)) w := by
  cases h with
  | start => exact .start
  | print hw hb => exact .print hw hb.mapLine
  | printed hw he => exact .printed hw he.mapLine
  | expression hb =>
    have hb' := hb.mapLine (f := f)
    rw [List.map_cons] at hb' ⊢
    exact .expression hb'
  | expressed he => exact .expressed he.mapLine

namespace Program

theorem atEnd_mapLine {ts : List Token} : AtEnd (ts.map (Token.mapLine f)) ↔ AtEnd ts := by
  simp [AtEnd, List.head?_map]

theorem Refused.mapLine {done us w rest} (h : Refused done us w rest) :
    Refused (done.map (Token.mapLine f)) (us.map (Token.mapLine f)) w (rest.map (Token.mapLine f)) := by
  obtain ⟨⟨p, hp⟩, hbegins, hblocks, hbegun⟩ := h
  refine ⟨⟨_, hp.mapLine⟩, hbegins.mapLine, hblocks.mapLine, ?_⟩
  rwa [← List.map_append, atEnd_mapLine]

theorem beforeEnd_mapLine (ts : List Token) :
    beforeEnd (ts.map (Token.mapLine f)) = (beforeEnd ts).map (Token.mapLine f) := by
  rw [beforeEnd, List.takeWhile_map]
  rfl

theorem read_mapLine {ts : List Token} {p : Program} (h : read ts = .ok p) :
    read (ts.map (Token.mapLine f)) = .ok (p.mapLine f) := by
  rw [read_eq_ok] at h ⊢
  rw [beforeEnd_mapLine]
  exact h.mapLine

/-- Where the input has an end, an error stands at a token, and takes its line from it. -/
theorem read_mapLine_error {ts : List Token} {error : SyntaxError} (hend : ∃ t ∈ ts, t.kind = .endOfInput)
    (h : read ts = .error error) : read (ts.map (Token.mapLine f)) = .error (error.mapLine f) := by
  obtain ⟨done, us, w, t, rest, rfl, hrefused, rfl⟩ := read_eq_error_at hend h
  rw [List.map_append, List.map_append, hrefused.mapLine.read_eq]
  rfl

end Program

/-! ## Evaluating -/

namespace Value

theorem unary_mapLine (op : UnaryOp) (v : Value) (line : Nat) :
    unary op v (f line) = (unary op v line).mapError (RuntimeError.mapLine f) := by
  cases op <;> cases v <;> rfl

theorem add_mapLine (v w : Value) (line : Nat) : add v w (f line) = (add v w line).mapError (RuntimeError.mapLine f) := by
  cases v <;> cases w <;> rfl

theorem scalar_mapLine (op : BinaryOp) (v w : Value) (line : Nat) :
    scalar op v w (f line) = (scalar op v w line).mapError (RuntimeError.mapLine f) := by
  cases v <;> cases w <;> cases op <;> rfl

theorem comparison_mapLine (op : BinaryOp) (v w : Value) (line : Nat) :
    comparison op v w (f line) = (comparison op v w line).mapError (RuntimeError.mapLine f) := by
  cases v <;> cases w <;> cases op <;> rfl

theorem equality_mapLine (op : BinaryOp) (v w : Value) (line : Nat) :
    equality op v w (f line) = (equality op v w line).mapError (RuntimeError.mapLine f) := by
  cases op <;> rfl

theorem binary_mapLine (op : BinaryOp) (v w : Value) (line : Nat) :
    binary op v w (f line) = (binary op v w line).mapError (RuntimeError.mapLine f) := by
  unfold binary
  cases op.family with
  | addition => exact add_mapLine v w line
  | scalar => exact scalar_mapLine op v w line
  | comparison => exact comparison_mapLine op v w line
  | equality => exact equality_mapLine op v w line

end Value

theorem Expr.evaluate_mapLine (e : Expr) :
    (e.mapLine f).evaluate = e.evaluate.mapError (RuntimeError.mapLine f) := by
  induction e with
  | literal value line => rfl
  | grouping body line ih => exact ih
  | unary op operand line ih =>
    simp only [mapLine, evaluate, ih]
    cases operand.evaluate with
    | error error => rfl
    | ok v => exact Value.unary_mapLine op v line
  | binary left op right line ihl ihr =>
    simp only [mapLine, evaluate, ihl, ihr]
    cases left.evaluate with
    | error error => rfl
    | ok v =>
      cases right.evaluate with
      | error error => rfl
      | ok w => exact Value.binary_mapLine op v w line

/-! ## Running -/

theorem Statement.execute_mapLine (sink : Sink) (s : Statement) :
    (s.mapLine f).execute sink = (s.execute sink).mapFailure (RuntimeError.mapLine f) := by
  cases s with
  | expression e line =>
    simp only [mapLine, execute, Expr.evaluate_mapLine]
    cases e.evaluate <;> rfl
  | print e line =>
    simp only [mapLine, execute, Expr.evaluate_mapLine]
    cases e.evaluate with
    | error error => rfl
    | ok value =>
      simp only [Except.mapError, Outcome.mapFailure, Option.map_map]
      rfl

namespace Program

theorem execute_mapLine (sink : Sink) (p : Program) :
    execute sink (p.mapLine f) = (execute sink p).mapFailure (RuntimeError.mapLine f) := by
  induction p generalizing sink with
  | nil => rfl
  | cons s p ih =>
    have hs' := s.execute_mapLine (f := f) sink
    rcases hs : s.execute sink with ⟨sink', _ | error⟩
    · rw [hs] at hs'
      exact (execute_cons hs' _).trans ((ih sink').trans (by rw [execute_cons hs]))
    · rw [hs] at hs'
      exact (execute_cons_failure hs' _).trans (by rw [execute_cons_failure hs]; rfl)

/-- What is printed has no lines. -/
theorem output_mapLine (p : Program) : (p.mapLine f).output = p.output ∧
    (p.mapLine f).error? = p.error?.map (RuntimeError.mapLine f) := by
  -- a sink without bounds shows both
  have hfits : ∀ bytes, ({} : Sink).Fits bytes := (Sink.Accepts.mk rfl rfl).fits
  have hexec := execute_mapLine (f := f) {} p
  rw [execute_fits (hfits _), execute_fits (hfits _)] at hexec
  simpa [Outcome.mapFailure, Sink.taking] using hexec

/-- Programs that are equal up to lines end alike up to the line of a failure, with equal sinks. -/
theorem interpret_congr {p q : Program} (h : p.mapLine noLine = q.mapLine noLine) (sink : Sink) :
    (interpret sink p).mapFailure (RuntimeError.mapLine noLine) =
      (interpret sink q).mapFailure (RuntimeError.mapLine noLine) := by
  have hexec : (execute sink p).mapFailure (RuntimeError.mapLine noLine) =
      (execute sink q).mapFailure (RuntimeError.mapLine noLine) := by
    rw [← execute_mapLine, ← execute_mapLine, h]
  rcases hp : execute sink p with ⟨s, _ | error⟩ <;> rcases hq : execute sink q with ⟨t, _ | error'⟩ <;>
    simp only [hp, hq, Outcome.mapFailure, Option.map_none, Option.map_some, Outcome.mk.injEq, reduceCtorEq,
      and_false, and_true] at hexec
  · subst hexec
    -- only the flush can fail, and no line is left of where it did
    rw [interpret_of_success hp, interpret_of_success hq]
    cases hf : s.settings.flushFails <;> rfl
  · rw [interpret_of_failure hp, interpret_of_failure hq]
    simp only [Outcome.mapFailure, Option.map_some, hexec]

/-! ## Source texts -/

theorem parse_eq_ok {source : String} {p : Program} :
    parse source = .ok p ↔ ∃ ts, Token.scan source = .ok ts ∧ read ts = .ok p := by
  simp only [parse]
  cases Token.scan source with
  | error error => simp
  | ok ts => cases h : read ts <;> simp [h]

theorem run_of_parse {source : String} {p : Program} (h : parse source = .ok p) (sink : Sink) :
    run source sink = (interpret sink p).mapFailure .runtime := by
  simp only [run, h]

theorem run_of_parse_error {source : String} {error : Error} (h : parse source = .error error) (sink : Sink) :
    run source sink = ⟨sink, some error⟩ := by
  simp only [run, h]

theorem run_accepted_failure {source : String} {p : Program} (h : parse source = .ok p) {sink : Sink}
    (hs : sink.Accepts) {error : RuntimeError} (he : p.error? = some error) :
    run source sink = ⟨sink.taking p.output, some (.runtime error)⟩ := by
  rw [run_of_parse h, interpret_accepted_failure hs he]
  rfl

theorem run_accepted_success {source : String} {p : Program} (h : parse source = .ok p) {sink : Sink}
    (hs : sink.Accepts) (he : p.error? = none) :
    run source sink = ⟨⟨sink.settings, sink.held ++ p.output, sink.flushes + 1⟩, none⟩ := by
  rw [run_of_parse h, interpret_accepted_success hs he]
  rfl

/-- Texts whose tokens are equal up to lines are equal programs up to lines, or are refused with
the same error up to its line. -/
theorem parse_congr {a b : String} {ts us : List Token} (ha : Token.scan a = .ok ts) (hb : Token.scan b = .ok us)
    (hts : ∃ t ∈ ts, t.kind = .endOfInput) (hus : ∃ t ∈ us, t.kind = .endOfInput)
    (h : ts.map (Token.mapLine noLine) = us.map (Token.mapLine noLine)) :
    mapResult noLine (parse a) = mapResult noLine (parse b) := by
  simp only [parse, ha, hb]
  cases hp : read ts with
  | ok p =>
    have hp' := read_mapLine (f := noLine) hp
    cases hq : read us with
    | ok q =>
      rw [h, read_mapLine hq, Except.ok.injEq] at hp'
      simp only [mapResult, hp']
    | error e =>
      rw [h, read_mapLine_error hus hq] at hp'
      cases hp'
  | error e =>
    have hp' := read_mapLine_error (f := noLine) hts hp
    cases hq : read us with
    | ok q =>
      rw [h, read_mapLine hq] at hp'
      cases hp'
    | error e' =>
      rw [h, read_mapLine_error hus hq, Except.error.injEq] at hp'
      simp only [mapResult, Error.mapLine, hp']

/-- Texts that are equal programs up to lines, or are refused alike, run alike. -/
theorem run_congr {a b : String} (h : mapResult noLine (parse a) = mapResult noLine (parse b)) (sink : Sink) :
    (run a sink).mapFailure (Error.mapLine noLine) = (run b sink).mapFailure (Error.mapLine noLine) := by
  have hruntime : ∀ o : Outcome RuntimeError, (o.mapFailure Error.runtime).mapFailure (Error.mapLine noLine) =
      (o.mapFailure (RuntimeError.mapLine noLine)).mapFailure Error.runtime := by
    intro o
    simp only [Outcome.mapFailure, Option.map_map]
    rfl
  cases ha : parse a with
  | ok p =>
    cases hb : parse b with
    | ok q =>
      simp only [ha, hb, mapResult, Except.ok.injEq] at h
      rw [run_of_parse ha, run_of_parse hb, hruntime, hruntime, interpret_congr h]
    | error e => simp [ha, hb, mapResult] at h
  | error e =>
    cases hb : parse b with
    | ok q => simp [ha, hb, mapResult] at h
    | error e' =>
      simp only [ha, hb, mapResult, Except.error.injEq] at h
      rw [run_of_parse_error ha, run_of_parse_error hb]
      simp only [Outcome.mapFailure, Option.map_some, h]

end Program
end ExprLang
