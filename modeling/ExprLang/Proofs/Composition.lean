/-
Programs one after the other. A text that is a program, a line feed, and another text
are read as the first program and after it what the other text is by itself, further
down (`Program.parse_append_lineFeed`); and they run as the first program and, if that
one ends well, as the other text after it (`Program.runsBoth_of_parse`).
-/
import ExprLang.Proofs.Scanning

namespace ExprLang.Program

/-! ## Reading -/

/-- A program with statements behind it, and the error further down of a text with a program in front. -/
def continueParse (p : Program) (down : Nat) : Except Error Program → Except Error Program
  | .ok q => .ok (p ++ q.mapLine (· + down))
  | .error e => .error (e.mapLine (· + down))

/-- Tokens after those of a program are read as they are by themselves. -/
theorem read_append_mapLine {before ts : List Token} {p : Program} (hp : DerivesProgram before p)
    (hend : ∃ t ∈ ts, t.kind = .endOfInput) (down : Nat) :
    (∀ q, read ts = .ok q → read (before ++ ts.map (Token.mapLine (· + down))) = .ok (p ++ q.mapLine (· + down))) ∧
      ∀ error, read ts = .error error →
        read (before ++ ts.map (Token.mapLine (· + down))) = .error (error.mapLine (· + down)) := by
  rw [read_of_derives hp]
  constructor
  · intro q hq
    rw [read_mapLine hq]
    rfl
  · intro error herror
    rw [read_mapLine_error hend herror]
    rfl

/-- **Reading composes.** -/
theorem parse_append_lineFeed {a : String} {p : Program} {before : List Token} {line : Nat}
    (hscan : Token.scan a = .ok (before ++ [Token.endOfInput line])) (hp : DerivesProgram before p) (b : String) :
    parse (a ++ "\n" ++ b) = continueParse p line (parse b) := by
  simp only [parse, Token.scan_append hscan b]
  cases hb : Token.scan b with
  | error error => rfl
  | ok ts =>
    obtain ⟨before', line', rfl, -⟩ := Token.scan_eq_ok hb
    obtain ⟨hok, herror⟩ := read_append_mapLine hp Token.exists_end line
    simp only [Token.continueScan]
    cases hread : read (before' ++ [Token.endOfInput line']) with
    | ok q => rw [hok q hread]; rfl
    | error error => rw [herror error hread]; rfl

/-! ## Running -/

/-- How a text runs that consists of the text `a`, a line feed and the text `b`, when the text `a`
is a program and ends on the line `down`. -/
structure RunsBoth (a b : String) (down : Nat) (sink : Sink) : Prop where
  /-- If `b` is no program, nothing is written or flushed. -/
  unread : ∀ error, parse b = .error error →
    run (a ++ "\n" ++ b) sink = ⟨sink, some (error.mapLine (· + down))⟩
  /-- If `a` fails, that is all that happens, and there is no flush. -/
  first_fails : ∀ p error, parse b = .ok p → (run a sink).failure = some error →
    run (a ++ "\n" ++ b) sink = run a sink ∧ (run a sink).sink.flushes = sink.flushes
  /-- If `a` ends well, what `b` writes comes behind what `a` writes, and the end is that of `b`. -/
  first_ends : ∀ p, parse b = .ok p → (run a sink).failure = none →
    ∃ written more, (run a sink).sink.held = sink.held ++ written ∧ (run b sink).sink.held = sink.held ++ more ∧
      run (a ++ "\n" ++ b) sink = ⟨⟨sink.settings, sink.held ++ (written ++ more), (run b sink).sink.flushes⟩,
        (run b sink).failure.map (Error.mapLine (· + down))⟩

section

variable {a b : String} {p q : Program} {sink : Sink} {down : Nat} {error : RuntimeError}

/-- If the first program fails, that is all that happens. -/
theorem run_append_of_failure (ha : parse a = .ok p) (hboth : parse (a ++ "\n" ++ b) = .ok (p ++ q))
    (hs : sink.Accepts) (he : p.error? = some error) :
    run (a ++ "\n" ++ b) sink = run a sink ∧ (run a sink).sink.flushes = sink.flushes := by
  obtain ⟨ho, he'⟩ := append_of_error he q
  rw [run_accepted_failure ha hs he, run_accepted_failure hboth hs he', ho]
  exact ⟨rfl, rfl⟩

/-- If the first program ends well, the second runs after it. -/
theorem run_append_of_success (hb : parse b = .ok q)
    (hboth : parse (a ++ "\n" ++ b) = .ok (p ++ q.mapLine (· + down))) (hs : sink.Accepts) (he : p.error? = none) :
    (run b sink).sink.held = sink.held ++ q.output ∧ run (a ++ "\n" ++ b) sink =
      ⟨⟨sink.settings, sink.held ++ (p.output ++ q.output), (run b sink).sink.flushes⟩,
        (run b sink).failure.map (Error.mapLine (· + down))⟩ := by
  have hp := error?_eq_none.1 he
  obtain ⟨ho, he'⟩ := output_mapLine (f := (· + down)) q
  have hout := (output_append hp (q.mapLine (· + down))).trans (by rw [ho])
  have herr := (error?_append hp (q.mapLine (· + down))).trans he'
  cases hq : q.error? with
  | none =>
    rw [hq] at herr
    rw [run_accepted_success hb hs hq, run_accepted_success hboth hs herr, hout]
    exact ⟨rfl, rfl⟩
  | some error =>
    rw [hq] at herr
    rw [run_accepted_failure hb hs hq, run_accepted_failure hboth hs herr, hout]
    exact ⟨rfl, rfl⟩

/-- **Running composes.** -/
theorem runsBoth_of_parse (ha : parse a = .ok p) (hboth : parse (a ++ "\n" ++ b) = continueParse p down (parse b))
    (hs : sink.Accepts) : RunsBoth a b down sink := by
  refine ⟨fun error hb => ?_, fun q error hb hfail => ?_, fun q hb hend => ?_⟩
  · rw [hb] at hboth
    exact run_of_parse_error hboth sink
  · rw [hb] at hboth
    cases he : p.error? with
    | none =>
      rw [run_accepted_success ha hs he] at hfail
      cases hfail
    | some error => exact run_append_of_failure ha hboth hs he
  · rw [hb] at hboth
    cases he : p.error? with
    | some error =>
      rw [run_accepted_failure ha hs he] at hend
      cases hend
    | none =>
      obtain ⟨hmore, hrun⟩ := run_append_of_success hb hboth hs he
      exact ⟨p.output, q.output, by rw [run_accepted_success ha hs he], hmore, hrun⟩

end

/-- **Programs compose.** Behind a program and a line feed, any text is read and run as it is by
itself, further down by the lines of the program. -/
theorem append_composes {a : String} {p : Program} (ha : parse a = .ok p) :
    ∃ before last, Token.scan a = .ok (before ++ [last]) ∧ last.kind = .endOfInput ∧ ∀ b : String,
      (∀ q, parse b = .ok q → parse (a ++ "\n" ++ b) = .ok (p ++ q.mapLine (· + last.line))) ∧
      (∀ error, parse b = .error error → parse (a ++ "\n" ++ b) = .error (error.mapLine (· + last.line))) ∧
      ∀ sink : Sink, sink.Accepts → RunsBoth a b last.line sink := by
  obtain ⟨ts, hscan, hread⟩ := parse_eq_ok.1 ha
  obtain ⟨before, line, rfl, hbefore⟩ := Token.scan_eq_ok hscan
  rw [read_eq_ok, Token.beforeEnd_scan hbefore] at hread
  refine ⟨before, _, hscan, rfl, fun b => ?_⟩
  have hboth := parse_append_lineFeed hscan hread b
  refine ⟨fun q hb => ?_, fun error hb => ?_, fun sink hs => runsBoth_of_parse ha hboth hs⟩
  · rw [hboth, hb]
    rfl
  · rw [hboth, hb]
    rfl

/-- A program that ends on its second line, in a comment, and a statement that fails on its first. -/
def commented : String := "print \"one\ntwo\"; // said"

def failing : String := "-nil;"

theorem append_commented : parse commented = .ok [.print (.literal (.string "one\ntwo") 2) 1] ∧
    ∃ before last, Token.scan commented = .ok (before ++ [last]) ∧ last.kind = .endOfInput ∧
      parse (commented ++ "\n" ++ failing) = .ok [.print (.literal (.string "one\ntwo") 2) 1,
        .expression (.unary .negate (.literal .nil (1 + last.line)) (1 + last.line)) (1 + last.line)] ∧
      RunsBoth commented failing last.line {} := by
  have ha : parse commented = .ok [.print (.literal (.string "one\ntwo") 2) 1] := by decide +kernel
  have hb : parse failing = .ok [.expression (.unary .negate (.literal .nil 1) 1) 1] := by decide +kernel
  obtain ⟨before, last, hscan, hend, hboth⟩ := append_composes ha
  obtain ⟨hparse, -, hrun⟩ := hboth failing
  exact ⟨ha, before, last, hscan, hend, hparse _ hb, hrun {} ⟨rfl, rfl⟩⟩

end ExprLang.Program
