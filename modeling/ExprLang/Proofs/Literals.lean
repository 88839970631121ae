/-
Written literals read back. The written form of nil, of a truth value, of a finite number
or of a string without a quote is cut into the tokens that it was made of
(`Value.Readable.scansFrom`), and these are the literal of the value; only a negative
number is the negation of one. So a program that prints it, prints it
(`Program.parse_printing`).
-/
import ExprLang.Proofs.LineLaw
import ExprLang.Proofs.Parentheses
import ExprLang.Proofs.WrittenForm

namespace ExprLang

/-! ## Scanning piece by piece -/

namespace Token

/-- A text that begins on this line is scanned to these tokens. -/
def ScansFrom (line : Nat) (ts : List Token) (cs : List Char) : Prop :=
  ∃ t : Tiling, t.Longest ∧ t.text = cs ∧ ts.map content = t.contents ∧
    ts.map Token.line = t.upTo.map fun front => line + lineFeeds front

theorem scansFrom_end (line : Nat) : ScansFrom line [endOfInput line] [] :=
  ⟨.last [], .last .nil, rfl, rfl, rfl⟩

/-- A token in front ends on its line, and what follows begins there. -/
theorem scansFrom_token {kind : Kind} {lexeme : String} {value : Option Value} {cs : List Char} {line last : Nat}
    {ts : List Token} (h : IsLongest kind lexeme.toList value cs) (hk : kind.isSkipped = false)
    (hlast : last = line + lineFeeds lexeme.toList) (hrest : ScansFrom last ts cs) :
    ScansFrom line (⟨kind, lexeme, value, last⟩ :: ts) (lexeme.toList ++ cs) := by
  obtain ⟨t, hlongest, rfl, hcontents, hlines⟩ := hrest
  refine ⟨.lexeme [] kind lexeme.toList value t, .lexeme .nil h hk hlongest, rfl, ?_, ?_⟩
  · rw [List.map_cons, hcontents, Tiling.contents, String.ofList_toList]
    rfl
  · rw [List.map_cons, hlines, hlast]
    simp [Tiling.upTo, lineFeeds_append, Nat.add_assoc]

theorem scansFrom_gap {gap cs : List Char} {line : Nat} {ts : List Token} (hg : Gap gap cs)
    (h : ScansFrom (line + lineFeeds gap) ts cs) : ScansFrom line ts (gap ++ cs) := by
  obtain ⟨t, hlongest, rfl, hcontents, hlines⟩ := h
  refine ⟨t.prepend gap, ?_, t.text_prepend gap, ?_, ?_⟩
  · refine Tiling.longest_iff.2 ((Tiling.longest_iff.1 hlongest).prepend ?_)
    rwa [List.append_nil]
  · rw [hcontents, Tiling.contents_prepend]
  · rw [hlines, Tiling.upTo_prepend]
    simp [lineFeeds_append, Nat.add_assoc]

theorem scan_of_scansFrom {source : String} {ts : List Token} (h : ScansFrom 1 ts source.toList) :
    scan source = .ok ts := by
  obtain ⟨t, hlongest, htext, hcontents, hlines⟩ := h
  rw [scan, ← htext]
  exact scan_of_longest hlongest hcontents hlines

end Token

/-! ## Literals as lexemes -/

/-- The text of a number without a sign is a lexeme, and stands for the number. -/
theorem Number.isLexeme_chars (m : Magnitude) :
    IsLexeme .number (chars (.finite false m)) (some (.number (.finite false m))) := by
  have hlexeme : ∃ value, IsLexeme .number m.shortestDecimal.digits value := by
    rcases m.shortestDecimal.digits_shape with ⟨-, hne, hd, -⟩ | ⟨he, whole, fraction, hs, hw, hwd, hfd, -, hf⟩
    · exact ⟨_, .digits hne hd⟩
    · have hne : fraction ≠ [] := by
        rintro rfl
        rw [List.length_nil] at hf
        omega
      rw [hs]
      exact ⟨_, IsLexeme.decimal hw hne hwd hfd⟩
  obtain ⟨value, h⟩ := hlexeme
  have hread := read?_chars (.finite false m)
  have hvalue : value = some (.number (.finite false m)) := by
    rw [h.value_eq, Token.literalOf, String.toList_ofList]
    exact congrArg (Option.map Value.number) hread
  rwa [hvalue] at h

theorem Number.lineFeeds_chars (x : Number) : Token.lineFeeds x.chars = 0 :=
  List.count_eq_zero.2 fun hmem => absurd (x.bare_chars _ hmem) (by decide)

namespace Value

/-- The values that can be written as a literal, or as the negation of one. -/
inductive Readable : Value → Prop
  | nil : Readable .nil
  | bool {b} : Readable (.bool b)
  | number {negative m} : Readable (.number (.finite negative m))
  | string {s} : '"' ∉ s.toList → Readable (.string s)

/-- The expression that the value is written as, on this line: its literal, and of a negative
number the negation of the literal of its magnitude. -/
def asExpr (v : Value) (line : Nat) : Expr :=
  match v with
  | .number (.finite true m) => .unary .negate (.literal (.number (.finite false m)) line) line
  | v => .literal v line

/-- The tokens of this expression. -/
def asTokens (v : Value) (line : Nat) : List Token :=
  match v with
  | .number (.finite true m) => [⟨.minus, "-", none, line⟩, token (.number (.finite false m)) line]
  | v => [v.token line]

theorem derives_asTokens (v : Value) (line : Nat) : Derives .unary (v.asTokens line) (v.asExpr line) := by
  have hliteral : ∀ w : Value, Derives .unary [w.token line] (.literal w line) := fun w =>
    .primary (.literal (w.isLiteral_token line))
  unfold asTokens asExpr
  split
  · exact .unary (t := ⟨.minus, "-", none, line⟩) rfl (hliteral _)
  · exact hliteral _

theorem evaluate_asExpr (v : Value) (line : Nat) : (v.asExpr line).evaluate = .ok v := by
  unfold asExpr
  split
  · rfl
  · rfl

theorem not_skipped_kind (v : Value) : v.kind.isSkipped = false := by
  cases v with
  | bool b => cases b <;> rfl
  | _ => rfl

theorem quotedText_number (x : Number) : (number x).quotedText.toList = x.chars := String.toList_ofList

theorem lineFeeds_number (x : Number) : Token.lineFeeds (number x).quotedText.toList = 0 := by
  rw [quotedText_number, x.lineFeeds_chars]

/-- The text of a negative number is a minus and the text of its magnitude. -/
theorem quotedText_negative (m : Magnitude) : (number (.finite true m)).quotedText.toList =
    "-".toList ++ (number (.finite false m)).quotedText.toList := by
  rw [quotedText_number, quotedText_number]
  rfl

/-- The written form of a value is a lexeme, but for the minus of a negative number. -/
theorem Readable.isLexeme_or_negative {v : Value} (h : v.Readable) :
    (IsLexeme v.kind v.quotedText.toList v.carried ∧ ∀ line, v.asTokens line = [v.token line]) ∨
      ∃ m, v = .number (.finite true m) := by
  cases h with
  | nil =>
    have hword : ("nil", Kind.nilWord) ∈ Kind.keywords := by decide
    exact .inl ⟨.keyword hword, fun _ => rfl⟩
  | @bool b =>
    have htrue : ("true", Kind.trueWord) ∈ Kind.keywords := by decide
    have hfalse : ("false", Kind.falseWord) ∈ Kind.keywords := by decide
    cases b with
    | true => exact .inl ⟨.keyword htrue, fun _ => rfl⟩
    | false => exact .inl ⟨.keyword hfalse, fun _ => rfl⟩
  | @number negative m =>
    cases negative with
    | true => exact .inr ⟨m, rfl⟩
    | false =>
      refine .inl ⟨?_, fun _ => rfl⟩
      rw [quotedText_number]
      exact Number.isLexeme_chars m
  | string hs =>
    refine .inl ⟨?_, fun _ => rfl⟩
    have hstring := IsLexeme.string hs
    rw [String.ofList_toList] at hstring
    rwa [quotedText_string]

/-- A written value with a semicolon behind it is cut into its tokens. -/
theorem Readable.scansFrom {v : Value} (h : v.Readable) {start line : Nat} {ts : List Token} {rest : List Char}
    (hline : line = start + Token.lineFeeds v.quotedText.toList) (hrest : Token.ScansFrom line ts (';' :: rest)) :
    Token.ScansFrom start (v.asTokens line ++ ts) (v.quotedText.toList ++ ';' :: rest) := by
  -- the literal, or the magnitude behind the minus
  have hliteral : ∀ {w : Value} {n : Nat}, IsLexeme w.kind w.quotedText.toList w.carried →
      line = n + Token.lineFeeds w.quotedText.toList →
      Token.ScansFrom n (w.token line :: ts) (w.quotedText.toList ++ ';' :: rest) := fun {w} _ hl hn =>
    Token.scansFrom_token (hl.longest_before_alone w.not_skipped_kind rfl (by decide) rest) w.not_skipped_kind hn hrest
  rcases h.isLexeme_or_negative with ⟨hlexeme, htokens⟩ | ⟨m, rfl⟩
  · rw [htokens]
    exact hliteral hlexeme hline
  · have hmagnitude := Number.isLexeme_chars m
    rw [← quotedText_number] at hmagnitude
    rw [lineFeeds_number] at hline
    obtain rfl : line = start := hline
    have hnumber := hliteral (w := .number (.finite false m)) hmagnitude (by rw [lineFeeds_number, Nat.add_zero])
    have hmark : ("-", Kind.minus) ∈ Kind.symbols := by decide
    have hminus : ∀ cs, IsLongest .minus "-".toList none cs := (IsLexeme.symbol hmark).longest_alone rfl (by decide)
    have hlast : line = line + Token.lineFeeds "-".toList := rfl
    rw [quotedText_negative, List.append_assoc]
    exact Token.scansFrom_token (hminus _) rfl hlast hnumber

end Value

/-! ## Programs -/

namespace Program

/-- The program that prints the value, as it is written. -/
def printing (v : Value) : String := "print " ++ v.quotedText ++ ";"

/-- The tokens of such a program, all but the first on this line. -/
def printingTokens (v : Value) (line : Nat) : List Token :=
  ⟨.printWord, "print", none, 1⟩ :: (v.asTokens line ++ [⟨.semicolon, ";", none, line⟩, Token.endOfInput line])

theorem scan_printing {v : Value} (h : v.Readable) :
    Token.scan (printing v) = .ok (printingTokens v (lineAfter v.quotedText.toList)) := by
  have hmark : (";", Kind.semicolon) ∈ Kind.symbols := by decide
  have hsemicolon : IsLongest .semicolon ";".toList none [] := (IsLexeme.symbol hmark).longest_alone rfl (by decide) []
  have hkeyword : ("print", Kind.printWord) ∈ Kind.keywords := by decide
  have hword : IsLexeme .printWord "print".toList none := .keyword hkeyword
  have hspace : Gap [' '] (v.quotedText.toList ++ [';']) := .white (.inl rfl) .nil
  have htext : (printing v).toList = "print".toList ++ ([' '] ++ (v.quotedText.toList ++ [';'])) := by
    simp [printing, String.toList_append]
  refine Token.scan_of_scansFrom ?_
  rw [htext]
  generalize hline : lineAfter v.quotedText.toList = line
  have hend := Token.scansFrom_token hsemicolon rfl rfl (Token.scansFrom_end line)
  have hvalue := Token.scansFrom_gap hspace (h.scansFrom hline.symm hend)
  exact Token.scansFrom_token (hword.longest_before_white rfl (by simp [IsWhite, isBlank])) rfl rfl hvalue

theorem read_printingTokens (v : Value) (line : Nat) :
    read (printingTokens v line) = .ok [.print (v.asExpr line) 1] := by
  have hstatement := @DerivesStatement.print ⟨.printWord, "print", none, 1⟩ _ _ ⟨.semicolon, ";", none, line⟩ rfl
    (v.derives_asTokens line).expression rfl
  have hend : read [Token.endOfInput line] = .ok [] := read_atEnd (by simp [AtEnd, Token.endOfInput])
  have hread := read_of_derives (.cons hstatement .nil) [Token.endOfInput line]
  rw [hend] at hread
  simpa [printingTokens, Except.map] using hread

/-- **Written literals read back.** A program that prints a value as it is written prints just the
literal of the value, or the negation of the literal of its magnitude if it is a negative
number; that expression has the value; and the program writes the text of the value and a line feed. -/
theorem parse_printing {v : Value} (h : v.Readable) :
    parse (printing v) = .ok [.print (v.asExpr (lineAfter v.quotedText.toList)) 1] ∧
    (v.asExpr (lineAfter v.quotedText.toList)).evaluate = .ok v ∧
    ∀ sink : Sink, sink.Accepts →
      run (printing v) sink = ⟨⟨sink.settings, sink.held ++ v.printed, sink.flushes + 1⟩, none⟩ := by
  have hscan := scan_printing h
  generalize lineAfter v.quotedText.toList = line at hscan ⊢
  have hvalue := v.evaluate_asExpr line
  have hparse := parse_eq_ok.2 ⟨_, hscan, read_printingTokens v line⟩
  refine ⟨hparse, hvalue, fun sink hs => ?_⟩
  have herror : error? [.print (v.asExpr line) 1] = none := by
    simp [error?, Statement.expr, Expr.error?, hvalue]
  have houtput : output [.print (v.asExpr line) 1] = v.printed := by
    simp [output, Statement.succeeds, Statement.expr, Expr.error?, Statement.output, hvalue, Value.printed]
  rw [run_accepted_success hparse hs herror, houtput]

/-- A string of two lines with a comment, an end and more of a program in it. -/
def deceptive : Value := .string "a//b;\n(nil) - 1; print"

theorem parse_printing_zero_and_deceptive :
    (parse "print -0;" = .ok [.print (.unary .negate (.literal (.number (.finite false .zero)) 1) 1) 1] ∧
      run "print -0;" {} = ⟨⟨{}, utf8 "-0\n", 1⟩, none⟩) ∧
    parse (printing deceptive) = .ok [.print (.literal deceptive 2) 1] ∧
      run (printing deceptive) {} = ⟨⟨{}, utf8 "a//b;\n(nil) - 1; print\n", 1⟩, none⟩ := by
  have haccepts : ({} : Sink).Accepts := ⟨rfl, rfl⟩
  have hzero : (Value.number (.finite true .zero)).quotedText = "-0" := by decide +kernel
  have hprinted : (Value.number (.finite true .zero)).printed = utf8 "-0\n" := by decide +kernel
  have hzeroLine : lineAfter "-0".toList = 1 := by decide +kernel
  have hline : lineAfter deceptive.quotedText.toList = 2 := by decide +kernel
  obtain ⟨hz, -, hrunz⟩ := parse_printing (v := .number (.finite true .zero)) .number
  obtain ⟨hd, -, hrund⟩ := parse_printing (v := deceptive) (.string (by decide +kernel))
  rw [printing, hzero] at hz hrunz
  rw [hprinted] at hrunz
  rw [hzeroLine] at hz
  rw [hline] at hd
  exact ⟨⟨hz, hrunz {} haccepts⟩, hd, hrund {} haccepts⟩

end Program
end ExprLang
