/-
What can be relied on of tokens that come from a text, and of programs that are read
from one. A number has its value, without a sign, and a string the text between its
quotes (`Token.WellFormed`); so no literal is ever missed where one stands, and the
literals of a program have values of the same kind (`Statement.FromText`), on lines of
the text (`Token.scan_establishes`).
-/
import ExprLang.Proofs.LineLaw
import ExprLang.Proofs.Nodes
import ExprLang.Proofs.Refusal

namespace ExprLang

/-! ## Values -/

/-- A number that is no NaN and whose sign bit is clear. -/
def Number.Unsigned (x : Number) : Prop := x ≠ .nan ∧ x.toBits.toNat < signBit true

theorem Number.unsigned_infinite : (infinite false).Unsigned := ⟨Number.noConfusion, by decide +kernel⟩

theorem Number.unsigned_finite (m : Magnitude) : (finite false m).Unsigned := by
  refine ⟨Number.noConfusion, ?_⟩
  have hs := m.significand_lt
  have he := m.exponent_le
  have hword : (finite false m).toBits.toNat ≤ m.exponent * leadingBit + m.significand := by
    simp only [toBits, UInt64.toNat_ofNat', signBit, Bool.false_eq_true, if_false, Nat.zero_add]
    refine Nat.le_trans (Nat.mod_le _ _) ?_
    split <;> omega
  have hmax : m.exponent * leadingBit ≤ largestExponent * leadingBit := Nat.mul_le_mul_right _ he
  have hbits : largestExponent * leadingBit + 2 * leadingBit ≤ signBit true := by decide +kernel
  omega

/-- What digits stand for. -/
theorem Decimal.toNumber_unsigned (d : Decimal) : (d.toNumber false).Unsigned := by
  rw [toNumber]
  split
  · exact Number.unsigned_finite _
  · exact Number.unsigned_infinite

/-- The values that the literals of a text stand for. -/
inductive Value.Denoted : Value → Prop
  | nil : Denoted .nil
  | bool {b} : Denoted (.bool b)
  | number {x} : x.Unsigned → Denoted (.number x)
  | string {s} : '"' ∉ s.toList → Denoted (.string s)

/-! ## Tokens -/

/-- What a token of a text is like, whatever its kind. -/
structure Token.WellFormed (t : Token) : Prop where
  not_skipped : t.kind ≠ .comment ∧ t.kind ≠ .newLine ∧ t.kind ≠ .blank
  number : t.kind = .number → ∃ x, t.literal = some (.number x) ∧ x.Unsigned
  string : t.kind = .string → ∃ body, t.lexeme = "\"" ++ body ++ "\"" ∧ '"' ∉ body.toList ∧
    t.literal = some (.string body)
  no_literal : t.kind ≠ .number → t.kind ≠ .string → t.literal = none
  identifier : t.kind = .identifier → ∀ kind, (t.lexeme, kind) ∉ Kind.keywords
  keyword : ∀ word, (word, t.kind) ∈ Kind.keywords → t.lexeme = word

namespace IsLexeme

open Lexeme

variable {kind : Kind} {text : List Char} {value : Option Value}

theorem of_number (h : IsLexeme .number text value) : ∃ x, value = some (.number x) ∧ x.Unsigned := by
  cases h with
  | symbol h => exact absurd rfl (fixed_of_symbol h).not_number
  | keyword h => exact absurd rfl (fixed_of_keyword h).not_number
  | digits | decimal => exact ⟨_, rfl, Decimal.toNumber_unsigned _⟩

theorem value_eq_none (h : IsLexeme kind text value) (hn : kind ≠ .number) (hs : kind ≠ .string) :
    value = none := by
  cases h with
  | string => exact absurd rfl hs
  | digits | decimal => exact absurd rfl hn
  | _ => rfl

theorem of_identifier (h : IsLexeme .identifier text value) :
    ∀ kind, (String.ofList text, kind) ∉ Kind.keywords := by
  cases h with
  | symbol h => exact absurd rfl (fixed_of_symbol h).not_identifier
  | keyword h => exact absurd rfl (fixed_of_keyword h).not_identifier
  | identifier _ _ hk => exact hk

/-- The kinds of keywords have one word each, and no other lexemes. -/
theorem of_keyword {word : String} (h : IsLexeme kind text value) (hk : (word, kind) ∈ Kind.keywords) :
    text = word.toList := by
  have hf := fixed_of_keyword hk
  cases h with
  | symbol hs =>
    have hall : ∀ p ∈ Kind.symbols, ∀ q ∈ Kind.keywords, p.2 ≠ q.2 := by decide
    exact absurd rfl (hall _ hs (word, kind) hk)
  | keyword hw =>
    have hall : ∀ p ∈ Kind.keywords, ∀ q ∈ Kind.keywords, p.2 = q.2 → p.1 = q.1 := by decide
    exact congrArg String.toList (hall _ hw _ hk rfl)
  | identifier => exact absurd rfl hf.not_identifier
  | string => exact absurd rfl hf.not_string
  | digits | decimal => exact absurd rfl hf.not_number
  | comment | lineFeed | blanks => cases hf.not_skipped

end IsLexeme

namespace Token

theorem FromText.wellFormed {t : Token} (h : t.FromText) : t.WellFormed := by
  obtain ⟨hl, hs⟩ := h
  refine ⟨?_, fun hk => ?_, fun hk => ?_, hl.value_eq_none, fun hk => ?_, fun word hk => ?_⟩
  · refine ⟨?_, ?_, ?_⟩ <;> intro hk <;> rw [hk] at hs <;> cases hs
  · rw [hk] at hl
    exact hl.of_number
  · rw [hk] at hl
    obtain ⟨body, htext, hbody, hvalue⟩ := hl.of_string
    refine ⟨String.ofList body, ?_, by rwa [String.toList_ofList], hvalue⟩
    rw [← String.toList_inj, htext]
    simp [String.toList_append]
  · rw [hk] at hl
    have hword := hl.of_identifier
    rwa [String.ofList_toList] at hword
  · exact String.toList_inj.1 (hl.of_keyword hk)

theorem wellFormed_end (line : Nat) : (endOfInput line).WellFormed := by
  have hall : ∀ p ∈ Kind.keywords, p.2 ≠ .endOfInput := by decide
  refine ⟨?_, ?_, ?_, fun _ _ => rfl, ?_, fun word hk => absurd rfl (hall _ hk)⟩
  · exact ⟨Kind.noConfusion, Kind.noConfusion, Kind.noConfusion⟩
  · exact fun hk => Kind.noConfusion hk
  · exact fun hk => Kind.noConfusion hk
  · exact fun hk => Kind.noConfusion hk

/-- A number or a string has a value to be read. -/
theorem WellFormed.exists_literal {t : Token} (h : t.WellFormed) (hk : t.kind = .number ∨ t.kind = .string) :
    ∃ v, IsLiteral t v := by
  rcases hk with hk | hk
  · obtain ⟨x, hx, -⟩ := h.number hk
    exact ⟨_, .number hk hx⟩
  · obtain ⟨body, -, -, hbody⟩ := h.string hk
    exact ⟨_, .string hk hbody⟩

theorem WellFormed.denoted {t : Token} {v : Value} (h : t.WellFormed) (hv : IsLiteral t v) : v.Denoted := by
  cases hv with
  | falseWord | trueWord => exact .bool
  | nilWord => exact .nil
  | number hk hl =>
    obtain ⟨x, hx, hunsigned⟩ := h.number hk
    cases hl.symm.trans hx
    exact .number hunsigned
  | string hk hl =>
    obtain ⟨body, -, hbody, hb⟩ := h.string hk
    cases hl.symm.trans hb
    exact .string hbody

end Token

/-! ## Programs -/

/-- What a statement is like that was read from a text with this last line. -/
structure Statement.FromText (last : Nat) (s : Statement) : Prop where
  line : 1 ≤ s.line ∧ s.line ≤ last
  lines : ∀ n ∈ s.expr.nodes, 1 ≤ n.line ∧ n.line ≤ last
  literals : ∀ v line, .literal v line ∈ s.expr.nodes → v.Denoted

theorem DerivesStatement.exists_token {ts s} (h : DerivesStatement ts s) :
    (∃ t ∈ ts, s.line = t.line) ∧ ∀ n ∈ s.expr.nodes, ∃ t ∈ ts, NodeOf t n := by
  cases h with
  | print _ he _ =>
    refine ⟨⟨_, List.mem_cons_self, rfl⟩, fun n hn => ?_⟩
    obtain ⟨t, ht, hnode⟩ := he.exists_token n hn
    exact ⟨t, by simp [ht], hnode⟩
  | expression he _ =>
    refine ⟨⟨_, List.mem_cons_self, rfl⟩, fun n hn => ?_⟩
    obtain ⟨t, ht, hnode⟩ := he.exists_token n hn
    exact ⟨t, List.mem_append_left _ ht, hnode⟩

theorem DerivesStatement.fromText {ts s last} (h : DerivesStatement ts s)
    (hts : ∀ t ∈ ts, t.WellFormed ∧ 1 ≤ t.line ∧ t.line ≤ last) : s.FromText last := by
  obtain ⟨⟨t, ht, hline⟩, hnodes⟩ := h.exists_token
  refine ⟨?_, fun n hn => ?_, fun v line hn => ?_⟩
  · rw [hline]
    exact (hts t ht).2
  · obtain ⟨t, ht, hnode⟩ := hnodes n hn
    rw [hnode.line_eq]
    exact (hts t ht).2
  · obtain ⟨t, ht, hnode⟩ := hnodes _ hn
    cases hnode with
    | literal hv => exact (hts t ht).1.denoted hv

theorem DerivesProgram.fromText {ts p last} (h : DerivesProgram ts p)
    (hts : ∀ t ∈ ts, t.WellFormed ∧ 1 ≤ t.line ∧ t.line ≤ last) : ∀ s ∈ p, s.FromText last := by
  induction h with
  | nil => exact fun s hs => absurd hs List.not_mem_nil
  | cons hs _ ih =>
    intro s hmem
    rcases List.mem_cons.1 hmem with rfl | hmem
    · exact hs.fromText fun t ht => hts t (List.mem_append_left _ ht)
    · exact ih (fun t ht => hts t (List.mem_append_right _ ht)) s hmem

/-! ## Errors -/

/-- The error stands at this token, behind these: they begin a program, and with the token none. -/
structure SyntaxError.StandsAt (error : SyntaxError) (front : List Token) (t : Token) : Prop where
  located : error = SyntaxError.located error.expected (some t)
  begins : ∃ us p, Program.read (front ++ us) = .ok p
  refused : ∀ us, Program.read (front ++ t :: us) = .error error

/-- An error does not stand at two places of a list. -/
theorem SyntaxError.StandsAt.unique {error error' : SyntaxError} {front front' : List Token} {t t' : Token}
    {back back' : List Token} (h : error.StandsAt front t) (h' : error'.StandsAt front' t')
    (hts : front ++ t :: back = front' ++ t' :: back') : front = front' ∧ t = t' := by
  -- behind a place where an error stands there is no beginning of a program
  have hbegins : ∀ {error : SyntaxError} {front t more}, error.StandsAt front t →
      ¬ ∃ us p, Program.read (front ++ t :: more ++ us) = .ok p := by
    rintro error front t more hstands ⟨us, p, hp⟩
    rw [List.append_assoc, List.cons_append, hstands.refused] at hp
    cases hp
  rcases List.append_eq_append_iff.1 hts with ⟨more, rfl, hmore⟩ | ⟨more, rfl, hmore⟩
  · cases more with
    | nil => exact ⟨(List.append_nil _).symm, (List.cons.inj hmore).1⟩
    | cons u more =>
      obtain ⟨rfl, -⟩ := List.cons.inj hmore
      exact absurd h'.begins (hbegins h)
  · cases more with
    | nil => exact ⟨List.append_nil _, (List.cons.inj hmore).1.symm⟩
    | cons u more =>
      obtain ⟨rfl, -⟩ := List.cons.inj hmore
      exact absurd h.begins (hbegins h')

namespace Program

theorem Refused.standsAt {done us w t rest} (h : Refused done us w (t :: rest)) :
    (SyntaxError.located w.expected (some t)).StandsAt (done ++ us) t := by
  refine ⟨rfl, h.complete, fun vs => ?_⟩
  have hnext : Refused done us w (t :: vs) := h.congr rfl
  rw [List.append_assoc]
  exact hnext.read_eq

/-- Where an expression is missed, none begins. -/
theorem Refused.not_startsOperand {done us w t rest} (h : Refused done us w (t :: rest))
    (hw : w.expected = .expression) : ¬ StartsOperand t := by
  intro ht
  refine h.blocks t rfl ?_
  cases w with
  | statement => exact .inr ht
  | operand => exact ht
  | closing => cases hw
  | ending print => cases print <;> cases hw

/-- A syntax error of tokens that have an end stands at one of them. -/
theorem exists_standsAt {ts : List Token} (hend : ∃ t ∈ ts, t.kind = .endOfInput) {error : SyntaxError}
    (h : read ts = .error error) : ∃ front t back, ts = front ++ t :: back ∧ error.StandsAt front t ∧
      (error.expected = .expression → ¬ StartsOperand t) := by
  obtain ⟨done, us, w, t, rest, rfl, hrefused, rfl⟩ := read_eq_error_at hend h
  refine ⟨done ++ us, t, rest, by rw [List.append_assoc], hrefused.standsAt, fun hx => ?_⟩
  exact hrefused.not_startsOperand (by rwa [SyntaxError.located_expected] at hx)

end Program

/-! ## Texts -/

/-- What the scan of a text gives, and reading relies on. -/
structure Token.Establishes (source : String) (ts : List Token) : Prop where
  /-- One token ends the input, and it is the last; a program is within the lines up to it. -/
  ending : ∃ before line, ts = before ++ [endOfInput line] ∧ (∀ t ∈ before, t.kind ≠ .endOfInput) ∧
    ∀ p, Program.parse source = .ok p → ∀ s ∈ p, s.FromText line
  wellFormed : ∀ t ∈ ts, t.WellFormed
  /-- No number and no string is without a value that can be read. -/
  literal : ∀ t ∈ ts, Expr.literal? t = none → t.kind ≠ .number ∧ t.kind ≠ .string
  /-- A syntax error stands at a token, and one of a missed expression at no number and no string. -/
  error : ∀ error, Program.parse source = .error (.syntactic error) →
    (∃ front t back, ts = front ++ t :: back ∧ error.StandsAt front t) ∧
    ∀ front t back, ts = front ++ t :: back → error.StandsAt front t → error.expected = .expression →
      t.kind ≠ .number ∧ t.kind ≠ .string

namespace Token

theorem wellFormed_of_scan {source : String} {ts : List Token} (h : scan source = .ok ts) :
    ∀ t ∈ ts, t.WellFormed := by
  obtain ⟨before, line, rfl, hbefore⟩ := scan_eq_ok h
  intro t ht
  rcases List.mem_append.1 ht with ht | ht
  · exact (hbefore t ht).wellFormed
  · obtain rfl := List.mem_singleton.1 ht
    exact wellFormed_end line

theorem WellFormed.not_literal_of_not_starts {t : Token} (h : t.WellFormed) (hs : ¬ StartsOperand t) :
    t.kind ≠ .number ∧ t.kind ≠ .string := by
  refine ⟨fun hk => ?_, fun hk => ?_⟩
  · exact hs (.inr (.inr (h.exists_literal (.inl hk))))
  · exact hs (.inr (.inr (h.exists_literal (.inr hk))))

theorem parse_error_of_scan {source : String} {ts : List Token} (h : scan source = .ok ts) {error : SyntaxError}
    (herror : Program.parse source = .error (.syntactic error)) : Program.read ts = .error error := by
  simp only [Program.parse, h] at herror
  split at herror
  · next hr =>
    cases herror
    exact hr
  · cases herror

end Token

/-- **What a scan establishes**: the tokens of a text are well formed, one more ends them, and what
is read from them misses no literal where one stands, and has literals and lines of the text only. -/
theorem Token.scan_establishes {source : String} {ts : List Token} (h : scan source = .ok ts) :
    Establishes source ts := by
  have hformed := wellFormed_of_scan h
  have hlines := hasLines_of_scan h
  obtain ⟨before, line, rfl, hbefore⟩ := scan_eq_ok h
  obtain ⟨_, hlast⟩ := hlines.ending
  have hline : line = lineAfter source.toList := congrArg Token.line (List.cons.inj (List.append_inj' hlast rfl).2).1
  refine ⟨⟨before, line, rfl, fun t ht => (hbefore t ht).not_end, fun p hp => ?_⟩, hformed, fun t ht hl => ?_,
    fun error herror => ⟨?_, fun front t back hts hstands hx => ?_⟩⟩
  · obtain ⟨ts, hscan, hread⟩ := Program.parse_eq_ok.1 hp
    obtain rfl := Except.ok.inj (h.symm.trans hscan)
    rw [Program.read_eq_ok, beforeEnd_scan hbefore] at hread
    refine hread.fromText fun t ht => ?_
    have hmem := List.mem_append_left [endOfInput line] ht
    exact ⟨hformed t hmem, hline ▸ hlines.bounds hmem⟩
  · have hnone : ¬ ∃ v, IsLiteral t v := by
      rintro ⟨v, hv⟩
      rw [Expr.literal?_eq_some.2 hv] at hl
      cases hl
    exact ⟨fun hk => hnone ((hformed t ht).exists_literal (.inl hk)),
      fun hk => hnone ((hformed t ht).exists_literal (.inr hk))⟩
  · obtain ⟨front, t, back, hts, hstands, -⟩ :=
      Program.exists_standsAt exists_end (parse_error_of_scan h herror)
    exact ⟨front, t, back, hts, hstands⟩
  · obtain ⟨front', t', back', hts', hstands', hnone⟩ :=
      Program.exists_standsAt exists_end (parse_error_of_scan h herror)
    obtain ⟨-, rfl⟩ := hstands.unique hstands' (hts.symm.trans hts')
    exact (hformed t (by rw [hts]; simp)).not_literal_of_not_starts (hnone hx)

/-- A word that is almost reserved, a string over two lines with the start of a comment in it, and a comment. -/
def Token.almostReserved : String := "print printed + \"a//\nb\" - 1.50; // nil"

def Token.almostReservedTokens : List Token :=
  [ofLexeme .printWord "print" 1, ofLexeme .identifier "printed" 1, ofLexeme .plus "+" 1,
    ⟨.string, "\"a//\nb\"", some (.string "a//\nb"), 2⟩, ofLexeme .minus "-" 2, ofLexeme .number "1.50" 2,
    ofLexeme .semicolon ";" 2, endOfInput 2]

theorem Token.almostReserved_establishes :
    scan almostReserved = .ok almostReservedTokens ∧ Establishes almostReserved almostReservedTokens := by
  have hscan : scan almostReserved = .ok almostReservedTokens := by decide +kernel
  exact ⟨hscan, scan_establishes hscan⟩

end ExprLang
