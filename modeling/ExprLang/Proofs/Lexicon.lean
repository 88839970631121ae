/-
The lexical grammar: the lexemes of each kind with the values they stand for, said
without the scanner's rules. `isLexeme_iff` proves that the rules, the table of
keywords and the reading of literals together give these lexemes and no others.

The first characters of a lexeme decide its kind, keywords aside (`frontKind`), so
no text is a lexeme in two ways (`IsLexeme.unique`).
-/
import ExprLang.Lexeme
import ExprLang.Token
import ExprLang.Number.ReadBack

namespace ExprLang

/-- The texts that are lexemes, each with its kind and the value it stands for. -/
inductive IsLexeme : Kind → List Char → Option Value → Prop
  | symbol {spelling kind} : (spelling, kind) ∈ Kind.symbols → IsLexeme kind spelling.toList none
  | keyword {word kind} : (word, kind) ∈ Kind.keywords → IsLexeme kind word.toList none
  | identifier {c cs} : isWordStart c → (∀ d ∈ cs, isWordChar d) →
      (∀ kind, (String.ofList (c :: cs), kind) ∉ Kind.keywords) → IsLexeme .identifier (c :: cs) none
  | string {body} : '"' ∉ body →
      IsLexeme .string ('"' :: (body ++ ['"'])) (some (.string (String.ofList body)))
  | digits {ds} : ds ≠ [] → (∀ d ∈ ds, d.isDigit) →
      IsLexeme .number ds (some (.number (Decimal.toNumber false ⟨Numeral.natural ds, 0⟩)))
  | decimal {whole fraction} : whole ≠ [] → fraction ≠ [] →
      (∀ d ∈ whole, d.isDigit) → (∀ d ∈ fraction, d.isDigit) →
      IsLexeme .number (whole ++ '.' :: fraction)
        (some (.number (Decimal.toNumber false ⟨Numeral.natural (whole ++ fraction), -(fraction.length : Int)⟩)))
  | comment {body} : '\n' ∉ body → IsLexeme .comment ('/' :: '/' :: body) none
  | lineFeed : IsLexeme .newLine ['\n'] none
  | blanks {cs} : cs ≠ [] → (∀ c ∈ cs, isBlank c) → IsLexeme .blank cs none

/-! ## Keywords -/

theorem Kind.ofKeyword?_eq_some {word : String} {kind : Kind} :
    ofKeyword? word = some kind ↔ (word, kind) ∈ keywords := by
  constructor
  · intro h
    obtain ⟨front, back, heq, -⟩ := List.lookup_eq_some_iff.1 h
    rw [heq]
    exact List.mem_append_right _ List.mem_cons_self
  · have hall : ∀ p ∈ keywords, ofKeyword? p.1 = some p.2 := by decide
    exact fun h => hall _ h

theorem Kind.ofKeyword?_eq_none {word : String} :
    ofKeyword? word = none ↔ ∀ kind, (word, kind) ∉ keywords := by
  rw [Option.eq_none_iff_forall_ne_some]
  exact forall_congr' fun kind => not_congr Kind.ofKeyword?_eq_some

/-- Every keyword has the shape of a word. -/
theorem Kind.word_of_keyword {word : String} {kind : Kind} (h : (word, kind) ∈ keywords) :
    Shape.word.Matches word.toList := by
  have hall : ∀ p ∈ keywords, p.1.toList.head?.any isWordStart = true ∧
      p.1.toList.tail.all isWordChar = true := by decide
  obtain ⟨hc, hd⟩ := hall _ h
  cases hcs : word.toList with
  | nil =>
    rw [hcs] at hc
    cases hc
  | cons c cs =>
    rw [hcs] at hc hd
    exact ⟨c, cs, rfl, hc, fun d hmem => List.all_eq_true.1 hd d hmem⟩

/-! ## Values -/

namespace Token

theorem literalOf_string (body : List Char) :
    literalOf .string (String.ofList ('"' :: (body ++ ['"']))) = some (.string (String.ofList body)) := by
  simp [literalOf, unquote?]

theorem literalOf_number {c : Char} {cs : List Char} {d : Decimal} (hc : c.isDigit)
    (h : Numeral.decimal? (c :: cs) = some d) :
    literalOf .number (String.ofList (c :: cs)) = some (.number (d.toNumber false)) := by
  simp only [literalOf, Numeral.read?, String.toList_ofList, Numeral.sign_of_isDigit hc, h, Option.map_some]

theorem literalOf_digits {ds : List Char} (hne : ds ≠ []) (hd : ∀ d ∈ ds, d.isDigit) :
    literalOf .number (String.ofList ds) =
      some (.number (Decimal.toNumber false ⟨Numeral.natural ds, 0⟩)) := by
  have hv := Numeral.decimal?_of_digits hne hd
  obtain ⟨c, cs, rfl⟩ := List.exists_cons_of_ne_nil hne
  exact literalOf_number (hd c List.mem_cons_self) hv

theorem literalOf_decimal {whole fraction : List Char} (hne : whole ≠ [])
    (hw : ∀ d ∈ whole, d.isDigit) (hf : ∀ d ∈ fraction, d.isDigit) :
    literalOf .number (String.ofList (whole ++ '.' :: fraction)) = some (.number
      (Decimal.toNumber false ⟨Numeral.natural (whole ++ fraction), -(fraction.length : Int)⟩)) := by
  have hv := Numeral.decimal?_of_point hne hw hf
  obtain ⟨c, cs, rfl⟩ := List.exists_cons_of_ne_nil hne
  exact literalOf_number (hw c List.mem_cons_self) hv

end Token

/-! ## The rules -/

namespace Lexeme

theorem mem_rules {shape : Shape} {kind : Kind} : (shape, kind) ∈ rules ↔
    (∃ spelling, (spelling, kind) ∈ Kind.symbols ∧ shape = .symbol spelling.toList) ∨
    (shape, kind) ∈ [(.word, .identifier), (.quoted, .string), (.digits, .number), (.decimal, .number),
      (.comment, .comment), (.lineFeed, .newLine), (.blanks, (.blank : Kind))] := by
  rw [rules, List.mem_append]
  refine or_congr_left ?_
  simp only [List.mem_map, Prod.mk.injEq, Prod.exists]
  constructor
  · rintro ⟨spelling, k, hs, rfl, rfl⟩
    exact ⟨spelling, hs, rfl⟩
  · rintro ⟨spelling, hs, rfl⟩
    exact ⟨spelling, kind, hs, rfl, rfl⟩

theorem kindOf_of_ne {kind : Kind} (h : kind ≠ .identifier) (text : List Char) : kindOf kind text = kind :=
  if_neg h

theorem kindOf_keyword {text : List Char} {kind : Kind} (h : (String.ofList text, kind) ∈ Kind.keywords) :
    kindOf .identifier text = kind := by
  rw [kindOf, if_pos rfl, Kind.ofKeyword?_eq_some.2 h]
  rfl

theorem kindOf_identifier {text : List Char} (h : ∀ kind, (String.ofList text, kind) ∉ Kind.keywords) :
    kindOf .identifier text = .identifier := by
  rw [kindOf, if_pos rfl, Kind.ofKeyword?_eq_none.2 h]
  rfl

/-- What a kind of the two tables is not. -/
structure Fixed (kind : Kind) : Prop where
  not_identifier : kind ≠ .identifier
  not_number : kind ≠ .number
  not_string : kind ≠ .string
  not_skipped : kind.isSkipped = false

theorem Fixed.literalOf_eq_none {kind : Kind} (h : Fixed kind) (lexeme : String) :
    Token.literalOf kind lexeme = none := by
  unfold Token.literalOf
  split
  · exact absurd rfl h.not_number
  · exact absurd rfl h.not_string
  · rfl

theorem fixed_of_mem {spelling : String} {kind : Kind} (h : (spelling, kind) ∈ Kind.symbols ++ Kind.keywords) :
    Fixed kind := by
  have hall : ∀ p ∈ Kind.symbols ++ Kind.keywords, p.2 ≠ .identifier ∧ p.2 ≠ .number ∧ p.2 ≠ .string ∧
      p.2.isSkipped = false := by decide
  obtain ⟨hi, hn, hs, hk⟩ := hall _ h
  exact ⟨hi, hn, hs, hk⟩

theorem fixed_of_symbol {spelling : String} {kind : Kind} (h : (spelling, kind) ∈ Kind.symbols) : Fixed kind :=
  fixed_of_mem (List.mem_append_left _ h)

theorem fixed_of_keyword {word : String} {kind : Kind} (h : (word, kind) ∈ Kind.keywords) : Fixed kind :=
  fixed_of_mem (List.mem_append_right _ h)

end Lexeme

namespace IsLexeme

open Lexeme

theorem exists_rule {kind : Kind} {text : List Char} {value : Option Value} (h : IsLexeme kind text value) :
    ∃ shape k, (shape, k) ∈ rules ∧ shape.Matches text ∧ kindOf k text = kind ∧
      Token.literalOf kind (String.ofList text) = value := by
  cases h with
  | @symbol spelling _ h =>
    have hf := fixed_of_symbol h
    exact ⟨.symbol spelling.toList, kind, mem_rules.2 (.inl ⟨_, h, rfl⟩), rfl, kindOf_of_ne hf.not_identifier _,
      hf.literalOf_eq_none _⟩
  | keyword h =>
    exact ⟨.word, .identifier, mem_rules.2 (.inr (by decide)), Kind.word_of_keyword h,
      kindOf_keyword (by rw [String.ofList_toList]; exact h), (fixed_of_keyword h).literalOf_eq_none _⟩
  | identifier hc hcs hk =>
    exact ⟨.word, .identifier, mem_rules.2 (.inr (by decide)), ⟨_, _, rfl, hc, hcs⟩, kindOf_identifier hk, rfl⟩
  | string hb =>
    exact ⟨.quoted, .string, mem_rules.2 (.inr (by decide)), ⟨_, rfl, hb⟩, rfl, Token.literalOf_string _⟩
  | digits hne hd =>
    exact ⟨.digits, .number, mem_rules.2 (.inr (by decide)), ⟨hne, hd⟩, rfl, Token.literalOf_digits hne hd⟩
  | decimal hw hf hwd hfd =>
    exact ⟨.decimal, .number, mem_rules.2 (.inr (by decide)), ⟨_, _, rfl, hw, hf, hwd, hfd⟩, rfl,
      Token.literalOf_decimal hw hwd hfd⟩
  | comment hb => exact ⟨.comment, .comment, mem_rules.2 (.inr (by decide)), ⟨_, rfl, hb⟩, rfl, rfl⟩
  | lineFeed => exact ⟨.lineFeed, .newLine, mem_rules.2 (.inr (by decide)), rfl, rfl, rfl⟩
  | blanks hne hb => exact ⟨.blanks, .blank, mem_rules.2 (.inr (by decide)), ⟨hne, hb⟩, rfl, rfl⟩

theorem of_rule {shape : Shape} {k : Kind} {text : List Char} (hr : (shape, k) ∈ rules)
    (hm : shape.Matches text) :
    IsLexeme (kindOf k text) text (Token.literalOf (kindOf k text) (String.ofList text)) := by
  rcases mem_rules.1 hr with ⟨spelling, h, rfl⟩ | hr
  · have hf := fixed_of_symbol h
    cases hm
    rw [kindOf_of_ne hf.not_identifier, hf.literalOf_eq_none]
    exact .symbol h
  · simp only [List.mem_cons, Prod.mk.injEq, List.not_mem_nil, or_false] at hr
    rcases hr with ⟨rfl, rfl⟩ | ⟨rfl, rfl⟩ | ⟨rfl, rfl⟩ | ⟨rfl, rfl⟩ | ⟨rfl, rfl⟩ | ⟨rfl, rfl⟩ | ⟨rfl, rfl⟩
    · obtain ⟨c, cs, rfl, hc, hcs⟩ := hm
      by_cases hk : ∃ kind, (String.ofList (c :: cs), kind) ∈ Kind.keywords
      · obtain ⟨kind, hk⟩ := hk
        rw [kindOf_keyword hk, (fixed_of_keyword hk).literalOf_eq_none]
        have := IsLexeme.keyword hk
        rwa [String.toList_ofList] at this
      · rw [kindOf_identifier (not_exists.1 hk)]
        exact .identifier hc hcs (not_exists.1 hk)
    · obtain ⟨body, rfl, hb⟩ := hm
      rw [kindOf_of_ne (by decide), Token.literalOf_string]
      exact .string hb
    · rw [kindOf_of_ne (by decide), Token.literalOf_digits hm.1 hm.2]
      exact .digits hm.1 hm.2
    · obtain ⟨whole, fraction, rfl, hw, hf, hwd, hfd⟩ := hm
      rw [kindOf_of_ne (by decide), Token.literalOf_decimal hw hwd hfd]
      exact .decimal hw hf hwd hfd
    · obtain ⟨body, rfl, hb⟩ := hm
      exact .comment hb
    · cases hm
      exact .lineFeed
    · exact .blanks hm.1 hm.2

end IsLexeme

/-- The scanner's rules, keywords and literals give exactly the lexemes. -/
theorem isLexeme_iff {kind : Kind} {text : List Char} {value : Option Value} :
    IsLexeme kind text value ↔ ∃ shape k, (shape, k) ∈ Lexeme.rules ∧ shape.Matches text ∧
      Lexeme.kindOf k text = kind ∧ Token.literalOf kind (String.ofList text) = value := by
  constructor
  · exact IsLexeme.exists_rule
  · rintro ⟨shape, k, hr, hm, rfl, rfl⟩
    exact IsLexeme.of_rule hr hm

/-! ## The first characters -/

namespace Lexeme

/-- The kind, keywords aside, that the first characters of a lexeme decide. -/
def frontKind : List Char → Kind
  | '/' :: '/' :: _ => .comment
  | [] => .endOfInput
  | c :: cs =>
    if isWordStart c then .identifier
    else if c.isDigit then .number
    else if c = '"' then .string
    else if c = '\n' then .newLine
    else if isBlank c then .blank
    else (Kind.symbols.lookup (String.ofList (c :: cs))).getD .endOfInput

theorem frontKind_cons {c : Char} (h : c ≠ '/') (cs : List Char) : frontKind (c :: cs) =
    if isWordStart c then .identifier
    else if c.isDigit then .number
    else if c = '"' then .string
    else if c = '\n' then .newLine
    else if isBlank c then .blank
    else (Kind.symbols.lookup (String.ofList (c :: cs))).getD .endOfInput := by
  unfold frontKind
  split
  · next heq => exact absurd (List.cons.inj heq).1 h
  · next heq => cases heq
  · next heq => cases heq; rfl

theorem frontKind_symbol {spelling : String} {kind : Kind} (h : (spelling, kind) ∈ Kind.symbols) :
    frontKind spelling.toList = kind := by
  have hall : ∀ p ∈ Kind.symbols, frontKind p.1.toList = p.2 := by decide
  exact hall _ h

theorem frontKind_word {c : Char} (h : isWordStart c) (cs : List Char) : frontKind (c :: cs) = .identifier := by
  have hc : c ≠ '/' := by rintro rfl; revert h; decide
  rw [frontKind_cons hc, if_pos h]

theorem frontKind_digit {c : Char} (h : c.isDigit) (cs : List Char) : frontKind (c :: cs) = .number := by
  have hc : c ≠ '/' := by rintro rfl; revert h; decide
  have hw : isWordStart c = false := by
    -- no word starts with a character as early in the code as the digits are
    have hall : ∀ n < 58, isWordStart (Char.ofNat n) = false := by decide
    have hn := hall c.toNat (Nat.lt_succ_of_le (Char.isDigit_iff_toNat.1 h).2)
    rwa [Char.ofNat_toNat] at hn
  rw [frontKind_cons hc, hw, if_neg Bool.false_ne_true, if_pos h]

theorem frontKind_blank {c : Char} (h : isBlank c) (cs : List Char) : frontKind (c :: cs) = .blank := by
  have hc : c = ' ' ∨ c = '\t' ∨ c = '\r' := by simpa [isBlank, or_assoc] using h
  rcases hc with rfl | rfl | rfl <;> rfl

end Lexeme

namespace IsLexeme

open Lexeme

theorem ne_nil {kind : Kind} {text : List Char} {value : Option Value} (h : IsLexeme kind text value) :
    text ≠ [] := by
  cases h with
  | @symbol spelling _ h =>
    have hall : ∀ p ∈ Kind.symbols, p.1.toList ≠ [] := by decide
    exact hall _ h
  | @keyword word _ h =>
    have hall : ∀ p ∈ Kind.keywords, p.1.toList ≠ [] := by decide
    exact hall _ h
  | digits hne _ => exact hne
  | blanks hne _ => exact hne
  | decimal => simp
  | _ => exact List.cons_ne_nil _ _

theorem kind_eq {kind : Kind} {text : List Char} {value : Option Value} (h : IsLexeme kind text value) :
    kind = kindOf (frontKind text) text := by
  cases h with
  | symbol h => rw [frontKind_symbol h, kindOf_of_ne (fixed_of_symbol h).not_identifier]
  | @keyword word _ h =>
    obtain ⟨c, cs, hcs, hc, -⟩ := Kind.word_of_keyword h
    rw [← String.ofList_toList (s := word)] at h
    rw [hcs, frontKind_word hc, ← hcs, kindOf_keyword h]
  | identifier hc _ hk => rw [frontKind_word hc, kindOf_identifier hk]
  | string => rfl
  | @digits ds hne hd =>
    obtain ⟨c, cs, rfl⟩ := List.exists_cons_of_ne_nil hne
    rw [frontKind_digit (hd c List.mem_cons_self), kindOf_of_ne (by decide)]
  | @decimal whole fraction hw _ hwd _ =>
    obtain ⟨c, cs, rfl⟩ := List.exists_cons_of_ne_nil hw
    rw [List.cons_append, frontKind_digit (hwd c List.mem_cons_self), kindOf_of_ne (by decide)]
  | comment => rfl
  | lineFeed => rfl
  | @blanks cs hne hb =>
    obtain ⟨c, cs, rfl⟩ := List.exists_cons_of_ne_nil hne
    rw [frontKind_blank (hb c List.mem_cons_self), kindOf_of_ne (by decide)]

theorem value_eq {kind : Kind} {text : List Char} {value : Option Value} (h : IsLexeme kind text value) :
    value = Token.literalOf kind (String.ofList text) := by
  obtain ⟨_, _, _, _, _, hv⟩ := h.exists_rule
  exact hv.symm

/-- No text is a lexeme in two ways. -/
theorem unique {kind k : Kind} {text : List Char} {value v : Option Value} (h : IsLexeme kind text value)
    (h' : IsLexeme k text v) : kind = k ∧ value = v := by
  have hk : kind = k := h.kind_eq.trans h'.kind_eq.symm
  subst hk
  exact ⟨rfl, h.value_eq.trans h'.value_eq.symm⟩

/-! What the lexemes that stand between tokens look like. -/

theorem of_comment {text : List Char} {value : Option Value} (h : IsLexeme .comment text value) :
    ∃ body, text = '/' :: '/' :: body ∧ '\n' ∉ body := by
  cases h with
  | symbol h => cases (fixed_of_symbol h).not_skipped
  | keyword h => cases (fixed_of_keyword h).not_skipped
  | comment hb => exact ⟨_, rfl, hb⟩

theorem of_newLine {text : List Char} {value : Option Value} (h : IsLexeme .newLine text value) :
    text = ['\n'] := by
  cases h with
  | symbol h => cases (fixed_of_symbol h).not_skipped
  | keyword h => cases (fixed_of_keyword h).not_skipped
  | lineFeed => rfl

theorem of_blank {text : List Char} {value : Option Value} (h : IsLexeme .blank text value) :
    ∀ c ∈ text, isBlank c := by
  cases h with
  | symbol h => cases (fixed_of_symbol h).not_skipped
  | keyword h => cases (fixed_of_keyword h).not_skipped
  | blanks _ hb => exact hb

/-! And the strings. -/

theorem of_string {text : List Char} {value : Option Value} (h : IsLexeme .string text value) :
    ∃ body, text = '"' :: (body ++ ['"']) ∧ '"' ∉ body ∧ value = some (.string (String.ofList body)) := by
  cases h with
  | symbol h => exact absurd rfl (fixed_of_symbol h).not_string
  | keyword h => exact absurd rfl (fixed_of_keyword h).not_string
  | string hb => exact ⟨_, rfl, hb, rfl⟩

end IsLexeme

end ExprLang
