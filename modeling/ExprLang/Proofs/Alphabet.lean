/-
The characters of code: all lexemes but strings and comments are made of them. A text
begins with no lexeme just when it begins with a quote that nothing closes or with a
character that is neither a quote nor one of code (`Lexeme.stuck_cons_iff`), and there
a cut of a text into lexemes stops. The symbols that are part of no other end what stands
in front of them (`IsLexeme.longest_before_alone`).
-/
import ExprLang.Proofs.Boundary

namespace ExprLang

/-- The characters of code. A quote is none of them: what it begins is a string. -/
def isCodeChar (c : Char) : Bool :=
  c.isAlpha || c.isDigit || "_ \t\r\n()\x7b\x7d,.-+;/*!=<>".toList.contains c

/-- The characters that begin no lexeme, whatever follows them. -/
def IsUnexpected (c : Char) : Prop := c ≠ '"' ∧ isCodeChar c = false

/-- The symbols that are part of no other symbol. -/
def loneSymbols : List Char := "()\x7b\x7d,-+;/*".toList

def standsAlone (c : Char) : Bool := loneSymbols.contains c

theorem isWordChar_of_isWordStart {c : Char} (h : isWordStart c = true) : isWordChar c = true := by
  simp only [isWordStart, Bool.or_eq_true] at h
  rcases h with h | h <;> simp [isWordChar, h]

theorem isWordChar_of_isDigit {c : Char} (h : c.isDigit = true) : isWordChar c = true := by
  simp [isWordChar, h]

theorem isCodeChar_of_isWordChar {c : Char} (h : isWordChar c = true) : isCodeChar c = true := by
  simp only [isWordChar, Bool.or_eq_true, beq_iff_eq] at h
  rcases h with (h | h) | rfl
  · simp [isCodeChar, h]
  · simp [isCodeChar, h]
  · rfl

theorem IsWhite.isCodeChar {c : Char} (h : IsWhite c) : isCodeChar c = true := by
  rcases h.cases with rfl | rfl | rfl | rfl <;> rfl

namespace IsLexeme

variable {kind : Kind} {text : List Char} {value : Option Value} {c : Char}

/-- The characters of a lexeme: it is a string, a comment or a symbol, or they are word
characters, white space and the point of a decimal. -/
theorem mem_cases (h : IsLexeme kind text value) (hmem : c ∈ text) : kind = .string ∨ kind = .comment ∨
    (∃ p ∈ Kind.symbols, text = p.1.toList) ∨ isWordChar c = true ∨ IsWhite c ∨ c = '.' := by
  have hword : ∀ {d cs}, isWordStart d = true → (∀ e ∈ cs, isWordChar e = true) → c ∈ d :: cs →
      isWordChar c = true := by
    intro d cs hd hall hmem
    rcases List.mem_cons.1 hmem with rfl | hmem
    · exact isWordChar_of_isWordStart hd
    · exact hall c hmem
  cases h with
  | symbol h => exact .inr (.inr (.inl ⟨_, h, rfl⟩))
  | keyword h =>
    obtain ⟨d, cs, hcs, hd, hall⟩ := Kind.word_of_keyword h
    rw [hcs] at hmem
    exact .inr (.inr (.inr (.inl (hword hd hall hmem))))
  | identifier hd hall _ => exact .inr (.inr (.inr (.inl (hword hd hall hmem))))
  | string => exact .inl rfl
  | digits _ hall => exact .inr (.inr (.inr (.inl (isWordChar_of_isDigit (hall c hmem)))))
  | decimal _ _ hw hf =>
    rcases List.mem_append.1 hmem with hmem | hmem
    · exact .inr (.inr (.inr (.inl (isWordChar_of_isDigit (hw c hmem)))))
    · rcases List.mem_cons.1 hmem with rfl | hmem
      · exact .inr (.inr (.inr (.inr (.inr rfl))))
      · exact .inr (.inr (.inr (.inl (isWordChar_of_isDigit (hf c hmem)))))
  | comment => exact .inr (.inl rfl)
  | lineFeed => exact .inr (.inr (.inr (.inr (.inl (.inr (List.mem_singleton.1 hmem))))))
  | blanks _ hall => exact .inr (.inr (.inr (.inr (.inl (.inl (hall c hmem))))))

/-- Outside strings and comments there are characters of code only. -/
theorem isCodeChar_of_mem (h : IsLexeme kind text value) (hs : kind ≠ .string) (hc : kind ≠ .comment)
    (hmem : c ∈ text) : isCodeChar c = true := by
  have hall : ∀ p ∈ Kind.symbols, p.1.toList.all isCodeChar = true := by decide
  rcases h.mem_cases hmem with h | h | ⟨p, hp, rfl⟩ | h | h | rfl
  · exact absurd h hs
  · exact absurd h hc
  · exact List.all_eq_true.1 (hall p hp) c hmem
  · exact isCodeChar_of_isWordChar h
  · exact h.isCodeChar
  · rfl

/-- A symbol that is part of no other is a lexeme by itself wherever it stands in code. -/
theorem eq_of_mem_alone (h : IsLexeme kind text value) (hs : kind ≠ .string) (hc : kind ≠ .comment)
    (ha : standsAlone c = true) (hmem : c ∈ text) : text = [c] := by
  have hall : ∀ p ∈ Kind.symbols, p.1.toList.all (fun c => !standsAlone c || p.1.toList == [c]) = true := by
    decide
  have hnot : loneSymbols.all (fun c => !(isWordChar c || isBlank c || c == '\n' || c == '.')) = true := by
    decide
  have hother := List.all_eq_true.1 hnot c (List.contains_iff_mem.1 ha)
  simp only [Bool.not_eq_true', Bool.or_eq_false_iff, beq_eq_false_iff_ne] at hother
  obtain ⟨⟨⟨hword, hblank⟩, hline⟩, hpoint⟩ := hother
  rcases h.mem_cases hmem with h | h | ⟨p, hp, rfl⟩ | h | h | h
  · exact absurd h hs
  · exact absurd h hc
  · simpa [ha] using List.all_eq_true.1 (hall p hp) c hmem
  · exact absurd (h.symm.trans hword) (by decide)
  · rcases h with h | h
    · exact absurd (h.symm.trans hblank) (by decide)
    · exact absurd h hline
  · exact absurd h hpoint

/-- A slash in code is a lexeme by itself. -/
theorem eq_slash_of_mem (h : IsLexeme kind text value) (hs : kind ≠ .string) (hc : kind ≠ .comment)
    (hmem : '/' ∈ text) : text = ['/'] :=
  h.eq_of_mem_alone hs hc rfl hmem

/-- A token is the longest lexeme at its place before a symbol that is part of no other,
unless that is a slash. -/
theorem longest_before_alone (h : IsLexeme kind text value) (hk : kind.isSkipped = false)
    (ha : standsAlone c = true) (hslash : c ≠ '/') (rest : List Char) : IsLongest kind text value (c :: rest) := by
  refine h.longest_before hk hslash (fun {k u v} hu hmem => ?_) rest
  by_cases hs : k = .string
  · exact .inl hs
  · by_cases hc : k = .comment
    · exact .inr (.inl hc)
    · exact .inr (.inr (.inr (.inr (hu.eq_of_mem_alone hs hc ha hmem))))

/-- Such a symbol is the longest lexeme at its place whatever follows. -/
theorem longest_alone (h : IsLexeme kind [c] value) (ha : standsAlone c = true) (hslash : c ≠ '/')
    (rest : List Char) : IsLongest kind [c] value rest := by
  refine ⟨h, fun k u v hu hp => ?_⟩
  obtain ⟨d, text', u', heq, rfl⟩ := h.heads_eq hu (List.prefix_append _ _) hp
  cases heq
  have hs : k ≠ .string := by
    rintro rfl
    obtain ⟨body, heq, -⟩ := hu.of_string
    cases heq
    cases ha
  have hc : k ≠ .comment := by
    rintro rfl
    obtain ⟨body, heq, -⟩ := hu.of_comment
    cases heq
    exact hslash rfl
  exact (congrArg List.length (hu.eq_of_mem_alone hs hc ha List.mem_cons_self)).le

/-- The lexemes that an unexpected character occurs in. -/
theorem of_mem_unexpected (h : IsLexeme kind text value) (hc : IsUnexpected c) (hmem : c ∈ text) :
    kind = .string ∨ kind = .comment := by
  by_cases hs : kind = .string
  · exact .inl hs
  · refine .inr (Classical.byContradiction fun hcomment => ?_)
    have hcode := h.isCodeChar_of_mem hs hcomment hmem
    rw [hc.2] at hcode
    cases hcode

end IsLexeme

/-! ## Where no lexeme begins -/

namespace Lexeme

theorem not_stuck_of_rule {shape : Shape} {kind : Kind} {text cs : List Char} (hr : (shape, kind) ∈ rules)
    (hm : shape.Matches text) (hp : text <+: cs) : ¬ Stuck cs :=
  fun h => h _ _ _ (.of_rule hr hm) hp

/-- A character of code is a lexeme, or begins one. -/
theorem not_stuck_of_isCodeChar {c : Char} (h : isCodeChar c = true) (cs : List Char) : ¬ Stuck (c :: cs) := by
  have hfront : [c] <+: c :: cs := ⟨cs, rfl⟩
  simp only [isCodeChar, Bool.or_eq_true] at h
  rcases h with (h | h) | h
  · have hrule : (Shape.word, Kind.identifier) ∈ rules := mem_rules.2 (.inr (by decide))
    exact not_stuck_of_rule hrule ⟨c, [], rfl, by simp [isWordStart, h], by simp⟩ hfront
  · have hrule : (Shape.digits, Kind.number) ∈ rules := mem_rules.2 (.inr (by decide))
    exact not_stuck_of_rule hrule ⟨List.cons_ne_nil _ _, by simpa using h⟩ hfront
  · have hall : "_ \t\r\n()\x7b\x7d,.-+;/*!=<>".toList.all (fun c => (longestOf rules [c]).isSome) = true := by
      decide
    have hsome := List.all_eq_true.1 hall c (List.contains_iff_mem.1 h)
    obtain ⟨best, hbest⟩ := Option.isSome_iff_exists.1 hsome
    obtain ⟨text, rest, value, htext, -, hl⟩ := isLongest_of_longestOf hbest
    exact fun hstuck => hstuck _ _ _ hl.lexeme (List.IsPrefix.trans ⟨rest, htext.symm⟩ hfront)

theorem not_stuck_of_closed {cs : List Char} (h : '"' ∈ cs) : ¬ Stuck ('"' :: cs) := by
  obtain ⟨body, rest, rfl, hb⟩ := List.eq_append_cons_of_mem h
  exact fun hstuck => hstuck _ _ _ (.string hb) ⟨rest, by simp⟩

theorem stuck_of_unclosed {cs : List Char} (h : '"' ∉ cs) : Stuck ('"' :: cs) := by
  intro kind text value hl hfront
  obtain ⟨c, text, rfl⟩ := List.exists_cons_of_ne_nil hl.ne_nil
  obtain ⟨rfl, hrest⟩ := List.cons_prefix_cons.1 hfront
  obtain rfl := hl.kind_of_quote
  obtain ⟨body, heq, -⟩ := hl.of_string
  cases heq
  exact h (hrest.subset (by simp))

theorem stuck_of_unexpected {c : Char} (h : IsUnexpected c) (cs : List Char) : Stuck (c :: cs) := by
  intro kind text value hl hfront
  obtain ⟨d, text, rfl⟩ := List.exists_cons_of_ne_nil hl.ne_nil
  obtain ⟨rfl, -⟩ := List.cons_prefix_cons.1 hfront
  rcases hl.of_mem_unexpected h List.mem_cons_self with rfl | rfl
  · obtain ⟨body, heq, -⟩ := hl.of_string
    cases heq
    exact h.1 rfl
  · obtain ⟨body, heq, -⟩ := hl.of_comment
    cases heq
    exact absurd h.2 (by decide)

/-- No lexeme begins at a quote that is not closed, nor at an unexpected character, and else
one does. -/
theorem stuck_cons_iff {c : Char} {cs : List Char} :
    Stuck (c :: cs) ↔ (c = '"' ∧ '"' ∉ cs) ∨ IsUnexpected c := by
  constructor
  · intro h
    by_cases hc : c = '"'
    · subst hc
      exact .inl ⟨rfl, fun hmem => not_stuck_of_closed hmem h⟩
    · refine .inr ⟨hc, Bool.eq_false_iff.2 fun hcode => not_stuck_of_isCodeChar hcode cs h⟩
  · rintro (⟨rfl, h⟩ | h)
    · exact stuck_of_unclosed h
    · exact stuck_of_unexpected h cs

/-- A cut stops where no lexeme begins. -/
theorem stuck_split (cs : List Char) : Stuck (split cs).2 := by
  induction cs using longest_induction with
  | stuck cs h =>
    rw [split_of_stuck h]
    exact h
  | lexeme kind text value rest h ih =>
    rw [split_of_longest h]
    exact ih

end Lexeme
end ExprLang
