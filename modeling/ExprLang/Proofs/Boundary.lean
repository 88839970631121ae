/-
Where lexemes end. A lexeme is the longest at its place if what follows is a character
that goes on none, whatever comes after it (`IsLexeme.longest_before`), and white space
goes on none (`IsLexeme.longest_before_white`): it is found in strings, which end at their
second quote, and else only in what stands between tokens. A lexeme that is the longest
stays so when the text goes on with a line feed (`IsLongest.append_lineFeed`).
-/
import ExprLang.Proofs.Longest

namespace ExprLang

/-- White space: blanks and line feeds. -/
def IsWhite (c : Char) : Prop := isBlank c ∨ c = '\n'

theorem IsWhite.cases {c : Char} (h : IsWhite c) : c = ' ' ∨ c = '\t' ∨ c = '\r' ∨ c = '\n' := by
  rcases h with h | rfl
  · simp only [isBlank, Bool.or_eq_true, beq_iff_eq] at h
    rcases h with (rfl | rfl) | rfl <;> simp
  · simp

theorem IsWhite.not_wordChar {c : Char} (h : IsWhite c) : isWordChar c = false := by
  rcases h.cases with rfl | rfl | rfl | rfl <;> decide

theorem IsWhite.not_digit {c : Char} (h : IsWhite c) : c.isDigit = false := by
  rcases h.cases with rfl | rfl | rfl | rfl <;> decide

theorem IsWhite.not_wordStart {c : Char} (h : IsWhite c) : isWordStart c = false := by
  rcases h.cases with rfl | rfl | rfl | rfl <;> decide

namespace IsLexeme

open Lexeme

variable {kind k : Kind} {text u rest : List Char} {value v : Option Value}

/-- The lexemes that white space occurs in. A comment has no line feed. -/
theorem of_mem_white {c : Char} (hc : IsWhite c) (h : IsLexeme k u v) (hmem : c ∈ u) :
    k = .string ∨ (k = .comment ∧ c ≠ '\n') ∨ k = .newLine ∨ k = .blank := by
  have hword : ¬ (isWordStart c = true ∨ isWordChar c = true) := by
    simp [hc.not_wordStart, hc.not_wordChar]
  have hdigit : ¬ c.isDigit = true := by simp [hc.not_digit]
  cases h with
  | @symbol spelling _ h =>
    have hall : ∀ p ∈ Kind.symbols, p.1.toList.all (fun c => !(isBlank c || c == '\n')) = true := by decide
    have hnot := List.all_eq_true.1 (hall _ h) c hmem
    rcases hc with hc | hc <;> simp [hc] at hnot
  | @keyword word _ h =>
    obtain ⟨d, cs, hcs, hd, hall⟩ := Kind.word_of_keyword h
    rw [hcs] at hmem
    rcases List.mem_cons.1 hmem with rfl | hmem
    · exact absurd (.inl hd) hword
    · exact absurd (.inr (hall c hmem)) hword
  | identifier hd hall _ =>
    rcases List.mem_cons.1 hmem with rfl | hmem
    · exact absurd (.inl hd) hword
    · exact absurd (.inr (hall c hmem)) hword
  | string => exact .inl rfl
  | digits _ hall => exact absurd (hall c hmem) hdigit
  | decimal _ _ hw hf =>
    rcases List.mem_append.1 hmem with hmem | hmem
    · exact absurd (hw c hmem) hdigit
    · rcases List.mem_cons.1 hmem with rfl | hmem
      · rcases hc.cases with h | h | h | h <;> exact absurd h (by decide)
      · exact absurd (hf c hmem) hdigit
  | @comment body hb =>
    refine .inr (.inl ⟨rfl, ?_⟩)
    rintro rfl
    have hbody : '\n' ∈ body := by simpa using hmem
    exact hb hbody
  | lineFeed => exact .inr (.inr (.inl rfl))
  | blanks => exact .inr (.inr (.inr rfl))

theorem kind_of_quote {cs : List Char} (h : IsLexeme k ('"' :: cs) v) : k = .string := h.kind_eq

theorem kind_of_slashes {cs : List Char} (h : IsLexeme k ('/' :: '/' :: cs) v) : k = .comment := h.kind_eq

theorem kind_of_blank {c : Char} (hc : isBlank c) {cs : List Char} (h : IsLexeme k (c :: cs) v) : k = .blank := by
  rw [h.kind_eq, frontKind_blank hc, kindOf_of_ne (by decide)]

/-- Lexemes at the same place begin with the same character. -/
theorem heads_eq (h : IsLexeme kind text value) (hu : IsLexeme k u v) {cs : List Char} (ht : text <+: cs)
    (hp : u <+: cs) : ∃ c text' u', text = c :: text' ∧ u = c :: u' := by
  obtain ⟨c, text', rfl⟩ := List.exists_cons_of_ne_nil h.ne_nil
  obtain ⟨d, u', rfl⟩ := List.exists_cons_of_ne_nil hu.ne_nil
  obtain ⟨t, rfl⟩ := ht
  rw [List.cons_append] at hp
  obtain rfl := (List.cons_prefix_cons.1 hp).1
  exact ⟨d, text', u', rfl, rfl⟩

/-- Where a string stands, no other lexeme does: it ends at the second quote. -/
theorem length_eq_of_string (h : IsLexeme .string u v) (ht : IsLexeme kind text value) {cs : List Char}
    (hu : u <+: cs) (htext : text <+: cs) : text.length = u.length := by
  obtain ⟨body, rfl, hb, -⟩ := h.of_string
  obtain ⟨c, text', u', rfl, hc⟩ := ht.heads_eq h htext hu
  cases hc
  obtain rfl := ht.kind_of_quote
  obtain ⟨body', heq, hb', -⟩ := ht.of_string
  obtain ⟨r, rfl⟩ := hu
  rw [heq] at htext ⊢
  have h₁ := (Shape.quoted_body ⟨r, rfl⟩ ⟨body, rfl, hb⟩).1
  have h₂ := (Shape.quoted_body htext ⟨body', rfl, hb'⟩).1
  exact h₂.trans h₁.symm

/-- A token is the longest lexeme at its place before a character that goes on no token: where
it occurs, other than by itself, is in strings, in comments and in white space. -/
theorem longest_before {c : Char} (h : IsLexeme kind text value) (hs : kind.isSkipped = false) (hslash : c ≠ '/')
    (hc : ∀ {k u v}, IsLexeme k u v → c ∈ u →
      k = .string ∨ k = .comment ∨ k = .newLine ∨ k = .blank ∨ u = [c]) (rest : List Char) :
    IsLongest kind text value (c :: rest) := by
  refine ⟨h, fun k u v hu hp => Nat.le_of_not_lt fun hlt => ?_⟩
  have hlong : text ++ [c] <+: u := by
    refine List.prefix_of_prefix_length_le ⟨rest, by simp⟩ hp ?_
    simp only [List.length_append, List.length_cons, List.length_nil]
    omega
  have htext : text <+: text ++ c :: rest := List.prefix_append _ _
  have hmem : c ∈ u := hlong.subset (by simp)
  obtain ⟨d, text', u', rfl, rfl⟩ := h.heads_eq hu htext hp
  rcases hc hu hmem with rfl | rfl | rfl | rfl | heq
  · exact absurd (hu.length_eq_of_string h hp htext) (by omega)
  · -- a comment's second slash is not the character, so the token has both and is a comment
    obtain ⟨body, heq, -⟩ := hu.of_comment
    cases heq
    have htail := (List.cons_prefix_cons.1 hlong).2
    cases text' with
    | nil => exact hslash (List.cons_prefix_cons.1 htail).1
    | cons e text' =>
      obtain rfl := (List.cons_prefix_cons.1 htail).1
      obtain rfl := h.kind_of_slashes
      cases hs
  · have heq := hu.of_newLine
    cases heq
    simp at hlt
  · obtain rfl := h.kind_of_blank (hu.of_blank d List.mem_cons_self)
    cases hs
  · cases heq
    simp at hlt

/-- A token that white space follows, or nothing, is the longest lexeme at its place. -/
theorem longest_before_white (h : IsLexeme kind text value) (hs : kind.isSkipped = false)
    (hrest : ∀ c ∈ rest.head?, IsWhite c) : IsLongest kind text value rest := by
  cases rest with
  | nil =>
    refine ⟨h, fun k u v _ hp => ?_⟩
    rw [List.append_nil] at hp
    exact hp.length_le
  | cons c rest =>
    have hc : IsWhite c := hrest c rfl
    refine h.longest_before hs ?_ (fun hu hmem => ?_) rest
    · rintro rfl
      rcases hc.cases with h | h | h | h <;> exact absurd h (by decide)
    · rcases hu.of_mem_white hc hmem with hk | ⟨hk, -⟩ | hk | hk <;> simp [hk]

end IsLexeme

/-- **What is the longest lexeme at the end of a text is so before a line feed too.** -/
theorem IsLongest.append_lineFeed {kind : Kind} {text rest : List Char} {value : Option Value}
    (h : IsLongest kind text value rest) (more : List Char) :
    IsLongest kind text value (rest ++ '\n' :: more) := by
  refine ⟨h.lexeme, fun k u v hu hp => ?_⟩
  have htext : text <+: text ++ (rest ++ '\n' :: more) := List.prefix_append _ _
  rcases List.prefix_or_prefix_of_prefix hp (⟨'\n' :: more, by simp⟩ : text ++ rest <+: _) with hin | hout
  · exact h.longest k u v hu hin
  · by_cases hlen : u.length ≤ (text ++ rest).length
    · have heq := hout.eq_of_length_le hlen
      exact h.longest k u v hu ⟨[], by simp [heq]⟩
    · -- the lexeme reaches over the line feed
      have hover : (text ++ rest) ++ ['\n'] <+: u := by
        refine List.prefix_of_prefix_length_le ⟨more, by simp⟩ hp ?_
        simp only [List.length_append, List.length_cons, List.length_nil] at hlen ⊢
        omega
      have hmem : '\n' ∈ u := hover.subset (by simp)
      rcases hu.of_mem_white (.inr rfl) hmem with rfl | ⟨-, hne⟩ | rfl | rfl
      · exact (hu.length_eq_of_string h.lexeme hp htext).ge
      · exact absurd rfl hne
      · rw [hu.of_newLine]
        exact List.length_pos_iff.2 h.lexeme.ne_nil
      · exact absurd (hu.of_blank _ hmem) (by decide)

end ExprLang
