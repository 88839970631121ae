/-
What a scan makes of more text. Behind a text that scans and a line feed, any text
scans as it does by itself, further down; and a text that is refused at an unexpected
character is refused there whatever follows it (`Token.scan_composes`).
-/
import ExprLang.Proofs.Alphabet
import ExprLang.Proofs.Scanning

namespace ExprLang

/-- What a comment begins with, its two slashes at least, is a comment. -/
theorem IsLexeme.comment_of_prefix {u w : List Char} {v : Option Value} (h : IsLexeme .comment u v) (hw : w <+: u)
    (hlen : 2 ≤ w.length) : IsLexeme .comment w none := by
  obtain ⟨body, rfl, hb⟩ := h.of_comment
  match w, hlen with
  | c :: d :: front, _ =>
    obtain ⟨rfl, hslash⟩ := List.cons_prefix_cons.1 hw
    obtain ⟨rfl, hfront⟩ := List.cons_prefix_cons.1 hslash
    exact .comment fun hmem => hb (hfront.subset hmem)

/-- **What is the longest lexeme before an unexpected character stays so** when the text goes on. -/
theorem IsLongest.append_of_unexpected {kind : Kind} {text rest : List Char} {value : Option Value}
    (h : IsLongest kind text value rest) {c : Char} (hc : IsUnexpected c) (hmem : c ∈ rest) (more : List Char) :
    IsLongest kind text value (rest ++ more) := by
  refine ⟨h.lexeme, fun k u v hu hp => ?_⟩
  have htext : text <+: text ++ (rest ++ more) := List.prefix_append _ _
  rcases List.prefix_or_prefix_of_prefix hp (⟨more, by simp⟩ : text ++ rest <+: _) with hin | hout
  · exact h.longest k u v hu hin
  · -- the lexeme takes in the unexpected character
    have hover : c ∈ u := hout.subset (by simp [hmem])
    rcases hu.of_mem_unexpected hc hover with rfl | rfl
    · exact (hu.length_eq_of_string h.lexeme hp htext).ge
    · -- what it has of a comment up to there is a longer lexeme than `text`
      have hpos := List.length_pos_iff.2 h.lexeme.ne_nil
      have hpos' := List.length_pos_of_mem hmem
      have hlen : (text ++ rest).length = text.length + rest.length := List.length_append
      have hle := h.longest _ _ _ (hu.comment_of_prefix hout (by omega)) (List.prefix_refl _)
      omega

/-- A text whose cut stops at an unexpected character is cut in the same places when it goes on. -/
theorem Lexeme.split_append_of_unexpected {cs rest : List Char} {c : Char} (h : (split cs).2 = c :: rest)
    (hc : IsUnexpected c) (more : List Char) : split (cs ++ more) = ((split cs).1, (split cs).2 ++ more) := by
  induction cs using longest_induction with
  | stuck cs hs =>
    rw [split_of_stuck hs] at h ⊢
    subst h
    exact split_of_stuck (stuck_of_unexpected hc _)
  | lexeme kind text value rest' hl ih =>
    rw [split_of_longest hl] at h ⊢
    have hmem : c ∈ rest' := by
      rw [← split_text rest', h]
      simp
    rw [List.append_assoc, split_of_longest (hl.append_of_unexpected hc hmem more), ih h]

namespace Token

/-- A text is refused where the cut of it stops. -/
theorem scanChars_eq_error {cs : List Char} {error : LexicalError} : scanChars cs = .error error ↔
    ∃ c rest, (Lexeme.split cs).2 = c :: rest ∧ error = ⟨refusal c, (ofLexemes 1 (Lexeme.split cs).1).2⟩ := by
  simp only [scanChars]
  split
  · next h => simp [h]
  · next h => simp [h, eq_comm]

theorem refusal_eq_unexpected {c d : Char} : refusal c = .unexpectedCharacter d ↔ c ≠ '"' ∧ c = d := by
  unfold refusal
  split <;> simp [*]

/-- **A text that is refused at an unexpected character is refused whatever follows.** -/
theorem scanChars_append_of_unexpected {cs : List Char} {c : Char} {line : Nat}
    (h : scanChars cs = .error ⟨.unexpectedCharacter c, line⟩) (more : List Char) :
    scanChars (cs ++ more) = .error ⟨.unexpectedCharacter c, line⟩ := by
  obtain ⟨d, rest, hcut, herror⟩ := scanChars_eq_error.1 h
  rw [LexicalError.mk.injEq, eq_comm, refusal_eq_unexpected] at herror
  obtain ⟨⟨hd, rfl⟩, rfl⟩ := herror
  have hstuck := Lexeme.stuck_split cs
  rw [hcut, Lexeme.stuck_cons_iff] at hstuck
  have hunexpected : IsUnexpected d := hstuck.resolve_left fun hquote => hd hquote.1
  have happend := Lexeme.split_append_of_unexpected hcut hunexpected more
  rw [hcut] at happend
  rw [scanChars_eq_error, happend]
  exact ⟨d, rest ++ more, rfl, by rw [refusal_eq_unexpected.2 ⟨hd, rfl⟩]⟩

/-- **Scans compose.** Behind a text that scans and a line feed, any text scans, or is refused, as
it is by itself, further down by the lines of the first; and a text that is refused at an
unexpected character is refused there whatever stands behind it. -/
theorem scan_composes (a b : String) :
    (∀ ts, scan a = .ok ts → ∃ before line, ts = before ++ [endOfInput line] ∧
      (∀ us, scan b = .ok us → scan (a ++ "\n" ++ b) = .ok (before ++ us.map (mapLine (· + line)))) ∧
      ∀ error, scan b = .error error → scan (a ++ "\n" ++ b) = .error (error.mapLine (· + line))) ∧
    ∀ c line, scan a = .error ⟨.unexpectedCharacter c, line⟩ →
      scan (a ++ b) = .error ⟨.unexpectedCharacter c, line⟩ := by
  constructor
  · intro ts ha
    obtain ⟨before, line, rfl, -⟩ := scan_eq_ok ha
    refine ⟨before, line, rfl, fun us hb => ?_, fun error hb => ?_⟩
    · rw [scan_append ha b, hb]
      rfl
    · rw [scan_append ha b, hb]
      rfl
  · intro c line ha
    rw [scan, String.toList_append]
    exact scanChars_append_of_unexpected ha b.toList

/-- A text that ends on its second line, in a comment, with a string over both lines and a number
that would go on if a digit came behind its point. -/
def spread : String := "\"x\ny\" !1. //"

def spreadTokens : List Token :=
  [ofLexeme .string "\"x\ny\"" 2, ofLexeme .bang "!" 2, ofLexeme .number "1" 2, ofLexeme .dot "." 2]

theorem scan_composes_spread :
    (scan spread = .ok (spreadTokens ++ [endOfInput 2]) ∧ scan "=" = .ok [ofLexeme .equal "=" 1, endOfInput 1] ∧
      scan "= é" = .error ⟨.unexpectedCharacter 'é', 1⟩) ∧
    scan (spread ++ "\n" ++ "=") = .ok (spreadTokens ++ [ofLexeme .equal "=" 3, endOfInput 3]) ∧
    scan (spread ++ "\n" ++ "= é") = .error ⟨.unexpectedCharacter 'é', 3⟩ ∧
    scan ("= é" ++ "=") = .error ⟨.unexpectedCharacter 'é', 1⟩ := by
  have hspread : scan spread = .ok (spreadTokens ++ [endOfInput 2]) := by decide +kernel
  have hequal : scan "=" = .ok [ofLexeme .equal "=" 1, endOfInput 1] := by decide +kernel
  have hrefused : scan "= é" = .error ⟨.unexpectedCharacter 'é', 1⟩ := by decide +kernel
  obtain ⟨before, line, hts, hok, -⟩ := (scan_composes spread "=").1 _ hspread
  obtain ⟨before', line', hts', -, herror⟩ := (scan_composes spread "= é").1 _ hspread
  obtain ⟨rfl, hlast⟩ := List.append_inj' hts rfl
  obtain ⟨rfl, hlast'⟩ := List.append_inj' hts' rfl
  cases hlast
  cases hlast'
  exact ⟨⟨hspread, hequal, hrefused⟩, hok _ hequal, herror _ hrefused, (scan_composes "= é" "=").2 _ _ hrefused⟩

end Token
end ExprLang
