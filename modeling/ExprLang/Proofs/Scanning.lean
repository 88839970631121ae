/-
What a scan gives: the tokens before the last are lexemes with their kinds and values,
and none of them ends the input (`Token.scan_eq_ok`). A text scans to the same tokens
when a line feed and more text stand behind it, and what comes after that line feed
scans as it does by itself, on lines further down (`Token.scanChars_append`).
-/
import ExprLang.Proofs.Boundary
import ExprLang.Proofs.Lines
import ExprLang.Proofs.Tiling

namespace ExprLang

/-! ## The tokens of a scan -/

theorem IsLexeme.ne_end {kind : Kind} {text : List Char} {value : Option Value} (h : IsLexeme kind text value) :
    kind ≠ .endOfInput := by
  have hall : ∀ p ∈ Kind.symbols ++ Kind.keywords, p.2 ≠ .endOfInput := by decide
  cases h with
  | symbol h => exact hall _ (List.mem_append_left _ h)
  | keyword h => exact hall _ (List.mem_append_right _ h)
  | identifier | string | digits | decimal | comment | lineFeed | blanks => decide

theorem Lexeme.isLexeme_of_mem_split (cs : List Char) :
    ∀ l ∈ (split cs).1, IsLexeme l.kind l.text (Token.literalOf l.kind (String.ofList l.text)) := by
  induction cs using longest_induction with
  | stuck cs h =>
    rw [split_of_stuck h]
    exact fun l hl => absurd hl List.not_mem_nil
  | lexeme kind text value rest h ih =>
    rw [split_of_longest h]
    intro l hl
    rcases List.mem_cons.1 hl with rfl | hl
    · rw [← h.lexeme.value_eq]
      exact h.lexeme
    · exact ih l hl

namespace Token

/-- A token that was read from a text: a lexeme, and none that stands between tokens. -/
structure FromText (t : Token) : Prop where
  lexeme : IsLexeme t.kind t.lexeme.toList t.literal
  not_skipped : t.kind.isSkipped = false

theorem FromText.not_end {t : Token} (h : t.FromText) : t.kind ≠ .endOfInput := h.lexeme.ne_end

theorem fromText_ofLexemes {ls : List Lexeme} (line : Nat)
    (h : ∀ l ∈ ls, IsLexeme l.kind l.text (literalOf l.kind (String.ofList l.text))) :
    ∀ t ∈ (ofLexemes line ls).1, t.FromText := by
  induction ls generalizing line with
  | nil => exact fun t ht => absurd ht List.not_mem_nil
  | cons l ls ih =>
    have hrest := ih (line + lineFeeds l.text) fun l hl => h l (List.mem_cons_of_mem _ hl)
    simp only [ofLexemes]
    split
    · exact hrest
    · next hs =>
      intro t ht
      rcases List.mem_cons.1 ht with rfl | ht
      · refine ⟨?_, Bool.eq_false_iff.2 hs⟩
        show IsLexeme l.kind (String.ofList l.text).toList _
        rw [String.toList_ofList]
        exact h l List.mem_cons_self
      · exact hrest t ht

/-- A text scans if it can be cut to its end; the last token says on which line that is. -/
theorem scanChars_eq_ok {cs : List Char} {ts : List Token} : scanChars cs = .ok ts ↔
    (Lexeme.split cs).2 = [] ∧ ts = (ofLexemes 1 (Lexeme.split cs).1).1 ++
      [endOfInput (ofLexemes 1 (Lexeme.split cs).1).2] := by
  simp only [scanChars]
  split
  · next h => simp [h, eq_comm]
  · next h => simp [h]

/-- **The tokens of a scan** are read from the text, but for the last, which ends the input. -/
theorem scan_eq_ok {source : String} {ts : List Token} (h : scan source = .ok ts) :
    ∃ before line, ts = before ++ [endOfInput line] ∧ ∀ t ∈ before, t.FromText := by
  obtain ⟨-, rfl⟩ := scanChars_eq_ok.1 h
  exact ⟨_, _, rfl, fromText_ofLexemes 1 (Lexeme.isLexeme_of_mem_split _)⟩

theorem exists_end {before : List Token} {line : Nat} :
    ∃ t ∈ before ++ [endOfInput line], t.kind = .endOfInput := ⟨endOfInput line, by simp, rfl⟩

theorem beforeEnd_scan {before : List Token} {line : Nat} (h : ∀ t ∈ before, t.FromText) :
    beforeEnd (before ++ [endOfInput line]) = before :=
  beforeEnd_append (fun t ht => (h t ht).not_end) (by simp [Program.AtEnd, endOfInput])

end Token

/-! ## Texts one after the other -/

/-- A text that is cut to its end is cut in the same places when a line feed follows. -/
theorem Lexeme.split_append_lineFeed {cs : List Char} (h : (split cs).2 = []) (more : List Char) :
    split (cs ++ '\n' :: more) = ((split cs).1 ++ ⟨.newLine, ['\n']⟩ :: (split more).1, (split more).2) := by
  induction cs using longest_induction with
  | stuck cs hs =>
    rw [split_of_stuck hs] at h ⊢
    subst h
    exact split_of_longest (isLongest_lineFeed more)
  | lexeme kind text value rest hl ih =>
    rw [split_of_longest hl] at h ⊢
    rw [List.append_assoc, split_of_longest (hl.append_lineFeed more), ih h]
    rfl

namespace Token

theorem ofLexemes_append (line : Nat) (ls more : List Lexeme) : ofLexemes line (ls ++ more) =
    ((ofLexemes line ls).1 ++ (ofLexemes (ofLexemes line ls).2 more).1, (ofLexemes (ofLexemes line ls).2 more).2) := by
  induction ls generalizing line with
  | nil => rfl
  | cons l ls ih =>
    simp only [List.cons_append, ofLexemes, ih]
    split <;> rfl

/-- Lexemes further down are the same tokens further down. -/
theorem ofLexemes_add (line down : Nat) (ls : List Lexeme) : ofLexemes (line + down) ls =
    ((ofLexemes line ls).1.map (mapLine (· + down)), (ofLexemes line ls).2 + down) := by
  induction ls generalizing line with
  | nil => rfl
  | cons l ls ih =>
    have hline : line + down + lineFeeds l.text = line + lineFeeds l.text + down := by omega
    simp only [ofLexemes, hline, ih]
    split
    · rfl
    · rfl

/-- The tokens of a text with more tokens behind them, and the error further down of a text with more in front. -/
def continueScan (before : List Token) (down : Nat) : Except LexicalError (List Token) → Except LexicalError (List Token)
  | .ok ts => .ok (before ++ ts.map (mapLine (· + down)))
  | .error e => .error (e.mapLine (· + down))

/-- **A text after a text and a line feed scans as it does by itself**, so many lines further
down as the first text ends on. -/
theorem scanChars_append {cs : List Char} {before : List Token} {down : Nat}
    (h : scanChars cs = .ok (before ++ [endOfInput down])) (more : List Char) :
    scanChars (cs ++ '\n' :: more) = continueScan before down (scanChars more) := by
  obtain ⟨hcut, hts⟩ := scanChars_eq_ok.1 h
  obtain ⟨hbefore, hlast⟩ := List.append_inj' hts rfl
  have hdown : (ofLexemes 1 (Lexeme.split cs).1).2 = down := by
    have := congrArg (fun ts : List Token => ts.map line) hlast
    simpa [endOfInput] using this.symm
  have hls : ofLexemes 1 ((Lexeme.split cs).1 ++ ⟨.newLine, ['\n']⟩ :: (Lexeme.split more).1) =
      (before ++ (ofLexemes 1 (Lexeme.split more).1).1.map (mapLine (· + down)),
        (ofLexemes 1 (Lexeme.split more).1).2 + down) := by
    -- the line feed gives no token and ends the last line of the first text
    have hnext : ofLexemes down (⟨.newLine, ['\n']⟩ :: (Lexeme.split more).1) =
        ofLexemes (1 + down) (Lexeme.split more).1 := by
      rw [Nat.add_comm]
      rfl
    rw [ofLexemes_append, hdown, hnext, ofLexemes_add, ← hbefore]
  simp only [scanChars, Lexeme.split_append_lineFeed hcut, hls]
  split
  · simp only [continueScan, List.map_append, List.append_assoc]
    rfl
  · rfl

theorem scan_append {a : String} {before : List Token} {down : Nat}
    (h : scan a = .ok (before ++ [endOfInput down])) (b : String) :
    scan (a ++ "\n" ++ b) = continueScan before down (scan b) := by
  have htext : (a ++ "\n" ++ b).toList = a.toList ++ '\n' :: b.toList := by simp [String.toList_append]
  rw [scan, htext]
  exact scanChars_append h b.toList

end Token
end ExprLang
