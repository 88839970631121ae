/-
Lines as places in the text. A token has the line that the text up to the end of its
lexeme ends on, the end of the input the line that the whole text ends on; a lexical
error has the line of the place where the longest lexemes stop, at an unexpected
character or at the quote that opens a string without an end (`Token.scan_lines`).

The places are those of the tiling of the text, of which there is one at most.
-/
import ExprLang.Proofs.Continuation

namespace ExprLang

/-! ## Lines -/

theorem Token.lineFeeds_append (front cs : List Char) : lineFeeds (front ++ cs) = lineFeeds front + lineFeeds cs :=
  List.count_append

/-- The line that a text ends on. -/
def lineAfter (cs : List Char) : Nat := 1 + Token.lineFeeds cs

theorem lineAfter_pos (cs : List Char) : 1 ≤ lineAfter cs := Nat.le_add_right _ _

theorem lineAfter_mono {front cs : List Char} (h : front <+: cs) : lineAfter front ≤ lineAfter cs :=
  Nat.add_le_add_left (h.sublist.count_le _) 1

namespace Tiling

/-! ## Places -/

/-- The text up to the end of each lexeme, and then all of it. -/
def upTo : Tiling → List (List Char)
  | last gap => [gap]
  | lexeme gap _ text _ rest => (gap ++ text) :: rest.upTo.map ((gap ++ text) ++ ·)

theorem upTo_prepend (front : List Char) (t : Tiling) : (t.prepend front).upTo = t.upTo.map (front ++ ·) := by
  cases t with
  | last => rfl
  | lexeme => simp [prepend, upTo, Function.comp_def]

theorem getLast?_upTo (t : Tiling) : t.upTo.getLast? = some t.text := by
  induction t with
  | last => rfl
  | lexeme gap kind text value rest ih => simp [upTo, Tiling.text, List.getLast?_cons, List.getLast?_map, ih]

/-- The places come in the order of the text. -/
theorem upTo_pairwise (t : Tiling) : t.upTo.Pairwise (· <+: ·) := by
  induction t with
  | last => exact List.pairwise_singleton _ _
  | lexeme gap kind text value rest ih =>
    refine List.pairwise_cons.2 ⟨fun front hmem => ?_, ?_⟩
    · obtain ⟨more, -, rfl⟩ := List.mem_map.1 hmem
      exact List.prefix_append _ _
    · rw [List.pairwise_map]
      exact ih.imp fun h => (List.prefix_append_right_inj _).2 h

theorem prefix_of_mem_upTo {t : Tiling} {front : List Char} (h : front ∈ t.upTo) : front <+: t.text := by
  have hpairs := t.upTo_pairwise
  have hlast := t.getLast?_upTo
  obtain ⟨before, hbefore⟩ := List.getLast?_eq_some_iff.1 hlast
  rw [hbefore] at h hpairs
  rcases List.mem_append.1 h with h | h
  · exact (List.pairwise_append.1 hpairs).2.2 front h _ List.mem_cons_self
  · obtain rfl := List.mem_singleton.1 h
    exact List.prefix_refl _

/-- The scanner counts the line feeds up to each place. -/
theorem lines_ofLexemes (line : Nat) (ls : List Lexeme) :
    (Token.ofLexemes line ls).1.map Token.line ++ [(Token.ofLexemes line ls).2] =
      (ofLexemes ls).upTo.map fun front => line + Token.lineFeeds front := by
  induction ls generalizing line with
  | nil => rfl
  | cons l ls ih =>
    have hplaces : ∀ t : Tiling, t.upTo.map (fun front => line + Token.lineFeeds l.text + Token.lineFeeds front) =
        (t.upTo.map (l.text ++ ·)).map fun front => line + Token.lineFeeds front := by
      intro t
      simp only [List.map_map, Function.comp_def, Token.lineFeeds_append, Nat.add_assoc]
    simp only [Token.ofLexemes, ofLexemes]
    split
    · rw [ih, upTo_prepend, hplaces]
    · rw [List.map_cons, List.cons_append, ih, hplaces]
      rfl

end Tiling

/-! ## Scans -/

/-- The tokens of a text have the lines of their places in it. -/
structure HasLines (source : List Char) (ts : List Token) : Prop where
  /-- The text is tiled with the tokens, each on the line that the text up to its end ends on. -/
  places : ∃ t : Tiling, t.Longest ∧ t.text = source ∧ ts.map Token.content = t.contents ∧
    ts.map Token.line = t.upTo.map lineAfter
  /-- The end of the input is on the line that the whole text ends on. -/
  ending : ∃ before, ts = before ++ [Token.endOfInput (lineAfter source)]
  /-- Lines never decrease. -/
  ordered : ts.Pairwise (·.line ≤ ·.line)

/-- The lexical error of a text has the line of the place where the longest lexemes stop. -/
inductive StopsWith (source : List Char) : LexicalError → Prop
  | unexpected {t : Tiling} {c rest} : source = t.text ++ c :: rest → t.LongestBefore (c :: rest) →
      IsUnexpected c → StopsWith source ⟨.unexpectedCharacter c, lineAfter t.text⟩
  | unterminated {t : Tiling} {rest} : source = t.text ++ '"' :: rest → t.LongestBefore ('"' :: rest) →
      '"' ∉ rest → StopsWith source ⟨.unterminatedString, lineAfter t.text⟩

/-- A token of a scan is on a line of the text. -/
theorem HasLines.bounds {source : List Char} {ts : List Token} (h : HasLines source ts) {t : Token} (ht : t ∈ ts) :
    1 ≤ t.line ∧ t.line ≤ lineAfter source := by
  obtain ⟨tiling, -, rfl, -, hlines⟩ := h.places
  have hmem : t.line ∈ ts.map Token.line := List.mem_map_of_mem ht
  rw [hlines] at hmem
  obtain ⟨front, hfront, heq⟩ := List.mem_map.1 hmem
  rw [← heq]
  exact ⟨lineAfter_pos front, lineAfter_mono (Tiling.prefix_of_mem_upTo hfront)⟩

namespace Token

/-- Tokens are their contents and their lines. -/
theorem eq_of_content_of_line {ts us : List Token} (hc : ts.map content = us.map content)
    (hl : ts.map line = us.map line) : ts = us := by
  have hboth : ∀ t u : Token, (t.content, t.line) = (u.content, u.line) → t = u := by
    rintro ⟨k, l, v, n⟩ ⟨k', l', v', n'⟩ heq
    simpa [content, and_assoc] using heq
  have hzip : ∀ l : List Token, l.map (fun t => (t.content, t.line)) = (l.map content).zip (l.map line) :=
    fun _ => List.zip_map'.symm
  exact (List.map_inj_right hboth).1 (by rw [hzip, hzip, hc, hl])

theorem lines_of_cut (cs : List Char) :
    (ofLexemes 1 (Lexeme.split cs).1).1.map line ++ [(ofLexemes 1 (Lexeme.split cs).1).2] =
      (Tiling.cut cs).1.upTo.map lineAfter :=
  Tiling.lines_ofLexemes 1 _

theorem last_line_of_cut (cs : List Char) :
    (ofLexemes 1 (Lexeme.split cs).1).2 = lineAfter (Tiling.cut cs).1.text := by
  have hlast := congrArg List.getLast? (lines_of_cut cs)
  rw [List.getLast?_concat, List.getLast?_map, Tiling.getLast?_upTo] at hlast
  exact Option.some.inj hlast

theorem hasLines_of_scan {cs : List Char} {ts : List Token} (h : scanChars cs = .ok ts) : HasLines cs ts := by
  obtain ⟨hleft, rfl⟩ := scanChars_eq_ok.1 h
  obtain ⟨hlongest, htext⟩ := Tiling.longest_cut cs hleft
  have hlines := lines_of_cut cs
  have hmap : ∀ (before : List Token) (line : Nat), (before ++ [endOfInput line]).map Token.line =
      before.map Token.line ++ [line] := fun _ _ => List.map_append
  refine ⟨⟨_, hlongest, htext, Tiling.contents_ofLexemes _ _ _, (hmap _ _).trans hlines⟩, ?_, ?_⟩
  · exact ⟨_, by rw [last_line_of_cut, htext]⟩
  · rw [← List.pairwise_map, hmap, hlines, List.pairwise_map]
    exact (Tiling.upTo_pairwise _).imp lineAfter_mono

/-- The tokens of a longest tiling, on the lines of their places, are what its text scans to. -/
theorem scan_of_longest {t : Tiling} (h : t.Longest) {ts : List Token} (hcontents : ts.map content = t.contents)
    (hlines : ts.map line = t.upTo.map lineAfter) : scanChars t.text = .ok ts := by
  have hcut := h.cut_text
  have hleft : (Lexeme.split t.text).2 = [] := congrArg Prod.snd hcut
  have hscan := scanChars_eq_ok.2 ⟨hleft, rfl⟩
  rw [hscan, Except.ok.injEq]
  refine eq_of_content_of_line ?_ ?_
  · rw [Tiling.contents_ofLexemes, hcontents]
    exact congrArg (·.1.contents) hcut
  · rw [hlines, List.map_append]
    exact (lines_of_cut t.text).trans (by rw [hcut])

theorem scan_of_hasLines {cs : List Char} {ts : List Token} (h : HasLines cs ts) : scanChars cs = .ok ts := by
  obtain ⟨t, hlongest, rfl, hcontents, hlines⟩ := h.places
  exact scan_of_longest hlongest hcontents hlines

theorem stopsWith_of_scan {cs : List Char} {error : LexicalError} (h : scanChars cs = .error error) :
    StopsWith cs error := by
  obtain ⟨c, rest, hcut, rfl⟩ := scanChars_eq_error.1 h
  obtain ⟨hlongest, htext⟩ := Tiling.longestBefore_cut cs
  have hleft : (Tiling.cut cs).2 = c :: rest := hcut
  have hstuck := Lexeme.stuck_split cs
  rw [hcut] at hstuck
  rw [hleft] at hlongest htext
  rw [last_line_of_cut]
  rcases Lexeme.stuck_cons_iff.1 hstuck with ⟨rfl, hunclosed⟩ | hc
  · exact .unterminated htext.symm hlongest hunclosed
  · rw [refusal, if_neg hc.1]
    exact .unexpected htext.symm hlongest hc

theorem scan_of_cut {cs rest : List Char} {c : Char} {t : Tiling} (h : Tiling.cut cs = (t, c :: rest)) :
    scanChars cs = .error ⟨refusal c, lineAfter t.text⟩ := by
  refine scanChars_eq_error.2 ⟨c, rest, congrArg Prod.snd h, ?_⟩
  rw [last_line_of_cut, h]

theorem scan_of_stopsWith {cs : List Char} {error : LexicalError} (h : StopsWith cs error) :
    scanChars cs = .error error := by
  cases h with
  | @unexpected t c rest htext hlongest hc =>
    rw [htext, scan_of_cut (hlongest.cut_text (Lexeme.stuck_of_unexpected hc rest)), refusal, if_neg hc.1]
  | @unterminated t rest htext hlongest hunclosed =>
    rw [htext, scan_of_cut (hlongest.cut_text (Lexeme.stuck_of_unclosed hunclosed)), refusal, if_pos rfl]

/-- **The line law.** A scan gives the tokens of the text on the lines of their places, and the
error of a text on the line where its longest lexemes stop; these are what it gives and no others. -/
theorem scan_lines (source : String) : (∀ ts, scan source = .ok ts ↔ HasLines source.toList ts) ∧
    ∀ error, scan source = .error error ↔ StopsWith source.toList error :=
  ⟨fun _ => ⟨hasLines_of_scan, scan_of_hasLines⟩, fun _ => ⟨stopsWith_of_scan, scan_of_stopsWith⟩⟩

/-- A string counts up to where it ends, and one without an end from where it begins. -/
example : (scan "\"a\nb\" // c\n;").toOption.map (·.map line) = some [2, 3, 3] ∧
    scan "nil\r\n \"a\nb\n" = .error ⟨.unterminatedString, 2⟩ := by decide +kernel

end Token
end ExprLang
