/-
The modes of a text. Read character by character, a text is in code, in a comment or in
a string; quotes, slashes and line feeds change the mode, and a character that no lexeme
has stops the reading in code. The mode at the end, or the character that stopped it,
tells whether the text scans and why not (`Token.scan_iff_mode`): where lexemes end has
no part in how quotes and slashes pair up.
-/
import ExprLang.Proofs.Alphabet
import ExprLang.Proofs.Tiling

namespace ExprLang

/-- What a place in a text is part of. -/
inductive TextMode where
  | code | comment | string
deriving DecidableEq, Inhabited

namespace TextMode

/-- The mode at the end of a text that begins in this mode, or the first character in code
that is unexpected there. -/
def after : TextMode → List Char → Except Char TextMode
  | mode, [] => .ok mode
  | .code, '/' :: '/' :: cs => after .comment cs
  | .code, c :: cs => if c = '"' then after .string cs else if isCodeChar c then after .code cs else .error c
  | .comment, c :: cs => after (if c = '\n' then .code else .comment) cs
  | .string, c :: cs => after (if c = '"' then .code else .string) cs

/-! ## One character -/

@[simp] theorem after_nil (mode : TextMode) : mode.after [] = .ok mode := by
  cases mode <;> rfl

theorem after_slashes (cs : List Char) : code.after ('/' :: '/' :: cs) = comment.after cs := rfl

theorem after_comment_cons (c : Char) (cs : List Char) :
    comment.after (c :: cs) = (if c = '\n' then code else comment).after cs := by
  rw [after]

theorem after_string_cons (c : Char) (cs : List Char) :
    string.after (c :: cs) = (if c = '"' then code else string).after cs := by
  rw [after]

theorem after_cons {c : Char} {cs : List Char} (h : ¬ (c = '/' ∧ cs.head? = some '/')) : code.after (c :: cs) =
    if c = '"' then string.after cs else if isCodeChar c then code.after cs else .error c := by
  rw [after]
  rintro rest rfl rfl
  exact h ⟨rfl, rfl⟩

theorem after_quote (cs : List Char) : code.after ('"' :: cs) = string.after cs := by
  rw [after_cons (by simp), if_pos rfl]

theorem after_unexpected {c : Char} (h : IsUnexpected c) (cs : List Char) : code.after (c :: cs) = .error c := by
  have hslash : c ≠ '/' := by
    rintro rfl
    exact absurd h.2 (by decide)
  rw [after_cons (fun hc => hslash hc.1), if_neg h.1, h.2, if_neg Bool.false_ne_true]

theorem after_codeChar {c : Char} {cs : List Char} (hc : isCodeChar c = true)
    (h : ¬ (c = '/' ∧ cs.head? = some '/')) : code.after (c :: cs) = code.after cs := by
  have hquote : c ≠ '"' := by
    rintro rfl
    exact absurd hc (by decide)
  rw [after_cons h, if_neg hquote, if_pos hc]

/-! ## Runs of characters -/

theorem after_code_append {u : List Char} (hu : ∀ c ∈ u, isCodeChar c = true) (hslash : '/' ∉ u)
    (rest : List Char) : code.after (u ++ rest) = code.after rest := by
  induction u with
  | nil => rfl
  | cons c u ih =>
    have hc : c ≠ '/' := fun hc => hslash (by simp [hc])
    have hrest := ih (fun d hd => hu d (List.mem_cons_of_mem _ hd)) fun hmem => hslash (List.mem_cons_of_mem _ hmem)
    rw [List.cons_append, after_codeChar (hu c List.mem_cons_self) fun h => hc h.1, hrest]

theorem after_comment_append {body : List Char} (hb : '\n' ∉ body) (rest : List Char) :
    comment.after (body ++ rest) = comment.after rest := by
  induction body with
  | nil => rfl
  | cons c body ih =>
    rw [List.mem_cons, not_or] at hb
    rw [List.cons_append, after_comment_cons, if_neg (Ne.symm hb.1), ih hb.2]

theorem after_string_append {body : List Char} (hb : '"' ∉ body) (rest : List Char) :
    string.after (body ++ rest) = string.after rest := by
  induction body with
  | nil => rfl
  | cons c body ih =>
    rw [List.mem_cons, not_or] at hb
    rw [List.cons_append, after_string_cons, if_neg (Ne.symm hb.1), ih hb.2]

end TextMode

/-! ## Lexemes -/

section

variable {kind : Kind} {text rest : List Char} {value : Option Value}

/-- A lexeme leaves the text in code, or, if it is a comment, in the comment. -/
theorem IsLongest.mode_after (h : IsLongest kind text value rest) :
    TextMode.code.after (text ++ rest) = (if kind = .comment then TextMode.comment else TextMode.code).after rest := by
  by_cases hcomment : kind = .comment
  · subst hcomment
    obtain ⟨body, rfl, hb⟩ := h.lexeme.of_comment
    rw [if_pos rfl]
    exact (TextMode.after_slashes _).trans (TextMode.after_comment_append hb rest)
  · rw [if_neg hcomment]
    by_cases hstring : kind = .string
    · subst hstring
      obtain ⟨body, rfl, hb, -⟩ := h.lexeme.of_string
      rw [List.cons_append, List.append_assoc, TextMode.after_quote, TextMode.after_string_append hb]
      rw [List.singleton_append, TextMode.after_string_cons, if_pos rfl]
    · by_cases hslash : '/' ∈ text
      · obtain rfl := h.lexeme.eq_slash_of_mem hstring hcomment hslash
        refine TextMode.after_codeChar rfl fun hnext => ?_
        -- a second slash would make it a comment, which is longer
        obtain ⟨rest, rfl⟩ : ∃ r, rest = '/' :: r := List.head?_eq_some_iff.1 hnext.2
        have hlonger : IsLexeme .comment ('/' :: '/' :: []) none := .comment List.not_mem_nil
        exact absurd (h.longest _ _ _ hlonger ⟨rest, rfl⟩) (by decide)
      · exact TextMode.after_code_append (fun c hc => h.lexeme.isCodeChar_of_mem hstring hcomment hc) hslash rest

/-- From a comment's end on, the rest of the text reads as code. -/
theorem EndsLine.mode_after {rest : List Char} (h : EndsLine rest) (hne : rest ≠ []) :
    TextMode.comment.after rest = TextMode.code.after rest := by
  obtain ⟨c, rest, rfl⟩ := List.exists_cons_of_ne_nil hne
  obtain rfl : c = '\n' := h
  rw [TextMode.after_codeChar rfl (by simp), TextMode.after_comment_cons, if_pos rfl]

end

/-- What a text ends in, by what is left of it where its cut into lexemes stops. -/
def TextMode.Tells (left : List Char) (ends : Except Char TextMode) : Prop :=
  match left with
  | [] => ends = .ok .code ∨ ends = .ok .comment
  | c :: _ => ends = if c = '"' then .ok .string else .error c

theorem TextMode.tells_of_stuck {cs : List Char} (h : Lexeme.Stuck cs) : Tells cs (code.after cs) := by
  cases cs with
  | nil => exact .inl (after_nil _)
  | cons c cs =>
    rcases Lexeme.stuck_cons_iff.1 h with ⟨rfl, hunclosed⟩ | hc
    · have hstring := after_string_append hunclosed []
      rw [List.append_nil, after_nil] at hstring
      exact (after_quote cs).trans hstring
    · rw [Tells, if_neg hc.1]
      exact after_unexpected hc cs

/-- **The mode tells where the cut stops.** -/
theorem TextMode.tells_split (cs : List Char) : Tells (Lexeme.split cs).2 (code.after cs) := by
  induction cs using Lexeme.longest_induction with
  | stuck cs h =>
    rw [Lexeme.split_of_stuck h]
    exact tells_of_stuck h
  | lexeme kind text value rest h ih =>
    rw [Lexeme.split_of_longest h, h.mode_after]
    by_cases hcomment : kind = .comment
    · subst hcomment
      rw [if_pos rfl]
      by_cases hrest : rest = []
      · -- the text ends in the comment
        subst hrest
        rw [Lexeme.split_of_stuck Lexeme.stuck_nil]
        exact .inr (after_nil _)
      · rw [h.endsLine.mode_after hrest]
        exact ih
    · rw [if_neg hcomment]
      exact ih

/-- **Modes decide lexical errors.** A text scans just when it ends in code or in a comment, it is
refused at an unexpected character just when that character stops its reading, and as an unterminated
string just when it ends in a string. -/
theorem Token.scan_iff_mode (source : String) :
    ((∃ ts, scan source = .ok ts) ↔
      TextMode.code.after source.toList = .ok .code ∨ TextMode.code.after source.toList = .ok .comment) ∧
    (∀ c, (∃ line, scan source = .error ⟨.unexpectedCharacter c, line⟩) ↔
      TextMode.code.after source.toList = .error c) ∧
    ((∃ line, scan source = .error ⟨.unterminatedString, line⟩) ↔
      TextMode.code.after source.toList = .ok .string) := by
  have htells := TextMode.tells_split source.toList
  simp only [scan, scanChars, refusal]
  cases hcut : (Lexeme.split source.toList).2 with
  | nil =>
    rw [hcut] at htells
    rcases htells with h | h <;> simp [h]
  | cons c rest =>
    rw [hcut, TextMode.Tells] at htells
    rw [htells]
    by_cases hc : c = '"' <;> simp [hc]

/-- A second slash opens a comment only in code, and a quote a string only there. -/
example : TextMode.code.after "\"//\" ///\" \n/\"".toList = .ok .string := by decide +kernel

end ExprLang
