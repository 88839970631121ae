/-
The listing of a text's tokens is faithful. A line of it shows a token's kind, lexeme and
value with nothing escaped, and a string may look like the end of its line and the beginning
of another; but a kind ends at its space, a string at its second quote, and any other lexeme
at its space, and the value is that of the lexeme (`Token.text_append_inj`). So texts that
are listed alike have the same tokens but for lines, and are read alike.
-/
import ExprLang.Proofs.Layout
import ExprLang.Proofs.WrittenForm

namespace ExprLang

/-! ## Kinds -/

namespace Kind

theorem name_injective : Function.Injective name := by
  intro j k h
  rw [← Option.some.injEq, ← ofName?_name j, ← ofName?_name k, h]

theorem bare_name (k : Kind) : ∀ c ∈ k.name.toList, isBare c := by
  cases k <;> exact List.all_eq_true.1 (by decide)

end Kind

/-! ## Tokens -/

namespace Token

/-- The tokens that a scan gives: those of the text, and the one that ends them. -/
def Scanned (t : Token) : Prop := t.FromText ∨ ∃ line, t = endOfInput line

theorem scanned_of_scan {source : String} {ts : List Token} (h : scan source = .ok ts) : ∀ t ∈ ts, t.Scanned := by
  obtain ⟨before, line, rfl, hbefore⟩ := scan_eq_ok h
  intro t ht
  rcases List.mem_append.1 ht with ht | ht
  · exact .inl (hbefore t ht)
  · exact .inr ⟨line, List.mem_singleton.1 ht⟩

/-- A token's value is the value of its lexeme. -/
theorem Scanned.content_eq {t u : Token} (ht : t.Scanned) (hu : u.Scanned) (hk : t.kind = u.kind)
    (hl : t.lexeme = u.lexeme) : t.content = u.content := by
  have hvalue : ∀ {t : Token}, t.Scanned → t.literal = literalOf t.kind t.lexeme := by
    rintro t (ht | ⟨line, rfl⟩)
    · rw [ht.lexeme.value_eq, String.ofList_toList]
    · rfl
  rw [content, content, hvalue ht, hvalue hu, hk, hl]

theorem Scanned.lexeme_string {t : Token} (h : t.Scanned) (hk : t.kind = .string) :
    ∃ body, t.lexeme.toList = '"' :: (body ++ ['"']) ∧ '"' ∉ body := by
  rcases h with h | ⟨line, rfl⟩
  · have hl := h.lexeme
    rw [hk] at hl
    obtain ⟨body, htext, hbody, -⟩ := hl.of_string
    exact ⟨body, htext, hbody⟩
  · cases hk

/-- There is a space in no lexeme but a string. -/
theorem Scanned.no_space {t : Token} (h : t.Scanned) (hk : t.kind ≠ .string) : ' ' ∉ t.lexeme.toList := by
  rcases h with h | ⟨line, rfl⟩
  · intro hmem
    have hs := h.not_skipped
    rcases h.lexeme.of_mem_white (.inl rfl) hmem with hkind | ⟨hkind, -⟩ | hkind | hkind
    · exact hk hkind
    · rw [hkind] at hs
      cases hs
    · rw [hkind] at hs
      cases hs
    · rw [hkind] at hs
      cases hs
  · exact List.not_mem_nil

/-- Lexemes of one kind can be told apart, and from what stands behind them and a space. -/
theorem Scanned.lexeme_append_inj {t u : Token} (ht : t.Scanned) (hu : u.Scanned) (hk : t.kind = u.kind)
    {r s : List Char} (h : t.lexeme.toList ++ ' ' :: r = u.lexeme.toList ++ ' ' :: s) :
    t.lexeme = u.lexeme ∧ r = s := by
  by_cases hstring : t.kind = .string
  · obtain ⟨body, htext, hbody⟩ := ht.lexeme_string hstring
    obtain ⟨body', htext', hbody'⟩ := hu.lexeme_string (hk ▸ hstring)
    rw [htext, htext'] at h
    simp only [List.cons_append, List.append_assoc, List.nil_append, List.cons.injEq, true_and] at h
    obtain ⟨rfl, hrest⟩ := append_inj_of_stop (bne_of_not_mem hbody) (bne_of_not_mem hbody') (by simp) (by simp) h
    refine ⟨?_, by simpa using hrest⟩
    rw [← String.toList_inj, htext, htext']
  · have hspace : ∀ rest : List Char, ∀ c ∈ (' ' :: rest).head?, ¬ (c != ' ') = true := by simp
    obtain ⟨hlexeme, hrest⟩ := append_inj_of_stop (bne_of_not_mem (ht.no_space hstring))
      (bne_of_not_mem (hu.no_space (hk ▸ hstring))) (hspace r) (hspace s) h
    exact ⟨String.toList_inj.1 hlexeme, (List.cons.inj hrest).2⟩

/-- The value of a token as it is listed. -/
def literalText (t : Token) : String := (t.literal.map Value.text).getD "null"

theorem toList_text (t : Token) : t.text.toList = "type: ".toList ++ (t.kind.name.toList ++ ' ' ::
    ("lexeme: ".toList ++ (t.lexeme.toList ++ ' ' :: ("literal: " ++ t.literalText).toList))) := by
  obtain ⟨kind, lexeme, literal, line⟩ := t
  cases literal <;> simp [text, literalText, String.toList_append]

theorem text_congr {t u : Token} (h : t.content = u.content) : t.text = u.text := by
  simp only [content, Prod.mk.injEq] at h
  simp only [text, h]

/-- **A listed token can be told from any other**, and from what stands behind it. -/
theorem text_append_inj {t u : Token} (ht : t.Scanned) (hu : u.Scanned) {r s : List Char}
    (h : t.text.toList ++ r = u.text.toList ++ s) : t.content = u.content ∧ r = s := by
  have hchars := h
  simp only [toList_text, List.append_assoc, List.cons_append] at hchars
  have hspace : ∀ rest : List Char, ∀ c ∈ (' ' :: rest).head?, ¬ isBare c := by simp [isBare]
  obtain ⟨hname, hbehind⟩ := append_inj_of_stop t.kind.bare_name u.kind.bare_name (hspace _) (hspace _)
    (List.append_cancel_left hchars)
  have hkind := Kind.name_injective (String.toList_inj.1 hname)
  obtain ⟨hlexeme, -⟩ := ht.lexeme_append_inj hu hkind (List.append_cancel_left (List.cons.inj hbehind).2)
  have hcontent := ht.content_eq hu hkind hlexeme
  -- the rest of the line is the same text in both
  rw [text_congr hcontent] at h
  exact ⟨hcontent, List.append_cancel_left h⟩

/-! ## Lists of tokens -/

/-- Tokens as the command shows them, each with a line feed behind it. -/
def listing : List Token → String
  | [] => ""
  | t :: ts => t.text ++ "\n" ++ listing ts

theorem listing_congr {ts us : List Token} (h : ts.map content = us.map content) : listing ts = listing us := by
  induction ts generalizing us with
  | nil =>
    rw [List.map_nil, eq_comm, List.map_eq_nil_iff] at h
    rw [h]
  | cons t ts ih =>
    cases us with
    | nil => cases h
    | cons u us =>
      rw [List.map_cons, List.map_cons, List.cons.injEq] at h
      rw [listing, listing, text_congr h.1, ih h.2]

/-- Tokens that are listed alike are the same but for their lines. -/
theorem content_eq_of_listing {ts us : List Token} (hts : ∀ t ∈ ts, t.Scanned) (hus : ∀ u ∈ us, u.Scanned)
    (h : listing ts = listing us) : ts.map content = us.map content := by
  rw [← String.toList_inj] at h
  induction ts generalizing us with
  | nil =>
    cases us with
    | nil => rfl
    | cons u us => simp [listing, toList_text] at h
  | cons t ts ih =>
    cases us with
    | nil => simp [listing, toList_text] at h
    | cons u us =>
      simp only [listing, String.toList_append, List.append_assoc] at h
      obtain ⟨htu, hrest⟩ := text_append_inj (hts t List.mem_cons_self) (hus u List.mem_cons_self) h
      have hmore := ih (fun t ht => hts t (List.mem_cons_of_mem _ ht)) (fun u hu => hus u (List.mem_cons_of_mem _ hu))
        (List.append_cancel_left hrest)
      exact congrArg₂ List.cons htu hmore

/-- What the command shows of tokens is their listing. -/
theorem lines_listing (ts : List Token) : lines (ts.map text) = utf8 (listing ts) := by
  induction ts with
  | nil => rfl
  | cons t ts ih =>
    rw [listing, utf8_append, ← ih]
    rfl

end Token

/-! ## Texts -/

namespace Program

/-- The texts are programs that are equal up to lines, or are refused with the same syntax error
up to its line. -/
def ReadAlike (a b : String) : Prop :=
  (∃ p q, parse a = .ok p ∧ parse b = .ok q ∧ mapLine noLine p = mapLine noLine q) ∨
    ∃ e e', parse a = .error (.syntactic e) ∧ parse b = .error (.syntactic e') ∧
      e.mapLine noLine = e'.mapLine noLine

theorem exists_syntactic {source : String} {ts : List Token} (hscan : Token.scan source = .ok ts) {error : Error}
    (h : parse source = .error error) : ∃ e, error = .syntactic e := by
  simp only [parse, hscan] at h
  split at h
  · next e _ =>
    cases h
    exact ⟨e, rfl⟩
  · cases h

/-- Texts with the same tokens but for lines are read alike. -/
theorem readAlike_of_content {a b : String} {ts us : List Token} (ha : Token.scan a = .ok ts)
    (hb : Token.scan b = .ok us) (h : ts.map Token.content = us.map Token.content) : ReadAlike a b := by
  obtain ⟨before, line, rfl, -⟩ := Token.scan_eq_ok ha
  obtain ⟨before', line', rfl, -⟩ := Token.scan_eq_ok hb
  have hparse := parse_congr ha hb Token.exists_end Token.exists_end (Token.map_noLine_eq h)
  cases hp : parse a with
  | ok p =>
    cases hq : parse b with
    | ok q =>
      rw [hp, hq] at hparse
      exact .inl ⟨p, q, hp, hq, Except.ok.inj hparse⟩
    | error e =>
      rw [hp, hq] at hparse
      cases hparse
  | error e =>
    obtain ⟨e, rfl⟩ := exists_syntactic ha hp
    cases hq : parse b with
    | ok q =>
      rw [hp, hq] at hparse
      cases hparse
    | error e' =>
      obtain ⟨e', rfl⟩ := exists_syntactic hb hq
      rw [hp, hq] at hparse
      exact .inr ⟨e, e', hp, hq, Error.syntactic.inj (Except.error.inj hparse)⟩

end Program

namespace Token

/-- **The listing of tokens is faithful.** Texts whose tokens are listed alike have the same tokens
but for lines, and no others are; they are the same program or are refused with the same error, up
to lines. The command shows the listing, so it shows as much. -/
theorem listing_faithful {a b : String} {ts us : List Token} (ha : scan a = .ok ts) (hb : scan b = .ok us) :
    (listing ts = listing us ↔ ts.map content = us.map content) ∧
    (listing ts = listing us → Program.ReadAlike a b) ∧
    (Mode.tokens.respond a = { stdout := utf8 (listing ts) }) ∧
    (Mode.tokens.respond a = Mode.tokens.respond b ↔ listing ts = listing us) := by
  have hcontent : listing ts = listing us → ts.map content = us.map content :=
    content_eq_of_listing (scanned_of_scan ha) (scanned_of_scan hb)
  have hshown : ∀ {source ts}, scan source = .ok ts → Mode.tokens.respond source = { stdout := utf8 (listing ts) } := by
    intro source ts h
    simp only [Mode.respond, h, lines_listing]
  refine ⟨⟨hcontent, listing_congr⟩, fun h => Program.readAlike_of_content ha hb (hcontent h), hshown ha, ?_⟩
  rw [hshown ha, hshown hb, Response.mk.injEq]
  exact ⟨fun h => utf8_injective h.1, fun h => ⟨by rw [h], rfl, rfl⟩⟩

/-- A string that imitates the end of a line of the listing and the beginning of the next. -/
def imitatingLine (gap : String) : String := "\" literal: a\ntype: EOF\"" ++ gap ++ ";"

/-- Its tokens, the last two on that line. -/
def imitatingLineTokens (line : Nat) : List Token :=
  [ofLexeme .string "\" literal: a\ntype: EOF\"" 2, ofLexeme .semicolon ";" line, endOfInput line]

theorem imitatingLine_faithful :
    (scan (imitatingLine " ") = .ok (imitatingLineTokens 2) ∧ scan (imitatingLine "\n") = .ok (imitatingLineTokens 3) ∧
      listing (imitatingLineTokens 2) = listing (imitatingLineTokens 3)) ∧
    (imitatingLineTokens 2).map content = (imitatingLineTokens 3).map content ∧
    Program.ReadAlike (imitatingLine " ") (imitatingLine "\n") ∧
    Mode.tokens.respond (imitatingLine " ") = Mode.tokens.respond (imitatingLine "\n") := by
  have ha : scan (imitatingLine " ") = .ok (imitatingLineTokens 2) := by decide +kernel
  have hb : scan (imitatingLine "\n") = .ok (imitatingLineTokens 3) := by decide +kernel
  have hlisting : listing (imitatingLineTokens 2) = listing (imitatingLineTokens 3) := by decide +kernel
  obtain ⟨hcontent, hread, -, hshown⟩ := listing_faithful ha hb
  exact ⟨⟨ha, hb, hlisting⟩, hcontent.1 hlisting, hread hlisting, hshown.2 hlisting⟩

end Token
end ExprLang
