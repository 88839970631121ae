/-
Layout makes no difference. The lexemes of a text, set with any white space and
comments between them, scan to the same tokens but for their lines
(`Token.scan_laidOut`); so the new text is the same program as the old one but for
lines, and runs alike (`Program.layout_indifferent`).
-/
import ExprLang.Proofs.Scanning

namespace ExprLang

/-! ## Layout -/

/-- White space, and comments that end with their line. -/
inductive Layout : List Char → Prop
  | nil : Layout []
  | white {c cs} : IsWhite c → Layout cs → Layout (c :: cs)
  | comment {body cs} : '\n' ∉ body → Layout cs → Layout ('/' :: '/' :: (body ++ '\n' :: cs))

/-- Nothing, or what begins with white space. -/
def WhiteFirst (cs : List Char) : Prop := ∀ c ∈ cs.head?, IsWhite c

/-- Texts set apart: what stands behind another text, if there is layout in front of each
of these and at the end. The layout between two texts is not empty. -/
inductive LaidBehind : List (List Char) → List Char → Prop
  | last {gap} : Layout gap → WhiteFirst gap → LaidBehind [] gap
  | text {gap text texts rest} : Layout gap → WhiteFirst gap → gap ≠ [] → LaidBehind texts rest →
      LaidBehind (text :: texts) (gap ++ (text ++ rest))

/-- Texts set apart, with layout in front of the first. -/
inductive LaidOut : List (List Char) → List Char → Prop
  | none {gap} : Layout gap → LaidOut [] gap
  | text {gap text texts rest} : Layout gap → LaidBehind texts rest → LaidOut (text :: texts) (gap ++ (text ++ rest))

theorem Layout.gap {cs : List Char} (h : Layout cs) (rest : List Char) : Gap cs rest := by
  induction h with
  | nil => exact .nil
  | white hc _ ih => exact .white hc ih
  | comment hb _ ih => exact .comment hb rfl (.white (.inr rfl) ih)

theorem LaidBehind.whiteFirst {texts : List (List Char)} {cs : List Char} (h : LaidBehind texts cs) : WhiteFirst cs := by
  cases h with
  | last _ hw => exact hw
  | @text gap text texts rest _ hw hne _ =>
    obtain ⟨c, gap, rfl⟩ := List.exists_cons_of_ne_nil hne
    exact hw

/-! ## The tokens of texts set apart -/

namespace Tiling

/-- The tokens of a scan up to their lines. -/
def contentsOf (before : List Token) : List (Kind × String × Option Value) :=
  before.map Token.content ++ [(.endOfInput, "", none)]

/-- The text is tiled with these tokens. -/
def Tiles (before : List Token) (cs : List Char) : Prop :=
  ∃ t : Tiling, t.Longest ∧ t.text = cs ∧ t.contents = contentsOf before

theorem tiles_nil {gap : List Char} (h : Layout gap) : Tiles [] gap := ⟨last gap, .last (h.gap []), rfl, rfl⟩

/-- A token in front, with layout before it and white space behind. -/
theorem tiles_cons {t : Token} (ht : t.FromText) {gap : List Char} (hgap : Layout gap) {before : List Token}
    {cs : List Char} (hw : WhiteFirst cs) (h : Tiles before cs) :
    Tiles (t :: before) (gap ++ (t.lexeme.toList ++ cs)) := by
  obtain ⟨tiling, hlong, rfl, hcontents⟩ := h
  have hlexeme := ht.lexeme.longest_before_white ht.not_skipped hw
  refine ⟨lexeme gap t.kind t.lexeme.toList t.literal tiling, ?_, rfl, ?_⟩
  · exact .lexeme (hgap.gap _) hlexeme ht.not_skipped hlong
  · rw [contents, String.ofList_toList, hcontents]
    rfl

theorem tiles_of_laidBehind {before : List Token} (hbefore : ∀ t ∈ before, t.FromText) {cs : List Char}
    (h : LaidBehind (before.map (·.lexeme.toList)) cs) : Tiles before cs := by
  induction before generalizing cs with
  | nil =>
    cases h with
    | last hgap _ => exact tiles_nil hgap
  | cons t before ih =>
    cases h with
    | text hgap _ _ hrest =>
      have hin := ih (fun t ht => hbefore t (List.mem_cons_of_mem _ ht)) hrest
      exact tiles_cons (hbefore t List.mem_cons_self) hgap hrest.whiteFirst hin

theorem tiles_of_laidOut {before : List Token} (hbefore : ∀ t ∈ before, t.FromText) {cs : List Char}
    (h : LaidOut (before.map (·.lexeme.toList)) cs) : Tiles before cs := by
  cases before with
  | nil =>
    cases h with
    | none hgap => exact tiles_nil hgap
  | cons t before =>
    cases h with
    | text hgap hrest =>
      have hin := tiles_of_laidBehind (fun t ht => hbefore t (List.mem_cons_of_mem _ ht)) hrest
      exact tiles_cons (hbefore t List.mem_cons_self) hgap hrest.whiteFirst hin

/-- A longest tiling is what its text scans to. -/
theorem Longest.scanChars {t : Tiling} (h : t.Longest) :
    ∃ tokens, Token.scanChars t.text = .ok tokens ∧ tokens.map Token.content = t.contents := by
  have hcut := h.cut_text
  rw [cut, Prod.mk.injEq] at hcut
  refine ⟨_, Token.scanChars_eq_ok.2 ⟨hcut.2, rfl⟩, ?_⟩
  rw [contents_ofLexemes, hcut.1]

end Tiling

/-- **Tokens set apart anew scan to themselves**, but for their lines. -/
theorem Token.scan_laidOut {before : List Token} (hbefore : ∀ t ∈ before, t.FromText) {source : String}
    (h : LaidOut (before.map (·.lexeme.toList)) source.toList) :
    ∃ tokens, scan source = .ok tokens ∧ tokens.map content = Tiling.contentsOf before := by
  obtain ⟨t, hlong, htext, hcontents⟩ := Tiling.tiles_of_laidOut hbefore h
  rw [← hcontents, scan, ← htext]
  exact hlong.scanChars

/-! ## Spaces -/

theorem laidBehind_spaces (texts : List (List Char)) : LaidBehind texts (texts.flatMap (' ' :: ·)) := by
  induction texts with
  | nil => exact .last .nil (by simp [WhiteFirst])
  | cons text texts ih =>
    have hwhite : IsWhite ' ' := .inl (by decide)
    exact .text (.white hwhite .nil) (by simpa [WhiteFirst] using hwhite) (List.cons_ne_nil _ _) ih

theorem intercalate_space (text : List Char) (texts : List (List Char)) :
    [' '].intercalate (text :: texts) = text ++ texts.flatMap (' ' :: ·) := by
  induction texts generalizing text with
  | nil => simp
  | cons next texts ih => simp [List.intercalate_cons_cons, ih]

theorem laidOut_spaces (texts : List String) :
    LaidOut (texts.map String.toList) (String.intercalate " " texts).toList := by
  rw [String.toList_intercalate]
  cases texts with
  | nil => exact .none .nil
  | cons text texts =>
    show LaidOut _ ([' '].intercalate (text.toList :: texts.map String.toList))
    rw [intercalate_space]
    exact .text .nil (laidBehind_spaces (texts.map String.toList))

/-! ## Programs -/

theorem Token.mapLine_noLine_eq {t u : Token} (h : t.content = u.content) : t.mapLine noLine = u.mapLine noLine := by
  obtain ⟨kind, lexeme, literal, line⟩ := t
  obtain ⟨kind', lexeme', literal', line'⟩ := u
  simp only [content, Prod.mk.injEq] at h
  obtain ⟨rfl, rfl, rfl⟩ := h
  rfl

theorem Token.map_noLine_eq {ts us : List Token} (h : ts.map content = us.map content) :
    ts.map (mapLine noLine) = us.map (mapLine noLine) := by
  induction ts generalizing us with
  | nil =>
    rw [List.map_nil, eq_comm, List.map_eq_nil_iff] at h
    rw [h]
  | cons t ts ih =>
    cases us with
    | nil => cases h
    | cons u us =>
      rw [List.map_cons, List.map_cons, List.cons.injEq] at h
      rw [List.map_cons, List.map_cons, mapLine_noLine_eq h.1, ih h.2]

/-- **Layout makes no difference.** A text with the same lexemes, set apart by any layout, scans to
the same tokens, is the same program or is refused with the same error, and runs alike, up to lines;
the lexemes with a space between each two are such a text. -/
theorem Program.layout_indifferent {source : String} {tokens : List Token} (hscan : Token.scan source = .ok tokens) :
    (∀ other : String, LaidOut ((beforeEnd tokens).map (·.lexeme.toList)) other.toList →
      (∃ tokens', Token.scan other = .ok tokens' ∧ tokens'.map Token.content = tokens.map Token.content) ∧
      mapResult noLine (parse other) = mapResult noLine (parse source) ∧
      ∀ sink : Sink, (run other sink).mapFailure (Error.mapLine noLine) =
        (run source sink).mapFailure (Error.mapLine noLine)) ∧
    ∃ tokens', Token.scan (String.intercalate " " ((beforeEnd tokens).map (·.lexeme))) = .ok tokens' ∧
      tokens'.map Token.content = tokens.map Token.content := by
  obtain ⟨before, line, rfl, hbefore⟩ := Token.scan_eq_ok hscan
  have hcontents : (before ++ [Token.endOfInput line]).map Token.content = Tiling.contentsOf before := List.map_append
  rw [Token.beforeEnd_scan hbefore, hcontents]
  refine ⟨fun other hout => ?_, Token.scan_laidOut hbefore ?_⟩
  · obtain ⟨tokens', hother, hcontents'⟩ := Token.scan_laidOut hbefore hout
    obtain ⟨before', line', rfl, -⟩ := Token.scan_eq_ok hother
    have hlines := Token.map_noLine_eq (hcontents'.trans hcontents.symm)
    have hparse := parse_congr hother hscan Token.exists_end Token.exists_end hlines
    exact ⟨⟨_, hother, hcontents'⟩, hparse, run_congr hparse⟩
  · have hspaces := laidOut_spaces (before.map (·.lexeme))
    rwa [List.map_map] at hspaces

/-- A statement without layout, and the same with comments and line feeds. -/
def narrow : String := "print\"a\n\";"

def narrowTokens : List Token :=
  [⟨.printWord, "print", none, 1⟩, ⟨.string, "\"a\n\"", some (.string "a\n"), 2⟩, ⟨.semicolon, ";", none, 2⟩,
    Token.endOfInput 2]

def wide : String := "// x\nprint\n\"a\n\" //;\n;"

theorem laidOut_wide : LaidOut ["print".toList, "\"a\n\"".toList, ";".toList] wide.toList := by
  have hspace : IsWhite ' ' := .inl (by decide)
  have hlineFeed : IsWhite '\n' := .inr rfl
  have hfirst : Layout ('/' :: '/' :: (" x".toList ++ ['\n'])) := .comment (by decide) .nil
  have hinside : Layout ('/' :: '/' :: ([';'] ++ ['\n'])) := .comment (by decide) .nil
  have hlast : LaidBehind [] [] := .last .nil (by simp [WhiteFirst])
  have hend : LaidBehind [";".toList] " //;\n;".toList :=
    .text (.white hspace hinside) (by simpa [WhiteFirst] using hspace) (List.cons_ne_nil _ _) hlast
  exact .text hfirst (.text (.white hlineFeed .nil) (by simpa [WhiteFirst] using hlineFeed) (List.cons_ne_nil _ _) hend)

theorem Program.wide_indifferent : Token.scan narrow = .ok narrowTokens ∧
    (∃ tokens, Token.scan wide = .ok tokens ∧ tokens.map Token.content = narrowTokens.map Token.content) ∧
    mapResult noLine (parse wide) = mapResult noLine (parse narrow) ∧
    ∀ sink : Sink, (run wide sink).mapFailure (Error.mapLine noLine) =
      (run narrow sink).mapFailure (Error.mapLine noLine) := by
  have hscan : Token.scan narrow = .ok narrowTokens := by decide +kernel
  exact ⟨hscan, (layout_indifferent hscan).1 wide laidOut_wide⟩

end ExprLang
