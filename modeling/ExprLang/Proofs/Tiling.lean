/-
A scan is a tiling: the text in order as gaps and lexemes, each lexeme the longest
at its place, each gap made of blanks, line feeds and comments. What a cut takes off is
such a tiling in front of what it leaves (`Tiling.longestBefore_cut`), and the cut of a
tiling's text gives the tiling back (`Tiling.Longest.cut_text`), so a text has at most one.
-/
import ExprLang.Proofs.Longest
import ExprLang.Token.Scan

namespace ExprLang

/-- All of a token but its line. -/
def Token.content (t : Token) : Kind × String × Option Value := (t.kind, t.lexeme, t.literal)

/-! ## Gaps -/

/-- The line is over here: nothing is left of the text, or a line feed comes next. -/
def EndsLine : List Char → Prop
  | [] => True
  | c :: _ => c = '\n'

/-- What may stand between tokens, in front of the rest of the text. -/
inductive Gap : List Char → List Char → Prop
  | nil {rest} : Gap [] rest
  | white {c gap rest} : isBlank c ∨ c = '\n' → Gap gap rest → Gap (c :: gap) rest
  | comment {body gap rest} : '\n' ∉ body → EndsLine (gap ++ rest) → Gap gap rest →
      Gap ('/' :: '/' :: (body ++ gap)) rest

theorem Gap.append {gap other rest : List Char} (h : Gap gap (other ++ rest)) (h' : Gap other rest) :
    Gap (gap ++ other) rest := by
  generalize hm : other ++ rest = middle at h
  induction h with
  | nil => exact h'
  | white hc _ ih => exact .white hc (ih hm)
  | comment hb he _ ih =>
    rw [List.cons_append, List.cons_append, List.append_assoc]
    refine .comment hb ?_ (ih hm)
    rw [List.append_assoc, hm]
    exact he

/-- A comment that is the longest lexeme at its place ends with its line. -/
theorem IsLongest.endsLine {text rest : List Char} {value : Option Value}
    (h : IsLongest .comment text value rest) : EndsLine rest := by
  obtain ⟨body, rfl, hb⟩ := h.lexeme.of_comment
  cases rest with
  | nil => trivial
  | cons c rest =>
    refine Classical.byContradiction fun hc => ?_
    have hmore : '\n' ∉ body ++ [c] := by
      intro hmem
      rcases List.mem_append.1 hmem with hmem | hmem
      · exact hb hmem
      · exact hc (List.mem_singleton.1 hmem).symm
    have hlen := h.longest _ _ _ (.comment hmore) ⟨rest, by simp⟩
    simp only [List.length_cons, List.length_append, List.length_nil] at hlen
    omega

theorem Kind.isSkipped_iff {kind : Kind} :
    kind.isSkipped = true ↔ kind = .comment ∨ kind = .newLine ∨ kind = .blank := by
  cases kind <;> simp [isSkipped]

theorem IsLongest.gap {kind : Kind} {text rest : List Char} {value : Option Value}
    (h : IsLongest kind text value rest) (hs : kind.isSkipped = true) : Gap text rest := by
  rcases Kind.isSkipped_iff.1 hs with rfl | rfl | rfl
  · obtain ⟨body, rfl, hb⟩ := h.lexeme.of_comment
    have hgap : Gap ('/' :: '/' :: (body ++ [])) rest := .comment hb h.endsLine .nil
    rwa [List.append_nil] at hgap
  · rw [h.lexeme.of_newLine]
    exact .white (.inr rfl) .nil
  · have hall := h.lexeme.of_blank
    clear h
    induction text with
    | nil => exact .nil
    | cons c cs ih =>
      exact .white (.inl (hall c List.mem_cons_self)) (ih fun d hd => hall d (List.mem_cons_of_mem _ hd))

/-! ## The lexemes that gaps are made of -/

theorem isLongest_lineFeed (rest : List Char) : IsLongest .newLine ['\n'] none rest := by
  refine ⟨.lineFeed, fun k u v hl hu => ?_⟩
  obtain ⟨c, u, rfl⟩ := List.exists_cons_of_ne_nil hl.ne_nil
  obtain rfl := (List.cons_prefix_cons.1 hu).1
  have hk : k = .newLine := hl.kind_eq
  subst hk
  rw [hl.of_newLine]

theorem isLongest_blanks {c : Char} (hc : isBlank c) (cs : List Char) :
    IsLongest .blank (c :: cs.takeWhile isBlank) none (cs.dropWhile isBlank) := by
  refine ⟨.blanks (List.cons_ne_nil _ _) ?_, fun k u v hl hu => ?_⟩
  · intro d hd
    rcases List.mem_cons.1 hd with rfl | hd
    · exact hc
    · exact List.mem_takeWhile_imp hd
  · rw [List.cons_append, List.takeWhile_append_dropWhile] at hu
    obtain ⟨d, u, rfl⟩ := List.exists_cons_of_ne_nil hl.ne_nil
    obtain ⟨rfl, hfront⟩ := List.cons_prefix_cons.1 hu
    have hk : k = .blank := by
      rw [hl.kind_eq, Lexeme.frontKind_blank hc, Lexeme.kindOf_of_ne (by decide)]
    subst hk
    exact Nat.succ_le_succ (length_le_takeWhile hfront fun d hd => hl.of_blank d (List.mem_cons_of_mem _ hd))

theorem isLongest_comment {body rest : List Char} (hb : '\n' ∉ body) (he : EndsLine rest) :
    IsLongest .comment ('/' :: '/' :: body) none rest := by
  refine ⟨.comment hb, fun k u v hl hu => ?_⟩
  rw [List.cons_append, List.cons_append] at hu
  obtain ⟨c, u, rfl⟩ := List.exists_cons_of_ne_nil hl.ne_nil
  obtain ⟨rfl, hfront⟩ := List.cons_prefix_cons.1 hu
  cases u with
  | nil => exact Nat.succ_le_succ (Nat.zero_le _)
  | cons c u =>
    obtain ⟨rfl, hbody⟩ := List.cons_prefix_cons.1 hfront
    have hk : k = .comment := hl.kind_eq
    subst hk
    obtain ⟨_, heq, hub⟩ := hl.of_comment
    cases heq
    have hline : (body ++ rest).takeWhile (· != '\n') = body := by
      cases rest with
      | nil => rw [List.takeWhile_append_of_pos (bne_of_not_mem hb), List.takeWhile_nil, List.append_nil]
      | cons c rest =>
        cases he
        exact takeWhile_of_stop (bne_of_not_mem hb) (by decide) rest
    have hlen := length_le_takeWhile hbody (bne_of_not_mem hub)
    rw [hline] at hlen
    exact Nat.succ_le_succ (Nat.succ_le_succ hlen)

/-! ## Tilings -/

/-- Gaps and lexemes in turn, the lexemes with their kinds and values. -/
inductive Tiling where
  | last (gap : List Char)
  | lexeme (gap : List Char) (kind : Kind) (text : List Char) (value : Option Value) (rest : Tiling)

namespace Tiling

/-- The text that is tiled. -/
def text : Tiling → List Char
  | last gap => gap
  | lexeme gap _ text _ rest => gap ++ (text ++ rest.text)

/-- The tokens, less their lines: one for each lexeme and one for the end. -/
def contents : Tiling → List (Kind × String × Option Value)
  | last _ => [(.endOfInput, "", none)]
  | lexeme _ kind text value rest => (kind, String.ofList text, value) :: rest.contents

/-- Every lexeme is the longest at its place and none that a gap is made of. -/
inductive Longest : Tiling → Prop
  | last {gap} : Gap gap [] → Longest (last gap)
  | lexeme {gap kind text value rest} : Gap gap (text ++ rest.text) → IsLongest kind text value rest.text →
      kind.isSkipped = false → Longest rest → Longest (lexeme gap kind text value rest)

/-- More text in front of the first gap. -/
def prepend (front : List Char) : Tiling → Tiling
  | last gap => last (front ++ gap)
  | lexeme gap kind text value rest => lexeme (front ++ gap) kind text value rest

theorem text_prepend (front : List Char) (t : Tiling) : (t.prepend front).text = front ++ t.text := by
  cases t with
  | last => rfl
  | lexeme => exact List.append_assoc _ _ _

theorem contents_prepend (front : List Char) (t : Tiling) : (t.prepend front).contents = t.contents := by
  cases t <;> rfl

theorem prepend_nil (t : Tiling) : t.prepend [] = t := by
  cases t <;> rfl

theorem prepend_prepend (front more : List Char) (t : Tiling) :
    (t.prepend more).prepend front = t.prepend (front ++ more) := by
  cases t <;> simp only [prepend, List.append_assoc]

/-- The same of a part of a text, in front of the rest. -/
inductive LongestBefore (rest : List Char) : Tiling → Prop
  | last {gap} : Gap gap rest → LongestBefore rest (last gap)
  | lexeme {gap kind text value t} : Gap gap (text ++ (t.text ++ rest)) → IsLongest kind text value (t.text ++ rest) →
      kind.isSkipped = false → LongestBefore rest t → LongestBefore rest (lexeme gap kind text value t)

theorem longest_iff {t : Tiling} : t.Longest ↔ t.LongestBefore [] := by
  constructor
  · intro h
    induction h with
    | last hg => exact .last hg
    | lexeme hg hl hk _ ih =>
      refine .lexeme ?_ ?_ hk ih
      · rwa [List.append_nil]
      · rwa [List.append_nil]
  · intro h
    induction h with
    | last hg => exact .last hg
    | lexeme hg hl hk _ ih =>
      rw [List.append_nil] at hg hl
      exact .lexeme hg hl hk ih

theorem LongestBefore.prepend {rest front : List Char} {t : Tiling} (h : t.LongestBefore rest)
    (hg : Gap front (t.text ++ rest)) : (t.prepend front).LongestBefore rest := by
  cases h with
  | last hgap => exact .last (Gap.append hg hgap)
  | lexeme hgap hl hk hrest =>
    refine .lexeme (Gap.append ?_ hgap) hl hk hrest
    simpa [text] using hg

/-- The tiling that lexemes in a row are, the comments and blanks among them as gaps. -/
def ofLexemes : List Lexeme → Tiling
  | [] => last []
  | l :: ls =>
    if l.kind.isSkipped then (ofLexemes ls).prepend l.text
    else .lexeme [] l.kind l.text (Token.literalOf l.kind (String.ofList l.text)) (ofLexemes ls)

/-- The scanner makes the same tokens of the lexemes. -/
theorem contents_ofLexemes (line last : Nat) (ls : List Lexeme) :
    ((Token.ofLexemes line ls).1 ++ [Token.endOfInput last]).map Token.content = (ofLexemes ls).contents := by
  induction ls generalizing line with
  | nil => rfl
  | cons l ls ih =>
    simp only [Token.ofLexemes, ofLexemes]
    split
    · rw [contents_prepend]
      exact ih _
    · rw [contents, ← ih]
      rfl

/-- The tiling of what is cut off, with what is left. -/
def cut (cs : List Char) : Tiling × List Char := (ofLexemes (Lexeme.split cs).1, (Lexeme.split cs).2)

theorem cut_of_stuck {cs : List Char} (h : Lexeme.Stuck cs) : cut cs = (last [], cs) := by
  rw [cut, Lexeme.split_of_stuck h]
  rfl

section

variable {kind : Kind} {text rest : List Char} {value : Option Value}

theorem cut_of_skipped (h : IsLongest kind text value rest) (hk : kind.isSkipped = true) :
    cut (text ++ rest) = ((cut rest).1.prepend text, (cut rest).2) := by
  rw [cut, Lexeme.split_of_longest h]
  simp only [ofLexemes, hk, if_true]
  rfl

theorem cut_of_token (h : IsLongest kind text value rest) (hk : kind.isSkipped = false) :
    cut (text ++ rest) = (lexeme [] kind text value (cut rest).1, (cut rest).2) := by
  rw [cut, Lexeme.split_of_longest h]
  simp only [ofLexemes, hk, Bool.false_eq_true, if_false, ← h.lexeme.value_eq]
  rfl

end

/-! ## Every cut is a longest tiling -/

/-- What is cut off is a longest tiling in front of what is left. -/
theorem longestBefore_cut (cs : List Char) :
    (cut cs).1.LongestBefore (cut cs).2 ∧ (cut cs).1.text ++ (cut cs).2 = cs := by
  induction cs using Lexeme.longest_induction with
  | stuck cs hs =>
    rw [cut_of_stuck hs]
    exact ⟨.last .nil, rfl⟩
  | lexeme kind text value rest hl ih =>
    obtain ⟨hlongest, htext⟩ := ih
    by_cases hk : kind.isSkipped = true
    · rw [cut_of_skipped hl hk]
      refine ⟨hlongest.prepend ?_, by rw [text_prepend, List.append_assoc, htext]⟩
      rw [htext]
      exact hl.gap hk
    · rw [Bool.not_eq_true] at hk
      rw [cut_of_token hl hk]
      refine ⟨.lexeme .nil ?_ hk hlongest, by simp only [Tiling.text, List.nil_append, List.append_assoc, htext]⟩
      rw [htext]
      exact hl

theorem longest_cut (cs : List Char) (h : (cut cs).2 = []) : (cut cs).1.Longest ∧ (cut cs).1.text = cs := by
  obtain ⟨hlongest, htext⟩ := longestBefore_cut cs
  rw [h] at hlongest htext
  rw [List.append_nil] at htext
  exact ⟨longest_iff.2 hlongest, htext⟩

/-! ## Every longest tiling is what the cut makes of its text -/

theorem cut_blank {c : Char} (hc : isBlank c) (cs : List Char) :
    cut (c :: cs) = ((cut cs).1.prepend [c], (cut cs).2) := by
  have hlong := cut_of_skipped (isLongest_blanks hc cs) rfl
  rw [List.cons_append, List.takeWhile_append_dropWhile] at hlong
  rw [hlong]
  -- the run of blanks goes on, and then it is cut off there as a whole too
  cases cs with
  | nil => rfl
  | cons d cs =>
    by_cases hd : isBlank d
    · have hshort := cut_of_skipped (isLongest_blanks hd cs) rfl
      rw [List.cons_append, List.takeWhile_append_dropWhile] at hshort
      rw [hshort, prepend_prepend, List.takeWhile_cons_of_pos hd, List.dropWhile_cons_of_pos hd]
      rfl
    · rw [List.takeWhile_cons_of_neg hd, List.dropWhile_cons_of_neg hd]

theorem cut_gap {gap rest : List Char} (h : Gap gap rest) :
    cut (gap ++ rest) = ((cut rest).1.prepend gap, (cut rest).2) := by
  induction h with
  | nil => rw [prepend_nil]; rfl
  | @white c gap rest hc _ ih =>
    have hstep : cut (c :: (gap ++ rest)) = ((cut (gap ++ rest)).1.prepend [c], (cut (gap ++ rest)).2) := by
      rcases hc with hc | rfl
      · exact cut_blank hc _
      · exact cut_of_skipped (isLongest_lineFeed _) rfl
    rw [List.cons_append, hstep, ih, prepend_prepend]
    rfl
  | @comment body gap rest hb he _ ih =>
    have hstep := cut_of_skipped (isLongest_comment hb he) rfl
    rw [ih, prepend_prepend] at hstep
    rw [List.cons_append, List.cons_append, List.append_assoc]
    exact hstep

/-- A longest tiling in front of a text that begins with no lexeme. -/
theorem LongestBefore.cut_text {t : Tiling} {rest : List Char} (h : t.LongestBefore rest)
    (hs : Lexeme.Stuck rest) : cut (t.text ++ rest) = (t, rest) := by
  induction h with
  | last hg => rw [text, cut_gap hg, cut_of_stuck hs, Tiling.prepend, List.append_nil]
  | lexeme hg hl hk _ ih =>
    rw [text, List.append_assoc, List.append_assoc, cut_gap hg, cut_of_token hl hk, ih, Tiling.prepend,
      List.append_nil]

theorem Longest.cut_text {t : Tiling} (h : t.Longest) : cut t.text = (t, []) := by
  have hcut := (longest_iff.1 h).cut_text Lexeme.stuck_nil
  rwa [List.append_nil] at hcut

/-- A text has at most one longest tiling. -/
theorem Longest.unique {t u : Tiling} (ht : t.Longest) (hu : u.Longest) (h : t.text = u.text) : t = u := by
  have hcut := ht.cut_text
  rw [h, hu.cut_text] at hcut
  exact (congrArg Prod.fst hcut).symm

end Tiling

/-- **Scanning is longest-match tiling.** A text is scanned to tokens with these contents exactly
when it is tiled by gaps and longest lexemes whose contents they are; it is so tiled in one way
at most. -/
theorem Token.scan_iff_tiling (source : String) (contents : List (Kind × String × Option Value)) :
    ((∃ tokens, scan source = .ok tokens ∧ tokens.map Token.content = contents) ↔
      ∃ t : Tiling, t.Longest ∧ t.text = source.toList ∧ t.contents = contents) ∧
    ∀ t u : Tiling, t.Longest → u.Longest → t.text = u.text → t = u := by
  refine ⟨⟨?_, ?_⟩, fun t u ht hu => ht.unique hu⟩
  · rintro ⟨tokens, hscan, rfl⟩
    simp only [scan, scanChars] at hscan
    split at hscan
    · next hleft =>
      cases hscan
      obtain ⟨hlongest, htext⟩ := Tiling.longest_cut source.toList hleft
      exact ⟨_, hlongest, htext, (Tiling.contents_ofLexemes _ _ _).symm⟩
    · cases hscan
  · rintro ⟨t, hlongest, htext, rfl⟩
    have hcut := hlongest.cut_text
    rw [htext, Tiling.cut, Prod.mk.injEq] at hcut
    obtain ⟨hls, hleft⟩ := hcut
    let found := ofLexemes 1 (Lexeme.split source.toList).1
    refine ⟨found.1 ++ [endOfInput found.2], by simp only [scan, scanChars, hleft, found], ?_⟩
    rw [Tiling.contents_ofLexemes, hls]

end ExprLang
