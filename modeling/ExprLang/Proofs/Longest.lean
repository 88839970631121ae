/-
The longest lexeme: what `Shape.length?` finds is the longest text of the shape at
the front (`Shape.length?_longest`), and what `Lexeme.split` cuts off is the longest
lexeme of any kind (`Lexeme.split_of_longest`). It stops only where none begins.
-/
import Mathlib.Data.List.TakeWhile
import ExprLang.Proofs.Lexicon

namespace ExprLang

/-! ## Runs of characters -/

section Runs

variable {p : Char → Bool} {cs u : List Char}

theorem length_le_takeWhile (hu : u <+: cs) (h : ∀ c ∈ u, p c) : u.length ≤ (cs.takeWhile p).length := by
  obtain ⟨r, rfl⟩ := hu
  rw [List.takeWhile_append_of_pos h, List.length_append]
  exact Nat.le_add_right _ _

theorem takeWhile_of_stop {c : Char} (h : ∀ d ∈ u, p d) (hc : ¬ p c) (r : List Char) :
    (u ++ c :: r).takeWhile p = u := by
  rw [List.takeWhile_append_of_pos h, List.takeWhile_cons_of_neg hc, List.append_nil]

theorem dropWhile_of_stop {c : Char} (h : ∀ d ∈ u, p d) (hc : ¬ p c) (r : List Char) :
    (u ++ c :: r).dropWhile p = c :: r := by
  rw [List.dropWhile_append_of_pos h, List.dropWhile_cons_of_neg hc]

theorem exists_stop (h : (cs.takeWhile p).length < cs.length) :
    ∃ c r, cs = cs.takeWhile p ++ c :: r ∧ ¬ p c := by
  have hsplit := List.takeWhile_append_dropWhile (p := p) (l := cs)
  have hne : cs.dropWhile p ≠ [] := by
    intro hnil
    rw [hnil, List.append_nil] at hsplit
    rw [hsplit] at h
    exact Nat.lt_irrefl _ h
  refine ⟨(cs.dropWhile p).head hne, (cs.dropWhile p).tail, ?_, ?_⟩
  · rw [List.cons_head_tail, hsplit]
  · rw [List.head_dropWhile_not p hne]
    exact Bool.false_ne_true

/-- Everything but one character. -/
theorem bne_of_not_mem {c : Char} (h : c ∉ u) : ∀ d ∈ u, (d != c) = true := by
  intro d hd
  rw [bne_iff_ne]
  rintro rfl
  exact h hd

theorem not_mem_takeWhile (c : Char) (cs : List Char) : c ∉ cs.takeWhile (· != c) := by
  intro h
  simpa using List.mem_takeWhile_imp h

end Runs

/-! ## The longest text of a shape -/

/-- The length of the longest text at the front of `cs` that has the property; none if
no text there has it. -/
def LongestMatch (P : List Char → Prop) (cs : List Char) : Option Nat → Prop
  | none => ∀ u, u <+: cs → ¬ P u
  | some n => (∃ u, u <+: cs ∧ P u ∧ u.length = n) ∧ ∀ u, u <+: cs → P u → u.length ≤ n

theorem LongestMatch.congr {P Q : List Char → Prop} {cs : List Char} {a : Option Nat} (h : LongestMatch P cs a)
    (hpq : ∀ u, u <+: cs → (P u ↔ Q u)) : LongestMatch Q cs a := by
  cases a with
  | none => exact fun u hu hq => h u hu ((hpq u hu).2 hq)
  | some n =>
    obtain ⟨⟨u, hu, hp, hlen⟩, hmax⟩ := h
    exact ⟨⟨u, hu, (hpq u hu).1 hp, hlen⟩, fun v hv hq => hmax v hv ((hpq v hv).2 hq)⟩

/-- The longest text with either of two properties is the longer of the longest with each. -/
theorem LongestMatch.or {P Q : List Char → Prop} {cs : List Char} {a b : Option Nat} (ha : LongestMatch P cs a)
    (hb : LongestMatch Q cs b) : LongestMatch (fun u => P u ∨ Q u) cs (max a b) := by
  cases a with
  | none =>
    rw [Option.max_none_left]
    exact hb.congr fun u hu => ⟨.inr, fun h => h.resolve_left (ha u hu)⟩
  | some n =>
    cases b with
    | none =>
      rw [Option.max_none_right]
      exact ha.congr fun u hu => ⟨.inl, fun h => h.resolve_right (hb u hu)⟩
    | some m =>
      obtain ⟨⟨u, hu, hm, hlen⟩, hmax⟩ := ha
      obtain ⟨⟨u', hu', hm', hlen'⟩, hmax'⟩ := hb
      rw [Option.max_some_some]
      constructor
      · by_cases h : m ≤ n
        · exact ⟨u, hu, .inl hm, by omega⟩
        · exact ⟨u', hu', .inr hm', by omega⟩
      · intro v hv h
        rcases h with h | h
        · exact (hmax v hv h).trans (Nat.le_max_left n m)
        · exact (hmax' v hv h).trans (Nat.le_max_right n m)

/-- The longest run of characters of a class. -/
theorem longestMatch_run (p : Char → Bool) (cs : List Char) :
    LongestMatch (fun u => u ≠ [] ∧ ∀ c ∈ u, p c) cs
      (if cs.takeWhile p = [] then none else some (cs.takeWhile p).length) := by
  split
  · next h =>
    intro u hu hm
    obtain ⟨hne, hp⟩ := hm
    have hlen := length_le_takeWhile hu hp
    rw [h] at hlen
    exact hne (List.eq_nil_of_length_eq_zero (Nat.le_zero.1 hlen))
  · next h =>
    refine ⟨⟨_, List.takeWhile_prefix p, ⟨h, fun c hc => List.mem_takeWhile_imp hc⟩, rfl⟩, ?_⟩
    exact fun u hu hp => length_le_takeWhile hu hp.2

namespace Shape

theorem symbol_longest (spelling cs : List Char) :
    LongestMatch (symbol spelling).Matches cs ((symbol spelling).length? cs) := by
  simp only [length?]
  split
  · next h =>
    refine ⟨⟨spelling, List.isPrefixOf_iff_prefix.1 h, rfl, rfl⟩, ?_⟩
    intro u _ hm
    subst hm
    exact Nat.le_refl _
  · next h =>
    intro u hu hm
    subst hm
    exact h (List.isPrefixOf_iff_prefix.2 hu)

theorem word_longest (cs : List Char) : LongestMatch word.Matches cs (word.length? cs) := by
  cases cs with
  | nil =>
    intro u hu hm
    obtain ⟨c, rest, rfl, -⟩ := hm
    exact List.cons_ne_nil _ _ (List.prefix_nil.1 hu)
  | cons c cs =>
    simp only [length?]
    split
    · next h =>
      refine ⟨⟨c :: cs.takeWhile isWordChar, ?_, ⟨c, _, rfl, h, ?_⟩, ?_⟩, ?_⟩
      · exact List.cons_prefix_cons.2 ⟨rfl, List.takeWhile_prefix _⟩
      · exact fun d hd => List.mem_takeWhile_imp hd
      · rw [List.length_cons, Nat.add_comm]
      · intro u hu hm
        obtain ⟨d, rest, rfl, -, hrest⟩ := hm
        have hlen := length_le_takeWhile (List.cons_prefix_cons.1 hu).2 hrest
        rw [List.length_cons]
        omega
    · next h =>
      intro u hu hm
      obtain ⟨d, rest, rfl, hd, -⟩ := hm
      rw [(List.cons_prefix_cons.1 hu).1] at hd
      exact h hd

/-- The run up to the first quote is the body of every quoted text. -/
theorem quoted_body {rest u : List Char} (hu : u <+: '"' :: rest) (hm : quoted.Matches u) :
    u.length = (rest.takeWhile (· != '"')).length + 2 ∧ (rest.takeWhile (· != '"')).length < rest.length := by
  obtain ⟨body, rfl, hb⟩ := hm
  obtain ⟨r, hr⟩ := (List.cons_prefix_cons.1 hu).2
  rw [List.append_assoc] at hr
  have htake : rest.takeWhile (· != '"') = body := by
    rw [← hr]
    exact takeWhile_of_stop (bne_of_not_mem hb) (by decide) r
  rw [htake, ← hr]
  constructor
  · simp
  · simp

theorem quoted_longest (cs : List Char) : LongestMatch quoted.Matches cs (quoted.length? cs) := by
  by_cases hq : ∃ rest, cs = '"' :: rest
  · obtain ⟨rest, rfl⟩ := hq
    simp only [length?]
    split
    · next h =>
      obtain ⟨c, r, hrest, hc⟩ := exists_stop h
      have hc : c = '"' := by simpa using hc
      subst hc
      refine ⟨⟨'"' :: (rest.takeWhile (· != '"') ++ ['"']), ?_, ⟨_, rfl, not_mem_takeWhile _ _⟩, by simp⟩, ?_⟩
      · refine List.cons_prefix_cons.2 ⟨rfl, r, ?_⟩
        rw [List.append_assoc]
        exact hrest.symm
      · exact fun u hu hm => (quoted_body hu hm).1.le
    · next h => exact fun u hu hm => h (quoted_body hu hm).2
  · have hnone : quoted.length? cs = none := by
      rw [length?]
      exact fun rest h => hq ⟨rest, h⟩
    rw [hnone]
    intro u hu hm
    obtain ⟨r, rfl⟩ := hu
    obtain ⟨body, rfl, -⟩ := hm
    exact hq ⟨_, rfl⟩

/-- The run of digits in front is the whole part of every decimal. -/
theorem decimal_whole {cs u : List Char} (hu : u <+: cs) (hm : decimal.Matches u) :
    ∃ fraction r, cs.dropWhile Char.isDigit = '.' :: (fraction ++ r) ∧
      u = cs.takeWhile Char.isDigit ++ '.' :: fraction ∧ cs.takeWhile Char.isDigit ≠ [] ∧ fraction ≠ [] ∧
      ∀ d ∈ fraction, d.isDigit := by
  obtain ⟨r, rfl⟩ := hu
  obtain ⟨whole, fraction, rfl, hw, hf, hwd, hfd⟩ := hm
  refine ⟨fraction, r, ?_⟩
  rw [List.append_assoc, List.cons_append, takeWhile_of_stop hwd (by decide), dropWhile_of_stop hwd (by decide)]
  exact ⟨rfl, rfl, hw, hf, hfd⟩

theorem decimal_longest (cs : List Char) : LongestMatch decimal.Matches cs (decimal.length? cs) := by
  simp only [length?]
  split
  · next rest hrest =>
    split
    · next h =>
      intro u hu hm
      obtain ⟨fraction, r, hd, -, hw, hf, hfd⟩ := decimal_whole hu hm
      rw [hrest] at hd
      have hlen := length_le_takeWhile (⟨r, (List.cons.inj hd).2.symm⟩ : fraction <+: rest) hfd
      rcases h with h | h
      · exact hw h
      · rw [h] at hlen
        exact hf (List.eq_nil_of_length_eq_zero (Nat.le_zero.1 hlen))
    · next h =>
      rw [not_or] at h
      refine ⟨⟨cs.takeWhile Char.isDigit ++ '.' :: rest.takeWhile Char.isDigit, ?_, ?_, ?_⟩, ?_⟩
      · refine ⟨rest.dropWhile Char.isDigit, ?_⟩
        rw [List.append_assoc, List.cons_append, List.takeWhile_append_dropWhile, ← hrest,
          List.takeWhile_append_dropWhile]
      · exact ⟨_, _, rfl, h.1, h.2, fun d hd => List.mem_takeWhile_imp hd, fun d hd => List.mem_takeWhile_imp hd⟩
      · rw [List.length_append, List.length_cons]
        omega
      · intro u hu hm
        obtain ⟨fraction, r, hd, rfl, -, -, hfd⟩ := decimal_whole hu hm
        rw [hrest] at hd
        have hlen := length_le_takeWhile (⟨r, (List.cons.inj hd).2.symm⟩ : fraction <+: rest) hfd
        rw [List.length_append, List.length_cons]
        omega
  · next hne =>
    intro u hu hm
    obtain ⟨fraction, r, hd, -⟩ := decimal_whole hu hm
    exact hne _ hd

theorem comment_longest (cs : List Char) : LongestMatch comment.Matches cs (comment.length? cs) := by
  by_cases hs : ∃ rest, cs = '/' :: '/' :: rest
  · obtain ⟨rest, rfl⟩ := hs
    simp only [length?]
    refine ⟨⟨'/' :: '/' :: rest.takeWhile (· != '\n'), ?_, ⟨_, rfl, not_mem_takeWhile _ _⟩, ?_⟩, ?_⟩
    · exact List.cons_prefix_cons.2 ⟨rfl, List.cons_prefix_cons.2 ⟨rfl, List.takeWhile_prefix _⟩⟩
    · rw [List.length_cons, List.length_cons]
      omega
    · intro u hu hm
      obtain ⟨body, rfl, hb⟩ := hm
      have hbody := (List.cons_prefix_cons.1 (List.cons_prefix_cons.1 hu).2).2
      have hlen := length_le_takeWhile hbody (bne_of_not_mem hb)
      rw [List.length_cons, List.length_cons]
      omega
  · have hnone : comment.length? cs = none := by
      rw [length?]
      exact fun rest h => hs ⟨rest, h⟩
    rw [hnone]
    intro u hu hm
    obtain ⟨r, rfl⟩ := hu
    obtain ⟨body, rfl, -⟩ := hm
    exact hs ⟨_, rfl⟩

theorem lineFeed_longest (cs : List Char) : LongestMatch lineFeed.Matches cs (lineFeed.length? cs) := by
  by_cases hl : ∃ rest, cs = '\n' :: rest
  · obtain ⟨rest, rfl⟩ := hl
    refine ⟨⟨['\n'], ⟨rest, rfl⟩, rfl, rfl⟩, ?_⟩
    intro u _ hm
    subst hm
    exact Nat.le_refl _
  · have hnone : lineFeed.length? cs = none := by
      rw [length?]
      exact fun rest h => hl ⟨rest, h⟩
    rw [hnone]
    intro u hu hm
    obtain ⟨r, rfl⟩ := hu
    subst hm
    exact hl ⟨_, rfl⟩

theorem length?_longest (shape : Shape) (cs : List Char) : LongestMatch shape.Matches cs (shape.length? cs) := by
  cases shape with
  | symbol spelling => exact symbol_longest spelling cs
  | word => exact word_longest cs
  | quoted => exact quoted_longest cs
  | digits => exact longestMatch_run Char.isDigit cs
  | decimal => exact decimal_longest cs
  | comment => exact comment_longest cs
  | lineFeed => exact lineFeed_longest cs
  | blanks => exact longestMatch_run isBlank cs

end Shape

/-! ## The longest lexeme -/

/-- The longest lexeme at the front of `text ++ rest` is `text`, of this kind and value. -/
structure IsLongest (kind : Kind) (text : List Char) (value : Option Value) (rest : List Char) : Prop where
  lexeme : IsLexeme kind text value
  longest : ∀ k u v, IsLexeme k u v → u <+: text ++ rest → u.length ≤ text.length

namespace Lexeme

/-- A text of one of the rules. -/
def MatchesRule (rs : List (Shape × Kind)) (u : List Char) : Prop := ∃ shape k, (shape, k) ∈ rs ∧ shape.Matches u

theorem matchesRule_cons {shape : Shape} {kind : Kind} {rs : List (Shape × Kind)} {u : List Char} :
    MatchesRule ((shape, kind) :: rs) u ↔ shape.Matches u ∨ MatchesRule rs u := by
  constructor
  · intro h
    obtain ⟨s, k, hr, hm⟩ := h
    rcases List.mem_cons.1 hr with heq | hr
    · cases heq
      exact .inl hm
    · exact .inr ⟨s, k, hr, hm⟩
  · intro h
    rcases h with hm | ⟨s, k, hr, hm⟩
    · exact ⟨shape, kind, List.mem_cons_self, hm⟩
    · exact ⟨s, k, List.mem_cons_of_mem _ hr, hm⟩

theorem longestOf_length_cons (shape : Shape) (kind : Kind) (rs : List (Shape × Kind)) (cs : List Char) :
    (longestOf ((shape, kind) :: rs) cs).map (·.1) = max (shape.length? cs) ((longestOf rs cs).map (·.1)) := by
  simp only [longestOf]
  split
  · next hs => rw [hs, Option.max_none_left]
  · next hs hbest => rw [hs, hbest]; rfl
  · next n m other hs hbest =>
    rw [hs, hbest, Option.map_some, Option.max_some_some]
    split
    · next h => rw [Nat.max_eq_left h]; rfl
    · next h => rw [Nat.max_eq_right (Nat.le_of_not_le h)]; rfl

/-- What `longestOf` finds is as long as the longest text of any of the rules. -/
theorem longestOf_longest (rs : List (Shape × Kind)) (cs : List Char) :
    LongestMatch (MatchesRule rs) cs ((longestOf rs cs).map (·.1)) := by
  induction rs with
  | nil =>
    intro u _ hm
    obtain ⟨_, _, hr, -⟩ := hm
    cases hr
  | cons r rs ih =>
    rw [longestOf_length_cons]
    exact ((r.1.length?_longest cs).or ih).congr fun u _ => matchesRule_cons.symm

/-- The kind that `longestOf` finds is that of a rule with a text of this length. -/
theorem longestOf_kind {rs : List (Shape × Kind)} {cs : List Char} {n : Nat} {kind : Kind}
    (h : longestOf rs cs = some (n, kind)) : ∃ shape, (shape, kind) ∈ rs ∧ shape.length? cs = some n := by
  induction rs with
  | nil => cases h
  | cons r rs ih =>
    have hrest : longestOf rs cs = some (n, kind) → ∃ shape, (shape, kind) ∈ r :: rs ∧ shape.length? cs = some n := by
      intro h
      obtain ⟨shape, hr, hn⟩ := ih h
      exact ⟨shape, List.mem_cons_of_mem _ hr, hn⟩
    simp only [longestOf] at h
    split at h
    · exact hrest h
    · next hs _ =>
      cases h
      exact ⟨r.1, List.mem_cons_self, hs⟩
    · next hs hbest =>
      split at h
      · cases h
        exact ⟨r.1, List.mem_cons_self, hs⟩
      · exact hrest (hbest.trans h)

/-- No lexeme stands at the front. -/
def Stuck (cs : List Char) : Prop := ∀ kind text value, IsLexeme kind text value → ¬ text <+: cs

theorem stuck_nil : Stuck [] := fun _ _ _ h hp => h.ne_nil (List.prefix_nil.1 hp)

theorem matchesRule_of_isLexeme {kind : Kind} {text : List Char} {value : Option Value}
    (h : IsLexeme kind text value) : MatchesRule rules text := by
  obtain ⟨shape, k, hr, hm, -⟩ := h.exists_rule
  exact ⟨shape, k, hr, hm⟩

theorem stuck_of_longestOf {cs : List Char} (h : longestOf rules cs = none) : Stuck cs := by
  have hnone := longestOf_longest rules cs
  rw [h] at hnone
  exact fun kind text value hl hp => hnone text hp (matchesRule_of_isLexeme hl)

theorem isLongest_of_longestOf {cs : List Char} {n : Nat} {k : Kind} (h : longestOf rules cs = some (n, k)) :
    ∃ text rest value, cs = text ++ rest ∧ text.length = n ∧ IsLongest (kindOf k text) text value rest := by
  obtain ⟨shape, hr, hn⟩ := longestOf_kind h
  have hshape := shape.length?_longest cs
  have hall := longestOf_longest rules cs
  rw [hn] at hshape
  rw [h] at hall
  obtain ⟨text, ⟨rest, rfl⟩, hm, rfl⟩ := hshape.1
  exact ⟨text, rest, _, rfl, rfl, .of_rule hr hm, fun k' u v hl hp => hall.2 u hp (matchesRule_of_isLexeme hl)⟩

end Lexeme

open Lexeme in
theorem IsLongest.longestOf_eq {kind : Kind} {text rest : List Char} {value : Option Value}
    (h : IsLongest kind text value rest) :
    ∃ k, longestOf rules (text ++ rest) = some (text.length, k) ∧ kindOf k text = kind := by
  cases hbest : longestOf rules (text ++ rest) with
  | none => exact absurd (List.prefix_append text rest) (stuck_of_longestOf hbest _ _ _ h.lexeme)
  | some best =>
    obtain ⟨n, k⟩ := best
    obtain ⟨u, r, v, hu, hlen, hbest⟩ := isLongest_of_longestOf hbest
    have hle : u.length ≤ text.length := h.longest _ _ _ hbest.lexeme ⟨r, hu.symm⟩
    have hge : text.length ≤ u.length := hbest.longest _ _ _ h.lexeme ⟨rest, hu⟩
    have heq : text = u := List.append_inj_left hu (Nat.le_antisymm hge hle)
    subst heq
    exact ⟨k, by rw [hlen], (hbest.lexeme.unique h.lexeme).1⟩

namespace Lexeme

/-! ## Cutting -/

theorem split_of_longest {kind : Kind} {text rest : List Char} {value : Option Value}
    (h : IsLongest kind text value rest) :
    split (text ++ rest) = (⟨kind, text⟩ :: (split rest).1, (split rest).2) := by
  obtain ⟨k, hbest, hk⟩ := h.longestOf_eq
  obtain ⟨c, cs, rfl⟩ := List.exists_cons_of_ne_nil h.lexeme.ne_nil
  rw [List.cons_append] at hbest ⊢
  rw [split]
  simp only [hbest, List.length_cons, Nat.add_sub_cancel, List.take_left, List.drop_left, hk]

theorem split_of_stuck {cs : List Char} (h : Stuck cs) : split cs = ([], cs) := by
  cases cs with
  | nil => rw [split]
  | cons c cs =>
    rw [split]
    split
    · rfl
    · next hbest =>
      obtain ⟨text, rest, value, hcs, -, hl⟩ := isLongest_of_longestOf hbest
      exact absurd ⟨rest, hcs.symm⟩ (h _ _ _ hl.lexeme)

/-- Texts are built from the end by putting longest lexemes in front, onto nothing or
onto a text that begins with none. -/
theorem longest_induction {motive : List Char → Prop} (stuck : ∀ cs, Stuck cs → motive cs)
    (lexeme : ∀ kind text value rest, IsLongest kind text value rest → motive rest → motive (text ++ rest))
    (cs : List Char) : motive cs := by
  cases hbest : longestOf rules cs with
  | none => exact stuck cs (stuck_of_longestOf hbest)
  | some best =>
    obtain ⟨text, rest, value, hcs, -, hl⟩ := isLongest_of_longestOf hbest
    have hpos := List.length_pos_iff.2 hl.lexeme.ne_nil
    have hlt : rest.length < cs.length := by
      rw [hcs, List.length_append]
      omega
    rw [hcs]
    exact lexeme _ text value rest hl (longest_induction stuck lexeme rest)
termination_by cs.length

end Lexeme

end ExprLang
