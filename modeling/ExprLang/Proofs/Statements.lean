/-
Statements are read as the grammar derives them: one statement is taken, whatever
stands after it, or the beginning of one is refused at a token that cannot follow.
-/
import ExprLang.Proofs.Reading

namespace ExprLang

namespace Statement

/-- What is read of a statement's expression and its semicolon. -/
def BodyMeets (print : Bool) (ts : List Token) : Except SyntaxError Expr × List Token → Prop
  | (.ok e, rest) => ∃ us semicolon, ts = us ++ semicolon :: rest ∧ Derives .expression us e ∧
      semicolon.kind = .semicolon
  | (.error error, rest) => ∃ us w, ts = us ++ rest ∧ w.Blocks rest ∧
      error = SyntaxError.located w.expected rest.head? ∧
      (Begins .expression us w ∨ ∃ e, Derives .expression us e ∧ w = .ending print)

theorem readBody_meets (print : Bool) (ts : List Token) (message : String)
    (hm : (Wanted.ending print).expected = .token message) : BodyMeets print ts (readBody message ts).outcome := by
  have h := Expr.readRule_meets .equality ts
  rcases he : (Expr.readLevel .equality ts).outcome with ⟨error | e, rest⟩
  · rw [he] at h
    obtain ⟨us, w, hts, hb, hblocks, herr⟩ := h
    rw [outcome_readBody_refused message he]
    exact ⟨us, w, hts, hblocks, herr, .inl hb⟩
  · rw [he] at h
    obtain ⟨us, hts, hus, hstops⟩ := h
    rcases head_kind_cases .semicolon rest with ⟨semicolon, rest', rfl, hs⟩ | hs
    · rw [outcome_readBody_ended message he hs]
      exact ⟨us, semicolon, hts, hus, hs⟩
    · rw [outcome_readBody_unended message he hs]
      refine ⟨us, .ending print, hts, fun t ht hsuits => ?_, by rw [hm], .inr ⟨e, hus, rfl⟩⟩
      rcases hsuits with htk | ⟨op, hop⟩
      · exact hs t ht htk
      · exact absurd (hstops t ht op hop) (Nat.not_lt_of_le op.level.height_le)

/-- What reading a statement does, when it is done as the grammar says. -/
def Meets (ts : List Token) : Except SyntaxError Statement × List Token → Prop
  | (.ok s, rest) => ∃ us, ts = us ++ rest ∧ DerivesStatement us s
  | (.error error, rest) => ∃ us w, ts = us ++ rest ∧ BeginsStatement us w ∧ w.Blocks rest ∧
      error = SyntaxError.located w.expected rest.head?

theorem read_meets_print {word : Token} (hw : word.kind = .printWord) (ts : List Token) :
    Meets (word :: ts) (read (word :: ts)).outcome := by
  have h := readBody_meets true ts _ rfl
  rw [outcome_read_print hw]
  rcases he : (readBody "Expect ';' after value." ts).outcome with ⟨error | e, rest⟩
  · rw [he] at h
    obtain ⟨us, w, rfl, hblocks, herr, hb | ⟨e, hus, rfl⟩⟩ := h
    · exact ⟨word :: us, w, rfl, .print hw hb, hblocks, herr⟩
    · exact ⟨word :: us, _, rfl, .printed hw hus, hblocks, herr⟩
  · rw [he] at h
    obtain ⟨us, semicolon, rfl, hus, hs⟩ := h
    exact ⟨word :: (us ++ [semicolon]), by simp, .print hw hus hs⟩

theorem read_meets_expression {t : Token} (ht : t.kind ≠ .printWord) (ts : List Token) :
    Meets (t :: ts) (read (t :: ts)).outcome := by
  have h := readBody_meets false (t :: ts) _ rfl
  rw [outcome_read_expression ht]
  rcases he : (readBody "Expect ';' after expression." (t :: ts)).outcome with ⟨error | e, rest⟩
  · rw [he] at h
    obtain ⟨us, w, hts, hblocks, herr, hb | ⟨e, hus, rfl⟩⟩ := h
    · cases us with
      | cons u us =>
        cases hts
        exact ⟨t :: us, w, rfl, .expression hb, hblocks, herr⟩
      | nil =>
        obtain rfl := hb.wanted_nil
        refine ⟨[], .statement, hts, .start, fun t' ht' hsuits => ?_, herr⟩
        obtain rfl : t :: ts = rest := hts
        rcases hsuits with hw | hstarts
        · cases ht'
          exact ht hw
        · exact hblocks t' ht' hstarts
    · exact ⟨us, _, hts, .expressed hus, hblocks, herr⟩
  · rw [he] at h
    obtain ⟨us, semicolon, hts, hus, hs⟩ := h
    obtain ⟨t', us', rfl, -⟩ := hus.head
    cases hts
    exact ⟨t :: (us' ++ [semicolon]), by simp, .expression hus hs⟩

theorem stops_semicolon {semicolon : Token} (hs : semicolon.kind = .semicolon) (rest : List Token) :
    Rule.expression.Stops (semicolon :: rest) := by
  intro t ht op hop
  cases ht
  have hd := op.not_delimits
  rw [← hop, hs] at hd
  cases hd

/-- A statement is read as its tree, whatever stands after it. -/
theorem read_of_derives {us s} (h : DerivesStatement us s) (rest : List Token) :
    (read (us ++ rest)).outcome = (.ok s, rest) := by
  cases h with
  | @print word ts e semicolon hw he hs =>
    have hb := outcome_readBody_ended "Expect ';' after value."
      (Expr.readRule_of_derives he (stops_semicolon hs rest)) hs
    rw [List.cons_append, List.append_assoc, List.singleton_append, outcome_read_print hw, hb]
    rfl
  | @expression t ts e semicolon he hs =>
    have hb := outcome_readBody_ended "Expect ';' after expression."
      (Expr.readRule_of_derives he (stops_semicolon hs rest)) hs
    rw [List.cons_append, List.append_assoc, List.singleton_append, outcome_read_expression he.ne_print]
    rw [List.cons_append] at hb
    rw [hb]
    rfl

/-- What is refused of a statement's expression is refused of the statement. -/
theorem outcome_read_refused {t ts error rest} (ht : t.kind ≠ .printWord)
    (h : (readBody "Expect ';' after expression." (t :: ts)).outcome = (.error error, rest)) :
    (read (t :: ts)).outcome = (.error error, rest) := by
  rw [outcome_read_expression ht, h]
  rfl

/-- **A beginning of a statement is refused where it ends**, if the next token cannot follow it. -/
theorem read_of_begins {us w rest} (h : BeginsStatement us w) (hb : w.Blocks rest) :
    (read (us ++ rest)).outcome = (.error (SyntaxError.located w.expected rest.head?), rest) := by
  cases h with
  | start =>
    have hoperand : Wanted.operand.Blocks rest := fun t ht hs => hb t ht (.inr hs)
    have hrule := Expr.readRule_blocked .expression hoperand
    cases rest with
    | nil =>
      rw [List.nil_append, read, Phrase.outcome_map, outcome_readBody_refused _ hrule]
      rfl
    | cons t ts =>
      exact outcome_read_refused (fun ht => hb t rfl (.inl ht)) (outcome_readBody_refused _ hrule)
  | @print word ts w hw hbegins =>
    have hbody := outcome_readBody_refused "Expect ';' after value." (Expr.readRule_of_begins hbegins hb)
    rw [List.cons_append, outcome_read_print hw, hbody]
    rfl
  | @printed word ts e hw he =>
    have hrule := Expr.readRule_of_derives he (hb.stops rfl _)
    have hbody := outcome_readBody_unended "Expect ';' after value." hrule fun t ht htk => hb t ht (.inl htk)
    rw [List.cons_append, outcome_read_print hw, hbody]
    rfl
  | @expression t ts w hbegins =>
    exact outcome_read_refused hbegins.ne_print (outcome_readBody_refused _ (Expr.readRule_of_begins hbegins hb))
  | @expressed ts e he =>
    obtain ⟨t, ts, rfl, -⟩ := he.head
    have hrule := Expr.readRule_of_derives he (hb.stops rfl _)
    exact outcome_read_refused he.ne_print
      (outcome_readBody_unended _ hrule fun t ht htk => hb t ht (.inl htk))

/-- **A statement as far as it goes**: one statement is taken, or the beginning of one. -/
theorem read_meets (ts : List Token) : Meets ts (read ts).outcome := by
  cases ts with
  | nil =>
    have hb : Wanted.statement.Blocks [] := by simp [Wanted.Blocks]
    have h := read_of_begins .start hb
    rw [List.nil_append] at h
    rw [h]
    exact ⟨[], .statement, rfl, .start, hb, rfl⟩
  | cons t ts =>
    by_cases ht : t.kind = .printWord
    · exact read_meets_print ht ts
    · exact read_meets_expression ht ts

end Statement
end ExprLang
