/-
How far a rule for expressions looks. It takes a phrase if the next token does not go on
with it, and fails at the first token that its phrases cannot go on with; so what it does
is settled by the tokens that it takes and the one behind them (`Expr.readLevel_looksAhead`).
-/
import ExprLang.Proofs.Nodes
import ExprLang.Proofs.Reading
import ExprLang.Proofs.Refusal

namespace ExprLang

/-- No token is there, or it maps to no operator of this level or of a tighter one. -/
def Level.EndsAt (l : Level) (next : Option Token) : Prop :=
  ∀ t ∈ next, ∀ op, t.kind.binaryOp? = some op → l.height < op.level.height

theorem Level.endsAt_iff {l : Level} {rest : List Token} : l.EndsAt rest.head? ↔ (Rule.level l).Stops rest := by
  simp only [EndsAt, Kind.binaryOp?_eq_some]
  rfl

namespace Phrase

/-- How many of its tokens a rule has taken. -/
def consumed {α : Type} {n : Nat} (p : Phrase α n) : Nat := n - p.rest.length

theorem consumed_le {α : Type} {n : Nat} (p : Phrase α n) : p.consumed ≤ n := Nat.sub_le _ _

theorem consumed_eq {α : Type} {ts : List Token} {p : Phrase α ts.length} {o k} (h : p.outcome = (o, ts.drop k))
    (hk : k ≤ ts.length) : p.consumed = k := by
  have hrest : p.rest = ts.drop k := congrArg Prod.snd h
  rw [consumed, hrest, List.length_drop]
  omega

end Phrase

namespace Expr

variable {l : Level} {ts ts' : List Token} {e : Expr} {k : Nat}

/-- What a rule has taken is a phrase that ends there, or the beginning of one that the next
token cannot go on with. -/
theorem readLevel_cases (l : Level) (ts : List Token) : ∃ k, k ≤ ts.length ∧
    ((∃ e, (readLevel l ts).outcome = (.ok e, ts.drop k) ∧ Derives (.level l) (ts.take k) e ∧
        (Rule.level l).Stops (ts.drop k)) ∨
      ∃ w, (readLevel l ts).outcome = (.error (SyntaxError.located w.expected (ts.drop k).head?), ts.drop k) ∧
        Begins (.level l) (ts.take k) w ∧ w.Blocks (ts.drop k)) := by
  have hmeets := readRule_meets l ts
  generalize (readLevel l ts).outcome = o at hmeets ⊢
  obtain ⟨error | e, rest⟩ := o
  · obtain ⟨us, w, rfl, hus, hblocks, rfl⟩ := hmeets
    refine ⟨us.length, by simp, .inr ⟨w, ?_⟩⟩
    rw [List.take_left, List.drop_left]
    exact ⟨rfl, hus, hblocks⟩
  · obtain ⟨us, rfl, hus, hstops⟩ := hmeets
    refine ⟨us.length, by simp, .inl ⟨e, ?_⟩⟩
    rw [List.take_left, List.drop_left]
    exact ⟨rfl, hus, hstops⟩

theorem outcome_of_derives (h : Derives (.level l) (ts.take k) e) (hs : (Rule.level l).Stops (ts.drop k)) :
    (readLevel l ts).outcome = (.ok e, ts.drop k) := by
  have hread : (readLevel l (ts.take k ++ ts.drop k)).outcome = (.ok e, ts.drop k) := readRule_of_derives h hs
  rwa [List.take_append_drop] at hread

theorem outcome_of_begins {w : Wanted} (h : Begins (.level l) (ts.take k) w) (hb : w.Blocks (ts.drop k)) :
    (readLevel l ts).outcome = (.error (SyntaxError.located w.expected (ts.drop k).head?), ts.drop k) := by
  have hread : (readLevel l (ts.take k ++ ts.drop k)).outcome = _ := readRule_of_begins h hb
  rwa [List.take_append_drop] at hread

/-- Lists that begin with the same `k + 1` tokens. -/
theorem split_congr (h : ts'.take (k + 1) = ts.take (k + 1)) (hk : k ≤ ts.length) :
    k ≤ ts'.length ∧ ts'.take k = ts.take k ∧ (ts'.drop k).head? = (ts.drop k).head? := by
  have htake : ts'.take k = ts.take k := by
    have htake := congrArg (List.take k) h
    rwa [List.take_take, List.take_take, Nat.min_eq_left (Nat.le_succ k)] at htake
  refine ⟨?_, htake, ?_⟩
  · have hlength := congrArg List.length htake
    rw [List.length_take, List.length_take] at hlength
    omega
  · rw [List.head?_drop, List.head?_drop, ← List.getElem?_take_of_lt (Nat.lt_succ_self k), h,
      List.getElem?_take_of_lt (Nat.lt_succ_self k)]

end Expr

/-- How a reader of a level's phrases looks one token ahead, on all lists of tokens. -/
structure Level.LooksAhead (l : Level) (read : (ts : List Token) → Phrase Expr ts.length) : Prop where
  /-- It succeeds with the first `k` tokens if they are a phrase that ends there. -/
  ok_iff : ∀ ts e k, ((read ts).result = .ok e ∧ (read ts).consumed = k) ↔
    k ≤ ts.length ∧ Derives (.level l) (ts.take k) e ∧ l.EndsAt ts[k]?
  /-- A phrase has a token for each node, and one more for each grouping. -/
  nodes : ∀ ts e, (read ts).result = .ok e →
    (read ts).consumed = e.nodes.countP (!·.isGrouping) + 2 * e.nodes.countP (·.isGrouping)
  /-- It fails at the token behind those that it has taken, which begin a phrase. -/
  error : ∀ ts error, (read ts).result = .error error →
    error = SyntaxError.located error.expected ts[(read ts).consumed]? ∧
      ∃ us e, Derives (.level l) (ts.take (read ts).consumed ++ us) e
  /-- What it leaves is what stands behind. -/
  rest : ∀ ts, (read ts).consumed ≤ ts.length ∧ (read ts).rest = ts.drop (read ts).consumed
  /-- It looks at no token behind the next. -/
  ahead : ∀ ts ts', ts'.take ((read ts).consumed + 1) = ts.take ((read ts).consumed + 1) →
    (read ts').result = (read ts).result ∧ (read ts').consumed = (read ts).consumed

namespace Expr

theorem readLevel_ok_iff : ((readLevel l ts).result = .ok e ∧ (readLevel l ts).consumed = k) ↔
    k ≤ ts.length ∧ Derives (.level l) (ts.take k) e ∧ l.EndsAt ts[k]? := by
  rw [← List.head?_drop, Level.endsAt_iff]
  constructor
  · rintro ⟨hok, rfl⟩
    obtain ⟨k, hk, ⟨e', ho, he, hs⟩ | ⟨w, ho, -, -⟩⟩ := readLevel_cases l ts
    · rw [Phrase.consumed_eq ho hk]
      cases (congrArg Prod.fst ho).symm.trans hok
      exact ⟨hk, he, hs⟩
    · cases (congrArg Prod.fst ho).symm.trans hok
  · rintro ⟨hk, he, hs⟩
    have ho := outcome_of_derives he hs
    exact ⟨congrArg Prod.fst ho, Phrase.consumed_eq ho hk⟩

theorem readLevel_error {error : SyntaxError} (h : (readLevel l ts).result = .error error) :
    error = SyntaxError.located error.expected ts[(readLevel l ts).consumed]? ∧
      ∃ us e, Derives (.level l) (ts.take (readLevel l ts).consumed ++ us) e := by
  obtain ⟨k, hk, ⟨e', ho, -, -⟩ | ⟨w, ho, hbegins, -⟩⟩ := readLevel_cases l ts
  · cases (congrArg Prod.fst ho).symm.trans h
  · cases (congrArg Prod.fst ho).symm.trans h
    rw [Phrase.consumed_eq ho hk, ← List.head?_drop, SyntaxError.located_expected]
    exact ⟨rfl, hbegins.complete⟩

theorem readLevel_rest (l : Level) (ts : List Token) : (readLevel l ts).rest = ts.drop (readLevel l ts).consumed := by
  obtain ⟨k, hk, ⟨e', ho, -, -⟩ | ⟨w, ho, -, -⟩⟩ := readLevel_cases l ts
  · rw [Phrase.consumed_eq ho hk]
    exact congrArg Prod.snd ho
  · rw [Phrase.consumed_eq ho hk]
    exact congrArg Prod.snd ho

theorem readLevel_ahead (h : ts'.take ((readLevel l ts).consumed + 1) = ts.take ((readLevel l ts).consumed + 1)) :
    (readLevel l ts').result = (readLevel l ts).result ∧ (readLevel l ts').consumed = (readLevel l ts).consumed := by
  obtain ⟨k, hk, ⟨e, ho, he, hs⟩ | ⟨w, ho, hbegins, hblocks⟩⟩ := readLevel_cases l ts
  · rw [Phrase.consumed_eq ho hk] at h ⊢
    obtain ⟨hk', htake, hhead⟩ := split_congr h hk
    rw [← htake] at he
    rw [← Level.endsAt_iff, ← hhead, Level.endsAt_iff] at hs
    have ho' := outcome_of_derives he hs
    exact ⟨(congrArg Prod.fst ho').trans (congrArg Prod.fst ho).symm, Phrase.consumed_eq ho' hk'⟩
  · rw [Phrase.consumed_eq ho hk] at h ⊢
    obtain ⟨hk', htake, hhead⟩ := split_congr h hk
    rw [← htake] at hbegins
    have ho' := outcome_of_begins hbegins (hblocks.congr hhead)
    rw [hhead] at ho'
    exact ⟨(congrArg Prod.fst ho').trans (congrArg Prod.fst ho).symm, Phrase.consumed_eq ho' hk'⟩

/-- **One token of lookahead.** Every level's rule, and the rule for whole expressions, takes
exactly its phrase, and what it does is settled by what it takes and the next token. -/
theorem readLevel_looksAhead : (∀ l : Level, l.LooksAhead (readLevel l)) ∧ Level.equality.LooksAhead read := by
  have hlevel : ∀ l : Level, l.LooksAhead (readLevel l) := by
    intro l
    refine ⟨fun _ _ _ => readLevel_ok_iff, fun ts e h => ?_, fun _ _ => readLevel_error, fun ts => ?_,
      fun _ _ => readLevel_ahead⟩
    · obtain ⟨hk, he, -⟩ := readLevel_ok_iff.1 ⟨h, rfl⟩
      rw [← he.length_eq, List.length_take, Nat.min_eq_left hk]
    · exact ⟨Phrase.consumed_le _, readLevel_rest l ts⟩
  exact ⟨hlevel, hlevel .equality⟩

/-- Where a rule ends depends on its level: `-1 * 2 < 3`. -/
example : [Level.factor, .term, .comparison, .equality].map (fun l => (readLevel l [Token.ofLexeme .minus "-" 1,
    Token.ofLexeme .number "1" 1, Token.ofLexeme .star "*" 1, Token.ofLexeme .number "2" 1,
    Token.ofLexeme .less "<" 1, Token.ofLexeme .number "3" 1]).consumed) = [4, 4, 6, 6] := by
  decide +kernel

end Expr
end ExprLang
