/-
Chains of additions, `v₁ + v₂ + ... + vₙ`. What a plus does depends on what the operands
before it have come to: a number, until a string is among them, and a string from then
on (`Value.addAll_string`). `AdditionLaw` says what that comes to for the whole chain, and
which plus an error is at (`Value.read_additions`).
-/
import Mathlib.Data.List.Induction
import ExprLang.Proofs.Parentheses

namespace ExprLang

/-- An operand with the line of the plus in front of it. -/
structure Addend where
  line : Nat
  value : Value
deriving DecidableEq, Inhabited

namespace Value

/-- Adds the addends to a value from left to right, as long as none is refused. -/
def addAll (sum : Value) : List Addend → Except RuntimeError Value
  | [] => .ok sum
  | next :: rest =>
    match sum.add next.value next.line with
    | .error error => .error error
    | .ok sum => addAll sum rest

/-! ## The law -/

/-- The operands of a chain. -/
def operands (first : Value) (rest : List Addend) : List Value := first :: rest.map Addend.value

/-- The texts of values, one after the other. -/
def joinedText (vs : List Value) : String := String.join (vs.map text)

/-- Values that are all numbers. -/
def AllNumbers (vs : List Value) : Prop := ∃ xs : List Number, vs = xs.map number

/-- This addend is the first at which the operands so far, of which there are two at least, are
not all numbers. -/
structure Breaks (first : Value) (before : List Addend) (next : Addend) : Prop where
  numbers : before ≠ [] → AllNumbers (operands first before)
  not_numbers : ¬ AllNumbers (operands first (before ++ [next]))

/-- What a chain of additions comes to. -/
structure AdditionLaw (first : Value) (rest : List Addend) (r : Except RuntimeError Value) : Prop where
  /-- A value by itself stays what it is. -/
  alone : rest = [] → r = .ok first
  /-- Numbers are added up from left to right. -/
  numbers : ∀ x xs, operands first rest = (x :: xs).map number → r = .ok (.number (xs.foldl Number.add x))
  /-- With a string in the first place or the second, the texts of all operands are joined. -/
  joined : ∀ front s back, operands first rest = front ++ .string s :: back → front.length < 2 →
    r = .ok (.string (joinedText (operands first rest)))
  /-- Numbers in front of a string are added up, and the text of their sum is joined to the rest. -/
  summed : ∀ front line s back x xs, rest = front ++ ⟨line, .string s⟩ :: back →
    operands first front = (x :: xs).map number →
    r = .ok (.string ((xs.foldl Number.add x).text ++ joinedText (.string s :: back.map Addend.value)))
  /-- Two operands or more without a string and not all numbers are refused, whatever comes
  behind them: at the plus where they are no longer all numbers. -/
  refused : ∀ front back, rest = front ++ back → front ≠ [] →
    (∀ v ∈ operands first front, v.isString = false) → ¬ AllNumbers (operands first front) →
    ∃ before next after, front = before ++ next :: after ∧ Breaks first before next ∧
      r = .error ⟨.invalidAddition, next.line⟩
  /-- Once the operands have come to a string nothing that follows is refused. -/
  settled : ∀ front back s, rest = front ++ back → addAll first front = .ok (.string s) →
    r = .ok (.string (s ++ joinedText (back.map Addend.value)))

/-! ## Step by step -/

theorem addAll_cons {first sum : Value} {next : Addend} (h : first.add next.value next.line = .ok sum)
    (rest : List Addend) : addAll first (next :: rest) = addAll sum rest := by
  simp only [addAll, h]

theorem addAll_cons_error {first : Value} {next : Addend} {error : RuntimeError}
    (h : first.add next.value next.line = .error error) (rest : List Addend) :
    addAll first (next :: rest) = .error error := by
  simp only [addAll, h]

theorem addAll_singleton (first : Value) (next : Addend) :
    addAll first [next] = first.add next.value next.line := by
  cases hadd : first.add next.value next.line with
  | error error => exact addAll_cons_error hadd []
  | ok sum => exact addAll_cons hadd []

/-- A chain is added up part by part. -/
theorem addAll_append_eq (first : Value) (front back : List Addend) : addAll first (front ++ back) =
    match addAll first front with
    | .error error => .error error
    | .ok sum => addAll sum back := by
  induction front generalizing first with
  | nil => rfl
  | cons next front ih =>
    rw [List.cons_append]
    cases hadd : first.add next.value next.line with
    | error error => rw [addAll_cons_error hadd, addAll_cons_error hadd]
    | ok sum => rw [addAll_cons hadd, addAll_cons hadd, ih]

theorem addAll_append {first sum : Value} {front : List Addend} (h : addAll first front = .ok sum)
    (back : List Addend) : addAll first (front ++ back) = addAll sum back := by
  rw [addAll_append_eq, h]

theorem addAll_append_error {first : Value} {front : List Addend} {error : RuntimeError}
    (h : addAll first front = .error error) (back : List Addend) : addAll first (front ++ back) = .error error := by
  rw [addAll_append_eq, h]

/-! ## One addition -/

theorem add_string_left (s : String) (v : Value) (line : Nat) :
    add (.string s) v line = .ok (.string (s ++ v.text)) := by
  cases v <;> rfl

theorem add_string_right (v : Value) (s : String) (line : Nat) :
    add v (.string s) line = .ok (.string (v.text ++ s)) := by
  cases v <;> rfl

theorem add_refused {v w : Value} (hv : v.isString = false) (hw : w.isString = false)
    (h : ¬ AllNumbers [v, w]) (line : Nat) : add v w line = .error ⟨.invalidAddition, line⟩ := by
  cases v <;> cases w <;>
    first | rfl | exact Bool.noConfusion hv | exact Bool.noConfusion hw | exact absurd ⟨[_, _], rfl⟩ h

/-! ## Runs of numbers and of texts -/

theorem joinedText_cons (v : Value) (vs : List Value) : joinedText (v :: vs) = v.text ++ joinedText vs := by
  simp [joinedText, String.join_cons]

/-- Once a string has entered a chain nothing that follows is refused. -/
theorem addAll_string (s : String) (rest : List Addend) :
    addAll (.string s) rest = .ok (.string (s ++ joinedText (rest.map Addend.value))) := by
  induction rest generalizing s with
  | nil => simp [addAll, joinedText]
  | cons next rest ih =>
    rw [addAll_cons (add_string_left s next.value next.line), ih, List.map_cons, joinedText_cons, String.append_assoc]

theorem addAll_numbers {x : Number} {xs : List Number} {rest : List Addend}
    (h : rest.map Addend.value = xs.map number) : addAll (.number x) rest = .ok (.number (xs.foldl Number.add x)) := by
  induction rest generalizing x xs with
  | nil =>
    obtain rfl : xs = [] := List.map_eq_nil_iff.1 h.symm
    rfl
  | cons next rest ih =>
    cases xs with
    | nil => cases h
    | cons y xs =>
      obtain ⟨hy, hrest⟩ := List.cons.inj h
      have hadd : add (.number x) next.value next.line = .ok (.number (x.add y)) := by rw [hy]; rfl
      rw [addAll_cons hadd, ih hrest]
      rfl

theorem addAll_operands {first : Value} {rest : List Addend} {x : Number} {xs : List Number}
    (h : operands first rest = (x :: xs).map number) : addAll first rest = .ok (.number (xs.foldl Number.add x)) := by
  obtain ⟨rfl, hrest⟩ := List.cons.inj h
  exact addAll_numbers hrest

/-- A string behind a chain that came to something. -/
theorem addAll_before_string {first sum : Value} {front : List Addend} (h : addAll first front = .ok sum)
    (line : Nat) (s : String) (back : List Addend) : addAll first (front ++ ⟨line, .string s⟩ :: back) =
      .ok (.string (sum.text ++ joinedText (.string s :: back.map Addend.value))) := by
  rw [addAll_append h, addAll_cons (add_string_right sum s line), addAll_string, joinedText_cons, String.append_assoc]
  rfl

/-! ## Where a chain breaks -/

theorem allNumbers_iff {vs : List Value} : AllNumbers vs ↔ ∀ v ∈ vs, ∃ x, v = number x := by
  constructor
  · rintro ⟨xs, rfl⟩ v hv
    obtain ⟨x, -, rfl⟩ := List.mem_map.1 hv
    exact ⟨x, rfl⟩
  · intro h
    induction vs with
    | nil => exact ⟨[], rfl⟩
    | cons v vs ih =>
      obtain ⟨x, rfl⟩ := h v List.mem_cons_self
      obtain ⟨xs, rfl⟩ := ih fun w hw => h w (List.mem_cons_of_mem _ hw)
      exact ⟨x :: xs, rfl⟩

theorem exists_breaks {first : Value} {rest : List Addend} (hne : rest ≠ [])
    (h : ¬ AllNumbers (operands first rest)) :
    ∃ before next after, rest = before ++ next :: after ∧ Breaks first before next := by
  induction rest using List.reverseRecOn with
  | nil => exact absurd rfl hne
  | append_singleton before next ih =>
    by_cases hbefore : before ≠ [] ∧ ¬ AllNumbers (operands first before)
    · obtain ⟨before', next', after, rfl, hbreaks⟩ := ih hbefore.1 hbefore.2
      exact ⟨before', next', after ++ [next], by simp, hbreaks⟩
    · refine ⟨before, next, [], rfl, fun hne => ?_, h⟩
      exact Classical.byContradiction fun hnot => hbefore ⟨hne, hnot⟩

/-- Where a chain without strings breaks an addition is refused. -/
theorem Breaks.addAll_eq {first : Value} {before : List Addend} {next : Addend} (h : Breaks first before next)
    (hs : ∀ v ∈ operands first (before ++ [next]), v.isString = false) :
    addAll first (before ++ [next]) = .error ⟨.invalidAddition, next.line⟩ := by
  have hnext : next.value.isString = false := hs _ (by simp [operands])
  by_cases hne : before = []
  · subst hne
    have hfirst : first.isString = false := hs _ (by simp [operands])
    exact addAll_cons_error (add_refused hfirst hnext h.not_numbers _) []
  · obtain ⟨xs, hxs⟩ := h.numbers hne
    cases xs with
    | nil => cases hxs
    | cons x xs =>
      have hnot : ¬ AllNumbers [.number (xs.foldl Number.add x), next.value] := by
        intro hall
        obtain ⟨y, hy⟩ := allNumbers_iff.1 hall next.value (by simp)
        refine h.not_numbers ⟨x :: xs ++ [y], ?_⟩
        rw [List.map_append, ← hxs]
        simp [operands, hy]
      rw [addAll_append (addAll_operands hxs)]
      exact addAll_cons_error (add_refused rfl hnext hnot _) []

/-! ## The whole chain -/

/-- A string in the second place or the first is joined to the first. -/
theorem addAll_joined {first : Value} {rest : List Addend} {front back : List Value} {s : String}
    (h : operands first rest = front ++ .string s :: back) (hlen : front.length < 2) :
    addAll first rest = .ok (.string (joinedText (operands first rest))) := by
  cases front with
  | nil =>
    obtain ⟨rfl, -⟩ := List.cons.inj h
    rw [addAll_string, operands, joinedText_cons]
    rfl
  | cons v front =>
    have hfront : front = [] := List.eq_nil_of_length_eq_zero (by rw [List.length_cons] at hlen; omega)
    subst hfront
    obtain ⟨rfl, hrest⟩ := List.cons.inj h
    cases rest with
    | nil => cases hrest
    | cons next rest =>
      obtain ⟨line, value⟩ := next
      obtain ⟨rfl, -⟩ := List.cons.inj hrest
      have halone : addAll first [] = .ok first := rfl
      rw [operands, joinedText_cons]
      exact addAll_before_string halone line s rest

theorem addAll_law (first : Value) (rest : List Addend) : AdditionLaw first rest (addAll first rest) where
  alone h := by rw [h]; rfl
  numbers x xs h := addAll_operands h
  joined front s back h hlen := addAll_joined h hlen
  summed front line s back x xs h hnumbers := by
    rw [h]
    exact addAll_before_string (addAll_operands hnumbers) line s back
  refused front back h hne hs hnot := by
    obtain ⟨before, next, after, rfl, hbreaks⟩ := exists_breaks hne hnot
    have hfront : operands first (before ++ [next]) <+: operands first (before ++ next :: after) :=
      ⟨after.map Addend.value, by simp [operands]⟩
    have hsplit : rest = before ++ [next] ++ (after ++ back) := by rw [h]; simp
    refine ⟨before, next, after, rfl, hbreaks, ?_⟩
    rw [hsplit, addAll_append_error (hbreaks.addAll_eq fun v hv => hs v (hfront.subset hv))]
  settled front back s h hfront := by
    rw [h, addAll_append hfront, addAll_string]

/-! ## The tokens of a chain -/

/-- The tokens of a chain: literals, and a plus between each two. What the tokens were written as,
and the lines of the literals, can be anything. -/
inductive Additions (first : Value) : List Addend → List Token → Prop
  | one {t} : IsLiteral t first → Additions first [] [t]
  | plus {rest ts p t v} : Additions first rest ts → p.kind = .plus → IsLiteral t v →
      Additions first (rest ++ [⟨p.line, v⟩]) (ts ++ [p, t])

theorem exists_additions (first : Value) (rest : List Addend) : ∃ ts, Additions first rest ts := by
  induction rest using List.reverseRecOn with
  | nil => exact ⟨_, .one (first.isLiteral_token 1)⟩
  | append_singleton rest next ih =>
    obtain ⟨ts, h⟩ := ih
    exact ⟨_, .plus (p := ⟨.plus, "+", none, next.line⟩) h rfl (next.value.isLiteral_token 1)⟩

/-- A chain is one phrase of its level, the last plus at the root, and it is evaluated from the left. -/
theorem Additions.derives {first : Value} {rest : List Addend} {ts : List Token} (h : Additions first rest ts) :
    ∃ e, Derives (.level .term) ts e ∧ e.evaluate = addAll first rest := by
  induction h with
  | one ht => exact ⟨_, (Derives.literal ht).of_primary _, rfl⟩
  | @plus rest ts p t v _ hp ht ih =>
    obtain ⟨left, hleft, hvalue⟩ := ih
    have hright := (Derives.literal ht).of_primary (Level.operand .term)
    have hop : p.kind = BinaryOp.add.kind := hp
    refine ⟨_, .binary hleft hop rfl hright, ?_⟩
    cases hfront : addAll first rest with
    | error error =>
      rw [addAll_append_error hfront]
      simp only [Expr.evaluate, hvalue, hfront]
    | ok sum =>
      rw [addAll_append hfront, addAll_singleton]
      simp only [Expr.evaluate, hvalue, hfront]
      rfl

/-- **The law of additions.** Every chain can be written, and as it is written it is read whole, as
an expression that comes to what the law says. -/
theorem read_additions (first : Value) (rest : List Addend) : (∃ ts, Additions first rest ts) ∧
    ∀ ts, Additions first rest ts → ∃ e, (Expr.readLevel .term ts).result = .ok e ∧
      (Expr.readLevel .term ts).rest = [] ∧ AdditionLaw first rest e.evaluate := by
  refine ⟨exists_additions first rest, fun ts h => ?_⟩
  obtain ⟨e, hderives, hvalue⟩ := h.derives
  have hread := Expr.readRule_whole hderives
  refine ⟨e, congrArg Prod.fst hread, congrArg Prod.snd hread, ?_⟩
  rw [hvalue]
  exact addAll_law first rest

/-- `1 + 2 + "a" + nil`, each plus on the line of its number. -/
def oneTwoAndText : List Token :=
  [Token.ofLexeme .number "1" 1, Token.ofLexeme .plus "+" 1, Token.ofLexeme .number "2" 2, Token.ofLexeme .plus "+" 2,
    Token.ofLexeme .string "\"a\"" 3, Token.ofLexeme .plus "+" 3, Token.ofLexeme .nilWord "nil" 3]

/-- `1 + 2 + nil + "a"`. -/
def oneTwoAndNil : List Token :=
  [Token.ofLexeme .number "1" 1, Token.ofLexeme .plus "+" 1, Token.ofLexeme .number "2" 2, Token.ofLexeme .plus "+" 2,
    Token.ofLexeme .nilWord "nil" 3, Token.ofLexeme .plus "+" 3, Token.ofLexeme .string "\"a\"" 3]

theorem read_oneTwo :
    (∃ e, (Expr.readLevel .term oneTwoAndText).result = .ok e ∧ (Expr.readLevel .term oneTwoAndText).rest = [] ∧
      e.evaluate = .ok (.string "3anil")) ∧
    ∃ e, (Expr.readLevel .term oneTwoAndNil).result = .ok e ∧ (Expr.readLevel .term oneTwoAndNil).rest = [] ∧
      e.evaluate = .error ⟨.invalidAddition, 2⟩ := by
  let one := Number.ofBits 0x3FF0000000000000
  let two := Number.ofBits 0x4000000000000000
  have hone : IsLiteral (Token.ofLexeme .number "1" 1) (.number one) := .number rfl (by decide +kernel)
  have htwo : IsLiteral (Token.ofLexeme .number "2" 2) (.number two) := .number rfl (by decide +kernel)
  have htext : IsLiteral (Token.ofLexeme .string "\"a\"" 3) (.string "a") := .string rfl (by decide +kernel)
  have hnil : IsLiteral (Token.ofLexeme .nilWord "nil" 3) .nil := .nilWord rfl
  have hplus : ∀ line, (Token.ofLexeme .plus "+" line).kind = .plus := fun _ => rfl
  have hsum : Additions (.number one) [⟨1, .number two⟩] _ := .plus (.one hone) (hplus 1) htwo
  constructor
  · have hchain : Additions (.number one) [⟨1, .number two⟩, ⟨2, .string "a"⟩, ⟨3, .nil⟩] oneTwoAndText :=
      (hsum.plus (hplus 2) htext).plus (hplus 3) hnil
    obtain ⟨e, hread, hrest, hlaw⟩ := (read_additions _ _).2 _ hchain
    have hvalue := hlaw.summed [⟨1, .number two⟩] 2 "a" [⟨3, .nil⟩] one [two] rfl rfl
    have htexts : ([two].foldl Number.add one).text ++
        joinedText (.string "a" :: [(⟨3, .nil⟩ : Addend)].map Addend.value) = "3anil" := by decide +kernel
    rw [htexts] at hvalue
    exact ⟨e, hread, hrest, hvalue⟩
  · have hchain : Additions (.number one) [⟨1, .number two⟩, ⟨2, .nil⟩, ⟨3, .string "a"⟩] oneTwoAndNil :=
      (hsum.plus (hplus 2) hnil).plus (hplus 3) htext
    obtain ⟨e, hread, hrest, hlaw⟩ := (read_additions _ _).2 _ hchain
    have hnot : ¬ AllNumbers (operands (.number one) [⟨1, .number two⟩, ⟨2, .nil⟩]) := fun hall => by
      obtain ⟨x, hx⟩ := allNumbers_iff.1 hall .nil (by simp [operands])
      cases hx
    obtain ⟨before, next, after, hfront, hbreaks, hvalue⟩ :=
      hlaw.refused [⟨1, .number two⟩, ⟨2, .nil⟩] [⟨3, .string "a"⟩] rfl (List.cons_ne_nil _ _)
        (by simp [operands, isString]) hnot
    -- the first plus adds numbers
    cases before with
    | nil =>
      cases hfront
      exact absurd ⟨[one, two], rfl⟩ hbreaks.not_numbers
    | cons _ before =>
      cases before with
      | nil =>
        cases hfront
        exact ⟨e, hread, hrest, hvalue⟩
      | cons _ before => simp at hfront

end Value
end ExprLang
