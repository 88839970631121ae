/-
The written form is faithful. A node's parts are set apart by spaces and closed by a
parenthesis, and no bare word has either in it, nor a string a quote: so a written
expression can be told from any other, and from what stands behind it
(`Expr.selfDelimiting`). Programs that are written alike are equal up to lines
(`Program.mapLine_eq_of_text`), and run alike. The command shows a program as it is
written, so what it shows tells as much (`Program.text_faithful`).
-/
import ExprLang.Proofs.Scanning
import ExprLang.Response

namespace ExprLang

/-! ## Words -/

/-- A run of characters of a class is told from what follows by the first that is not of it. -/
theorem append_inj_of_stop {p : Char → Bool} {u v r s : List Char} (hu : ∀ c ∈ u, p c) (hv : ∀ c ∈ v, p c)
    (hr : ∀ c ∈ r.head?, ¬ p c) (hs : ∀ c ∈ s.head?, ¬ p c) (h : u ++ r = v ++ s) : u = v ∧ r = s := by
  have hcut : ∀ {u r : List Char}, (∀ c ∈ u, p c) → (∀ c ∈ r.head?, ¬ p c) → (u ++ r).takeWhile p = u := by
    intro u r hu hr
    cases r with
    | nil => simpa using hu
    | cons c r => exact takeWhile_of_stop hu (hr c rfl) r
  have huv : u = v := by rw [← hcut hu hr, h, hcut hv hs]
  subst huv
  exact ⟨rfl, List.append_cancel_left h⟩

/-- The characters of words: those that set nothing apart in the written form. -/
def isBare (c : Char) : Bool := c != ' ' && c != '(' && c != ')' && c != '"' && c != '\n'

/-- What can stand behind a part of the written form: nothing, another part, or the end of the node. -/
def Closes (rest : List Char) : Prop := ∀ c ∈ rest.head?, c = ' ' ∨ c = ')'

theorem Closes.not_bare {rest : List Char} (h : Closes rest) : ∀ c ∈ rest.head?, ¬ isBare c := by
  intro c hc
  rcases h c hc with rfl | rfl <;> decide

theorem isBare_of_isDigit {c : Char} (h : c.isDigit) : isBare c := by
  have hne : ∀ d : Char, d.isDigit = false → c ≠ d := by
    rintro d hd rfl
    rw [hd] at h
    cases h
  simp only [isBare, Bool.and_eq_true, bne_iff_ne]
  exact ⟨⟨⟨⟨hne _ rfl, hne _ rfl⟩, hne _ rfl⟩, hne _ rfl⟩, hne _ rfl⟩

theorem Decimal.bare_digits (d : Decimal) : ∀ c ∈ d.digits, isBare c := by
  rcases d.digits_shape with ⟨-, -, hd, -⟩ | ⟨-, whole, fraction, hs, -, hw, hf, -⟩
  · exact fun c hc => isBare_of_isDigit (hd c hc)
  · intro c hc
    rw [hs, List.mem_append, List.mem_cons] at hc
    rcases hc with hc | rfl | hc
    · exact isBare_of_isDigit (hw c hc)
    · decide
    · exact isBare_of_isDigit (hf c hc)

/-- The text of a number is a word. -/
theorem Number.bare_chars (x : Number) : ∀ c ∈ x.chars, isBare c := by
  cases x with
  | nan => exact List.all_eq_true.1 rfl
  | infinite negative => cases negative <;> exact List.all_eq_true.1 rfl
  | finite negative m =>
    have hsign : ∀ c ∈ chars.sign negative, isBare c := by cases negative <;> exact List.all_eq_true.1 rfl
    intro c hc
    rcases List.mem_append.1 hc with hc | hc
    · exact hsign c hc
    · exact m.shortestDecimal.bare_digits c hc

theorem UnaryOp.bare_symbol (op : UnaryOp) : ∀ c ∈ op.symbol.toList, isBare c := by
  cases op <;> exact List.all_eq_true.1 rfl

theorem BinaryOp.bare_symbol (op : BinaryOp) : ∀ c ∈ op.symbol.toList, isBare c := by
  cases op <;> exact List.all_eq_true.1 rfl

theorem UnaryOp.symbol_injective : Function.Injective symbol := by
  intro a b h
  cases a <;> cases b <;> first | rfl | exact absurd h (by decide)

theorem UnaryOp.symbol_ne_group (op : UnaryOp) : op.symbol ≠ "group" := by cases op <;> decide

theorem BinaryOp.symbol_injective : Function.Injective symbol := by
  intro a b h
  rw [← Option.some.injEq, ← ofSymbol?_symbol a, ← ofSymbol?_symbol b, h]

/-! ## Literals -/

namespace Value

/-- The value that a word stands for. -/
def ofWord? (word : List Char) : Option Value :=
  match Numeral.read? word with
  | some x => some (.number x)
  | none => [.nil, .bool true, .bool false].find? fun v => v.text.toList == word

/-- Every value but a string is written as a word that stands for it: no number is written as nil
or a truth value is, or as another number. -/
theorem ofWord?_text {v : Value} (h : v.isString = false) : ofWord? v.text.toList = some v := by
  cases v with
  | nil => decide
  | bool b => cases b <;> decide
  | number x => simp only [text, Number.text, String.toList_ofList, ofWord?, Number.read?_chars]
  | string s => cases h

theorem bare_text {v : Value} (h : v.isString = false) : ∀ c ∈ v.text.toList, isBare c := by
  cases v with
  | nil => exact List.all_eq_true.1 rfl
  | bool b => cases b <;> exact List.all_eq_true.1 rfl
  | number x =>
    rw [text, Number.text, String.toList_ofList]
    exact x.bare_chars
  | string s => cases h

/-- A string without a quote in it; any value that is no string. -/
def Plain : Value → Prop
  | .string s => '"' ∉ s.toList
  | _ => True

theorem quotedText_string (s : String) : (string s).quotedText.toList = '"' :: (s.toList ++ ['"']) := by
  simp [quotedText, String.toList_append]

theorem quotedText_of_not_string {v : Value} (h : v.isString = false) : v.quotedText = v.text := by
  cases v with
  | string s => cases h
  | _ => rfl

theorem string_or_word (v : Value) : (∃ s, v = string s) ∨ v.isString = false := by
  cases v with
  | string s => exact .inl ⟨s, rfl⟩
  | _ => exact .inr rfl

/-- A literal that is no string begins with a character of a word. -/
theorem exists_cons_of_not_string {v : Value} (h : v.isString = false) :
    ∃ c cs, v.quotedText.toList = c :: cs ∧ isBare c := by
  rw [quotedText_of_not_string h]
  cases ht : v.text.toList with
  | nil =>
    have hword := ofWord?_text h
    have hnone : ofWord? [] = none := by decide
    rw [ht, hnone] at hword
    cases hword
  | cons c cs => exact ⟨c, cs, rfl, bare_text h c (by simp [ht])⟩

/-- No literal begins as a node does. -/
theorem head_quotedText_ne (v : Value) (rest : List Char) : (v.quotedText.toList ++ rest).head? ≠ some '(' := by
  obtain ⟨s, rfl⟩ | hv := v.string_or_word
  · simp [quotedText_string]
  · obtain ⟨c, cs, ht, hc⟩ := exists_cons_of_not_string hv
    rw [ht, List.cons_append, List.head?_cons]
    intro heq
    cases heq
    cases hc

/-- No word begins as a string does. -/
theorem quotedText_append_ne {v : Value} (hv : v.isString = false) (r : List Char) (body : String) (s : List Char) :
    v.quotedText.toList ++ r ≠ (string body).quotedText.toList ++ s := by
  obtain ⟨c, cs, ht, hc⟩ := exists_cons_of_not_string hv
  rw [ht, quotedText_string]
  intro heq
  cases (List.cons.inj heq).1
  cases hc

/-- **A literal can be told from any other**, and from what stands behind it. -/
theorem quotedText_append_inj {v w : Value} (hv : v.Plain) (hw : w.Plain) {r s : List Char} (hr : Closes r)
    (hs : Closes s) (h : v.quotedText.toList ++ r = w.quotedText.toList ++ s) : v = w ∧ r = s := by
  obtain ⟨a, rfl⟩ | hv' := v.string_or_word <;> obtain ⟨b, rfl⟩ | hw' := w.string_or_word
  · simp only [quotedText_string, List.cons_append, List.append_assoc, List.nil_append, List.cons.injEq,
      true_and] at h
    have hstop : ∀ rest : List Char, ∀ c ∈ ('"' :: rest).head?, ¬ (c != '"') = true := by simp
    obtain ⟨hbody, hrest⟩ := append_inj_of_stop (bne_of_not_mem hv) (bne_of_not_mem hw) (hstop r) (hstop s) h
    rw [String.toList_inj.1 hbody]
    exact ⟨rfl, (List.cons.inj hrest).2⟩
  · exact absurd h.symm (quotedText_append_ne hw' s a r)
  · exact absurd h (quotedText_append_ne hv' r b s)
  · rw [quotedText_of_not_string hv', quotedText_of_not_string hw'] at h
    obtain ⟨htext, hrest⟩ := append_inj_of_stop (bare_text hv') (bare_text hw') hr.not_bare hs.not_bare h
    have hword := ofWord?_text hv'
    rw [htext, ofWord?_text hw', Option.some.injEq] at hword
    exact ⟨hword.symm, hrest⟩

end Value

/-! ## Nodes -/

namespace Expr

/-- No literal of the expression is a string with a quote in it. -/
def Plain : Expr → Prop
  | .literal value _ => value.Plain
  | .grouping body _ => body.Plain
  | .unary _ operand _ => operand.Plain
  | .binary left _ right _ => left.Plain ∧ right.Plain

/-- The word that a node is written with; a literal has none. -/
def word? : Expr → Option String
  | .literal _ _ => none
  | .grouping _ _ => some "group"
  | .unary op _ _ => some op.symbol
  | .binary _ op _ _ => some op.symbol

def operands : Expr → List Expr
  | .literal _ _ => []
  | .grouping body _ => [body]
  | .unary _ operand _ => [operand]
  | .binary left _ right _ => [left, right]

theorem Plain.operands {e : Expr} (h : e.Plain) : ∀ o ∈ e.operands, o.Plain := by
  cases e <;> simp_all [Expr.operands, Plain]

theorem bare_word {e : Expr} {word : String} (h : e.word? = some word) : ∀ c ∈ word.toList, isBare c := by
  cases e with
  | literal => cases h
  | grouping =>
    cases h
    exact List.all_eq_true.1 rfl
  | unary op =>
    cases h
    exact op.bare_symbol
  | binary _ op =>
    cases h
    exact op.bare_symbol

/-- The operands of a node as they are written, each with a space in front. -/
def spaced (operands : List Expr) : List Char := operands.flatMap fun e => ' ' :: e.text.toList

/-- A node as it is written. -/
def node (word : String) (operands : List Expr) : List Char := '(' :: (word.toList ++ (spaced operands ++ [')']))

theorem toList_text {e : Expr} {word : String} (h : e.word? = some word) : e.text.toList = node word e.operands := by
  cases e <;> cases h <;> simp [text, node, spaced, operands, String.toList_append]

/-- The word of a node and its operands make it what it is: `-` with one operand is not `-` with two. -/
theorem mapLine_eq_of_node {e e' : Expr} {word : String} (h : e.word? = some word) (h' : e'.word? = some word)
    (hops : e.operands.map (mapLine noLine) = e'.operands.map (mapLine noLine)) :
    e.mapLine noLine = e'.mapLine noLine := by
  cases e with
  | literal => cases h
  | grouping body =>
    cases h
    cases e' with
    | grouping body' => simpa [operands, mapLine, noLine] using hops
    | unary op => exact absurd (Option.some.inj h') op.symbol_ne_group -- as many operands, another word
    | literal | binary => simp [operands] at hops
  | unary op operand =>
    cases h
    cases e' with
    | grouping => exact absurd (Option.some.inj h').symm op.symbol_ne_group
    | unary op' operand' =>
      cases UnaryOp.symbol_injective (Option.some.inj h')
      simpa [operands, mapLine, noLine] using hops
    | literal | binary => simp [operands] at hops
  | binary left op right =>
    cases h
    cases e' with
    | binary left' op' right' =>
      cases BinaryOp.symbol_injective (Option.some.inj h')
      simpa [operands, mapLine, noLine] using hops
    | literal | grouping | unary => simp [operands] at hops

/-- The expression can be told from any other by how it is written, and from what stands behind it. -/
def SelfDelimiting (e : Expr) : Prop :=
  ∀ (f : Expr) (r s : List Char), f.Plain → Closes r → Closes s → e.text.toList ++ r = f.text.toList ++ s →
    e.mapLine noLine = f.mapLine noLine ∧ r = s

theorem closes_spaced (es : List Expr) (rest : List Char) : Closes (spaced es ++ ')' :: rest) := by
  cases es <;> simp [Closes, spaced]

/-- Operands can be told from others, and their number from the parenthesis behind them. -/
theorem spaced_append_inj {es fs : List Expr} (hes : ∀ e ∈ es, e.SelfDelimiting) (hfs : ∀ f ∈ fs, f.Plain)
    {r s : List Char} (h : spaced es ++ ')' :: r = spaced fs ++ ')' :: s) :
    es.map (mapLine noLine) = fs.map (mapLine noLine) ∧ r = s := by
  induction es generalizing fs with
  | nil =>
    cases fs with
    | nil => exact ⟨rfl, (List.cons.inj h).2⟩
    | cons f fs => simp [spaced] at h
  | cons e es ih =>
    cases fs with
    | nil => simp [spaced] at h
    | cons f fs =>
      -- behind the operand comes a space or the parenthesis, so it ends where it ends in the other node
      have hnext : e.text.toList ++ (spaced es ++ ')' :: r) = f.text.toList ++ (spaced fs ++ ')' :: s) := by
        simpa [spaced] using h
      obtain ⟨he, hrest⟩ := hes e List.mem_cons_self f _ _ (hfs f List.mem_cons_self) (closes_spaced es r)
        (closes_spaced fs s) hnext
      obtain ⟨hes', hrs⟩ := ih (fun e he => hes e (List.mem_cons_of_mem _ he))
        (fun f hf => hfs f (List.mem_cons_of_mem _ hf)) hrest
      exact ⟨by rw [List.map_cons, List.map_cons, he, hes'], hrs⟩

/-- Nodes can be told apart by their words and operands, and from what stands behind them. -/
theorem node_append_inj {word word' : String} (hw : ∀ c ∈ word.toList, isBare c)
    (hw' : ∀ c ∈ word'.toList, isBare c) {es fs : List Expr} (hes : ∀ e ∈ es, e.SelfDelimiting)
    (hfs : ∀ f ∈ fs, f.Plain) {r s : List Char} (h : node word es ++ r = node word' fs ++ s) :
    word = word' ∧ es.map (mapLine noLine) = fs.map (mapLine noLine) ∧ r = s := by
  simp only [node, List.cons_append, List.append_assoc, List.nil_append, List.cons.injEq, true_and] at h
  obtain ⟨hword, hrest⟩ := append_inj_of_stop hw hw' (closes_spaced es r).not_bare (closes_spaced fs s).not_bare h
  obtain ⟨hops, hrs⟩ := spaced_append_inj hes hfs hrest
  exact ⟨String.toList_inj.1 hword, hops, hrs⟩

theorem selfDelimiting_literal {v : Value} (hv : v.Plain) (line : Nat) : (literal v line).SelfDelimiting := by
  intro f r s hf hr hs h
  cases hword : f.word? with
  | none =>
    cases f with
    | literal w line' =>
      obtain ⟨rfl, hrs⟩ := Value.quotedText_append_inj hv hf hr hs h
      exact ⟨rfl, hrs⟩
    | _ => cases hword
  | some word =>
    -- only a node begins with a parenthesis
    rw [toList_text hword] at h
    exact absurd (congrArg List.head? h) (v.head_quotedText_ne r)

theorem selfDelimiting_node {e : Expr} {word : String} (hword : e.word? = some word)
    (hops : ∀ o ∈ e.operands, o.SelfDelimiting) : e.SelfDelimiting := by
  intro f r s hf hr hs h
  rw [toList_text hword] at h
  cases hword' : f.word? with
  | none =>
    cases f with
    | literal w line => exact absurd (congrArg List.head? h).symm (w.head_quotedText_ne s)
    | _ => cases hword'
  | some word' =>
    rw [toList_text hword'] at h
    obtain ⟨rfl, hops', hrs⟩ := node_append_inj (bare_word hword) (bare_word hword') hops hf.operands h
    exact ⟨mapLine_eq_of_node hword hword' hops', hrs⟩

/-- **A written expression can be told from any other**, and from what stands behind it. -/
theorem selfDelimiting {e : Expr} (h : e.Plain) : e.SelfDelimiting := by
  induction e with
  | literal v line => exact selfDelimiting_literal h line
  | grouping body line ih =>
    refine selfDelimiting_node rfl ?_
    simpa [operands] using ih h
  | unary op operand line ih =>
    refine selfDelimiting_node rfl ?_
    simpa [operands] using ih h
  | binary left op right line ihl ihr =>
    refine selfDelimiting_node rfl ?_
    simpa [operands] using And.intro (ihl h.1) (ihr h.2)

/-- Expressions that are written alike are equal up to lines. -/
theorem mapLine_eq_of_text {e f : Expr} (he : e.Plain) (hf : f.Plain) (h : e.text = f.text) :
    e.mapLine noLine = f.mapLine noLine := by
  have hend : Closes [] := by simp [Closes]
  exact (selfDelimiting he f [] [] hf hend hend (by rw [h])).1

end Expr

/-! ## Statements and programs -/

namespace Statement

def Plain (s : Statement) : Prop := s.expr.Plain

def word : Statement → String
  | .print _ _ => "print"
  | .expression _ _ => ";"

theorem bare_word (s : Statement) : ∀ c ∈ s.word.toList, isBare c := by
  cases s with
  | print | expression =>
    rw [word]
    exact List.all_eq_true.1 rfl

theorem toList_text (s : Statement) : s.text.toList = Expr.node s.word [s.expr] := by
  cases s <;> simp [text, word, expr, Expr.node, Expr.spaced, String.toList_append]

/-- A written statement can be told from any other, and from whatever stands behind it. -/
theorem text_append_inj {s t : Statement} (hs : s.Plain) (ht : t.Plain) {q r : List Char}
    (h : s.text.toList ++ q = t.text.toList ++ r) : s.mapLine noLine = t.mapLine noLine ∧ q = r := by
  rw [s.toList_text, t.toList_text] at h
  obtain ⟨hword, hexpr, hrest⟩ := Expr.node_append_inj s.bare_word t.bare_word
    (by simpa using Expr.selfDelimiting hs) (by simpa [Plain] using ht) h
  refine ⟨?_, hrest⟩
  rw [List.map_cons, List.map_cons, List.cons.injEq] at hexpr
  cases s <;> cases t <;> simp_all [word, expr, mapLine, noLine]

end Statement

namespace Program

def Plain (p : Program) : Prop := ∀ s ∈ p, s.Plain

/-- The written form of a program: its statements, each on a line of its own. -/
def text : Program → String
  | [] => ""
  | s :: p => s.text ++ "\n" ++ text p

/-- **The written form is faithful.** -/
theorem mapLine_eq_of_text {p q : Program} (hp : Plain p) (hq : Plain q) (h : text p = text q) :
    mapLine noLine p = mapLine noLine q := by
  rw [← String.toList_inj] at h
  induction p generalizing q with
  | nil =>
    cases q with
    | nil => rfl
    | cons t q => simp [text, t.toList_text, Expr.node] at h
  | cons s p ih =>
    cases q with
    | nil => simp [text, s.toList_text, Expr.node] at h
    | cons t q =>
      simp only [text, String.toList_append, List.append_assoc] at h
      obtain ⟨hst, hrest⟩ := Statement.text_append_inj (hp s List.mem_cons_self) (hq t List.mem_cons_self) h
      have hpq := ih (fun s hs => hp s (List.mem_cons_of_mem _ hs)) (fun t ht => hq t (List.mem_cons_of_mem _ ht))
        (List.append_cancel_left hrest)
      exact congrArg₂ List.cons hst hpq

end Program

/-! ## What is read from a text -/

theorem IsLexeme.plain {kind : Kind} {text : List Char} {v : Value} (h : IsLexeme kind text (some v)) : v.Plain := by
  cases h with
  | string hbody => rwa [Value.Plain, String.toList_ofList]
  | digits | decimal => trivial

theorem IsLiteral.plain {t : Token} {v : Value} (h : IsLiteral t v) (ht : t.FromText) : v.Plain := by
  cases h with
  | falseWord | trueWord | nilWord => trivial
  | number _ hv | string _ hv =>
    have hlexeme := ht.lexeme
    rw [hv] at hlexeme
    exact hlexeme.plain

theorem Derives.plain {r ts e} (h : Derives r ts e) (hts : ∀ t ∈ ts, t.FromText) : e.Plain := by
  induction h with
  | literal hv => exact hv.plain (hts _ List.mem_cons_self)
  | grouping _ _ _ ih => exact ih fun t ht => hts t (by simp [ht])
  | primary _ ih | operand _ ih => exact ih hts
  | unary _ _ ih => exact ih fun t ht => hts t (by simp [ht])
  | binary _ _ _ _ ihl ihr => exact ⟨ihl fun t ht => hts t (by simp [ht]), ihr fun t ht => hts t (by simp [ht])⟩

theorem DerivesStatement.plain {ts s} (h : DerivesStatement ts s) (hts : ∀ t ∈ ts, t.FromText) : s.Plain := by
  cases h with
  | print _ he _ => exact he.plain fun t ht => hts t (by simp [ht])
  | expression he _ => exact he.plain fun t ht => hts t (List.mem_append_left _ ht)

theorem DerivesProgram.plain {ts p} (h : DerivesProgram ts p) (hts : ∀ t ∈ ts, t.FromText) : Program.Plain p := by
  induction h with
  | nil => exact fun s hs => absurd hs List.not_mem_nil
  | cons hs _ ih =>
    intro s hmem
    rcases List.mem_cons.1 hmem with rfl | hmem
    · exact hs.plain fun t ht => hts t (List.mem_append_left _ ht)
    · exact ih (fun t ht => hts t (List.mem_append_right _ ht)) s hmem

/-- No string in the source text of a program has a quote in it. -/
theorem Program.plain_of_parse {source : String} {p : Program} (h : parse source = .ok p) : Plain p := by
  obtain ⟨ts, hscan, hread⟩ := parse_eq_ok.1 h
  obtain ⟨before, line, rfl, hbefore⟩ := Token.scan_eq_ok hscan
  rw [read_eq_ok, Token.beforeEnd_scan hbefore] at hread
  exact hread.plain hbefore

/-! ## What the command shows -/

theorem utf8_injective : Function.Injective utf8 := by
  intro s t h
  simp only [utf8] at h
  rw [← String.toByteArray_inj, ← String.utf8Encode_toList, ← String.utf8Encode_toList, List.utf8Encode,
    List.utf8Encode, h]

theorem utf8_append (s t : String) : utf8 (s ++ t) = utf8 s ++ utf8 t := by
  rw [utf8, String.toList_append, List.flatMap_append]
  rfl

namespace Program

/-- What the command shows of a program is its written form. -/
theorem lines_text (p : Program) : lines (p.map Statement.text) = utf8 (text p) := by
  induction p with
  | nil => rfl
  | cons s p ih =>
    rw [text, utf8_append, ← ih]
    rfl

/-! ## Programs that are written alike -/

/-- The texts leave the same sink, and both end well or both fail at run time, with the same error
up to its line. -/
def RunAlike (a b : String) (sink : Sink) : Prop :=
  (∃ s, run a sink = ⟨s, none⟩ ∧ run b sink = ⟨s, none⟩) ∨
    ∃ s e e', run a sink = ⟨s, some (.runtime e)⟩ ∧ run b sink = ⟨s, some (.runtime e')⟩ ∧
      e.mapLine noLine = e'.mapLine noLine

theorem runAlike_of_text {a b : String} {p q : Program} (ha : parse a = .ok p) (hb : parse b = .ok q)
    (h : text p = text q) (sink : Sink) : RunAlike a b sink := by
  have hlines := mapLine_eq_of_text (plain_of_parse ha) (plain_of_parse hb) h
  have hruns := interpret_congr hlines sink
  rw [RunAlike, run_of_parse ha, run_of_parse hb]
  -- equal up to lines, the two outcomes cannot be a success and a failure
  rcases hp : interpret sink p with ⟨s, _ | e⟩ <;> rcases hq : interpret sink q with ⟨t, _ | e'⟩ <;>
    simp only [hp, hq, Outcome.mapFailure, Option.map_none, Option.map_some, Outcome.mk.injEq, reduceCtorEq,
      and_false, and_true, Option.some.injEq] at hruns
  · exact .inl ⟨s, rfl, by rw [hruns]; rfl⟩
  · exact .inr ⟨s, e, e', rfl, by rw [hruns.1]; rfl, hruns.2⟩

/-- **The written form is faithful.** Programs whose strings have no quotes in them are equal up to
lines if they are written alike, and so are expressions; no string of a program that is read from a
text has quotes in it; and texts of programs that are written alike run alike. The command shows the
written form, so it shows as much. -/
theorem text_faithful :
    (∀ p q : Program, Plain p → Plain q → text p = text q → mapLine noLine p = mapLine noLine q) ∧
    (∀ e f : Expr, e.Plain → f.Plain → e.text = f.text → e.mapLine noLine = f.mapLine noLine) ∧
    (∀ source p, parse source = .ok p → Plain p) ∧
    (∀ a b p q, parse a = .ok p → parse b = .ok q → text p = text q → ∀ sink, RunAlike a b sink) ∧
    (∀ source p, parse source = .ok p → Mode.tree.respond source = { stdout := utf8 (text p) }) ∧
    ∀ a b p q, parse a = .ok p → parse b = .ok q →
      (Mode.tree.respond a = Mode.tree.respond b ↔ text p = text q) := by
  have hshown : ∀ source p, parse source = .ok p → Mode.tree.respond source = { stdout := utf8 (text p) } := by
    intro source p h
    simp only [Mode.respond, h, lines_text]
  refine ⟨fun _ _ hp hq h => mapLine_eq_of_text hp hq h, fun _ _ he hf h => Expr.mapLine_eq_of_text he hf h,
    fun _ _ h => plain_of_parse h, fun _ _ _ _ ha hb h sink => runAlike_of_text ha hb h sink, hshown,
    fun a b p q ha hb => ?_⟩
  rw [hshown a p ha, hshown b q hb, Response.mk.injEq]
  exact ⟨fun h => utf8_injective h.1, fun h => ⟨by rw [h], rfl, rfl⟩⟩

/-- A string that imitates the end of a statement and the beginning of another. -/
def imitating (gap : String) : String := "print \")\n(; nil\"" ++ gap ++ "- 1;"

/-- The program, with its operator and last number on that line. -/
def imitated (line : Nat) : Program :=
  [.print (.binary (.literal (.string ")\n(; nil") 2) .subtract
    (.literal (.number (Decimal.toNumber false ⟨1, 0⟩)) line) line) 1]

theorem runAlike_imitating : (parse (imitating " ") = .ok (imitated 2) ∧
    parse (imitating "\n") = .ok (imitated 3) ∧ text (imitated 2) = text (imitated 3)) ∧
      mapLine noLine (imitated 2) = mapLine noLine (imitated 3) ∧
        (∀ sink, RunAlike (imitating " ") (imitating "\n") sink) ∧
          Mode.tree.respond (imitating " ") = Mode.tree.respond (imitating "\n") := by
  have ha : parse (imitating " ") = .ok (imitated 2) := by decide +kernel
  have hb : parse (imitating "\n") = .ok (imitated 3) := by decide +kernel
  have htext : text (imitated 2) = text (imitated 3) := by decide +kernel
  obtain ⟨hprograms, -, hplain, hrun, -, hshown⟩ := text_faithful
  exact ⟨⟨ha, hb, htext⟩, hprograms _ _ (hplain _ _ ha) (hplain _ _ hb) htext, hrun _ _ _ _ ha hb htext,
    (hshown _ _ _ _ ha hb).2 htext⟩

end Program
end ExprLang
