/-
The three modes of the command on one script. They scan, read and run it one after
another, and each stops where it has what it shows; so they refuse a script with the same
message, but for the tokens of one that is no program (`Mode.Agree`).

A command line gives a script behind its flags, which stand in any order and spelling, as
a text or as the name of a file; both are answered alike (`Mode.agree`).
-/
import ExprLang.Proofs.Lines
import ExprLang.Response

namespace ExprLang

/-! ## Flags -/

/-- The arguments that these flags may be written as: a flag by its word, or a few by their letters. -/
inductive Flag.Spells : List Flag → List String → Prop
  | nil : Spells [] []
  | word {flag flags arguments} : Spells flags arguments →
      Spells (flag :: flags) (("--" ++ flag.word) :: arguments)
  | letters {flag cluster flags arguments} : Spells flags arguments →
      Spells (flag :: cluster ++ flags) (String.ofList ('-' :: (flag :: cluster).map Flag.letter) :: arguments)

namespace Flag

theorem ofLetter?_letter (flag : Flag) : ofLetter? flag.letter = some flag := by
  cases flag <;> rfl

theorem ofWord?_word (flag : Flag) : ofWord? flag.word = some flag := by
  cases flag <;> decide

theorem letter_ne_dash (flag : Flag) : flag.letter ≠ '-' := by
  cases flag <;> decide

end Flag

namespace Options

/-- The options that a command line with these flags has set, and this script. -/
def ofFlags (flags : List Flag) (contents : Option String) : Options :=
  ⟨decide (.file ∈ flags), decide (.tokens ∈ flags), decide (.tree ∈ flags), contents⟩

theorem takeLetters_map (options : Options) (flags : List Flag) :
    options.takeLetters (flags.map Flag.letter) = flags.foldlM take options := by
  induction flags generalizing options with
  | nil => rfl
  | cons flag flags ih =>
    simp only [List.map_cons, takeLetters, Flag.ofLetter?_letter, List.foldlM_cons]
    cases options.take flag with
    | ok options => exact ih options
    | error request => rfl

theorem takeArgument_word (options : Options) (flag : Flag) :
    options.takeArgument ("--" ++ flag.word) = options.take flag := by
  have hchars : ("--" ++ flag.word).toList = '-' :: '-' :: flag.word.toList := String.toList_append
  simp only [takeArgument, hchars, String.ofList_toList, Flag.ofWord?_word]

theorem takeArgument_letters (options : Options) (flag : Flag) (cluster : List Flag) :
    options.takeArgument (String.ofList ('-' :: (flag :: cluster).map Flag.letter)) =
      (flag :: cluster).foldlM take options := by
  rw [← takeLetters_map]
  simp only [takeArgument, String.toList_ofList, List.map_cons]
  split
  · next h => exact absurd (List.cons.inj (List.cons.inj h).2).1 flag.letter_ne_dash
  · next h =>
    obtain ⟨-, h⟩ := List.cons.inj h
    rw [h]
  · next h => exact absurd rfl (h _ _)

theorem takeAll_word (options : Options) (flag : Flag) (arguments : List String) :
    options.takeAll (("--" ++ flag.word) :: arguments) = options.take flag >>= (takeAll · arguments) := by
  have hne : "--" ++ flag.word ≠ "--" := by
    cases flag <;> decide
  simp only [takeAll, hne, if_false, takeArgument_word]
  cases options.take flag <;> rfl

theorem takeAll_letters (options : Options) (flag : Flag) (cluster : List Flag) (arguments : List String) :
    options.takeAll (String.ofList ('-' :: (flag :: cluster).map Flag.letter) :: arguments) =
      (flag :: cluster).foldlM take options >>= (takeAll · arguments) := by
  have hne : String.ofList ('-' :: (flag :: cluster).map Flag.letter) ≠ "--" := by
    intro h
    have hchars := congrArg String.toList h
    rw [String.toList_ofList] at hchars
    exact flag.letter_ne_dash (List.cons.inj (List.cons.inj hchars).2).1
  simp only [takeAll, hne, if_false, takeArgument_letters]
  cases (flag :: cluster).foldlM take options <;> rfl

/-- However flags are written, they are taken one by one. -/
theorem takeAll_spells {flags : List Flag} {arguments : List String} (h : Flag.Spells flags arguments)
    (options : Options) (rest : List String) :
    options.takeAll (arguments ++ rest) = flags.foldlM take options >>= (takeAll · rest) := by
  induction h generalizing options with
  | nil => rfl
  | word _ ih =>
    rw [List.cons_append, takeAll_word, List.foldlM_cons, bind_assoc]
    exact congrArg _ (funext ih)
  | letters _ ih =>
    rw [List.cons_append, takeAll_letters, List.foldlM_append, bind_assoc]
    exact congrArg _ (funext ih)

/-- A flag that is new, and no call for help or the version, is set. -/
theorem take_ofFlags {flags : List Flag} {flag : Flag} (hnew : flag ∉ flags) (hhelp : flag ≠ .help)
    (hversion : flag ≠ .version) (contents : Option String) :
    (ofFlags flags contents).take flag = .ok (ofFlags (flags ++ [flag]) contents) := by
  cases flag with
  | help => exact absurd rfl hhelp
  | version => exact absurd rfl hversion
  | file | tokens | tree => simp [take, ofFlags, hnew]

theorem foldlM_take {flags more : List Flag} (hnew : (flags ++ more).Nodup) (hhelp : .help ∉ more)
    (hversion : .version ∉ more) (contents : Option String) :
    more.foldlM take (ofFlags flags contents) = .ok (ofFlags (flags ++ more) contents) := by
  induction more generalizing flags with
  | nil => rw [List.append_nil]; rfl
  | cons flag more ih =>
    have hflag : flag ∉ flags := by
      intro hmem
      exact (List.nodup_append.1 hnew).2.2 flag hmem flag List.mem_cons_self rfl
    have hflagHelp := (List.ne_of_not_mem_cons hhelp).symm
    have hflagVersion := (List.ne_of_not_mem_cons hversion).symm
    rw [List.append_cons] at hnew ⊢
    rw [List.foldlM_cons, take_ofFlags hflag hflagHelp hflagVersion]
    exact ih hnew (List.not_mem_of_not_mem_cons hhelp) (List.not_mem_of_not_mem_cons hversion)

end Options

/-! ## Command lines -/

/-- These flags, none of them twice, ask for this mode. -/
structure Mode.AskedBy (mode : Mode) (flags : List Flag) : Prop where
  once : flags.Nodup
  help : .help ∉ flags
  version : .version ∉ flags
  tokens : .tokens ∈ flags ↔ mode = .tokens
  tree : .tree ∈ flags ↔ mode = .tree

theorem Options.request_ofFlags {mode : Mode} {flags : List Flag} (h : mode.AskedBy flags) (contents : String) :
    (ofFlags flags (some contents)).request = .job ⟨mode, decide (.file ∈ flags), contents⟩ := by
  have htokens := h.tokens
  have htree := h.tree
  cases mode <;> simp_all [request, ofFlags]

namespace Request

/-- **What a command line asks for** whose flags, in any order and spelling, ask for this mode. -/
theorem ofArguments_spells {mode : Mode} {flags : List Flag} {arguments : List String} (h : mode.AskedBy flags)
    (hs : Flag.Spells flags arguments) (contents : String) :
    ofArguments (arguments ++ ["--", contents]) = .job ⟨mode, decide (.file ∈ flags), contents⟩ := by
  have hflags : flags.foldlM Options.take {} = .ok (Options.ofFlags flags none) :=
    @Options.foldlM_take [] flags h.once h.help h.version none
  have htaken : Options.takeAll {} (arguments ++ ["--", contents]) = .ok (Options.ofFlags flags (some contents)) := by
    rw [Options.takeAll_spells hs, hflags]
    rfl
  rw [ofArguments, htaken]
  exact Options.request_ofFlags h contents

/-- What the command answers to these arguments, if these are the bytes of the files that it can read. -/
def answer (files : String → Option ByteArray) (arguments : List String) : Response :=
  (ofArguments arguments).respond ((ofArguments arguments).fileName?.bind files)

end Request

/-- A command line gives this script: behind its flags and `--` stands the text, or with `--file` the
name of a file of this text. -/
inductive Mode.Gives (mode : Mode) (files : String → Option ByteArray) (script : String) : List String → Prop
  | inline {flags arguments} : mode.AskedBy flags → Flag.Spells flags arguments → .file ∉ flags →
      Gives mode files script (arguments ++ ["--", script])
  | file {flags arguments name} : mode.AskedBy flags → Flag.Spells flags arguments → .file ∈ flags →
      files name = some script.toUTF8 → Gives mode files script (arguments ++ ["--", name])

/-- A text is what its bytes are read as. -/
theorem fromUTF8?_toUTF8 (s : String) : String.fromUTF8? s.toUTF8 = some s := by
  simp only [String.fromUTF8?, String.toUTF8_eq_toByteArray, dif_pos s.isValidUTF8]
  rfl

/-- Text or file, the script is answered alike. -/
theorem Mode.Gives.answer_eq {mode : Mode} {files : String → Option ByteArray} {script : String}
    {arguments : List String} (h : mode.Gives files script arguments) :
    Request.answer files arguments = mode.respond script := by
  cases h with
  | inline h hs hfile =>
    rw [Request.answer, Request.ofArguments_spells h hs, decide_eq_false hfile]
    rfl
  | file h hs hfile hbytes =>
    rw [Request.answer, Request.ofArguments_spells h hs, decide_eq_true hfile]
    simp only [Request.fileName?, Option.bind_some, hbytes, Request.respond, Job.respond, Job.script?, if_true,
      fromUTF8?_toUTF8]

/-! ## Runs -/

/-- The text that a statement prints. -/
def Statement.shown? : Statement → Option String
  | .expression _ _ => none
  | .print e _ =>
    match e.evaluate with
    | .error _ => none
    | .ok value => some value.text

theorem Statement.output_eq (s : Statement) : s.output = lines s.shown?.toList := by
  cases s with
  | expression e line => rfl
  | print e line =>
    simp only [output, shown?]
    cases e.evaluate with
    | error error => rfl
    | ok value => simp [lines]

namespace Program

theorem output_eq_lines {p : Program} (h : ∀ s ∈ p, s.succeeds = true) :
    p.output = lines (p.filterMap Statement.shown?) := by
  induction p with
  | nil => rfl
  | cons s p ih =>
    rw [output_cons (h s List.mem_cons_self), s.output_eq, ih fun t ht => h t (List.mem_cons_of_mem _ ht)]
    cases hs : s.shown? with
    | none => rw [List.filterMap_cons_none hs]; rfl
    | some text => rw [List.filterMap_cons_some hs]; simp [lines]

/-- The statement whose error is that of the program. -/
theorem exists_failing {p : Program} {error : RuntimeError} (h : p.error? = some error) :
    ∃ before s after, p = before ++ s :: after ∧ (∀ t ∈ before, t.succeeds = true) ∧
      s.expr.evaluate = .error error ∧ p.output = output before := by
  obtain ⟨before, s, after, rfl, herror, hbefore⟩ := List.findSome?_eq_some_iff.1 h
  have hsucceeds : ∀ t ∈ before, t.succeeds = true := fun t ht => Statement.succeeds_iff.2 (hbefore t ht)
  have hfails : ¬ s.succeeds = true := by
    rw [Statement.succeeds_iff, herror]
    exact Option.some_ne_none _
  refine ⟨before, s, after, rfl, hsucceeds, Expr.error?_eq_some_iff.1 herror, ?_⟩
  rw [output_append hsucceeds, output_cons_of_fails hfails, List.append_nil]

/-- What the command answers when it runs a program: the texts of its print statements, each on a
line, up to the first statement that fails. -/
inductive Answers (p : Program) : Response → Prop
  | success : (∀ s ∈ p, s.succeeds = true) → Answers p ⟨lines (p.filterMap Statement.shown?), [], 0⟩
  | failure {before s after error} : p = before ++ s :: after → (∀ t ∈ before, t.succeeds = true) →
      s.expr.evaluate = .error error →
      Answers p ⟨lines (before.filterMap Statement.shown?), lines [error.message], 70⟩

end Program

/-! ## Modes -/

namespace Mode

variable {script : String}

theorem respond_of_scan_error {error : LexicalError} (h : Token.scan script = .error error) (mode : Mode) :
    mode.respond script = ⟨[], lines [error.message], 65⟩ := by
  have hparse : Program.parse script = .error (.lexical error) := by simp only [Program.parse, h]
  cases mode with
  | tokens => simp only [respond, h]; rfl
  | tree => simp only [respond, hparse]; rfl
  | run => simp only [respond, Program.run_of_parse_error hparse]; rfl

theorem respond_tokens {ts : List Token} (h : Token.scan script = .ok ts) :
    tokens.respond script = ⟨lines (ts.map Token.text), [], 0⟩ := by
  simp only [respond, h]

theorem exitCode_of_parse_error {error : Error} (h : Program.parse script = .error error) : error.exitCode = 65 := by
  simp only [Program.parse] at h
  split at h
  · cases h
    rfl
  · split at h <;> cases h
    rfl

theorem respond_of_parse_error {error : Error} (h : Program.parse script = .error error) {mode : Mode}
    (hm : mode ≠ .tokens) : mode.respond script = ⟨[], lines [error.message], 65⟩ := by
  have hresponse : error.response [] = ⟨[], lines [error.message], 65⟩ := by
    rw [Error.response, exitCode_of_parse_error h]
  cases mode with
  | tokens => exact absurd rfl hm
  | tree => simp only [respond, h, hresponse]
  | run => simp only [respond, Program.run_of_parse_error h, hresponse]

theorem respond_tree {p : Program} (h : Program.parse script = .ok p) :
    tree.respond script = ⟨lines (p.map Statement.text), [], 0⟩ := by
  simp only [respond, h]

theorem respond_run {p : Program} (h : Program.parse script = .ok p) : p.Answers (run.respond script) := by
  have haccepts : ({} : Sink).Accepts := ⟨rfl, rfl⟩
  cases he : p.error? with
  | none =>
    have hall := Program.error?_eq_none.1 he
    simp only [respond, Program.run_accepted_success h haccepts he, List.nil_append, Program.output_eq_lines hall]
    exact .success hall
  | some error =>
    obtain ⟨before, s, after, hp, hbefore, herror, houtput⟩ := Program.exists_failing he
    simp only [respond, Program.run_accepted_failure h haccepts he, Sink.taking, List.nil_append, houtput,
      Program.output_eq_lines hbefore]
    exact .failure hp hbefore herror

/-- The command ends well, refuses the script without a word of output, or has run it and failed. -/
theorem respond_cases (mode : Mode) (script : String) : (mode.respond script).exitCode = 0 ∨
    ((mode.respond script).exitCode = 65 ∧ (mode.respond script).stdout = []) ∨
      ((mode.respond script).exitCode = 70 ∧ mode = .run) := by
  cases hs : Token.scan script with
  | error error =>
    rw [respond_of_scan_error hs]
    exact .inr (.inl ⟨rfl, rfl⟩)
  | ok ts =>
    -- tokens are shown before anything is read from them
    by_cases hm : mode = .tokens
    · rw [hm, respond_tokens hs]
      exact .inl rfl
    · cases hp : Program.parse script with
      | error error =>
        rw [respond_of_parse_error hp hm]
        exact .inr (.inl ⟨rfl, rfl⟩)
      | ok p =>
        cases mode with
        | tokens => exact absurd rfl hm
        | tree =>
          rw [respond_tree hp]
          exact .inl rfl
        | run =>
          have hanswers := respond_run hp
          generalize run.respond script = response at hanswers ⊢
          cases hanswers with
          | success => exact .inl rfl
          | failure => exact .inr (.inr ⟨rfl, rfl⟩)

/-- How the answers to a script in the three modes go together. -/
structure Agree (script : String) (response : Mode → Response) : Prop where
  /-- A text that does not scan is refused in all modes, with one message. -/
  unscanned : ∀ error, Token.scan script = .error error → ∀ mode,
    response mode = ⟨[], lines [error.message], 65⟩
  /-- All tokens are shown of one that does, be it a program or not. -/
  scanned : ∀ ts, Token.scan script = .ok ts → response .tokens = ⟨lines (ts.map Token.text), [], 0⟩
  /-- What is no program is neither shown nor run, for the same reason. -/
  unparsed : ∀ error, Program.parse script = .error error →
    response .tree = ⟨[], lines [error.message], 65⟩ ∧ response .run = ⟨[], lines [error.message], 65⟩
  parsed : ∀ p, Program.parse script = .ok p →
    response .tree = ⟨lines (p.map Statement.text), [], 0⟩ ∧ p.Answers (response .run)
  failed : ∀ mode, (response mode).exitCode = 70 → mode = .run
  refused : ∀ mode, (response mode).exitCode = 65 → (response mode).stdout = []

theorem agree_respond (script : String) : Agree script (·.respond script) where
  unscanned _ h := respond_of_scan_error h
  scanned _ h := respond_tokens h
  unparsed _ h := ⟨respond_of_parse_error h Mode.noConfusion, respond_of_parse_error h Mode.noConfusion⟩
  parsed _ h := ⟨respond_tree h, respond_run h⟩
  failed mode h := by
    rcases mode.respond_cases script with h' | ⟨h', -⟩ | ⟨-, hrun⟩
    · cases h.symm.trans h'
    · cases h.symm.trans h'
    · exact hrun
  refused mode h := by
    rcases mode.respond_cases script with h' | ⟨-, hempty⟩ | ⟨h', -⟩
    · cases h.symm.trans h'
    · exact hempty
    · cases h.symm.trans h'

/-- **The modes agree.** The answers to a script in the three modes go together, and do not depend
on how the command line gives it. -/
theorem agree (script : String) : ∃ response, Agree script response ∧ ∀ (mode : Mode) files arguments,
    mode.Gives files script arguments → Request.answer files arguments = response mode :=
  ⟨(·.respond script), agree_respond script, fun _ _ _ h => h.answer_eq⟩

/-- A script that prints a line before it fails. -/
def failingLate : String := "print 1;\nprint -nil;"

/-- The only file, with the script. -/
def lateFile (name : String) : Option ByteArray := if name = "late" then some failingLate.toUTF8 else none

theorem failingLate_agree : (run.Gives lateFile failingLate ["--", failingLate] ∧
      tokens.Gives lateFile failingLate ["-tf", "--", "late"] ∧
      tree.Gives lateFile failingLate ["--file", "-a", "--", "late"]) ∧
    ∃ response, Agree failingLate response ∧ Request.answer lateFile ["--", failingLate] = response .run ∧
      Request.answer lateFile ["-tf", "--", "late"] = response .tokens ∧
      Request.answer lateFile ["--file", "-a", "--", "late"] = response .tree ∧
      response .run = ⟨lines ["1"], lines ["[line 2] Runtime error: Operand must be a number."], 70⟩ := by
  have hrun : run.Gives lateFile failingLate ["--", failingLate] := by
    have hasked : run.AskedBy [] := by constructor <;> decide
    exact .inline hasked .nil (by decide)
  have htokens : tokens.Gives lateFile failingLate ["-tf", "--", "late"] := by
    have hasked : tokens.AskedBy [.tokens, .file] := by constructor <;> decide
    have hspells : Flag.Spells [.tokens, .file] ["-tf"] := @Flag.Spells.letters .tokens [.file] [] [] .nil
    exact .file hasked hspells (by decide) rfl
  have htree : tree.Gives lateFile failingLate ["--file", "-a", "--", "late"] := by
    have hasked : tree.AskedBy [.file, .tree] := by constructor <;> decide
    have hspells : Flag.Spells [.file, .tree] ["--file", "-a"] := .word (@Flag.Spells.letters .tree [] [] [] .nil)
    exact .file hasked hspells (by decide) rfl
  obtain ⟨response, hagree, hgives⟩ := agree failingLate
  refine ⟨⟨hrun, htokens, htree⟩, response, hagree, hgives _ _ _ hrun, hgives _ _ _ htokens,
    hgives _ _ _ htree, ?_⟩
  rw [← hgives _ _ _ hrun]
  decide +kernel

end Mode
end ExprLang
