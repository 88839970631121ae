/-
What a run writes. `Program.output` is what a program prints when nothing stands in
its way: the texts of its print statements, each with a line feed, up to the first
statement that fails. A sink takes as much of it as it has room for.

If all of it fits, the run ends as the statements do, and is flushed if they all
succeed; if not, the run ends at the print statement that goes beyond the room, with
the sink full to the last byte (`Program.interpret_output`).
-/
import Mathlib.Data.List.TakeWhile
import ExprLang.Execution

namespace ExprLang

/-- The error of an expression that has no value. -/
def Expr.error? (e : Expr) : Option RuntimeError :=
  match e.evaluate with
  | .error error => some error
  | .ok _ => none

theorem Expr.error?_eq_some_iff {e : Expr} {error : RuntimeError} :
    e.error? = some error ↔ e.evaluate = .error error := by
  unfold error?
  cases e.evaluate <;> simp

namespace Statement

/-- The expression of the statement has a value. -/
def succeeds (s : Statement) : Bool := s.expr.error?.isNone

/-- What a statement prints when nothing stands in its way. -/
def output : Statement → List UInt8
  | .expression _ _ => []
  | .print e _ =>
    match e.evaluate with
    | .error _ => []
    | .ok value => utf8 (value.text ++ "\n")

theorem succeeds_iff {s : Statement} : s.succeeds = true ↔ s.expr.error? = none := Option.isNone_iff_eq_none

theorem error?_eq_some_of_not_succeeds {s : Statement} (h : ¬ s.succeeds = true) :
    ∃ error, s.expr.error? = some error := by
  rw [succeeds_iff] at h
  exact Option.ne_none_iff_exists'.1 h

end Statement

namespace Program

/-- What a program prints when nothing stands in its way: the output of the statements
before the first that fails. -/
def output (p : Program) : List UInt8 := (p.takeWhile Statement.succeeds).flatMap Statement.output

/-- The error of the first statement that fails. -/
def error? (p : Program) : Option RuntimeError := p.findSome? fun s => s.expr.error?

@[simp] theorem output_nil : output [] = [] := rfl

@[simp] theorem error?_nil : error? [] = none := rfl

theorem output_cons {s : Statement} (h : s.succeeds = true) (p : Program) : output (s :: p) = s.output ++ output p := by
  simp [output, h]

theorem output_cons_of_fails {s : Statement} (h : ¬ s.succeeds = true) (p : Program) : output (s :: p) = [] := by
  simp [output, h]

theorem error?_cons {s : Statement} (h : s.succeeds = true) (p : Program) : error? (s :: p) = error? p := by
  simp [error?, Statement.succeeds_iff.1 h]

theorem error?_cons_of_fails {s : Statement} {error : RuntimeError} (h : s.expr.error? = some error) (p : Program) :
    error? (s :: p) = some error := by
  simp [error?, h]

theorem output_append {p : Program} (h : ∀ s ∈ p, s.succeeds = true) (q : Program) :
    output (p ++ q) = output p ++ output q := by
  simp [output, List.takeWhile_append_of_pos h, List.takeWhile_eq_self_iff.2 h]

theorem error?_append {p : Program} (h : ∀ s ∈ p, s.succeeds = true) (q : Program) : error? (p ++ q) = error? q := by
  have hp : error? p = none := by
    simp only [error?, List.findSome?_eq_none_iff]
    exact fun s hs => Statement.succeeds_iff.1 (h s hs)
  simp only [error?] at hp ⊢
  rw [List.findSome?_append, hp, Option.none_or]

/-- A program without an error is one whose statements all succeed. -/
theorem error?_eq_none {p : Program} : error? p = none ↔ ∀ s ∈ p, s.succeeds = true := by
  simp only [error?, List.findSome?_eq_none_iff, Statement.succeeds_iff]

/-- Nothing is printed after an error, and no other is reported. -/
theorem append_of_error {p : Program} {error : RuntimeError} (h : error? p = some error) (q : Program) :
    output (p ++ q) = output p ∧ error? (p ++ q) = some error := by
  induction p with
  | nil => cases h
  | cons s p ih =>
    by_cases hs : s.succeeds = true
    · rw [error?_cons hs] at h
      obtain ⟨ho, he⟩ := ih h
      rw [List.cons_append, output_cons hs, output_cons hs, error?_cons hs, ho, he]
      exact ⟨rfl, rfl⟩
    · obtain ⟨error', he⟩ := Statement.error?_eq_some_of_not_succeeds hs
      rw [error?_cons_of_fails he] at h
      rw [List.cons_append, output_cons_of_fails hs, output_cons_of_fails hs, error?_cons_of_fails he]
      exact ⟨rfl, h⟩

end Program

/-! ## Sinks -/

namespace Sink

/-- The sink with these bytes behind those that it holds. -/
def taking (sink : Sink) (bytes : List UInt8) : Sink := { sink with held := sink.held ++ bytes }

/-- There is room for these bytes. -/
def Fits (sink : Sink) (bytes : List UInt8) : Prop := ∀ room, sink.room? = some room → bytes.length ≤ room

@[simp] theorem taking_nil (sink : Sink) : sink.taking [] = sink := by
  simp [taking]

@[simp] theorem taking_taking (sink : Sink) (bytes more : List UInt8) :
    (sink.taking bytes).taking more = sink.taking (bytes ++ more) := by
  simp [taking]

@[simp] theorem settings_taking (sink : Sink) (bytes : List UInt8) : (sink.taking bytes).settings = sink.settings := rfl

@[simp] theorem fullFault_taking (sink : Sink) (bytes : List UInt8) :
    (sink.taking bytes).fullFault = sink.fullFault := rfl

/-- What is taken is room less. -/
theorem room?_taking (sink : Sink) (bytes : List UInt8) :
    (sink.taking bytes).room? = sink.room?.map (· - bytes.length) := by
  simp only [room?, taking, List.length_append, Option.map_map]
  congr 1
  funext capacity
  simp only [Function.comp_apply]
  omega

theorem fits_append {sink : Sink} {bytes more : List UInt8} :
    sink.Fits (bytes ++ more) ↔ sink.Fits bytes ∧ (sink.taking bytes).Fits more := by
  simp only [Fits, room?_taking, List.length_append, Option.map_eq_some_iff]
  constructor
  · intro h
    refine ⟨fun room hr => ?_, ?_⟩
    · have := h room hr
      omega
    · rintro _ ⟨room, hr, rfl⟩
      have := h room hr
      omega
  · intro ⟨h, h'⟩ room hr
    have := h room hr
    have := h' _ ⟨room, hr, rfl⟩
    omega

theorem write_fits {sink : Sink} {bytes : List UInt8} (h : sink.Fits bytes) :
    sink.write bytes = (sink.taking bytes, none) := by
  have hfit : sink.fitting bytes = bytes := by
    unfold fitting
    split
    · rfl
    · next room hr => exact List.take_of_length_le (h room hr)
  simp [write, hfit, taking]

theorem write_overflows {sink : Sink} {bytes : List UInt8} {room : Nat} (hr : sink.room? = some room)
    (h : room < bytes.length) : sink.write bytes = (sink.taking (bytes.take room), some sink.fullFault) := by
  have hne : ¬ (bytes.take room).length = bytes.length := by
    rw [List.length_take]
    omega
  simp only [write, fitting, hr, hne, if_false, taking]

/-- A sink that takes everything, and that can be flushed. -/
structure Accepts (sink : Sink) : Prop where
  unbounded : sink.settings.capacity = none
  flushes : sink.settings.flushFails = false

theorem Accepts.fits {sink : Sink} (h : sink.Accepts) (bytes : List UInt8) : sink.Fits bytes := by
  intro room hr
  simp [room?, h.unbounded] at hr

end Sink

/-! ## One statement -/

namespace Statement

variable {sink : Sink} {s : Statement}

theorem execute_fails {error : RuntimeError} (h : s.expr.error? = some error) : s.execute sink = ⟨sink, some error⟩ := by
  rw [Expr.error?_eq_some_iff] at h
  cases s with
  | expression e line | print e line =>
    simp only [expr] at h
    simp only [execute, h]

theorem execute_fits (h : s.succeeds = true) (hf : sink.Fits s.output) :
    s.execute sink = ⟨sink.taking s.output, none⟩ := by
  rw [succeeds_iff] at h
  cases s with
  | expression e line | print e line =>
    simp only [expr, Expr.error?] at h
    cases he : e.evaluate with
    | error error => simp [he] at h
    | ok value =>
      simp only [output, he] at hf
      simp [execute, output, he, Value.printed, Sink.write_fits hf]

/-- Only what is printed can go beyond the room. -/
theorem execute_overflows {room : Nat} (hr : sink.room? = some room) (h : room < s.output.length) :
    ∃ e line, s = .print e line ∧
      s.execute sink = ⟨sink.taking (s.output.take room), some (sink.fullFault.blame line)⟩ := by
  cases s with
  | expression e line => exact absurd h (Nat.not_lt_zero _)
  | print e line =>
    refine ⟨e, line, rfl, ?_⟩
    cases he : e.evaluate with
    | error error => simp [output, he] at h
    | ok value =>
      simp only [output, he] at h
      simp [execute, output, he, Value.printed, Sink.write_overflows hr h]

end Statement

/-! ## Programs -/

namespace Program

variable {sink : Sink}

theorem execute_cons {s : Statement} {sink' : Sink} (h : s.execute sink = ⟨sink', none⟩) (p : Program) :
    execute sink (s :: p) = execute sink' p := by
  simp [execute, h]

theorem execute_cons_failure {s : Statement} {sink' : Sink} {error : RuntimeError}
    (h : s.execute sink = ⟨sink', some error⟩) (p : Program) : execute sink (s :: p) = ⟨sink', some error⟩ := by
  simp [execute, h]

/-- A program whose output fits ends as its statements do. -/
theorem execute_fits {p : Program} (h : sink.Fits p.output) : execute sink p = ⟨sink.taking p.output, p.error?⟩ := by
  induction p generalizing sink with
  | nil => simp [execute]
  | cons s p ih =>
    by_cases hs : s.succeeds = true
    · rw [output_cons hs, Sink.fits_append] at h
      rw [execute_cons (s.execute_fits hs h.1), ih h.2, output_cons hs, error?_cons hs, Sink.taking_taking]
    · obtain ⟨error, he⟩ := Statement.error?_eq_some_of_not_succeeds hs
      rw [execute_cons_failure (Statement.execute_fails he), output_cons_of_fails hs, error?_cons_of_fails he,
        Sink.taking_nil]

/-- Statements that succeed and whose output fits leave the rest to run on. -/
theorem execute_append {p : Program} (hp : ∀ s ∈ p, s.succeeds = true) (h : sink.Fits p.output) (q : Program) :
    execute sink (p ++ q) = execute (sink.taking p.output) q := by
  induction p generalizing sink with
  | nil => simp
  | cons s p ih =>
    have hs := hp s List.mem_cons_self
    rw [output_cons hs, Sink.fits_append] at h
    rw [List.cons_append, execute_cons (s.execute_fits hs h.1), ih (fun s hs => hp s (List.mem_cons_of_mem _ hs)) h.2,
      output_cons hs, Sink.taking_taking]

/-- The statement whose output reaches beyond the first `room` bytes. -/
theorem exists_overflow {room : Nat} {p : Program} (h : room < p.output.length) :
    ∃ (before : Program) (s : Statement) (after : Program), p = before ++ s :: after ∧
      (∀ t ∈ before ++ [s], t.succeeds = true) ∧ before.output.length ≤ room ∧
      room < before.output.length + s.output.length := by
  induction p generalizing room with
  | nil => exact absurd h (Nat.not_lt_zero _)
  | cons s p ih =>
    by_cases hs : s.succeeds = true
    · rw [output_cons hs, List.length_append] at h
      by_cases hlt : room < s.output.length
      · exact ⟨[], s, p, rfl, by simpa using hs, by simp, by simpa using hlt⟩
      · have hrest : room - s.output.length < (output p).length := by omega
        obtain ⟨before, t, after, rfl, hall, hle, hlt'⟩ := ih hrest
        refine ⟨s :: before, t, after, rfl, ?_, ?_, ?_⟩
        · intro u hu
          rcases List.mem_cons.1 hu with rfl | hu
          · exact hs
          · exact hall u hu
        · rw [output_cons hs, List.length_append]
          omega
        · rw [output_cons hs, List.length_append]
          omega
    · rw [output_cons_of_fails hs] at h
      exact absurd h (Nat.not_lt_zero _)

/-- A run of statements that succeed ends where their output goes beyond the room. -/
theorem execute_overflows {room : Nat} (hr : sink.room? = some room) {before : Program} {s : Statement}
    (hs : ∀ t ∈ before ++ [s], t.succeeds = true) (hle : before.output.length ≤ room)
    (hlt : room < before.output.length + s.output.length) :
    ∃ e line, s = .print e line ∧ ∀ after, execute sink (before ++ s :: after) =
      ⟨sink.taking ((output (before ++ s :: after)).take room), some (sink.fullFault.blame line)⟩ := by
  have hbefore : ∀ t ∈ before, t.succeeds = true := fun t ht => hs t (List.mem_append_left _ ht)
  have hfits : sink.Fits before.output := by
    intro room' hr'
    rw [hr, Option.some.injEq] at hr'
    omega
  have hroom : (sink.taking before.output).room? = some (room - before.output.length) := by
    rw [Sink.room?_taking, hr]
    rfl
  obtain ⟨e, line, rfl, hexec⟩ := Statement.execute_overflows (s := s) hroom (by omega)
  refine ⟨e, line, rfl, fun after => ?_⟩
  have htake : (output (before ++ .print e line :: after)).take room =
      before.output ++ (Statement.print e line).output.take (room - before.output.length) := by
    rw [output_append hbefore, output_cons (hs _ (by simp)), List.take_append, List.take_of_length_le hle,
      List.take_append_of_le_length (by omega)]
  rw [execute_append hbefore hfits, execute_cons_failure hexec, htake, Sink.taking_taking, Sink.fullFault_taking]

/-! ## Runs with their flush -/

theorem interpret_of_failure {p : Program} {sink' : Sink} {error : RuntimeError}
    (h : execute sink p = ⟨sink', some error⟩) : interpret sink p = ⟨sink', some error⟩ := by
  simp [interpret, h]

theorem interpret_of_success {p : Program} {sink' : Sink} (h : execute sink p = ⟨sink', none⟩) :
    interpret sink p = ⟨{ sink' with flushes := sink'.flushes + 1 },
      if sink'.settings.flushFails then some (SinkFault.closed.blame p.lastLine) else none⟩ := by
  simp only [interpret, h, Sink.flush]
  split <;> rfl

theorem interpret_accepted_failure (h : sink.Accepts) {p : Program} {error : RuntimeError}
    (he : p.error? = some error) : interpret sink p = ⟨sink.taking p.output, some error⟩ :=
  interpret_of_failure (by rw [execute_fits (h.fits _), he])

theorem interpret_accepted_success (h : sink.Accepts) {p : Program} (he : p.error? = none) :
    interpret sink p = ⟨⟨sink.settings, sink.held ++ p.output, sink.flushes + 1⟩, none⟩ := by
  rw [interpret_of_success (by rw [execute_fits (h.fits _), he]), Sink.settings_taking, h.flushes]
  rfl

theorem lastLine_eq (p : Program) : p.lastLine = (p.getLast?.map Statement.line).getD 1 := by
  unfold lastLine
  cases p.getLast? <;> rfl

/-- How a run of the program on the sink ends: `o` is its outcome. -/
structure OutputLaw (sink : Sink) (p : Program) (o : Outcome RuntimeError) : Prop where
  /-- If a statement fails that the output before it leaves room for, the run ends with its error. -/
  fails : sink.Fits p.output → ∀ error, p.error? = some error → o = ⟨sink.taking p.output, some error⟩
  /-- If none fails, the sink is flushed, once; a flush that fails is blamed on the last statement. -/
  flushed : sink.Fits p.output → p.error? = none →
    o = ⟨⟨sink.settings, sink.held ++ p.output, sink.flushes + 1⟩,
      if sink.settings.flushFails then some (SinkFault.closed.blame ((p.getLast?.map Statement.line).getD 1))
      else none⟩
  /-- If the output does not fit, the run ends at the print statement that goes beyond the room,
  the sink full and not flushed; the statements after that one could be any others. -/
  overflows : ∀ room, sink.room? = some room → room < p.output.length →
    ∃ (before : Program) (e : Expr) (line : Nat) (after : Program), p = before ++ .print e line :: after ∧
      (∀ s ∈ before ++ [.print e line], s.succeeds = true) ∧ before.output.length ≤ room ∧
      room < (output (before ++ [.print e line])).length ∧
      o = ⟨sink.taking (p.output.take room), some (sink.fullFault.blame line)⟩ ∧
      ∀ after', interpret sink (before ++ .print e line :: after') = o

theorem outputLaw_interpret (sink : Sink) (p : Program) : OutputLaw sink p (interpret sink p) := by
  constructor
  · intro hfits error he
    exact interpret_of_failure (by rw [execute_fits hfits, he])
  · intro hfits he
    rw [interpret_of_success (by rw [execute_fits hfits, he]), ← lastLine_eq]
    rfl
  · intro room hr hlt
    obtain ⟨before, s, after, rfl, hs, hle, hlt'⟩ := exists_overflow hlt
    obtain ⟨e, line, rfl, hexec⟩ := execute_overflows hr hs hle hlt'
    have hbefore : ∀ t ∈ before, t.succeeds = true := fun t ht => hs t (List.mem_append_left _ ht)
    have hprint : (Statement.print e line).succeeds = true := hs _ (by simp)
    have hend := interpret_of_failure (hexec after)
    refine ⟨before, e, line, after, rfl, hs, hle, ?_, hend, fun after' => ?_⟩
    · rw [output_append hbefore, output_cons hprint, output_nil, List.append_nil, List.length_append]
      exact hlt'
    · have hcut : ∀ rest, (output (before ++ .print e line :: rest)).take room =
          (before.output ++ (Statement.print e line).output).take room := by
        intro rest
        rw [output_append hbefore, output_cons hprint, ← List.append_assoc, List.take_append_of_le_length]
        rw [List.length_append]
        exact hlt'.le
      rw [hend, interpret_of_failure (hexec after'), hcut, hcut]

/-- **The output law.** A run writes the output of its program as far as the sink has room for it,
and ends with the error of a statement, at the flush, or where the room ends; a run of a source
text is the run of the program that it is, and of none if it is no program. -/
theorem interpret_output (sink : Sink) (p : Program) : OutputLaw sink p (interpret sink p) ∧
    ∀ source, (parse source = .ok p → ∃ o, OutputLaw sink p o ∧ run source sink = o.mapFailure .runtime) ∧
      ∀ error, parse source = .error error → run source sink = ⟨sink, some error⟩ := by
  refine ⟨outputLaw_interpret sink p, fun source => ⟨fun h => ?_, fun error h => ?_⟩⟩
  · exact ⟨_, outputLaw_interpret sink p, by simp only [run, h]⟩
  · simp only [run, h]

/-- A program for a sink that holds three bytes, which end inside the `é`. -/
def accented : Program :=
  [.print (.literal (.string "a") 1) 1, .print (.literal (.string "é") 2) 2, .print (.literal .nil 3) 3]

theorem interpret_accented : (3 < (output accented).length ∧
    OutputLaw ⟨{ capacity := some 3 }, [], 0⟩ accented (interpret ⟨{ capacity := some 3 }, [], 0⟩ accented)) ∧
      (interpret ⟨{ capacity := some 3 }, [], 0⟩ accented).sink.held = [97, 10, 195] :=
  ⟨⟨by decide +kernel, (interpret_output _ _).1⟩, by decide +kernel⟩

end Program
end ExprLang
