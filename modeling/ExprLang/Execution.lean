/-
Running a program into a sink: statement by statement until one fails, then one
flush. A run carries nothing from statement to statement but its sink.
-/
import ExprLang.Evaluation
import ExprLang.Program.Reading
import ExprLang.Sink

namespace ExprLang

/-- How something that writes to a sink ended: the sink after it, and the failure if
it failed. -/
structure Outcome (ε : Type) where
  sink : Sink
  failure : Option ε
deriving DecidableEq, Inhabited

/-- The failure under another name. -/
def Outcome.mapFailure {ε ε' : Type} (f : ε → ε') (o : Outcome ε) : Outcome ε' :=
  ⟨o.sink, o.failure.map f⟩

/-- A failure of the sink, blamed on a line of the program. -/
def SinkFault.blame (line : Nat) (fault : SinkFault) : RuntimeError :=
  ⟨.output fault.message, line⟩

/-- What printing a value writes. -/
def Value.printed (v : Value) : List UInt8 := utf8 (v.text ++ "\n")

/-- Executes one statement. -/
def Statement.execute (sink : Sink) : Statement → Outcome RuntimeError
  | .expression expr _ =>
    match expr.evaluate with
    | .error error => ⟨sink, some error⟩
    | .ok _ => ⟨sink, none⟩
  | .print expr line =>
    match expr.evaluate with
    | .error error => ⟨sink, some error⟩
    | .ok value =>
      let (sink, fault) := sink.write value.printed
      ⟨sink, fault.map (SinkFault.blame line)⟩

namespace Program

/-- Executes statements in order until one fails. -/
def execute (sink : Sink) : Program → Outcome RuntimeError
  | [] => ⟨sink, none⟩
  | statement :: rest =>
    match statement.execute sink with
    | ⟨sink, some error⟩ => ⟨sink, some error⟩
    | ⟨sink, none⟩ => execute sink rest

/-- The line that a failed flush is blamed on: that of the last statement. -/
def lastLine (program : Program) : Nat :=
  match program.getLast? with
  | some statement => statement.line
  | none => 1

/-- Executes a program and flushes the sink, if no statement failed. -/
def interpret (sink : Sink) (program : Program) : Outcome RuntimeError :=
  match execute sink program with
  | ⟨sink, some error⟩ => ⟨sink, some error⟩
  | ⟨sink, none⟩ =>
    let (sink, fault) := sink.flush
    ⟨sink, fault.map (SinkFault.blame program.lastLine)⟩

/-- Runs a source text. It is read to its end before anything is executed. -/
def run (source : String) (sink : Sink) : Outcome Error :=
  match parse source with
  | .error error => ⟨sink, some error⟩
  | .ok program => (interpret sink program).mapFailure .runtime

end Program
end ExprLang
