/-
A session: steps on one sink, each of which runs a program or changes how the
sink behaves. A step that fails does not end the session.
-/
import ExprLang.Execution

namespace ExprLang

/-- What a step runs: a text still to be read, or a program as it stands. -/
inductive Input where
  | source (text : String)
  | program (program : Program)
deriving Inhabited

def Input.program? : Input → Except Error Program
  | .source text => Program.parse text
  | .program p => .ok p

inductive Step where
  /-- Executes the statements and flushes. -/
  | interpret (input : Input)
  /-- Executes the statements. -/
  | execute (input : Input)
  /-- Changes the sink's behaviour. -/
  | configure (settings : SinkSettings)
deriving Inhabited

/-- One step on a sink. -/
def Step.perform (sink : Sink) : Step → Outcome Error
  | .configure settings => ⟨sink.configure settings, none⟩
  | .interpret input =>
    match input.program? with
    | .error error => ⟨sink, some error⟩
    | .ok program => (Program.interpret sink program).mapFailure .runtime
  | .execute input =>
    match input.program? with
    | .error error => ⟨sink, some error⟩
    | .ok program => (Program.execute sink program).mapFailure .runtime

namespace Session

/-- The outcomes of the steps, each with the sink as the step left it. -/
def perform (sink : Sink) : List Step → List (Outcome Error)
  | [] => []
  | step :: steps =>
    let outcome := step.perform sink
    outcome :: perform outcome.sink steps

/-- The sink that a session leaves. -/
def finalSink (sink : Sink) (steps : List Step) : Sink :=
  steps.foldl (fun sink step => (step.perform sink).sink) sink

end Session
end ExprLang
