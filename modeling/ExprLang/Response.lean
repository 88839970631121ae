/-
What the command answers to a request: what it writes on its two streams, and
the status that it ends with, given the bytes of the file if one is asked for.
Nothing here touches a file or a stream.
-/
import ExprLang.Execution
import ExprLang.Request

namespace ExprLang

/-- What a run of the command writes, and the status that it ends with. -/
structure Response where
  stdout : List UInt8 := []
  stderr : List UInt8 := []
  exitCode : Nat := 0
deriving DecidableEq, Inhabited

def usageLine : String := "Usage: tinylox [OPTIONS] <CONTENTS>\n"

def helpText : String :=
  "A scanner, parser and tree-walking evaluator for a tiny C-like expression language.\n\n" ++
  usageLine ++ "\n" ++
  "Arguments:\n" ++
  "  <CONTENTS>  \n\n" ++
  "Options:\n" ++
  "  -f, --file     Tells tinylox to look at a file instead of a script\n" ++
  "  -t, --tokens   Print the scanned tokens instead of running the program\n" ++
  "  -a, --ast      Print the parsed program as parenthesized prefix text instead of running it\n" ++
  "  -h, --help     Print help\n" ++
  "  -V, --version  Print version\n"

def versionText : String := "tinylox 0.1.0\n"

def UsageError.message : UsageError → String
  | .unexpected argument => "error: unexpected argument '" ++ argument ++ "' found\n"
  | .repeated flag => "error: the argument '--" ++ flag.word ++ "' cannot be used multiple times\n"
  | .conflict => "error: the argument '--tokens' cannot be used with '--ast'\n"
  | .missing => "error: the required argument <CONTENTS> was not provided\n"

/-- Each of these texts on a line of its own. -/
def lines (texts : List String) : List UInt8 := texts.flatMap fun text => utf8 (text ++ "\n")

/-- An error's message on the error stream, and its status. -/
def Error.response (e : Error) (stdout : List UInt8) : Response :=
  ⟨stdout, lines [e.message], e.exitCode⟩

/-- Does with a script what the mode says. -/
def Mode.respond (mode : Mode) (script : String) : Response :=
  match mode with
  | .tokens =>
    match Token.scan script with
    | .ok found => { stdout := lines (found.map Token.text) }
    | .error error => (Error.lexical error).response []
  | .tree =>
    match Program.parse script with
    | .ok program => { stdout := lines (program.map Statement.text) }
    | .error error => error.response []
  | .run =>
    match Program.run script {} with
    | ⟨sink, none⟩ => { stdout := sink.held }
    | ⟨sink, some error⟩ => error.response sink.held

/-- The script of a job; `file` is what the file holds, if it can be read. -/
def Job.script? (job : Job) (file : Option ByteArray) : Option String :=
  if job.fromFile then file.bind String.fromUTF8? else some job.contents

def Job.respond (job : Job) (file : Option ByteArray) : Response :=
  match job.script? file with
  | some script => job.mode.respond script
  | none =>
    { stderr := lines ["Failed to read the input file '" ++ job.contents ++
        "'. Perhaps this file does not exist?"],
      exitCode := 1 }

/-- What the command writes and the status it ends with. -/
def Request.respond (request : Request) (file : Option ByteArray) : Response :=
  match request with
  | .help => { stdout := utf8 helpText }
  | .version => { stdout := utf8 versionText }
  | .mistake error => { stderr := utf8 (error.message ++ "\n" ++ usageLine), exitCode := 2 }
  | .job j => j.respond file

end ExprLang
