/-
What a command line asks for: one argument that is a script, or the name of a
file with one, and flags that say which and what to do with it. Arguments are
read from left to right, and the first that ends the reading decides: help,
version or a mistake. What is missing, or does not go together, is noticed only
when all are read.
-/

namespace ExprLang

/-- What to do with a script. -/
inductive Mode where
  | run
  | tokens
  | tree
deriving DecidableEq, Inhabited

inductive Flag where
  | file | tokens | tree | help | version
deriving DecidableEq, Inhabited

/-- Mistakes in the arguments. -/
inductive UsageError where
  | unexpected (argument : String)
  | repeated (flag : Flag)
  | conflict
  | missing
deriving DecidableEq, Inhabited

namespace Flag

def letter : Flag → Char
  | .file => 'f'
  | .tokens => 't'
  | .tree => 'a'
  | .help => 'h'
  | .version => 'V'

def word : Flag → String
  | .file => "file"
  | .tokens => "tokens"
  | .tree => "ast"
  | .help => "help"
  | .version => "version"

def all : List Flag := [.file, .tokens, .tree, .help, .version]

def ofLetter? (c : Char) : Option Flag := all.find? (·.letter == c)

def ofWord? (word : String) : Option Flag := all.find? (·.word == word)

end Flag

/-- What the arguments read so far ask for. -/
structure Options where
  file : Bool := false
  tokens : Bool := false
  tree : Bool := false
  contents : Option String := none
deriving DecidableEq, Inhabited

/-- A script to work on: its text, or the name of the file that holds it. -/
structure Job where
  mode : Mode
  fromFile : Bool
  contents : String
deriving DecidableEq, Inhabited

/-- What a command line asks for. -/
inductive Request where
  | help
  | version
  | mistake (error : UsageError)
  | job (job : Job)
deriving DecidableEq, Inhabited

/-! ## Reading the arguments -/

namespace Options

/-- Reading either goes on with these options or has found out what is asked. -/
abbrev Reading := Except Request Options

/-- Takes a flag, which may be given once. Help and version end the reading. -/
def take (options : Options) (flag : Flag) : Reading :=
  match flag with
  | .help => .error .help
  | .version => .error .version
  | .file => if options.file then again else .ok { options with file := true }
  | .tokens => if options.tokens then again else .ok { options with tokens := true }
  | .tree => if options.tree then again else .ok { options with tree := true }
where
  again : Reading := .error (.mistake (.repeated flag))

/-- Takes a bare argument, of which there may be one. -/
def takeBare (options : Options) (argument : String) : Reading :=
  match options.contents with
  | none => .ok { options with contents := some argument }
  | some _ => .error (.mistake (.unexpected argument))

/-- Takes the flags of a cluster, one letter each. -/
def takeLetters (options : Options) : List Char → Reading
  | [] => .ok options
  | c :: cs =>
    match Flag.ofLetter? c with
    | none => .error (.mistake (.unexpected (String.ofList ['-', c])))
    | some flag =>
      match options.take flag with
      | .ok options => options.takeLetters cs
      | .error request => .error request

/-- Takes one argument that stands before any `--`. A lone `-` is a bare argument. -/
def takeArgument (options : Options) (argument : String) : Reading :=
  match argument.toList with
  | '-' :: '-' :: word =>
    match Flag.ofWord? (String.ofList word) with
    | some flag => options.take flag
    | none => .error (.mistake (.unexpected argument))
  | '-' :: c :: cs => options.takeLetters (c :: cs)
  | _ => options.takeBare argument

/-- Takes arguments that are all bare, as those after `--` are. -/
def takeAllBare (options : Options) : List String → Reading
  | [] => .ok options
  | argument :: rest =>
    match options.takeBare argument with
    | .ok options => options.takeAllBare rest
    | .error request => .error request

/-- Takes all arguments. -/
def takeAll (options : Options) : List String → Reading
  | [] => .ok options
  | argument :: rest =>
    if argument = "--" then options.takeAllBare rest
    else
      match options.takeArgument argument with
      | .ok options => options.takeAll rest
      | .error request => .error request

/-- What options ask for that have been read to their end. -/
def request (options : Options) : Request :=
  if options.tokens && options.tree then .mistake .conflict
  else
    match options.contents with
    | none => .mistake .missing
    | some contents =>
      .job ⟨if options.tokens then .tokens else if options.tree then .tree else .run,
        options.file, contents⟩

end Options

/-- What these arguments ask for. -/
def Request.ofArguments (arguments : List String) : Request :=
  match Options.takeAll {} arguments with
  | .ok options => options.request
  | .error request => request

/-- The name of the file that has to be read first. -/
def Request.fileName? : Request → Option String
  | .job ⟨_, true, name⟩ => some name
  | _ => none

end ExprLang
