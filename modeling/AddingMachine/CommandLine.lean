import AddingMachine.Session

/-!
# The command line

What arguments ask for, and what a run with them leaves behind.
-/

namespace AddingMachine

/-! ## §1 Arguments

Flags come first, in any order, and expressions behind them. The first argument that is no flag is
an expression, and so are all that follow; `--` ends the flags too. -/

/-! ### What arguments ask for -/

/-- What a run is asked to do. -/
structure Request where
  settings : Settings
  /-- How many log levels beyond the usual ones are asked for. -/
  verbosity : Nat
  /-- The expressions; without any, they are read from the input. -/
  expressions : List String
  deriving DecidableEq

/-- Why arguments are not carried out. -/
inductive Refusal where
  | help
  | version
  /-- A flag is repeated, or two flags exclude each other. -/
  | conflict
  /-- A flag is given a value. -/
  | unexpectedValue
  deriving DecidableEq

def Refusal.exitCode : Refusal → Nat
  | .help => 0
  | .version => 0
  | .conflict => 2
  | .unexpectedValue => 2

def Refusal.message : Refusal → String
  | .help =>
    "Usage: calc [--tokens | --ast] [--json] [-v | --verbose]... [--] [EXPR]...\n"
      ++ "Evaluates sums and differences, given as arguments or one on each line of the input."
  | .version => "calc 0.1.0"
  | .conflict => "error: a flag is repeated, or cannot be used with another one"
  | .unexpectedValue => "error: a flag that takes no value is given one"

/-- The level that a verbosity asks for, if it asks for one. -/
def Level.ofVerbosity : Nat → Option Level
  | 0 => none
  | 1 => some .info
  | 2 => some .debug
  | _ => some .trace

/-! ### Flags -/

inductive Flag where
  | json
  | tokens
  | tree
  | verbose
  | help
  | version
  deriving DecidableEq

namespace Flag

def ofLongName? (name : List Char) : Option Flag :=
  match String.ofList name with
  | "json" => some .json
  | "tokens" => some .tokens
  | "ast" => some .tree
  | "verbose" => some .verbose
  | "help" => some .help
  | "version" => some .version
  | _ => none

def ofLetter? : Char → Option Flag
  | 'v' => some .verbose
  | 'h' => some .help
  | 'V' => some .version
  | _ => none

end Flag

inductive Argument where
  | endOfFlags
  | flags (flags : List Flag)
  | valued (flag : Flag)
  | expression
  deriving DecidableEq

namespace Argument

/-- What an argument with this name behind two dashes is. -/
def ofLong (body : List Char) : Argument :=
  match Flag.ofLongName? (body.takeWhile (· != '=')) with
  | none => .expression
  | some flag => if body.contains '=' then .valued flag else .flags [flag]

def classify (argument : String) : Argument :=
  match argument.toList with
  | ['-', '-'] => .endOfFlags
  | '-' :: '-' :: body => ofLong body
  | '-' :: letter :: letters =>
    match (letter :: letters).mapM Flag.ofLetter? with
    | some found => .flags found
    | none => .expression
  | _ => .expression

end Argument

/-! ### Reading arguments -/

/-- The flags read so far. -/
structure Flags where
  json : Bool
  tokens : Bool
  tree : Bool
  verbosity : Nat
  deriving DecidableEq

namespace Flags

def none : Flags :=
  ⟨false, false, false, 0⟩

def add (flags : Flags) : Flag → Except Refusal Flags
  | .json => if flags.json then .error .conflict else .ok { flags with json := true }
  | .tokens => if flags.tokens then .error .conflict else .ok { flags with tokens := true }
  | .tree => if flags.tree then .error .conflict else .ok { flags with tree := true }
  -- the count is that of one byte, and stays at the greatest one
  | .verbose => .ok { flags with verbosity := min (flags.verbosity + 1) 255 }
  | .help => .error .help
  | .version => .error .version

def request (flags : Flags) (expressions : List String) : Except Refusal Request :=
  if flags.tokens && flags.tree then .error .conflict
  else
    let mode := if flags.tokens then Mode.tokens else if flags.tree then .tree else .value
    .ok ⟨⟨mode, flags.json⟩, flags.verbosity, expressions⟩

end Flags

namespace Request

/-- What the arguments behind some flags ask for. -/
def readAfter (flags : Flags) : List String → Except Refusal Request
  | [] => flags.request []
  | argument :: rest =>
    match Argument.classify argument with
    | .endOfFlags => flags.request rest
    -- all that follows are expressions, whatever they look like
    | .expression => flags.request (argument :: rest)
    | .valued _ => .error .unexpectedValue
    | .flags found =>
      match found.foldlM Flags.add flags with
      | .ok more => readAfter more rest
      | .error refusal => .error refusal

def ofArguments (arguments : List String) : Except Refusal Request :=
  readAfter .none arguments

end Request

/-! ## §2 The command line

A run answers the expressions among its arguments, or the lines of its input if there are none. Its
exit code is 2 if it ends early, 1 if it has rejected an expression, and 0 otherwise. -/

/-- What a run leaves behind. -/
structure Finished where
  exitCode : Nat
  out : List UInt8
  err : List UInt8
  deriving DecidableEq

namespace Request

/-- What is logged unless something else is written: warnings and errors. -/
def usualFilter : String :=
  "warn"

/-- The session of a run. It begins with the complaints about the log filter, and with a log line
of its own. -/
def openSession (request : Request) (logFilter : Option String) : Session :=
  let written := WrittenFilter.ofText (logFilter.getD usualFilter)
  let filter := written.filterFor (Level.ofVerbosity request.verbosity)
  let err := (written.complaints.map Complaint.line).foldl (fun sink line => (sink.write line).2)
    (Sink.empty none)
  (Session.start request.settings filter (.empty none) err).log [.started request.settings]

def answer (request : Request) (session : Session) (input : List UInt8) :
    Except Failure Unit × Session :=
  if request.expressions.isEmpty then session.runLines input
  else session.runAll request.expressions

def finish : Except Failure Unit × Session → Finished
  | (.ok (), session) =>
    ⟨if session.failures = 0 then 0 else 1, session.out.content, session.err.content⟩
  | (.error failure, session) =>
    -- what has been written before the failure stays
    let logged := session.log [.failed failure]
    let err := (logged.err.write ("error: " ++ failure.message ++ "\n")).2
    ⟨2, logged.out.content, err.content⟩

/-- Carries out a request, with the given log filter and input. -/
def carryOut (request : Request) (logFilter : Option String) (input : List UInt8) : Finished :=
  finish (request.answer (request.openSession logFilter) input)

end Request

end AddingMachine
