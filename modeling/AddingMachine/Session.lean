import AddingMachine.Calculation
import AddingMachine.Json

/-!
# Sessions

A session answers expressions one after another, given one by one or as the lines of some bytes.
-/

namespace AddingMachine

/-! ## §1 Sinks

A sink takes the bytes of what is written to it, all of them or as many as it has room for. -/

def utf8 (text : String) : List UInt8 :=
  text.toUTF8.data.toList

/-- The text that bytes are in UTF-8, if they are one. -/
def ofUtf8? (bytes : List UInt8) : Option String :=
  String.fromUTF8? ⟨bytes.toArray⟩

/-- An output. -/
structure Sink where
  /-- How many bytes the sink takes in all; without a limit, any number. -/
  limit : Option Nat
  /-- The pieces that it has taken, the latest first. -/
  pieces : List (List UInt8)
  deriving DecidableEq

namespace Sink

def empty (limit : Option Nat) : Sink :=
  ⟨limit, []⟩

def content (sink : Sink) : List UInt8 :=
  sink.pieces.reverse.flatten

/-- How many bytes the sink still takes, if there is a limit. -/
def room (sink : Sink) : Option Nat :=
  sink.limit.map (· - sink.content.length)

/-- The bytes of `bytes` for which there is room. -/
def fitting (sink : Sink) (bytes : List UInt8) : List UInt8 :=
  match sink.room with
  | none => bytes
  | some room => bytes.take room

def hasRoom (sink : Sink) (bytes : List UInt8) : Bool :=
  match sink.room with
  | none => true
  | some room => bytes.length ≤ room

/-- Writes as much of a text as there is room for, and says whether that was all of it. -/
def write (sink : Sink) (text : String) : Bool × Sink :=
  (sink.hasRoom (utf8 text), { sink with pieces := sink.fitting (utf8 text) :: sink.pieces })

/-- Writing appends what fits. -/
@[simp] theorem content_write (sink : Sink) (text : String) :
    (sink.write text).2.content = sink.content ++ sink.fitting (utf8 text) := by
  simp [write, content]

end Sink

/-! ## §2 Lines

How bytes are cut into lines. A line ends with a line feed; a carriage return right before it
belongs to the ending. The last line may lack its line feed, and then keeps what it has. -/

def lineFeed : UInt8 := 10

def carriageReturn : UInt8 := 13

/-- A line without the carriage return that belongs to its ending. -/
def stripReturn (line : List UInt8) : List UInt8 :=
  if line.getLast? = some carriageReturn then line.dropLast else line

def allLines (bytes : List UInt8) : List (List UInt8) :=
  let pieces := bytes.splitOn lineFeed
  -- no line feed follows the last piece, so it keeps its return
  pieces.dropLast.map stripReturn ++ pieces.getLast?.toList

/-- The lines that hold something. -/
def lines (bytes : List UInt8) : List (List UInt8) :=
  (allLines bytes).filter (!·.isEmpty)

/-! ## §3 Answers

What a session answers to one expression: its value, its tokens or its tree, or why it is rejected;
as text or as a JSON object that begins with the input. -/

/-! ### Answers to accepted expressions -/

/-- What is shown for an accepted expression. -/
inductive Answer where
  | value (value : Binary64)
  | tokens (tokens : List LocatedToken)
  | tree (tree : Expression)
  deriving DecidableEq

namespace Answer

/-- Answers a text in the given mode. -/
def find (mode : Mode) (text : String) : Logged (Except Rejection Answer) :=
  match mode with
  | .value => (valueOf text).map (·.map .value)
  | .tokens => (tokensOf text).map fun result => (result.mapError .lexical).map .tokens
  | .tree => (treeOf text).map (·.map .tree)

def tokenLine (token : LocatedToken) : String :=
  Nat.repr token.position ++ "\t" ++ token.token.text ++ "\n"

def text : Answer → String
  | .value x => x.text .plain ++ "\n"
  | .tokens ts => String.join (ts.map tokenLine)
  | .tree e => e.text ++ " = " ++ e.value.text .plain ++ "\n"

/-! ### Answers in JSON -/

/-- A result in JSON; infinities and NaN are strings. -/
def resultJson (x : Binary64) : Json :=
  if x.isFinite then .number x else .string (x.text .plain)

/-- A token in JSON: a number is an object, all others are strings. -/
def tokenJson : Token → Json
  | .number x => .object [("Number", .number x)]
  | .plus => .string "Plus"
  | .minus => .string "Minus"
  | .endOfInput => .string "EOF"

def locatedJson (token : LocatedToken) : Json :=
  .object [("token", tokenJson token.token), ("position", .natural token.position)]

def fields : Answer → List (String × Json)
  | .value x => [("result", resultJson x)]
  | .tokens ts => [("tokens", .array (ts.map locatedJson))]
  | .tree e => [("result", resultJson e.value), ("ast", .string e.text)]

end Answer

/-! ### Rejections -/

namespace Rejection

def kindName : Rejection → String
  | .lexical _ => "lexical"
  | .grammatical _ => "syntax"

def text (cause : Rejection) : String :=
  "error: " ++ cause.message ++ "\n"

def fields (cause : Rejection) : List (String × Json) :=
  [("error", .object [("kind", .string cause.kindName), ("position", .natural cause.position),
    ("message", .string cause.message)])]

end Rejection

/-! ### Replies -/

/-- The outputs of a session. -/
inductive Stream where
  | out
  /-- Where rejections go, unless they are JSON. -/
  | err
  deriving DecidableEq

/-- What a session writes for one expression, and where. -/
structure Reply where
  stream : Stream
  text : String
  deriving DecidableEq

namespace Reply

def jsonLine (input : String) (outcome : Except Rejection Answer) : String :=
  let fields := match outcome with
    | .ok answer => answer.fields
    | .error cause => cause.fields
  (Json.object (("input", .string input) :: fields)).text ++ "\n"

def ofOutcome (json : Bool) (input : String) (outcome : Except Rejection Answer) : Reply :=
  if json then ⟨.out, jsonLine input outcome⟩
  else match outcome with
    | .ok answer => ⟨.out, answer.text⟩
    | .error cause => ⟨.err, cause.text⟩

end Reply

/-! ## §4 Sessions

A session answers expressions one after another. It counts them and their rejections, and writes to
two sinks: replies to `out`, rejections as text to `err`. Log lines go to `err` ahead of the reply
that they belong to. -/

/-! ### The state of a session -/

/-- A session between two expressions. -/
structure Session where
  settings : Settings
  journal : Journal
  evaluated : Nat
  failures : Nat
  out : Sink
  err : Sink
  deriving DecidableEq

namespace Session

def start (settings : Settings) (filter : Filter) (out err : Sink) : Session :=
  ⟨settings, .start filter, 0, 0, out, err⟩

/-! ### Writing -/

/-- Writes the log lines of some events. A line for which there is no room is lost. -/
def log (session : Session) (events : List Event) : Session :=
  let (lines, journal) := session.journal.recordAll events
  { session with journal := journal, err := (session.err.write lines).2 }

/-- Writes a reply, and says whether there was room for it. -/
def write (session : Session) (reply : Reply) : Bool × Session :=
  match reply.stream with
  | .out =>
    let (fits, sink) := session.out.write reply.text
    (fits, { session with out := sink })
  | .err =>
    let (fits, sink) := session.err.write reply.text
    (fits, { session with err := sink })

/-! ### Expressions -/

def rejectionEvents (number : Nat) : Except Rejection Answer → List Event
  | .ok _ => []
  | .error cause => [.rejected number cause]

/-- The session with one more expression of the given outcome counted. -/
def count (session : Session) (outcome : Except Rejection Answer) : Session :=
  { session with
    evaluated := session.evaluated + 1
    failures := session.failures + if outcome.isOk then 0 else 1 }

/-- Answers an expression, and says whether it is accepted. A rejection counts even if there is no
room for it. -/
def run (session : Session) (input : String) : Except Failure Bool × Session :=
  let found := Answer.find session.settings.mode input
  -- counted before anything is written, so a full sink does not undo it
  let counted := session.count found.result
  let logged := counted.log (found.events ++ rejectionEvents counted.evaluated found.result)
  let (fits, written) := logged.write (.ofOutcome session.settings.json input found.result)
  (if fits then .ok found.result.isOk else .error .full, written)

/-! ### Many expressions -/

/-- Answers expressions up to the first failure. -/
def runAll (session : Session) : List String → Except Failure Unit × Session
  | [] => (.ok (), session)
  | input :: rest =>
    match session.run input with
    | (.ok _, next) => next.runAll rest
    | (.error failure, next) => (.error failure, next)

/-- Answers lines given as bytes, up to the first failure. A line that is no text is one. -/
def runDecoded (session : Session) : List (List UInt8) → Except Failure Unit × Session
  | [] => (.ok (), session)
  | line :: rest =>
    match ofUtf8? line with
    -- nothing behind the line is answered
    | none => (.error .notText, session)
    | some input =>
      match session.run input with
      | (.ok _, next) => next.runDecoded rest
      | (.error failure, next) => (.error failure, next)

/-- Answers the lines of some bytes that hold something, up to the first failure. -/
def runLines (session : Session) (bytes : List UInt8) : Except Failure Unit × Session :=
  session.runDecoded (lines bytes)

end Session

end AddingMachine
