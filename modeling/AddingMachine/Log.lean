import AddingMachine.Scanner

/-!
# The log

What is recorded of a run, how it is filtered, and the lines that are written of it.
-/

namespace AddingMachine

/-! ## §1 Settings

What the calculator shows for an expression, and in which form. -/

/-- What is shown for an accepted expression. -/
inductive Mode where
  | value
  | tokens
  | tree
  deriving DecidableEq

structure Settings where
  mode : Mode
  /-- Whether every expression is answered by a line of JSON. -/
  json : Bool
  deriving DecidableEq

def Mode.name : Mode → String
  | .value => "Value"
  | .tokens => "Tokens"
  | .tree => "Ast"

def Settings.text (settings : Settings) : String :=
  "mode=" ++ settings.mode.name ++ " json=" ++ if settings.json then "true" else "false"

/-! ## §2 Events

What happens during a run is recorded as events. An event fixes its level, its target and its
message, so a log line says nothing that the event does not hold. -/

/-! ### Levels -/

/-- How important an event is. -/
inductive Level where
  | error
  | warn
  | info
  | debug
  | trace
  deriving DecidableEq

namespace Level

/-- The place of a level, the most important one first. -/
def rank : Level → Nat
  | .error => 1
  | .warn => 2
  | .info => 3
  | .debug => 4
  | .trace => 5

def letter : Level → String
  | .error => "E"
  | .warn => "W"
  | .info => "I"
  | .debug => "D"
  | .trace => "T"

end Level

/-! ### Targets -/

/-- The parts of the calculator that record events. -/
inductive Target where
  | program
  | session
  | calculation
  | scanner
  | reader
  deriving DecidableEq

def Target.name : Target → String
  | .program => "calc"
  | .session => "calc::runner"
  | .calculation => "calc_parser"
  | .scanner => "calc_parser::lexer"
  | .reader => "calc_parser::parser"

/-! ### Events -/

/-- Why a run ends before its input does. -/
inductive Failure where
  | full
  /-- A line of the input is not UTF-8. -/
  | notText
  deriving DecidableEq

def Failure.message : Failure → String
  | .full => "sink full"
  | .notText => "stream did not contain valid UTF-8"

/-- Something worth a line in the log. -/
inductive Event where
  | started (settings : Settings)
  | failed (failure : Failure)
  /-- The expression of this number in the session is rejected. -/
  | rejected (number : Nat) (cause : Rejection)
  | calculated (input : String) (value : Binary64)
  | notCalculated (input : String) (cause : Rejection)
  | scanned (token : LocatedToken)
  | misspelled (error : LexicalError)
  | misplaced (error : SyntaxError)
  deriving DecidableEq

namespace Event

def level : Event → Level
  | .failed _ => .error
  | .started _ => .info
  | .rejected .. => .info
  | .calculated .. => .debug
  | .notCalculated .. => .debug
  | .misspelled _ => .debug
  | .misplaced _ => .debug
  | .scanned _ => .trace

def target : Event → Target
  | .started _ => .program
  | .failed _ => .program
  | .rejected .. => .session
  | .calculated .. => .calculation
  | .notCalculated .. => .calculation
  | .scanned _ => .scanner
  | .misspelled _ => .scanner
  | .misplaced _ => .reader

def message : Event → String
  | .started settings => "calc starting, " ++ settings.text
  | .failed failure => "I/O failure: " ++ failure.message
  | .rejected number cause => "expression #" ++ Nat.repr number ++ " rejected: " ++ cause.message
  | .calculated input value =>
    "calculate(" ++ Text.quotedText input ++ ") = " ++ value.text .plain
  | .notCalculated input cause =>
    "calculate(" ++ Text.quotedText input ++ ") failed: " ++ cause.message
  | .scanned token => "lexed " ++ token.token.logText ++ " at " ++ Nat.repr token.position
  | .misspelled error => error.message
  | .misplaced error => error.message

def ofScanned : Except LexicalError LocatedToken → Event
  | .ok token => .scanned token
  | .error e => .misspelled e

end Event

/-! ## §3 Which events are logged

A filter is a list of entries, each with a scope and the least important level that is logged there.
An event is ruled by the entry with the longest scope that its target lies in, and of equally long
ones by the last. Besides, its message has to contain the phrase of the filter. -/

/-! ### Thresholds and scopes -/

/-- The least important level that is logged; nothing is, where there is none. -/
abbrev Threshold := Option Level

def Threshold.admits (threshold : Threshold) (level : Level) : Bool :=
  match threshold with
  | none => false
  | some least => level.rank ≤ least.rank

/-- The targets that an entry is for: those whose names begin in a certain way, or all. -/
inductive Scope where
  | everywhere
  | within (start : String)
  deriving DecidableEq

namespace Scope

def covers (scope : Scope) (target : Target) : Bool :=
  match scope with
  | .everywhere => true
  | .within start => start.toList.isPrefixOf target.name.toList

/-- How much of a target's name the scope fixes. -/
def length : Scope → Nat
  | .everywhere => 0
  | .within start => start.length

end Scope

/-- A scope and the threshold that applies in it. -/
structure FilterEntry where
  scope : Scope
  threshold : Threshold
  deriving DecidableEq

/-! ### Filters -/

/-- Entries, none with the scope of another, and what messages have to contain. -/
structure Filter where
  entries : List FilterEntry
  /-- What a message has to contain; nothing, where it is empty. -/
  phrase : List Char
  deriving DecidableEq

namespace Filter

def silent : Filter :=
  ⟨[], []⟩

/-- Of two entries the one that rules: the second, unless its scope is shorter. -/
def stronger (best : Option FilterEntry) (entry : FilterEntry) : Option FilterEntry :=
  match best with
  | none => some entry
  | some b => if entry.scope.length < b.scope.length then some b else some entry

/-- The entry that rules a target. -/
def ruling? (filter : Filter) (target : Target) : Option FilterEntry :=
  (filter.entries.filter (·.scope.covers target)).foldl stronger none

def threshold (filter : Filter) (target : Target) : Threshold :=
  (filter.ruling? target).bind FilterEntry.threshold

/-- Whether `phrase` stands somewhere in a text. It stands for itself: no character of it has a
special meaning, as it would have in a regular expression. -/
def occursIn (phrase : List Char) : List Char → Bool
  | [] => phrase.isEmpty
  | c :: rest => phrase.isPrefixOf (c :: rest) || occursIn phrase rest

def admits (filter : Filter) (event : Event) : Bool :=
  (filter.threshold event.target).admits event.level
    && (filter.phrase.isEmpty || occursIn filter.phrase event.message.toList)

/-- The filter with the entry of this scope set, in the place of the one that there is. -/
def set (filter : Filter) (entry : FilterEntry) : Filter :=
  let replaced := filter.entries.map fun old => if old.scope = entry.scope then entry else old
  { filter with
    entries := if filter.entries.any (·.scope = entry.scope) then replaced
      else filter.entries ++ [entry] }

end Filter

/-! ## §4 Filters as they are written

A filter is written as entries between commas, and may end in a slash and a phrase. An entry is
`level`, `target`, `target=` or `target=level`. Entries of any other form are complained about and
have no other effect. -/

/-! ### Complaints -/

/-- What is wrong with a written filter. -/
inductive Complaint where
  /-- An entry, or what stands for a level in it, makes no sense. -/
  | senseless (part : List Char)
  /-- The text has more than one slash, and none of it is used. -/
  | slashes (text : List Char)
  deriving DecidableEq

namespace Complaint

def message : Complaint → String
  | .senseless part => "invalid logging spec '" ++ String.ofList part ++ "'"
  | .slashes text => "invalid logging spec '" ++ String.ofList text ++ "' (too many '/'s)"

def line (complaint : Complaint) : String :=
  "warning: " ++ complaint.message ++ ", ignoring it\n"

end Complaint

/-! ### Entries -/

namespace FilterEntry

/-- The threshold of this name, in letters of either case. -/
def threshold? (name : List Char) : Option Threshold :=
  match String.ofList (name.map Char.toLower) with
  | "off" => some none
  | "error" => some (some .error)
  | "warn" => some (some .warn)
  | "info" => some (some .info)
  | "debug" => some (some .debug)
  | "trace" => some (some .trace)
  | _ => none

/-- The entry for a target whose level is written as `level`; without one, everything is logged. -/
def ofTarget (target level : List Char) : Except Complaint FilterEntry :=
  if level.isEmpty then .ok ⟨.within (String.ofList target), some .trace⟩
  else match threshold? level with
    | some threshold => .ok ⟨.within (String.ofList target), threshold⟩
    | none => .error (.senseless level)

def ofChars (entry : List Char) : Except Complaint FilterEntry :=
  match entry.splitOn '=' with
  -- a lone word is a level if it names one, and else a target
  | [word] =>
    match threshold? word with
    | some threshold => .ok ⟨.everywhere, threshold⟩
    | none => ofTarget word []
  | [target, level] => ofTarget target (Text.trim level)
  | _ => .error (.senseless entry)

/-- Reads the entries between commas; empty ones do not count. -/
def readAll (text : List Char) : List (Except Complaint FilterEntry) :=
  (((text.splitOn ',').map Text.trim).filter (!·.isEmpty)).map ofChars

end FilterEntry

/-! ### Whole filters -/

/-- What is written as a filter. -/
structure WrittenFilter where
  entries : List (Except Complaint FilterEntry)
  phrase : List Char

namespace WrittenFilter

/-- Reads the entries and, behind a slash, the phrase. A phrase is taken as it is written; that it
may be a regular expression is left out. -/
def ofText (text : String) : WrittenFilter :=
  match text.toList.splitOn '/' with
  | [entries] => ⟨FilterEntry.readAll entries, []⟩
  | [entries, phrase] => ⟨FilterEntry.readAll entries, phrase⟩
  | _ => ⟨[.error (.slashes text.toList)], []⟩

def complaints (written : WrittenFilter) : List Complaint :=
  written.entries.filterMap fun
    | .ok _ => none
    | .error complaint => some complaint

def filter (written : WrittenFilter) : Filter :=
  written.entries.foldl (fun filter entry =>
    match entry with
    | .ok entry => filter.set entry
    | .error _ => filter) ⟨[], written.phrase⟩

/-- The filter of a run: the entry for all targets is replaced where a level is asked for, and a
filter without entries logs errors. -/
def filterFor (written : WrittenFilter) (asked : Option Level) : Filter :=
  -- entries for certain targets stay, whatever level is asked for
  let filter := match asked with
    | none => written.filter
    | some level => written.filter.set ⟨.everywhere, some level⟩
  if filter.entries.isEmpty then filter.set ⟨.everywhere, some .error⟩ else filter

end WrittenFilter

/-! ## §5 The journal

A journal turns events into log lines. The lines are numbered from one, and only lines that are
written count. -/

/-- A filter and the number of lines written so far. -/
structure Journal where
  filter : Filter
  written : Nat
  deriving DecidableEq

namespace Journal

def line (number : Nat) (event : Event) : String :=
  Nat.repr number ++ "|" ++ event.level.letter ++ "|" ++ event.target.name ++ "|" ++ event.message
    ++ "\n"

def start (filter : Filter) : Journal :=
  ⟨filter, 0⟩

/-- The line for an event, if the event is logged, and the journal behind it. -/
def record (journal : Journal) (event : Event) : String × Journal :=
  if journal.filter.admits event then
    (line (journal.written + 1) event, { journal with written := journal.written + 1 })
  else ("", journal)

/-- The lines for some events, and the journal behind them. -/
def recordAll (journal : Journal) : List Event → String × Journal
  | [] => ("", journal)
  | event :: rest =>
    let (first, journal) := journal.record event
    let (others, journal) := journal.recordAll rest
    (first ++ others, journal)

end Journal

end AddingMachine
