import AddingMachine.Log
import AddingMachine.Reader

/-!
# Calculating

The three things that can be asked of a text: its tokens, its tree and its value. Each answer comes
with the events that finding it has caused, in order.
-/

namespace AddingMachine

/-- A result and the events on the way to it. -/
structure Logged (α : Type) where
  result : α
  events : List Event

namespace Logged

def map {α β : Type} (f : α → β) (l : Logged α) : Logged β :=
  ⟨f l.result, l.events⟩

end Logged

/-! ## §1 Tokens -/

/-- The entries up to the first error, which is kept. -/
def untilError : List Scanned → List Scanned
  | [] => []
  | .ok token :: rest => .ok token :: untilError rest
  | .error e :: _ => [.error e]

/-- The tokens of a text, the end of the input included, or the first error among them. -/
def tokensOf (text : String) : Logged (Except LexicalError (List LocatedToken)) :=
  let entries := (Scanner.ofText text).all
  ⟨entries.mapM id, (untilError entries).map .ofScanned⟩

/-! ## §2 Values and trees -/

/-- The events of one reading: all that its feed has handed out, and the token that it refused. -/
def readingEvents {α : Type} (reading : Except Rejection α × Reader) : List Event :=
  reading.2.feed.history.map .ofScanned ++ match reading.1 with
    | .error (.grammatical e) => [.misplaced e]
    | _ => []

def readOnce {α : Type} (read : Reader → Except Rejection α × Reader) (feed : Feed) :
    Logged (Except Rejection α) :=
  match Reader.start feed with
  | .ok reader => ⟨(read reader).1, readingEvents (read reader)⟩
  | .error e => ⟨.error (.lexical e), [.misspelled e]⟩

def treeOf (text : String) : Logged (Except Rejection Expression) :=
  readOnce Reader.readTree (Feed.ofText text)

def outcomeEvent (text : String) : Except Rejection Binary64 → Event
  | .ok value => .calculated text value
  | .error cause => .notCalculated text cause

/-- The value of a text. The outcome is recorded too, unless there is not even a first token. -/
def valueOf (text : String) : Logged (Except Rejection Binary64) :=
  let reading := readOnce Reader.readValue (Feed.ofText text)
  match Reader.start (Feed.ofText text) with
  -- a calculation begins with its first token
  | .ok _ => ⟨reading.result, reading.events ++ [outcomeEvent text reading.result]⟩
  | .error _ => reading

/-- The value of some tokens. Taking a token that is there already is no event. -/
def valueOfTokens (tokens : List LocatedToken) : Logged (Except Rejection Binary64) :=
  let reading := readOnce Reader.readValue (Feed.ofTokens tokens)
  ⟨reading.result, match reading.result with
    | .error (.grammatical e) => [.misplaced e]
    | _ => []⟩

end AddingMachine
