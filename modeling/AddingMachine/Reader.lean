import AddingMachine.Expression
import AddingMachine.Scanner

/-!
# Reading

From tokens to values and trees: a feed hands out tokens, and a reader takes them in.
-/

namespace AddingMachine

/-! ## §1 Feeds of tokens

A feed hands out what scanning gave, one entry at a time, and remembers what it has handed out.
Behind its last entry a feed gives the end of the input, as often as it is asked. -/

/-- A source of tokens. -/
structure Feed where
  /-- What has been handed out, the latest entry first. -/
  drawn : List Scanned
  /-- What is still to be handed out. -/
  pending : List Scanned
  /-- Where the input ends, for a feed that is asked beyond its entries. -/
  finish : Nat

namespace Feed

def ofText (text : String) : Feed :=
  ⟨[], (Scanner.ofText text).all, text.length⟩

/-- The given tokens. Behind them the input ends, at the position of the last one. -/
def ofTokens (tokens : List LocatedToken) : Feed :=
  ⟨[], tokens.map .ok, (tokens.getLast?.map LocatedToken.position).getD 0⟩

def peek (feed : Feed) : Scanned :=
  feed.pending.head?.getD (.ok ⟨.endOfInput, feed.finish⟩)

/-- The feed after it has handed out its next entry. -/
def tail (feed : Feed) : Feed :=
  ⟨feed.peek :: feed.drawn, feed.pending.tail, feed.finish⟩

def history (feed : Feed) : List Scanned :=
  feed.drawn.reverse

end Feed

/-! ## §2 Reading expressions

The grammar is `number (operator number)* end`. A reader holds one token of a feed and draws the
next one when it accepts it. There are two ways to read: `readValue` adds up as it goes, and
`readTree` builds the left-nested tree. A reader can be used on after an error: a token that is not
allowed stays the current one, and so does the accepted one when the feed gives an error. -/

/-! ### The current token -/

/-- A feed and the token in front of it that is to be read next. -/
structure Reader where
  current : LocatedToken
  feed : Feed

namespace Reader

def start (feed : Feed) : Except LexicalError Reader :=
  match feed.peek with
  | .ok token => .ok ⟨token, feed.tail⟩
  | .error e => .error e

/-- Accepts the current token: draws the next one, and answers with `result` if there is one. -/
def accept {α : Type} (r : Reader) (result : α) : Except Rejection α × Reader :=
  match r.feed.peek with
  | .ok token => (.ok result, ⟨token, r.feed.tail⟩)
  -- the feed has moved on, the reader has not
  | .error e => (.error (.lexical e), ⟨r.current, r.feed.tail⟩)

/-- Refuses the current token, which is none of the expected kinds. -/
def refuse {α : Type} (r : Reader) (expected : List TokenKind) : Except Rejection α × Reader :=
  (.error (.grammatical ⟨r.current.position, expected, r.current.token.kind⟩), r)

/-- Reads a number. -/
def readNumber (r : Reader) : Except Rejection Binary64 × Reader :=
  match r.current.token with
  | .number value => r.accept value
  | _ => r.refuse [.number]

/-- Reads an operator, or stands still at the end of the input, where there is none. -/
def readOperator? (r : Reader) : Except Rejection (Option Operator) × Reader :=
  match r.current.token with
  | .plus => r.accept (some .add)
  | .minus => r.accept (some .subtract)
  -- the end stays the current token, so it can be asked for again
  | .endOfInput => (.ok none, r)
  | .number _ => r.refuse [.plus, .minus, .endOfInput]

/-! ### Progress -/

/-- How many tokens can still be accepted. -/
def remaining (r : Reader) : Nat :=
  r.feed.pending.length + if r.current.token = .endOfInput then 0 else 1

/-- Accepting a token leaves fewer that can be accepted. -/
theorem remaining_of_accept {α : Type} {r s : Reader} {a b : α} (hr : r.current.token ≠ .endOfInput)
    (h : r.accept a = (.ok b, s)) : s.remaining < r.remaining := by
  unfold accept Feed.peek at h
  cases hp : r.feed.pending with
  | nil =>
    -- an end that the feed adds takes the place of a token that is none
    simp only [hp, List.head?_nil, Option.getD_none, Prod.mk.injEq, Except.ok.injEq] at h
    obtain ⟨-, rfl⟩ := h
    simp [remaining, Feed.tail, hp, hr]
  | cons x rest =>
    cases x with
    | error e => simp [hp] at h
    | ok token =>
      simp only [hp, List.head?_cons, Option.getD_some, Prod.mk.injEq, Except.ok.injEq] at h
      -- one entry fewer is pending
      obtain ⟨-, rfl⟩ := h
      simp only [remaining, Feed.tail, hp, List.tail_cons, List.length_cons, if_neg hr]
      split <;> omega

theorem remaining_of_readNumber {r s : Reader} {v : Binary64}
    (h : r.readNumber = (.ok v, s)) : s.remaining < r.remaining := by
  unfold readNumber at h
  split at h
  next value ht => exact remaining_of_accept (by rw [ht]; nofun) h
  next => simp [refuse] at h

theorem remaining_of_readOperator {r s : Reader} {o : Operator}
    (h : r.readOperator? = (.ok (some o), s)) : s.remaining < r.remaining := by
  unfold readOperator? at h
  split at h
  next ht => exact remaining_of_accept (by rw [ht]; nofun) h
  next ht => exact remaining_of_accept (by rw [ht]; nofun) h
  next => simp at h
  next => simp [refuse] at h

/-! ### Reading a whole expression -/

/-- Reads operators and numbers up to the end of the input, and applies them to `total`. -/
def readValueFrom (total : Binary64) (r : Reader) : Except Rejection Binary64 × Reader :=
  match ho : r.readOperator? with
  | (.error e, s) => (.error e, s)
  | (.ok none, s) => (.ok total, s)
  | (.ok (some operator), s) =>
    match hn : s.readNumber with
    | (.error e, t) => (.error e, t)
    | (.ok number, t) =>
      have : t.remaining < r.remaining :=
        Nat.lt_trans (remaining_of_readNumber hn) (remaining_of_readOperator ho)
      readValueFrom (operator.apply total number) t
termination_by r.remaining

def readValue (r : Reader) : Except Rejection Binary64 × Reader :=
  match r.readNumber with
  | (.error e, s) => (.error e, s)
  | (.ok number, s) => s.readValueFrom number

/-- Reads operators and numbers up to the end of the input, and nests `left` in them. -/
def readTreeFrom (left : Expression) (r : Reader) : Except Rejection Expression × Reader :=
  match ho : r.readOperator? with
  | (.error e, s) => (.error e, s)
  | (.ok none, s) => (.ok left, s)
  | (.ok (some operator), s) =>
    match hn : s.readNumber with
    | (.error e, t) => (.error e, t)
    | (.ok number, t) =>
      have : t.remaining < r.remaining :=
        Nat.lt_trans (remaining_of_readNumber hn) (remaining_of_readOperator ho)
      readTreeFrom (.binary left operator (.literal number)) t
termination_by r.remaining

def readTree (r : Reader) : Except Rejection Expression × Reader :=
  match r.readNumber with
  | (.error e, s) => (.error e, s)
  | (.ok number, s) => s.readTreeFrom (.literal number)

end Reader

end AddingMachine
