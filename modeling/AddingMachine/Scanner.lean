import AddingMachine.Decimal
import AddingMachine.Text

/-!
# Scanning

From the characters of a text to its tokens, or to the character that no token can hold.
-/

namespace AddingMachine

/-! ## §1 Tokens

The words of the language: numbers, the two signs, and the end of the input. Tokens are located by
the index of their first character. -/

/-! ### Tokens and their kinds -/

/-- What a token is, without its value. -/
inductive TokenKind where
  | number
  | plus
  | minus
  | endOfInput
  deriving DecidableEq

/-- A token of the language. -/
inductive Token where
  | number (value : Binary64)
  | plus
  | minus
  | endOfInput
  deriving DecidableEq

/-- A token and the index of the character at which it begins. -/
structure LocatedToken where
  token : Token
  position : Nat
  deriving DecidableEq

/-! ### Their texts -/

namespace TokenKind

def name : TokenKind → String
  | .number => "number"
  | .plus => "'+'"
  | .minus => "'-'"
  | .endOfInput => "end of input"

end TokenKind

namespace Token

def kind : Token → TokenKind
  | .number _ => .number
  | .plus => .plus
  | .minus => .minus
  | .endOfInput => .endOfInput

def text : Token → String
  | .number value => value.text .plain
  | .plus => "+"
  | .minus => "-"
  | .endOfInput => "end of input"

/-- The token as it is shown in log lines. -/
def logText : Token → String
  | .number value => "Number(" ++ value.text .logged ++ ")"
  | .plus => "Plus"
  | .minus => "Minus"
  | .endOfInput => "EOF"

end Token

/-! ## §2 Why an input is rejected

An input is rejected for one of two causes: a character that no token can hold, or a token that the
grammar does not allow in its place. The wording of both stands here and nowhere else. -/

/-! ### Causes -/

/-- What is wrong with a character. -/
inductive LexicalFault where
  /-- It belongs to no token. -/
  | unrecognizedCharacter
  /-- It is a point with no number before it. -/
  | leadingDot
  /-- It is a point behind digits, and no digit follows. -/
  | trailingDot
  /-- It is a point behind a number that has one already. -/
  | secondDot
  deriving DecidableEq

/-- A character that no token can hold. -/
structure LexicalError where
  fault : LexicalFault
  position : Nat
  character : Char
  deriving DecidableEq

/-- A token that the grammar does not allow in its place. -/
structure SyntaxError where
  position : Nat
  /-- The kinds that are allowed there. -/
  expected : List TokenKind
  found : TokenKind
  deriving DecidableEq

/-- The cause for which an input is rejected. -/
inductive Rejection where
  | lexical (error : LexicalError)
  | grammatical (error : SyntaxError)
  deriving DecidableEq

/-! ### Wording -/

def LexicalFault.text : LexicalFault → String
  | .unrecognizedCharacter => "unrecognized character"
  | .leadingDot => "number must start with a digit"
  | .trailingDot => "expected digit after decimal point"
  | .secondDot => "number has more than one decimal point"

def LexicalError.message (e : LexicalError) : String :=
  "Lexical error at position " ++ Nat.repr e.position ++ ": " ++ e.fault.text ++ " "
    ++ Text.quotedChar e.character

/-- What is expected where the given kinds are allowed. -/
def SyntaxError.expectation : List TokenKind → String
  | [] => "nothing"
  | [kind] => kind.name
  | kinds => "one of " ++ ", ".intercalate (kinds.map TokenKind.name)

def SyntaxError.message (e : SyntaxError) : String :=
  "Syntax error at position " ++ Nat.repr e.position ++ ": expected " ++ expectation e.expected
    ++ ", found " ++ e.found.name

namespace Rejection

def message : Rejection → String
  | .lexical e => e.message
  | .grammatical e => e.message

def position : Rejection → Nat
  | .lexical e => e.position
  | .grammatical e => e.position

end Rejection

/-! ## §3 Scanning

A scanner stands somewhere in a text and finds the next token, or the character that keeps it from
finding one. It can be used on after an error: what it has passed stays passed. `next_lt` says that
each step passes at least one character while there are any, so scanning ends. -/

/-- What a step of scanning gives. -/
abbrev Scanned := Except LexicalError LocatedToken

/-- A place in a text. -/
structure Scanner where
  /-- The characters not yet passed. -/
  rest : List Char
  position : Nat

namespace Scanner

/-! ### One step -/

def ofText (text : String) : Scanner :=
  ⟨text.toList, 0⟩

/-- Blanks may stand between tokens. -/
def isBlank (c : Char) : Bool :=
  c = ' ' || c = '\t'

def skipBlanks (s : Scanner) : Scanner :=
  ⟨s.rest.dropWhile isBlank, s.position + (s.rest.takeWhile isBlank).length⟩

/-- The token of a number that begins at `start`, which leaves the scanner at `s`. -/
def number (start : Nat) (whole fraction : List Char) (s : Scanner) : Scanned × Scanner :=
  (.ok ⟨.number ((Decimal.ofDigits whole fraction).toBinary64 false), start⟩, s)

/-- The error of a fault in the character `c` at `position`, which leaves the scanner at `s`. -/
def failAt (fault : LexicalFault) (position : Nat) (c : Char) (s : Scanner) : Scanned × Scanner :=
  (.error ⟨fault, position, c⟩, s)

/-- The rest of a number, behind its whole digits and the point. A missing digit is the fault of
the point, which is passed; a second point is not passed. -/
def nextFraction (start dot : Nat) (whole rest : List Char) : Scanned × Scanner :=
  let fraction := rest.takeWhile Char.isDigit
  let after : Scanner := ⟨rest.dropWhile Char.isDigit, dot + 1 + fraction.length⟩
  if fraction.isEmpty then failAt .trailingDot dot '.' after
  else match after.rest with
    -- the second point is only looked at
    | '.' :: _ => failAt .secondDot after.position '.' after
    | _ => number start whole fraction after

/-- The number that begins at the scanner's place, where a digit stands. -/
def nextNumber (s : Scanner) : Scanned × Scanner :=
  let whole := s.rest.takeWhile Char.isDigit
  let after : Scanner := ⟨s.rest.dropWhile Char.isDigit, s.position + whole.length⟩
  match after.rest with
  | '.' :: rest => nextFraction s.position after.position whole rest
  | _ => number s.position whole [] after

/-- The token that begins at the scanner's place, where no blank stands. -/
def nextToken (s : Scanner) : Scanned × Scanner :=
  match s.rest with
  | [] => (.ok ⟨.endOfInput, s.position⟩, s)
  | c :: rest =>
    let after : Scanner := ⟨rest, s.position + 1⟩
    if c.isDigit then s.nextNumber
    else if c = '+' then (.ok ⟨.plus, s.position⟩, after)
    else if c = '-' then (.ok ⟨.minus, s.position⟩, after)
    -- a character that begins no token is passed with its error
    else failAt (if c = '.' then .leadingDot else .unrecognizedCharacter) s.position c after

/-- The next token or error, and the place behind it. -/
def next (s : Scanner) : Scanned × Scanner :=
  s.skipBlanks.nextToken

/-- What the first `n` steps give. -/
def steps (s : Scanner) : Nat → List Scanned
  | 0 => []
  | n + 1 => s.next.1 :: s.next.2.steps n

/-! ### The whole text -/

theorem nextFraction_le (start dot : Nat) (whole rest : List Char) :
    (nextFraction start dot whole rest).2.rest.length ≤ rest.length := by
  have hle : (rest.dropWhile Char.isDigit).length ≤ rest.length :=
    (List.dropWhile_sublist _).length_le
  simp only [nextFraction, failAt, number]
  split
  · exact hle
  · split <;> exact hle

theorem nextNumber_lt {s : Scanner} {c : Char} {rest : List Char} (hs : s.rest = c :: rest)
    (hc : c.isDigit = true) : s.nextNumber.2.rest.length < s.rest.length := by
  have hdrop : s.rest.dropWhile Char.isDigit = rest.dropWhile Char.isDigit := by
    simp [hs, hc]
  have hle : (rest.dropWhile Char.isDigit).length ≤ rest.length :=
    (List.dropWhile_sublist _).length_le
  simp only [nextNumber, hdrop, number]
  split
  next tail htail =>
    -- the digits and the point are passed, and then what the fraction passes
    have hfraction := nextFraction_le s.position
      (s.position + (s.rest.takeWhile Char.isDigit).length) (s.rest.takeWhile Char.isDigit) tail
    rw [htail] at hle
    simp only [hs, List.length_cons] at hle hfraction ⊢
    omega
  -- only the digits are passed
  next => simp only [hs, List.length_cons]; omega

/-- Each step passes at least one character, unless only blanks are left. -/
theorem next_lt {s : Scanner} (h : s.skipBlanks.rest ≠ []) :
    s.next.2.rest.length < s.rest.length := by
  have hle : s.skipBlanks.rest.length ≤ s.rest.length := (List.dropWhile_sublist isBlank).length_le
  refine Nat.lt_of_lt_of_le ?_ hle
  unfold next nextToken
  split
  next hnil => exact absurd hnil h
  next c rest hcons =>
    dsimp only
    split
    next hdigit => exact nextNumber_lt hcons hdigit
    next =>
      rw [hcons]
      split
      · exact Nat.lt_succ_self _
      · split <;> exact Nat.lt_succ_self _

/-- What the steps give up to the end of the text, which is the last entry. -/
def all (s : Scanner) : List Scanned :=
  if h : s.skipBlanks.rest = [] then [s.next.1]
  else
    have := next_lt h
    s.next.1 :: s.next.2.all
termination_by s.rest.length

end Scanner

end AddingMachine
