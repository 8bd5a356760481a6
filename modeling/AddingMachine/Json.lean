import AddingMachine.Decimal

/-!
# JSON

The values that reports consist of, and their text: no white space, and the fields of an object in
the order in which they are given.
-/

namespace AddingMachine

/-- A JSON value. -/
inductive Json where
  | string (text : String)
  /-- A number; what JSON has no number for becomes `null`. -/
  | number (value : Binary64)
  | natural (value : Nat)
  | array (items : List Json)
  | object (fields : List (String × Json))

namespace Json

/-! ## §1 Strings -/

/-- A character as it is written in a string. -/
def escaped (c : Char) : List Char :=
  if c = '\x22' || c = '\\' then ['\\', c]
  else if c = '\x08' then ['\\', 'b']
  else if c = '\x0c' then ['\\', 'f']
  else if c = '\n' then ['\\', 'n']
  else if c = '\r' then ['\\', 'r']
  else if c = '\t' then ['\\', 't']
  else if c.toNat < 32 then
    ['\\', 'u', '0', '0', Nat.digitChar (c.toNat / 16), Nat.digitChar (c.toNat % 16)]
  else [c]

def stringChars (text : String) : List Char :=
  '\x22' :: text.toList.flatMap escaped ++ ['\x22']

/-! ## §2 Values -/

/-- A number of the format, or `null`. -/
def numberChars (value : Binary64) : List Char :=
  if value.isFinite then value.chars .json else ['n', 'u', 'l', 'l']

mutual

def chars : Json → List Char
  | .string text => stringChars text
  | .number value => numberChars value
  | .natural value => Nat.toDigits 10 value
  | .array [] => ['[', ']']
  | .array (item :: rest) => '[' :: item.chars ++ itemsChars rest ++ [']']
  | .object [] => ['\x7b', '\x7d']
  | .object ((name, value) :: rest) =>
    '\x7b' :: stringChars name ++ ':' :: value.chars ++ fieldsChars rest ++ ['\x7d']

def itemsChars : List Json → List Char
  | [] => []
  | item :: rest => ',' :: item.chars ++ itemsChars rest

def fieldsChars : List (String × Json) → List Char
  | [] => []
  | (name, value) :: rest => ',' :: stringChars name ++ ':' :: value.chars ++ fieldsChars rest

end

def text (value : Json) : String :=
  String.ofList value.chars

end Json

end AddingMachine
