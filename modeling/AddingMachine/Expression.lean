import AddingMachine.Decimal

/-!
# Expressions

An expression is a number or two expressions joined by an operator. Its value is found along the
left spine: the operations above a left operand wait in a list until that operand is a number, and
are then applied innermost first. Chains of operators are left-nested, so their depth costs no
recursion.
-/

namespace AddingMachine

/-! ## §1 Operators -/

/-- The operators of the language. -/
inductive Operator where
  | add
  | subtract
  deriving DecidableEq

namespace Operator

def apply : Operator → Binary64 → Binary64 → Binary64
  | .add => Binary64.add
  | .subtract => Binary64.sub

def symbol : Operator → Char
  | .add => '+'
  | .subtract => '-'

end Operator

/-- Applies operations to a number, from left to right. -/
def applyAll (start : Binary64) (operations : List (Operator × Binary64)) : Binary64 :=
  operations.foldl (fun total operation => operation.1.apply total operation.2) start

/-! ## §2 Trees -/

/-- An expression tree. -/
inductive Expression where
  | literal (value : Binary64)
  | binary (left : Expression) (operator : Operator) (right : Expression)
  deriving DecidableEq

namespace Expression

/-- The value of an expression to which the waiting operations are then applied. -/
def valueThen : Expression → List (Operator × Binary64) → Binary64
  | .literal value, waiting => applyAll value waiting
  | .binary left operator right, waiting =>
    left.valueThen ((operator, right.valueThen []) :: waiting)

def value (e : Expression) : Binary64 :=
  e.valueThen []

/-- The characters of an expression, every operation in parentheses, and then `rest`. -/
def charsThen : Expression → List Char → List Char
  | .literal value, rest => value.chars .plain ++ rest
  | .binary left operator right, rest =>
    '(' :: left.charsThen (' ' :: operator.symbol :: ' ' :: right.charsThen (')' :: rest))

def chars (e : Expression) : List Char :=
  e.charsThen []

/-- What follows an expression has no part in its characters. -/
theorem charsThen_eq (e : Expression) (rest : List Char) : e.charsThen rest = e.chars ++ rest := by
  unfold chars
  induction e generalizing rest with
  | literal value => simp [charsThen]
  | binary left operator right ihl ihr =>
    simp only [charsThen, List.cons_append]
    -- both operands are set apart from what follows them
    rw [ihl, ihr, ihl (_ :: _), ihr [')']]
    simp

theorem chars_binary (left : Expression) (operator : Operator) (right : Expression) :
    (binary left operator right).chars =
      '(' :: left.chars ++ [' ', operator.symbol, ' '] ++ right.chars ++ [')'] := by
  show (binary left operator right).charsThen [] = _
  rw [charsThen, charsThen_eq left, charsThen_eq right]
  simp

def text (e : Expression) : String :=
  String.ofList e.chars

end Expression

end AddingMachine
