import AddingMachine.Proofs.Decimal.Written
import AddingMachine.Proofs.Scanner.Layout
import Mathlib.Logic.Relation

/-!
# Trees

Values of trees are found by a walk along the left spine, and the texts of trees tell them apart.
-/

namespace AddingMachine

/-! ## §1 The walk along the left spine

The value of a tree follows its structure. A tree is evaluated another way: a walk goes down the left
spine and leaves each operation on a stack, with its right operand as it stands. From the number at
the end of the spine it comes back up, takes the operations off again and evaluates the right
operands by themselves. Each step keeps what the walk will end with (`Walk.Step.outcome_eq`), so the
walk has the value by structure as its result, and nothing else can be evaluated this way
(`value_along_spine`). -/

/-! ### The value by structure -/

namespace Expression

/-- The value of a literal is its number; that of an operation is the operator applied to the values
of its operands. -/
def structuralValue : Expression → Binary64
  | .literal number => number
  | .binary left operator right => operator.apply left.structuralValue right.structuralValue

/-- Evaluating with the operations still waiting comes to the value by structure. -/
theorem value_eq_structuralValue (e : Expression) : e.value = e.structuralValue := by
  induction e with
  | literal number => rfl
  | binary left operator right ihl ihr => rw [value_binary, structuralValue, ihl, ihr]

/-- The right operands along the left spine, the outermost one first. -/
def rightOperands : Expression → List Expression
  | .literal _ => []
  | .binary left _ right => right :: left.rightOperands

end Expression

/-! ### Walks -/

/-- A place on the way down the left spine or back up. The stack holds the operations that are left
behind and their right operands, the innermost one on top. -/
inductive Walk where
  | down (node : Expression) (stack : List (Operator × Expression))
  | up (total : Binary64) (stack : List (Operator × Expression))

namespace Walk

/-- One step of a walk, where `evaluate` gives the values of right operands. -/
inductive Step (evaluate : Expression → Binary64) : Walk → Walk → Prop where
  /-- An operation is left on the stack. -/
  | descend (left : Expression) (operator : Operator) (right : Expression)
      (stack : List (Operator × Expression)) :
      Step evaluate (.down (.binary left operator right) stack)
        (.down left ((operator, right) :: stack))
  /-- The spine ends at a number. -/
  | turn (number : Binary64) (stack : List (Operator × Expression)) :
      Step evaluate (.down (.literal number) stack) (.up number stack)
  /-- The operation on top of the stack is applied. -/
  | replay (total : Binary64) (operator : Operator) (right : Expression)
      (stack : List (Operator × Expression)) :
      Step evaluate (.up total ((operator, right) :: stack))
        (.up (operator.apply total (evaluate right)) stack)

/-- Any number of steps. -/
abbrev Steps (evaluate : Expression → Binary64) : Walk → Walk → Prop :=
  Relation.ReflTransGen (Step evaluate)

/-- The operations on the stack, with the values of their right operands. -/
def waiting (stack : List (Operator × Expression)) : List (Operator × Binary64) :=
  stack.map fun item => (item.1, item.2.value)

/-- What a walk will end with. -/
def outcome : Walk → Binary64
  | .down node stack => node.valueThen (waiting stack)
  | .up total stack => applyAll total (waiting stack)

/-- The right operands that a walk has still to evaluate. -/
def operands : Walk → List Expression
  | .down node stack => node.rightOperands ++ stack.map Prod.snd
  | .up _ stack => stack.map Prod.snd

variable {evaluate : Expression → Binary64} {walk next : Walk}

/-! ### What the steps keep -/

/-- **One step** keeps what the walk will end with, if the right operand that it evaluates gets its
value. -/
theorem Step.outcome_eq (h : Step evaluate walk next)
    (hvalues : ∀ e ∈ walk.operands, evaluate e = e.value) : next.outcome = walk.outcome := by
  cases h with
  -- going down, the operation only changes its place, and so does the turn at the number
  | descend left operator right stack => rfl
  | turn number stack => rfl
  -- the one step at which something is evaluated
  | replay total operator right stack =>
    have hright : evaluate right = right.value := hvalues right List.mem_cons_self
    rw [outcome, outcome, hright]
    rfl

/-- A step leaves no right operand to evaluate that was not to be evaluated before it. -/
theorem Step.operands_subset (h : Step evaluate walk next) : next.operands ⊆ walk.operands := by
  cases h with
  | descend left operator right stack =>
    -- the right operand goes from the spine to the stack
    simp [operands, Expression.rightOperands]
  | turn number stack => exact List.Subset.refl _
  -- the operand that was on top of the stack has had its turn
  | replay total operator right stack => exact List.subset_cons_self _ _

/-- **Any number of steps** keep what the walk will end with. -/
theorem Steps.outcome_eq (h : Steps evaluate walk next)
    (hvalues : ∀ e ∈ walk.operands, evaluate e = e.value) : next.outcome = walk.outcome := by
  -- from the front, so that the values are known of the operands of the first place
  induction h using Relation.ReflTransGen.head_induction_on with
  | refl => rfl
  | head hstep _ ih =>
    have hnext := ih fun e he => hvalues e (hstep.operands_subset he)
    rw [hnext, hstep.outcome_eq hvalues]

/-- From a node, whatever is on the stack, a walk comes back up with the value of the node. -/
theorem steps_up (hvalues : ∀ e, evaluate e = e.value) (node : Expression)
    (stack : List (Operator × Expression)) :
    Steps evaluate (.down node stack) (.up node.value stack) := by
  induction node generalizing stack with
  | literal number => exact .single (.turn number stack)
  | binary left operator right ihl ihr =>
    -- down past this operation, the left operand by induction, and up past it again
    have hdown : Step evaluate _ _ := .descend left operator right stack
    have hback : Step evaluate _ _ := .replay left.value operator right stack
    rw [hvalues right, ← Expression.value_binary] at hback
    exact .head hdown ((ihl _).tail hback)

end Walk

/-! ### Evaluation -/

/-- Every tree is evaluated by a walk along its left spine, and the right operands by themselves. -/
def EvaluatesAlongSpine (evaluate : Expression → Binary64) : Prop :=
  ∀ e, Walk.Steps evaluate (.down e []) (.up (evaluate e) [])

namespace Expression

/-- Whatever evaluates trees along their left spines gives their values, and those of the right
operands before them. -/
theorem eq_value_of_evaluatesAlongSpine {evaluate : Expression → Binary64}
    (h : EvaluatesAlongSpine evaluate) (e : Expression) :
    (∀ right ∈ e.rightOperands, evaluate right = right.value) ∧ evaluate e = e.value := by
  -- once the right operands have their values, each step of the walk keeps its outcome
  have hwalk : ∀ e : Expression, (∀ right ∈ e.rightOperands, evaluate right = right.value) →
      evaluate e = e.value := by
    intro e hvalues
    refine (h e).outcome_eq fun right hright => hvalues right ?_
    simpa [Walk.operands] using hright
  -- a literal has no right operands, and those of an operation are its own and those of its left
  -- operand
  induction e with
  | literal number => exact ⟨nofun, hwalk (.literal number) nofun⟩
  | binary left operator right ihl ihr =>
    have hvalues : ∀ e ∈ (binary left operator right).rightOperands, evaluate e = e.value :=
      List.forall_mem_cons.mpr ⟨ihr.2, ihl.1⟩
    exact ⟨hvalues, hwalk _ hvalues⟩

/-- **Values along the left spine.** The value of every tree, of whatever shape and with whatever
literals, is its value by structure. This is what a walk along the left spine comes to that
evaluates the right operands in the same way, and such a walk comes to nothing else. -/
theorem value_along_spine :
    (∀ e : Expression, e.value = e.structuralValue) ∧
      ∀ evaluate : Expression → Binary64,
        EvaluatesAlongSpine evaluate ↔ ∀ e, evaluate e = e.structuralValue := by
  refine ⟨value_eq_structuralValue, fun evaluate => ⟨fun h e => ?_, fun h e => ?_⟩⟩
  -- any walk ends where the values say that it ends
  · rw [← value_eq_structuralValue]
    exact (eq_value_of_evaluatesAlongSpine h e).2
  -- and with the values of the right operands there is such a walk
  · have hvalues : ∀ e, evaluate e = e.value :=
      fun e => (h e).trans e.value_eq_structuralValue.symm
    rw [hvalues e]
    exact Walk.steps_up hvalues e []

end Expression

/-! ## §2 The text of a double

Every double is read back from its text (`Binary64.ofText?_text`), the two zeros, the infinities and
NaN included, so different doubles have different texts. None has a space or a parenthesis in its
text, with which the text of a tree is put together. -/

/-! ### Reading back -/

/-- The sign of a decimal has no part in its nearest double but for the sign of that. -/
theorem Decimal.neg_toBinary64 (negative : Bool) (d : Decimal) :
    (d.toBinary64 negative).neg = d.toBinary64 (!negative) := by
  obtain ⟨num, den, -, -, heq⟩ := d.exists_toBinary64_eq
  rw [heq, heq, Binary64.neg_nearest]

/-- Behind a minus sign, a numeral is read as the opposite of its value. -/
theorem Numeral.ofText?_minus (numeral : Numeral) :
    Binary64.ofText? (String.ofList ('-' :: numeral.chars)) = some numeral.value.neg := by
  obtain ⟨c, more, hchars, hdigit⟩ := numeral.exists_cons
  have hread := numeral.ofChars?_chars
  rw [hchars] at hread
  rw [Binary64.ofText?, String.toList_ofList, hchars]
  split
  next heq => cases heq
  next heq => cases heq
  next heq =>
    -- the word for the infinity does not go on with a digit
    cases heq
    cases hdigit
  next digits heq =>
    obtain rfl := (List.cons.inj heq).2
    rw [hread, value_eq, Decimal.neg_toBinary64]
    rfl
  next hminus => exact absurd rfl (hminus _)

namespace Binary64

/-- **Texts of doubles read back.** -/
theorem ofText?_text (x : Binary64) : ofText? (x.text .plain) = some x := by
  cases x with
  | nan =>
    rw [ofText?, text, String.toList_ofList]
    rfl
  -- the three words are compared as they stand, with and without a sign
  | infinite negative =>
    rw [ofText?, text, String.toList_ofList]
    cases negative <;> rfl
  | finite negative m =>
    obtain ⟨numeral, hchars, hvalue⟩ := m.exists_numeral
    cases negative with
    | false => rw [text, hchars, numeral.ofText?_chars, hvalue]
    -- the minus sign is taken off, and the numeral is read behind it
    | true =>
      have hminus : (finite true m).chars .plain = '-' :: numeral.chars := congrArg _ hchars
      rw [text, hminus, numeral.ofText?_minus, hvalue]
      rfl

/-- Different doubles have different texts. -/
theorem text_inj {x y : Binary64} (h : x.text .plain = y.text .plain) : x = y := by
  have hx := x.ofText?_text
  rw [h, y.ofText?_text] at hx
  exact (Option.some.inj hx).symm

theorem chars_inj {x y : Binary64} (h : x.chars .plain = y.chars .plain) : x = y :=
  text_inj (congrArg String.ofList h)

/-! ### The characters -/

/-- Whether a character can stand in the text of a double: neither a space nor a parenthesis can. -/
def isPlainChar (c : Char) : Bool :=
  !(c = ' ' || c = '(' || c = ')')

theorem isPlainChar_of_continuesNumber {c : Char} (h : continuesNumber c = true) :
    isPlainChar c = true := by
  by_contra hplain
  simp only [isPlainChar, Bool.not_eq_true', Bool.not_eq_false, Bool.or_eq_true,
    decide_eq_true_eq] at hplain
  rcases hplain with (rfl | rfl) | rfl
  · cases h
  · cases h
  · cases h

/-- No text of a double has a space or a parenthesis in it. -/
theorem isPlainChar_of_mem_chars (x : Binary64) : ∀ c ∈ x.chars .plain, isPlainChar c = true := by
  cases x with
  | nan => exact List.all_eq_true.mp rfl
  | infinite negative => cases negative <;> exact List.all_eq_true.mp rfl
  | finite negative m =>
    -- a finite double is written as a numeral, behind its sign
    obtain ⟨numeral, hchars, -⟩ := m.exists_numeral
    have hnumeral : ∀ c ∈ numeral.chars, isPlainChar c = true :=
      fun c hc => isPlainChar_of_continuesNumber (numeral.continuesNumber_of_mem hc)
    cases negative with
    | false =>
      rw [hchars]
      exact hnumeral
    | true =>
      have hminus : (finite true m).chars .plain = '-' :: numeral.chars := congrArg _ hchars
      rw [hminus]
      exact List.forall_mem_cons.mpr ⟨rfl, hnumeral⟩

/-- No double is written with nothing: that could not be read back. -/
theorem chars_ne_nil (x : Binary64) : x.chars .plain ≠ [] := by
  intro hnil
  have hread := x.ofText?_text
  rw [text, hnil] at hread
  cases hread

end Binary64

/-! ## §3 Trees are uniquely readable

The text of a tree settles the tree, although negative literals begin with the sign of an operator
and operations are nested on both sides. A literal ends at the first space or parenthesis, and an
operation begins with a parenthesis, which no literal has in it; so whatever stands behind two trees,
where they end is settled too (`Expression.chars_append_inj`). -/

namespace Expression

/-! ### How trees begin -/

theorem chars_literal_append (value : Binary64) (rest : List Char) :
    (literal value).chars ++ rest = value.chars .plain ++ rest := by
  rw [← charsThen_eq, charsThen]

theorem chars_binary_append (left : Expression) (operator : Operator) (right : Expression)
    (rest : List Char) :
    (binary left operator right).chars ++ rest =
      '(' :: (left.chars ++ ' ' :: operator.symbol :: ' ' :: (right.chars ++ ')' :: rest)) := by
  rw [← charsThen_eq, charsThen, charsThen_eq left, charsThen_eq right]

/-- A literal does not begin as an operation does. -/
theorem chars_literal_append_ne (value : Binary64) {rest rest' : List Char} :
    value.chars .plain ++ rest ≠ '(' :: rest' := by
  obtain ⟨c, more, hchars⟩ := List.exists_cons_of_ne_nil value.chars_ne_nil
  have hplain := value.isPlainChar_of_mem_chars c (by simp [hchars])
  rw [hchars]
  intro heq
  obtain ⟨rfl, -⟩ := List.cons.inj heq
  cases hplain

/-! ### Where trees end -/

theorem breaks_space (rest : List Char) : Breaks Binary64.isPlainChar (' ' :: rest) :=
  .cons rfl rest

theorem breaks_close (rest : List Char) : Breaks Binary64.isPlainChar (')' :: rest) :=
  .cons rfl rest

/-- **Unique readability**: texts that begin with trees which end there are the same only if the
trees are, and what stands behind them. -/
theorem chars_append_inj {e e' : Expression} {rest rest' : List Char}
    (hrest : Breaks Binary64.isPlainChar rest) (hrest' : Breaks Binary64.isPlainChar rest')
    (h : e.chars ++ rest = e'.chars ++ rest') : e = e' ∧ rest = rest' := by
  induction e generalizing e' rest rest' with
  -- both literals are as long as can be, so they end at the same place
  | literal value =>
    rw [chars_literal_append] at h
    cases e' with
    | literal value' =>
      rw [chars_literal_append] at h
      obtain ⟨hchars, htail⟩ := run_append_inj value.isPlainChar_of_mem_chars
        value'.isPlainChar_of_mem_chars hrest hrest' h
      rw [Binary64.chars_inj hchars]
      exact ⟨rfl, htail⟩
    | binary left' operator' right' =>
      rw [chars_binary_append] at h
      exact absurd h (chars_literal_append_ne value)
  -- an operation against a literal is settled by the first character
  | binary left operator right ihl ihr =>
    rw [chars_binary_append] at h
    cases e' with
    | literal value' =>
      rw [chars_literal_append] at h
      exact absurd h.symm (chars_literal_append_ne value')
    | binary left' operator' right' =>
      rw [chars_binary_append] at h
      -- the left operands end at a space, and the right ones at the closing parenthesis
      obtain ⟨rfl, hleft⟩ := ihl (breaks_space _) (breaks_space _) (List.cons.inj h).2
      obtain ⟨hsymbol, hspace⟩ := List.cons.inj (List.cons.inj hleft).2
      obtain rfl := Operator.symbol_injective hsymbol
      obtain ⟨rfl, hclose⟩ := ihr (breaks_close _) (breaks_close _) (List.cons.inj hspace).2
      exact ⟨rfl, (List.cons.inj hclose).2⟩

/-! ### The text of a tree -/

/-- **The printed tree settles the tree.** Trees of whatever shape and with whatever literals have
the same text exactly when they are the same: nested alike, with the same operators and the same
literals, bit for bit. -/
theorem text_eq_text_iff (e e' : Expression) : e.text = e'.text ↔ e = e' := by
  constructor
  · intro h
    have hchars : e.chars ++ [] = e'.chars ++ [] := by
      rw [String.ofList_injective h]
    exact (chars_append_inj (.nil _) (.nil _) hchars).1
  · rintro rfl
    rfl

end Expression

end AddingMachine
