import AddingMachine.Expression
import AddingMachine.Scanner

/-!
# The grammar of token sequences

A sentence is `number (operator number)* end`. What stands before the end is a `Chain`: its tokens,
its value and its left-nested tree are read off from the same data. Places alternate between
operands and operators, and `beginsSentence_iff_inPlace` says that the tokens before the end begin
some sentence exactly when each of them stands in a place that takes it.
-/

namespace AddingMachine

/-! ## §1 Chains -/

def Operator.token : Operator → Token
  | .add => .plus
  | .subtract => .minus

/-- Operators have different tokens. -/
theorem Operator.token_injective {operator operator' : Operator}
    (h : operator.token = operator'.token) : operator = operator' := by
  cases operator with
  | add =>
    cases operator' with
    | add => rfl
    | subtract => cases h
  | subtract =>
    cases operator' with
    | add => cases h
    | subtract => rfl

/-- A token is the end, a number or the token of an operator. -/
theorem Token.cases_operator (token : Token) :
    token = .endOfInput ∨ (∃ value, token = .number value) ∨
      ∃ operator : Operator, token = operator.token := by
  cases token with
  | number value => exact .inr (.inl ⟨value, rfl⟩)
  | plus => exact .inr (.inr ⟨.add, rfl⟩)
  | minus => exact .inr (.inr ⟨.subtract, rfl⟩)
  | endOfInput => exact .inl rfl

theorem Token.exists_number {token : Token} (h : token.kind = .number) :
    ∃ value, token = .number value := by
  cases token with
  | number value => exact ⟨value, rfl⟩
  | plus => cases h
  | minus => cases h
  | endOfInput => cases h

/-- A number, and operations that follow it. -/
structure Chain where
  first : Binary64
  operations : List (Operator × Binary64)

/-- The tokens of operations, in written order. -/
def operationTokens : List (Operator × Binary64) → List Token
  | [] => []
  | (operator, number) :: rest => operator.token :: .number number :: operationTokens rest

/-- Operations are read off from their tokens. -/
theorem operationTokens_injective {operations operations' : List (Operator × Binary64)}
    (h : operationTokens operations = operationTokens operations') :
    operations = operations' := by
  induction operations generalizing operations' with
  | nil =>
    cases operations' with
    | nil => rfl
    | cons => cases h
  | cons operation rest ih =>
    cases operations' with
    | nil => cases h
    | cons operation' rest' =>
      obtain ⟨operator, number⟩ := operation
      obtain ⟨operator', number'⟩ := operation'
      -- two tokens belong to the first operation, all others to the rest
      simp only [operationTokens, List.cons.injEq, Token.number.injEq] at h
      obtain ⟨hoperator, rfl, hrest⟩ := h
      rw [Operator.token_injective hoperator, ih hrest]

/-- A number and the operations that follow it, from left to right: what is behind `+` is added, and
what is behind `-` is subtracted. -/
def runningTotal (start : Binary64) : List (Operator × Binary64) → Binary64
  | [] => start
  | (.add, number) :: rest => runningTotal (start.add number) rest
  | (.subtract, number) :: rest => runningTotal (start.sub number) rest

/-- Applying operations one after another gives the running total. -/
theorem applyAll_eq_runningTotal (start : Binary64) (operations : List (Operator × Binary64)) :
    applyAll start operations = runningTotal start operations := by
  induction operations generalizing start with
  | nil => rfl
  | cons operation rest ih =>
    obtain ⟨operator, number⟩ := operation
    cases operator with
    | add => exact ih (start.add number)
    | subtract => exact ih (start.sub number)

namespace Chain

/-- The tokens of a chain, in written order. -/
def tokens (chain : Chain) : List Token :=
  .number chain.first :: operationTokens chain.operations

/-- The value of a chain: its numbers are added and subtracted from left to right. -/
def value (chain : Chain) : Binary64 :=
  runningTotal chain.first chain.operations

end Chain

namespace Expression

/-- An expression nested in operations that follow it, the first one innermost. -/
def nestIn (left : Expression) (operations : List (Operator × Binary64)) : Expression :=
  operations.foldl (fun e operation => .binary e operation.1 (.literal operation.2)) left

/-- Every right operand is a number. -/
def LeftNested : Expression → Prop
  | .literal _ => True
  | .binary left _ right => left.LeftNested ∧ ∃ number, right = .literal number

/-- The numbers and operators of an expression, from left to right. -/
def tokens : Expression → List Token
  | .literal number => [.number number]
  | .binary left operator right => left.tokens ++ operator.token :: right.tokens

end Expression

/-- The left-nested tree of a chain. -/
def Chain.tree (chain : Chain) : Expression :=
  (Expression.literal chain.first).nestIn chain.operations

/-! ## §2 The tree of a chain -/

/-- What waits is applied to the value of the expression. -/
theorem Expression.valueThen_eq (e : Expression) (waiting : List (Operator × Binary64)) :
    e.valueThen waiting = applyAll e.value waiting := by
  unfold Expression.value
  induction e generalizing waiting with
  | literal number => rfl
  | binary left operator right ihl ihr =>
    simp only [valueThen]
    -- what waits behind the operation is pushed out of the left operand
    rw [ihl, ihl [_]]
    rfl

@[simp] theorem Expression.value_binary (left : Expression) (operator : Operator) (right : Expression) :
    (binary left operator right).value = operator.apply left.value right.value := by
  show left.valueThen [(operator, right.value)] = _
  rw [valueThen_eq]
  rfl

/-- Operations that an expression is nested in are applied to its value. -/
@[simp] theorem Expression.value_nestIn (left : Expression) (operations : List (Operator × Binary64)) :
    (left.nestIn operations).value = applyAll left.value operations := by
  induction operations generalizing left with
  | nil => rfl
  | cons operation rest ih =>
    -- the first operation is innermost
    show ((binary left operation.1 (.literal operation.2)).nestIn rest).value = _
    rw [ih, value_binary]
    rfl

@[simp] theorem Expression.tokens_nestIn (left : Expression) (operations : List (Operator × Binary64)) :
    (left.nestIn operations).tokens = left.tokens ++ operationTokens operations := by
  induction operations generalizing left with
  | nil => exact (List.append_nil _).symm
  | cons operation rest ih =>
    show ((binary left operation.1 (.literal operation.2)).nestIn rest).tokens = _
    rw [ih]
    simp [tokens, operationTokens]

theorem Expression.leftNested_nestIn (left : Expression) (h : left.LeftNested)
    (operations : List (Operator × Binary64)) : (left.nestIn operations).LeftNested := by
  induction operations generalizing left with
  | nil => exact h
  | cons operation rest ih => exact ih _ ⟨h, operation.2, rfl⟩

namespace Chain

@[simp] theorem value_tree (chain : Chain) : chain.tree.value = chain.value :=
  (Expression.value_nestIn _ _).trans (applyAll_eq_runningTotal _ _)

@[simp] theorem tokens_tree (chain : Chain) : chain.tree.tokens = chain.tokens :=
  Expression.tokens_nestIn _ _

/-- A chain is read off from its tokens. -/
theorem tokens_injective {chain chain' : Chain} (h : chain.tokens = chain'.tokens) :
    chain = chain' := by
  obtain ⟨first, operations⟩ := chain
  obtain ⟨first', operations'⟩ := chain'
  obtain ⟨hfirst, hrest⟩ := List.cons.inj h
  obtain rfl := Token.number.inj hfirst
  obtain rfl := operationTokens_injective hrest
  rfl

theorem leftNested_tree (chain : Chain) : chain.tree.LeftNested :=
  Expression.leftNested_nestIn (.literal chain.first) trivial chain.operations

end Chain

/-! ## §3 Places -/

/-- A place in a sentence: where an operand is due, or what follows an operand. -/
inductive Place where
  | operand
  | operator
  deriving DecidableEq

namespace Place

def other : Place → Place
  | .operand => .operator
  | .operator => .operand

/-- The place after `n` more tokens. -/
def after (place : Place) : Nat → Place
  | 0 => place
  | n + 1 => place.other.after n

/-- The kinds that are allowed in a place. -/
def expected : Place → List TokenKind
  | .operand => [.number]
  | .operator => [.plus, .minus, .endOfInput]

/-- Whether a place takes a token before the end of a sentence. -/
def Takes : Place → Token → Prop
  | .operand, .number _ => True
  | .operator, .plus => True
  | .operator, .minus => True
  | _, _ => False

/-- The tokens that a place takes are those of the expected kinds, but for the end. -/
theorem takes_iff (place : Place) (token : Token) :
    place.Takes token ↔ token.kind ∈ place.expected ∧ token ≠ .endOfInput := by
  cases place <;> cases token <;> simp [Takes, expected, Token.kind]

end Place

/-- The place of an operator takes nothing else. -/
theorem Place.exists_operator {token : Token} (h : Place.operator.Takes token) :
    ∃ operator : Operator, token = operator.token := by
  cases token with
  | plus => exact ⟨.add, rfl⟩
  | minus => exact ⟨.subtract, rfl⟩
  | number => exact h.elim
  | endOfInput => exact h.elim

theorem Operator.takes_token (operator : Operator) : Place.operator.Takes operator.token := by
  cases operator with
  | add => trivial
  | subtract => trivial

/-- Every token stands in a place that takes it; the first place is given. -/
def InPlace : Place → List Token → Prop
  | _, [] => True
  | place, token :: rest => place.Takes token ∧ InPlace place.other rest

/-- Tokens in their places can be divided, where the second part begins with the place behind the
first. -/
theorem InPlace.append_iff (place : Place) (before rest : List Token) :
    InPlace place (before ++ rest) ↔
      InPlace place before ∧ InPlace (place.after before.length) rest := by
  induction before generalizing place with
  | nil => simp [InPlace, Place.after]
  | cons token before ih => simp [InPlace, Place.after, ih, and_assoc]

/-- No place takes the end of the input. -/
theorem InPlace.endOfInput_notMem {place : Place} {tokens : List Token}
    (h : InPlace place tokens) : Token.endOfInput ∉ tokens := by
  induction tokens generalizing place with
  | nil => exact List.not_mem_nil
  | cons token rest ih =>
    have htoken := ((place.takes_iff token).mp h.1).2
    exact fun hmem => (List.mem_cons.mp hmem).elim (fun heq => htoken heq.symm) (ih h.2)

/-- If not all tokens are in their places, there is a first one that is not. -/
theorem exists_first_misplaced {place : Place} {tokens : List LocatedToken}
    (h : ¬ InPlace place (tokens.map LocatedToken.token)) :
    ∃ before token after, tokens = before ++ token :: after ∧
      InPlace place (before.map LocatedToken.token) ∧
      ¬ (place.after before.length).Takes token.token := by
  induction tokens generalizing place with
  | nil => exact absurd trivial h
  | cons token rest ih =>
    by_cases htoken : place.Takes token.token
    · -- the first one is further on
      have hrest : ¬ InPlace place.other (rest.map LocatedToken.token) :=
        fun hrest => h ⟨htoken, hrest⟩
      obtain ⟨before, found, after, rfl, hbefore, hfound⟩ := ih hrest
      exact ⟨token :: before, found, after, rfl, ⟨htoken, hbefore⟩, hfound⟩
    -- it is this one
    · exact ⟨[], token, rest, rfl, trivial, htoken⟩

/-! ## §4 Sentences -/

/-- The tokens are the beginning of some sentence, or the whole of it. -/
def BeginsSentence (tokens : List Token) : Prop :=
  ∃ chain : Chain, tokens <+: chain.tokens ++ [.endOfInput]

theorem inPlace_operationTokens (operations : List (Operator × Binary64)) :
    InPlace .operator (operationTokens operations) := by
  induction operations with
  | nil => trivial
  | cons operation rest ih =>
    exact ⟨operation.1.takes_token, trivial, ih⟩

theorem Chain.inPlace_tokens (chain : Chain) : InPlace .operand chain.tokens :=
  ⟨trivial, inPlace_operationTokens chain.operations⟩

theorem after_length_operationTokens (operations : List (Operator × Binary64)) :
    Place.operator.after (operationTokens operations).length = .operator := by
  induction operations with
  | nil => rfl
  | cons operation rest ih => exact ih

@[simp] theorem Chain.after_length_tokens (chain : Chain) :
    Place.operand.after chain.tokens.length = .operator :=
  after_length_operationTokens chain.operations

/-- What can stand from a place on up to the end: a chain, or the operations that follow an operand. -/
def Place.Completes : Place → List Token → Prop
  | .operand, tokens => ∃ chain : Chain, tokens = chain.tokens
  | .operator, tokens => ∃ operations, tokens = operationTokens operations

/-- What completes a sentence behind a token does so with the token in front. -/
theorem Place.Completes.cons {place : Place} {token : Token} {rest : List Token}
    (htoken : place.Takes token) (h : place.other.Completes rest) :
    place.Completes (token :: rest) := by
  cases place with
  | operand =>
    -- a number begins the chain
    obtain ⟨operations, rfl⟩ := h
    obtain ⟨hkind, -⟩ := (Place.takes_iff _ _).mp htoken
    obtain ⟨first, rfl⟩ := token.exists_number (by simpa [Place.expected] using hkind)
    exact ⟨⟨first, operations⟩, rfl⟩
  | operator =>
    -- a sign and the first number of the chain are one more operation
    obtain ⟨chain, rfl⟩ := h
    obtain ⟨operator, rfl⟩ := Place.exists_operator htoken
    exact ⟨(operator, chain.first) :: chain.operations, rfl⟩

/-- Tokens in their places can be completed, and are complete where an operator may follow. -/
theorem InPlace.exists_completion {place : Place} {tokens : List Token}
    (h : InPlace place tokens) :
    ∃ more, place.Completes (tokens ++ more) ∧
      (place.after tokens.length = .operator → more = []) := by
  induction tokens generalizing place with
  | nil =>
    cases place with
    | operand =>
      -- any number will do
      exact ⟨[.number .nan], ⟨⟨.nan, []⟩, rfl⟩, fun hafter => nomatch hafter⟩
    | operator => exact ⟨[], ⟨[], rfl⟩, fun _ => rfl⟩
  | cons token rest ih =>
    -- the token is added in front of what completes the rest
    obtain ⟨more, hmore, hcomplete⟩ := ih h.2
    exact ⟨more, .cons h.1 hmore, hcomplete⟩

/-- Tokens in their places up to where an operator may follow are those of a chain. -/
theorem InPlace.exists_chain {tokens : List Token} (h : InPlace .operand tokens)
    (hafter : Place.operand.after tokens.length = .operator) :
    ∃ chain : Chain, tokens = chain.tokens := by
  obtain ⟨more, hmore, hcomplete⟩ := h.exists_completion
  rw [hcomplete hafter, List.append_nil] at hmore
  exact hmore

/-- Tokens in their places are the beginning of a sentence. -/
theorem InPlace.beginsSentence {tokens : List Token} (h : InPlace .operand tokens) :
    BeginsSentence tokens := by
  obtain ⟨more, ⟨chain, hchain⟩, -⟩ := h.exists_completion
  refine ⟨chain, ?_⟩
  rw [← hchain, List.append_assoc]
  exact List.prefix_append _ _

/-- The beginnings of sentences before the end are the tokens that stand in their places. -/
theorem beginsSentence_iff_inPlace {tokens : List Token} (hend : Token.endOfInput ∉ tokens) :
    BeginsSentence tokens ↔ InPlace .operand tokens := by
  constructor
  · intro hbegins
    obtain ⟨chain, hprefix⟩ := hbegins
    rcases List.prefix_concat_iff.mp hprefix with rfl | ⟨rest, hrest⟩
    · -- a whole sentence has an end
      exact absurd (List.mem_append_right _ (List.mem_singleton_self _)) hend
    -- what begins a chain is in its places, as the chain is
    · have hchain := chain.inPlace_tokens
      rw [← hrest, InPlace.append_iff] at hchain
      exact hchain.1
  · exact InPlace.beginsSentence

/-- After tokens in their places, the kinds that can go on are the expected ones. -/
theorem beginsSentence_concat_iff {before : List Token} (hbefore : InPlace .operand before)
    (token : Token) :
    BeginsSentence (before ++ [token]) ↔
      token.kind ∈ (Place.operand.after before.length).expected := by
  by_cases htoken : token = .endOfInput
  · -- the end goes on a sentence where the tokens before it are those of a chain
    subst htoken
    constructor
    · intro hbegins
      obtain ⟨chain, hprefix⟩ := hbegins
      rcases List.prefix_concat_iff.mp hprefix with heq | ⟨rest, hrest⟩
      -- the sentence ends here, behind a chain
      · obtain ⟨rfl, -⟩ := List.append_inj' heq rfl
        rw [chain.after_length_tokens]
        simp [Place.expected, Token.kind]
      -- no chain has an end within it
      · have hmem : Token.endOfInput ∈ chain.tokens := by simp [← hrest]
        exact absurd hmem chain.inPlace_tokens.endOfInput_notMem
    · intro hkind
      have hafter : Place.operand.after before.length = .operator := by
        cases hplace : Place.operand.after before.length with
        | operand =>
          rw [hplace] at hkind
          simp [Place.expected, Token.kind] at hkind
        | operator => rfl
      obtain ⟨chain, rfl⟩ := hbefore.exists_chain hafter
      exact ⟨chain, List.prefix_rfl⟩
  -- every other token goes on the sentence where its place takes it
  · have hend : Token.endOfInput ∉ before ++ [token] := by
      simp [hbefore.endOfInput_notMem, Ne.symm htoken]
    rw [beginsSentence_iff_inPlace hend, InPlace.append_iff]
    simp [InPlace, hbefore, Place.takes_iff, htoken]

end AddingMachine
