import AddingMachine.Proofs.Calculation.Streaming
import AddingMachine.Proofs.Decimal.Written

/-!
# Sums in writing

Which texts have a value, and that printed trees are such texts.
-/

namespace AddingMachine

/-! ## §1 The language of sums

A text has a value exactly when it is written as a number, and then operators and numbers, with gaps
wherever one likes, and the value is that of the numbers in written order, added or subtracted from
left to right (`valueOf_eq_ok_iff`). -/

/-! ### Written sums -/

/-- A numeral and the gaps around it. -/
structure Operand where
  before : Gap
  numeral : Numeral
  after : Gap

def Operand.chars (operand : Operand) : List Char :=
  operand.before.chars ++ (operand.numeral.chars ++ operand.after.chars)

/-- An operand, and operators with the operands that follow them. -/
structure WrittenSum where
  first : Operand
  rest : List (Operator × Operand)

namespace WrittenSum

def chars (sum : WrittenSum) : List Char :=
  sum.first.chars ++ sum.rest.flatMap fun item => item.1.symbol :: item.2.chars

/-- The numbers of a written sum, with the operations on them. -/
def chain (sum : WrittenSum) : Chain :=
  ⟨sum.first.numeral.value, sum.rest.map fun item => (item.1, item.2.numeral.value)⟩

/-- The value of a written sum: its numbers are added and subtracted from left to right. -/
def value (sum : WrittenSum) : Binary64 :=
  runningTotal sum.first.numeral.value (sum.rest.map fun item => (item.1, item.2.numeral.value))

end WrittenSum

/-! ### Written sums are laid out -/

/-- The lexemes of operators and operands, each with the gap behind it. -/
def restLaid : List (Operator × Operand) → Laid
  | [] => []
  | (operator, operand) :: rest =>
    (.sign operator, operand.before) :: (.number operand.numeral, operand.after) :: restLaid rest

theorem laidChars_restLaid (gap : Gap) (rest : List (Operator × Operand)) :
    laidChars gap (restLaid rest) =
      gap.chars ++ rest.flatMap fun item => item.1.symbol :: item.2.chars := by
  induction rest generalizing gap with
  | nil => exact (List.append_nil _).symm
  | cons item rest ih =>
    simp only [restLaid, laidChars, ih]
    simp [Lexeme.chars, Operand.chars]

theorem apart_restLaid (rest : List (Operator × Operand)) : Apart (restLaid rest) := by
  induction rest with
  | nil => trivial
  | cons item rest ih =>
    refine ⟨fun h => h.elim, fun _ _ neighbour hneighbour => ?_, ih⟩
    -- behind a number stands a sign or nothing
    cases rest with
    | nil => cases hneighbour
    | cons next rest =>
      obtain rfl := Option.some.inj hneighbour
      exact id

theorem map_laidTokens_restLaid (position : Nat) (gap : Gap) (rest : List (Operator × Operand)) :
    (laidTokens position gap (restLaid rest)).map LocatedToken.token =
      operationTokens (rest.map fun item => (item.1, item.2.numeral.value)) ++ [.endOfInput] := by
  induction rest generalizing position gap with
  | nil => rfl
  | cons item rest ih =>
    simp only [restLaid, laidTokens, List.map_cons, ih]
    rfl

def WrittenSum.laid (sum : WrittenSum) : Laid :=
  (.number sum.first.numeral, sum.first.after) :: restLaid sum.rest

theorem WrittenSum.laidChars_laid (sum : WrittenSum) :
    laidChars sum.first.before sum.laid = sum.chars := by
  simp only [laid, laidChars, laidChars_restLaid]
  simp [Lexeme.chars, WrittenSum.chars, Operand.chars]

theorem WrittenSum.apart_laid (sum : WrittenSum) : Apart sum.laid := by
  refine ⟨fun _ _ neighbour hneighbour => ?_, apart_restLaid sum.rest⟩
  -- behind the first operand stands a sign or nothing
  cases hrest : sum.rest with
  | nil => rw [hrest] at hneighbour; cases hneighbour
  | cons next rest =>
    rw [hrest] at hneighbour
    obtain rfl := Option.some.inj hneighbour
    exact id

theorem WrittenSum.map_laidTokens (sum : WrittenSum) (position : Nat) :
    (laidTokens position sum.first.before sum.laid).map LocatedToken.token =
      sum.chain.tokens ++ [.endOfInput] := by
  simp only [laid, laidTokens, List.map_cons, map_laidTokens_restLaid]
  rfl

/-! ### Chains that are laid out are written sums -/

theorem Lexeme.eq_sign {lexeme : Lexeme} {operator : Operator}
    (h : lexeme.token = operator.token) : lexeme = .sign operator := by
  cases lexeme with
  | number numeral =>
    cases operator with
    | add => cases h
    | subtract => cases h
  | sign operator' => rw [Operator.token_injective h]

theorem Lexeme.exists_numeral {lexeme : Lexeme} {value : Binary64}
    (h : lexeme.token = .number value) :
    ∃ numeral : Numeral, lexeme = .number numeral ∧ numeral.value = value := by
  cases lexeme with
  | number numeral => exact ⟨numeral, rfl, Token.number.inj h⟩
  | sign operator =>
    cases operator with
    | add => cases h
    | subtract => cases h

/-- Lexemes whose tokens are operations are laid out as operators and operands. -/
theorem exists_restLaid {position : Nat} {gap : Gap} {laid : Laid}
    {operations : List (Operator × Binary64)}
    (h : (laidTokens position gap laid).map LocatedToken.token =
      operationTokens operations ++ [.endOfInput]) :
    ∃ rest : List (Operator × Operand), laid = restLaid rest ∧
      rest.map (fun item => (item.1, item.2.numeral.value)) = operations := by
  induction operations generalizing position gap laid with
  | nil =>
    cases laid with
    | nil => exact ⟨[], rfl, rfl⟩
    | cons item laid =>
      obtain ⟨htoken, -⟩ := List.cons.inj h
      exact absurd htoken item.1.token_ne_end
  | cons operation operations ih =>
    obtain ⟨operator, number⟩ := operation
    -- an operation takes two lexemes, the sign and the number
    cases laid with
    | nil =>
      obtain ⟨htoken, -⟩ := List.cons.inj h
      exact absurd htoken.symm (Lexeme.sign operator).token_ne_end
    | cons signItem laid =>
      obtain ⟨hsign, h⟩ := List.cons.inj h
      cases laid with
      | nil => cases h
      | cons numberItem laid =>
        obtain ⟨hnumber, h⟩ := List.cons.inj h
        obtain ⟨rest, rfl, rfl⟩ := ih h
        obtain ⟨sign, before⟩ := signItem
        obtain ⟨lexeme, after⟩ := numberItem
        obtain rfl := Lexeme.eq_sign hsign
        obtain ⟨numeral, rfl, rfl⟩ := Lexeme.exists_numeral hnumber
        exact ⟨(operator, ⟨before, numeral, after⟩) :: rest, rfl, rfl⟩

/-- A layout with the tokens of a chain is a written sum of that chain. -/
theorem exists_writtenSum {position : Nat} {gap : Gap} {laid : Laid} {chain : Chain}
    (h : (laidTokens position gap laid).map LocatedToken.token =
      chain.tokens ++ [.endOfInput]) :
    ∃ sum : WrittenSum, laidChars gap laid = sum.chars ∧ sum.chain = chain := by
  cases laid with
  | nil => cases h
  | cons item laid =>
    obtain ⟨lexeme, after⟩ := item
    obtain ⟨hnumber, h⟩ := List.cons.inj h
    obtain ⟨numeral, rfl, hvalue⟩ := Lexeme.exists_numeral hnumber
    -- what follows the first number are operations
    obtain ⟨rest, rfl, hrest⟩ := exists_restLaid h
    let sum : WrittenSum := ⟨⟨gap, numeral, after⟩, rest⟩
    refine ⟨sum, sum.laidChars_laid, ?_⟩
    obtain ⟨first, operations⟩ := chain
    exact congr (congrArg Chain.mk hvalue) hrest

/-! ### The language -/

/-- The outcome of a text is a chain exactly when the text is written as a sum of that chain. -/
theorem outcome_ok_iff (text : String) (chain : Chain) :
    Outcome (Scanner.ofText text).all (.ok chain) ↔
      ∃ sum : WrittenSum, text.toList = sum.chars ∧ sum.chain = chain := by
  constructor
  · intro houtcome
    obtain ⟨tokens, stop, more, hall, -, hverdict⟩ := houtcome
    cases hverdict with
    | @sum _ finish htokens hfinish =>
      -- the end is the last entry, so that all entries are tokens
      obtain ⟨rfl, -⟩ := Scanner.eq_nil_of_end hall hfinish
      have hmap : (Scanner.ofText text).all = (tokens ++ [finish]).map .ok := by
        rw [hall, List.map_append]
        rfl
      obtain ⟨gap, laid, hchars, -, hlaid⟩ := (Scanner.all_eq_tokens_iff _ _).mp hmap
      have h : (laidTokens 0 gap laid).map LocatedToken.token = chain.tokens ++ [.endOfInput] := by
        rw [← htokens, ← hfinish, ← List.map_singleton, ← List.map_append]
        exact congrArg (List.map LocatedToken.token) hlaid.symm
      obtain ⟨sum, hsum, hchain⟩ := exists_writtenSum h
      exact ⟨sum, hchars.trans hsum, hchain⟩
  · intro hwritten
    obtain ⟨sum, hchars, rfl⟩ := hwritten
    -- the tokens of the layout are divided before the end
    have hall := Scanner.all_laidChars sum.apart_laid sum.first.before 0
    rw [sum.laidChars_laid, ← hchars] at hall
    obtain ⟨tokens, finishes, hsplit, htokens, hfinishes⟩ :=
      List.map_eq_append_iff.mp (sum.map_laidTokens 0)
    obtain ⟨finish, rfl, hfinish⟩ := List.map_eq_singleton_iff.mp hfinishes
    rw [hsplit, List.map_append] at hall
    exact ⟨tokens, .ok finish, [], hall, htokens ▸ sum.chain.inPlace_tokens, .sum htokens hfinish⟩

/-- **The language of sums**: a text has the value `v` exactly when it is written as a sum whose
numbers, added and subtracted from left to right, make `v`. All other texts are rejected. -/
theorem valueOf_eq_ok_iff (text : String) :
    (∀ v, (valueOf text).result = .ok v ↔
      ∃ sum : WrittenSum, text.toList = sum.chars ∧ sum.value = v) ∧
    ((∃ e, (valueOf text).result = .error e) ↔
      ¬ ∃ sum : WrittenSum, text.toList = sum.chars) := by
  obtain ⟨answer, houtcome, -, hvalue⟩ := exists_outcome (Feed.ofText text)
  rw [ahead_ofText] at houtcome
  -- however the text is written as a sum, its chain is the outcome
  have hwritten : ∀ sum : WrittenSum, text.toList = sum.chars → answer = .ok sum.chain :=
    fun sum hchars => houtcome.unique ((outcome_ok_iff text _).mpr ⟨sum, hchars, rfl⟩)
  rw [result_valueOf, hvalue]
  cases answer with
  -- a chain is the outcome: the text is written as a sum of it, and as no other
  | ok chain =>
    obtain ⟨sum, hchars, rfl⟩ := (outcome_ok_iff text chain).mp houtcome
    refine ⟨fun v => ⟨fun hv => ⟨sum, hchars, Except.ok.inj hv⟩, ?_⟩, ?_⟩
    · intro hsum
      obtain ⟨sum', hchars', rfl⟩ := hsum
      rw [hwritten sum' hchars']
      rfl
    · exact ⟨fun ⟨_, he⟩ => (nomatch he), fun hno => absurd ⟨sum, hchars⟩ hno⟩
  -- a rejection is the outcome: the text is not written as a sum
  | error e =>
    have hno : ¬ ∃ sum : WrittenSum, text.toList = sum.chars :=
      fun ⟨sum, hchars⟩ => nomatch hwritten sum hchars
    refine ⟨fun v => ⟨fun hv => (nomatch hv), fun ⟨sum, hchars, _⟩ => absurd ⟨sum, hchars⟩ hno⟩, ?_⟩
    exact ⟨fun _ => hno, fun _ => ⟨e, rfl⟩⟩

/-! ## §2 Printed trees read back

A tree is printed with every operation in parentheses. The tree of a text is left-nested, so without
its parentheses it is written as a sum, with a space on both sides of each operator. A finite number
is written as a numeral that has it as its value, so the sum has the same tree
(`printed_reads_back`). -/

/-! ### Texts without parentheses -/

def isParenthesis (c : Char) : Bool :=
  c = '(' || c = ')'

def withoutParentheses (text : String) : String :=
  String.ofList (text.toList.filter fun c => !isParenthesis c)

/-- Every literal is finite. -/
def Expression.AllFinite : Expression → Prop
  | .literal value => value.isFinite = true
  | .binary left _ right => left.AllFinite ∧ right.AllFinite

/-- The characters of an operation behind a tree, without parentheses. -/
def operationChars (operation : Operator × Binary64) : List Char :=
  ' ' :: operation.1.symbol :: ' ' :: operation.2.chars .plain

theorem Numeral.filter_chars (numeral : Numeral) :
    numeral.chars.filter (fun c => !isParenthesis c) = numeral.chars := by
  rw [List.filter_eq_self]
  intro c hc
  have hnumber := numeral.continuesNumber_of_mem hc
  by_contra hparenthesis
  simp only [isParenthesis, Bool.not_eq_true', Bool.not_eq_false, Bool.or_eq_true,
    decide_eq_true_eq] at hparenthesis
  rcases hparenthesis with rfl | rfl
  · cases hnumber
  · cases hnumber

/-! ### Numbers that a literal can have -/

/-- A finite number of a numeral is written as a numeral, which has it as its value. -/
theorem Numeral.exists_written {numeral : Numeral} (h : numeral.value.isFinite = true) :
    ∃ written : Numeral, numeral.value.chars .plain = written.chars ∧
      written.value = numeral.value := by
  -- the value is an infinity, which is excluded, or has a magnitude
  rcases numeral.value_cases with hvalue | ⟨m, hvalue⟩
  · rw [hvalue] at h
    cases h
  · rw [hvalue]
    exact m.exists_numeral

def Gap.space : Gap where
  chars := [' ']
  blank := by
    intro c hc
    rw [List.mem_singleton.mp hc]
    rfl

/-- Operations behind a number are written with spaces around their operators. -/
theorem exists_writtenRest (rest : List (Operator × Operand))
    (h : ∀ item ∈ rest, item.2.numeral.value.isFinite = true) :
    ∃ (gap : Gap) (written : List (Operator × Operand)),
      gap.chars ++ written.flatMap (fun item => item.1.symbol :: item.2.chars) =
        (rest.map fun item => (item.1, item.2.numeral.value)).flatMap operationChars ∧
      written.map (fun item => (item.1, item.2.numeral.value)) =
        rest.map fun item => (item.1, item.2.numeral.value) := by
  induction rest with
  | nil => exact ⟨.empty, [], rfl, rfl⟩
  | cons item rest ih =>
    obtain ⟨gap, written, hchars, hvalues⟩ :=
      ih fun item hitem => h item (List.mem_cons_of_mem _ hitem)
    obtain ⟨numeral, hnumeral, hvalue⟩ := Numeral.exists_written (h item List.mem_cons_self)
    -- the gap behind the number is the first one of the others
    refine ⟨.space, (item.1, ⟨.space, numeral, gap⟩) :: written, ?_, ?_⟩
    · simp [Gap.space, Operand.chars, operationChars, ← hchars, hnumeral]
    · simp [hvalue, hvalues]

theorem allFinite_nestIn (left : Expression) (operations : List (Operator × Binary64)) :
    (left.nestIn operations).AllFinite ↔
      left.AllFinite ∧ ∀ operation ∈ operations, operation.2.isFinite = true := by
  induction operations generalizing left with
  | nil => simp [Expression.nestIn]
  | cons operation rest ih =>
    show ((Expression.binary left operation.1 (.literal operation.2)).nestIn rest).AllFinite ↔ _
    rw [ih]
    simp [Expression.AllFinite, and_assoc]

/-! ### Trees without parentheses -/

theorem Expression.chars_literal (value : Binary64) : (literal value).chars = value.chars .plain :=
  List.append_nil _

/-- Without parentheses, the operations stand behind the tree that they are nested around. -/
theorem filter_chars_nestIn (left : Expression) (operations : List (Operator × Binary64))
    (h : ∀ operation ∈ operations, (operation.2.chars .plain).filter (fun c => !isParenthesis c) =
      operation.2.chars .plain) :
    (left.nestIn operations).chars.filter (fun c => !isParenthesis c) =
      left.chars.filter (fun c => !isParenthesis c) ++ operations.flatMap operationChars := by
  induction operations generalizing left with
  | nil => exact (List.append_nil _).symm
  | cons operation rest ih =>
    have hoperation := h operation List.mem_cons_self
    have hopen : isParenthesis '(' = true := rfl
    have hclose : isParenthesis ')' = true := rfl
    have hspace : isParenthesis ' ' = false := rfl
    have hsymbol : isParenthesis operation.1.symbol = false := by
      cases operation.1 with
      | add => rfl
      | subtract => rfl
    -- the first operation is nested around the tree, and the others around both
    show ((Expression.binary left operation.1 (.literal operation.2)).nestIn rest).chars.filter _ = _
    rw [ih _ fun item hitem => h item (List.mem_cons_of_mem _ hitem), Expression.chars_binary,
      Expression.chars_literal]
    simp [hoperation, hsymbol, hopen, hclose, hspace, operationChars]

/-- The tree of a written sum is written as a sum with the same numbers and operators. -/
theorem WrittenSum.exists_written (sum : WrittenSum) (h : sum.chain.tree.AllFinite) :
    ∃ written : WrittenSum, (withoutParentheses sum.chain.tree.text).toList = written.chars ∧
      written.chain = sum.chain := by
  obtain ⟨hfirst, hrest⟩ := (allFinite_nestIn _ _).mp h
  have hrest : ∀ item ∈ sum.rest, item.2.numeral.value.isFinite = true :=
    fun item hitem => hrest _ (List.mem_map_of_mem hitem)
  obtain ⟨first, hchars, hvalue⟩ := Numeral.exists_written hfirst
  obtain ⟨gap, rest, hrestChars, hrestValues⟩ := exists_writtenRest sum.rest hrest
  -- numbers have no parentheses that could be taken away
  have hfilter : ∀ operation ∈ sum.chain.operations,
      (operation.2.chars .plain).filter (fun c => !isParenthesis c) = operation.2.chars .plain := by
    intro operation hoperation
    obtain ⟨item, hitem, rfl⟩ := List.mem_map.mp hoperation
    obtain ⟨numeral, hnumeral, -⟩ := Numeral.exists_written (hrest item hitem)
    rw [hnumeral, numeral.filter_chars]
  refine ⟨⟨⟨.empty, first, gap⟩, rest⟩, ?_, ?_⟩
  · rw [withoutParentheses, String.toList_ofList, Expression.text, String.toList_ofList, Chain.tree,
      filter_chars_nestIn _ _ hfilter, Expression.chars_literal]
    show (sum.first.numeral.value.chars .plain).filter _ ++ (sum.rest.map _).flatMap _ = _
    rw [hchars, first.filter_chars, ← hrestChars]
    simp [chars, Operand.chars, Gap.empty]
  · simp only [chain, hvalue, hrestValues]

/-! ### Reading what is printed -/

/-- The text of a finite number without a minus sign has one token, and then the end. -/
theorem tokensOf_text (m : Magnitude) :
    (tokensOf ((Binary64.finite false m).text .plain)).result =
      .ok [⟨.number (.finite false m), 0⟩,
        ⟨.endOfInput, ((Binary64.finite false m).text .plain).length⟩] := by
  obtain ⟨numeral, hchars, hvalue⟩ := m.exists_numeral
  have hapart : Apart [(.number numeral, .empty)] := ⟨fun _ _ _ h => (nomatch h), trivial⟩
  have hall := Scanner.all_laidChars hapart .empty 0
  apply tokensOf_of_all_eq
  rw [Scanner.ofText, Binary64.text, String.toList_ofList, String.length_ofList, hchars, ← hvalue]
  simpa [laidChars, laidTokens, Lexeme.chars, Lexeme.token, Gap.empty] using hall

/-- **Printed trees read back.** Where a text has a tree whose literals are finite, the text of the
tree without its parentheses has the same tree, and so the same value and the same printed text.
The text of a finite number without a minus sign is one token, which carries that number. -/
theorem printed_reads_back :
    (∀ (text : String) (e : Expression), (treeOf text).result = .ok e → e.AllFinite →
      (treeOf (withoutParentheses e.text)).result = .ok e ∧
        (valueOf (withoutParentheses e.text)).result = (valueOf text).result ∧
        (treeOf (withoutParentheses e.text)).result.map Expression.text = .ok e.text) ∧
      ∀ m : Magnitude, (tokensOf ((Binary64.finite false m).text .plain)).result =
        .ok [⟨.number (.finite false m), 0⟩,
          ⟨.endOfInput, ((Binary64.finite false m).text .plain).length⟩] := by
  refine ⟨fun text e htree hfinite => ?_, tokensOf_text⟩
  obtain ⟨answer, houtcome, htree', hvalue⟩ := exists_outcome_ofText text
  rw [htree'] at htree
  cases answer with
  | error cause => cases htree
  | ok chain =>
    obtain rfl : chain.tree = e := Except.ok.inj htree
    -- a text with a tree is written as a sum, and its tree is that of the chain
    obtain ⟨sum, -, rfl⟩ := (outcome_ok_iff text chain).mp houtcome
    obtain ⟨written, hchars, hchain⟩ := sum.exists_written hfinite
    -- the printed text is written as a sum of the same chain
    have hprinted := (outcome_ok_iff _ sum.chain).mpr ⟨written, hchars, hchain⟩
    obtain ⟨hsame, hvalue'⟩ := results_of_outcome hprinted
    refine ⟨hsame, hvalue'.trans hvalue.symm, ?_⟩
    rw [hsame]
    rfl

/-- What is written without zeros reads as what was written with them. -/
theorem printed_reads_back_zeros :
    (treeOf "007.50-2").result = .ok (.binary (.literal (Decimal.toBinary64 false ⟨75, -1⟩)) .subtract
        (.literal (Decimal.toBinary64 false ⟨2, 0⟩))) ∧
      withoutParentheses (Expression.binary (.literal (Decimal.toBinary64 false ⟨75, -1⟩)) .subtract
        (.literal (Decimal.toBinary64 false ⟨2, 0⟩))).text = "7.5 - 2" ∧
      (treeOf "7.5 - 2").result = .ok (.binary (.literal (Decimal.toBinary64 false ⟨75, -1⟩))
        .subtract (.literal (Decimal.toBinary64 false ⟨2, 0⟩))) := by
  have htree : (treeOf "007.50-2").result = .ok (.binary
      (.literal (Decimal.toBinary64 false ⟨75, -1⟩)) .subtract
      (.literal (Decimal.toBinary64 false ⟨2, 0⟩))) := by
    decide +kernel
  have htext : withoutParentheses (Expression.binary (.literal (Decimal.toBinary64 false ⟨75, -1⟩))
      .subtract (.literal (Decimal.toBinary64 false ⟨2, 0⟩))).text = "7.5 - 2" := by
    decide +kernel
  have hleft : (Decimal.toBinary64 false ⟨75, -1⟩).isFinite = true := by decide +kernel
  have hright : (Decimal.toBinary64 false ⟨2, 0⟩).isFinite = true := by decide +kernel
  -- the zeros around the first number are not printed
  obtain ⟨hsame, -⟩ := printed_reads_back.1 _ _ htree ⟨hleft, hright⟩
  rw [htext] at hsame
  exact ⟨htree, htext, hsame⟩

end AddingMachine
