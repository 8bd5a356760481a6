import AddingMachine.Proofs.Calculation.Lexemes

/-!
# What is left to be completed

Lexemes in their places can be completed to a text that has a value, so the characters before an
error are the beginning of such a text (`rejected_completable`). The exception is a number that
stands behind an operand and breaks off at a point: the text is lost from the first digit on, but a
number is read to its end before its place is looked at, and so the error is that of the point
(`not_completable_before_error`).
-/

namespace AddingMachine

/-! ## §1 Texts with a value -/

def Accepted (text : String) : Prop :=
  ∃ value, (valueOf text).result = .ok value

/-- Some text with a value begins with the characters. -/
def Completable (chars : List Char) : Prop :=
  ∃ text : String, chars <+: text.toList ∧ Accepted text

/-- A text with a value is complete as it is. -/
theorem Accepted.completable {chars : List Char} (h : Accepted (String.ofList chars)) :
    Completable chars :=
  ⟨_, by simp, h⟩

theorem ofText_ofList (chars : List Char) : Scanner.ofText (String.ofList chars) = ⟨chars, 0⟩ := by
  rw [Scanner.ofText, String.toList_ofList]

/-- Tokens in their places up to an operator's have a value. -/
theorem accepted_of_inPlace {chars : List Char} {tokens : List LocatedToken}
    {finish : LocatedToken} (hall : (Scanner.mk chars 0).all = tokens.map .ok ++ [.ok finish])
    (hfinish : finish.token = .endOfInput)
    (hplace : InPlace .operand (tokens.map LocatedToken.token))
    (hafter : Place.operand.after tokens.length = .operator) : Accepted (String.ofList chars) := by
  obtain ⟨chain, hchain⟩ := hplace.exists_chain (by rwa [List.length_map])
  rw [← ofText_ofList] at hall
  obtain ⟨-, hvalue⟩ :=
    results_of_outcome ⟨tokens, .ok finish, [], hall, hplace, .sum hchain hfinish⟩
  exact ⟨chain.value, hvalue⟩

/-! ## §2 Lexemes in their places -/

/-- At a digit there is a number, or an error. -/
theorem Front.of_digit {c : Char} {more : List Char} {position : Nat} {entry : Scanned}
    (h : Front (c :: more) position entry) (hdigit : c.isDigit = true) :
    (∃ value, entry = .ok ⟨.number value, position⟩) ∨ ∃ e, entry = .error e := by
  generalize hchars : c :: more = chars at h
  cases h with
  | finish => cases hchars
  -- a lexeme that begins with a digit is a number
  | lexeme lexeme rest _ hends =>
    cases lexeme with
    | number numeral => exact .inl ⟨_, rfl⟩
    | sign operator =>
      obtain ⟨rfl, -⟩ := List.cons.inj hchars
      simp [operator.isDigit_symbol] at hdigit
  | misspelling => exact .inr ⟨_, rfl⟩

/-- Every lexeme stands in a place that takes its token. -/
def LaidInPlace (laid : Laid) : Prop :=
  InPlace .operand (laid.map fun item => item.1.token)

/-- The place behind all lexemes. -/
def placeBehind (laid : Laid) : Place :=
  Place.operand.after laid.length

section Places

variable {laid : Laid} {rest : List Char}

theorem LaidInPlace.lexemeTokens (h : LaidInPlace laid) (position : Nat) (gap : Gap) :
    InPlace .operand ((lexemeTokens position gap laid).map LocatedToken.token) := by
  rw [map_token_lexemeTokens]
  exact h

/-- Where an operand is due, a number can be laid behind the lexemes. -/
theorem LaidInPlace.concat_number (h : LaidInPlace laid) (hplace : placeBehind laid = .operand)
    (numeral : Numeral) (next : Gap) : LaidInPlace (laid ++ [(.number numeral, next)]) := by
  rw [LaidInPlace, List.map_append, InPlace.append_iff, List.length_map, ← placeBehind, hplace]
  exact ⟨h, trivial, trivial⟩

theorem placeBehind_concat (laid : Laid) (item : Lexeme × Gap) :
    placeBehind (laid ++ [item]) = (placeBehind laid).other := by
  rw [placeBehind, List.length_append, List.length_singleton, Place.after_succ, placeBehind]

/-- Lexemes behind lexemes have a value together if all stand in their places and an operator may
follow. -/
theorem accepted_laidChars_append {laid' : Laid} {gap' : Gap}
    (hends : EndBefore (laidChars gap' laid') laid) (hapart : Apart laid')
    (h : LaidInPlace (laid ++ laid')) (hplace : placeBehind (laid ++ laid') = .operator)
    (gap : Gap) : Accepted (String.ofList (laidChars gap laid ++ laidChars gap' laid')) := by
  -- scanned together, their tokens stand one behind the other
  have hall := Scanner.all_laidChars_append hends gap 0
  rw [Scanner.all_laidChars hapart, laidTokens_eq, List.map_append, ← List.append_assoc,
    ← List.map_append] at hall
  refine accepted_of_inPlace hall rfl ?_ ?_
  · rwa [List.map_append, map_token_lexemeTokens, map_token_lexemeTokens, ← List.map_append]
  · rwa [List.length_append, length_lexemeTokens, length_lexemeTokens, ← List.length_append]

/-- Lexemes in their places have a value if an operator may follow. -/
theorem accepted_laidChars (hapart : Apart laid) (h : LaidInPlace laid)
    (hplace : placeBehind laid = .operator) (gap : Gap) :
    Accepted (String.ofList (laidChars gap laid)) :=
  @accepted_laidChars_append [] laid gap trivial hapart h hplace .empty

/-- Lexemes that have a value together stand in their places, and an operator may follow. -/
theorem laidInPlace_of_accepted {gap : Gap} (hapart : Apart laid)
    (h : Accepted (String.ofList (laidChars gap laid))) :
    LaidInPlace laid ∧ placeBehind laid = .operator := by
  obtain ⟨value, haccepted⟩ := h
  obtain ⟨answer, ⟨tokens, stop, more, hall, hplace, hverdict⟩, -, hvalue⟩ :=
    exists_outcome_ofText (String.ofList (laidChars gap laid))
  rw [haccepted] at hvalue
  cases hverdict with
  | @sum chain finish htokens hfinish =>
    -- the end is the last entry, so that the tokens before it are those of the lexemes
    obtain ⟨rfl, -⟩ := Scanner.eq_nil_of_end hall hfinish
    rw [ofText_ofList, Scanner.all_laidChars hapart, laidTokens_eq, List.map_append] at hall
    obtain ⟨hmap, -⟩ := List.append_inj' hall rfl
    obtain rfl := (List.map_inj_right fun _ _ => Except.ok.inj).mp hmap
    rw [map_token_lexemeTokens] at hplace htokens
    have hlength : laid.length = chain.tokens.length := by
      rw [← htokens, List.length_map]
    exact ⟨hplace, by rw [placeBehind, hlength, chain.after_length_tokens]⟩
  | misplaced => cases hvalue
  | misspelled => cases hvalue

/-- Lexemes in their places can be completed, with a number where one is missing. -/
theorem completable_laidChars (hends : EndBefore rest laid) (h : LaidInPlace laid) (gap : Gap) :
    Completable (laidChars gap laid) := by
  cases hplace : placeBehind laid with
  -- nothing is missing
  | operator => exact (accepted_laidChars hends.apart h hplace gap).completable
  | operand =>
    -- a blank keeps the number apart from what is there
    let blank : Gap := ⟨[' '], by simp [Scanner.isBlank]⟩
    let zero : Numeral := .whole ⟨['0'], by simp, by simp⟩
    have happend : EndBefore (laidChars blank [(.number zero, .empty)]) laid :=
      hends.of_breaks (.cons rfl _)
    have hapart : Apart [(.number zero, .empty)] :=
      ⟨fun _ _ _ hnone => (nomatch hnone), trivial⟩
    have hbehind : placeBehind (laid ++ [(.number zero, .empty)]) = .operator := by
      rw [placeBehind_concat, hplace]
      rfl
    refine ⟨_, ?_, accepted_laidChars_append happend hapart (h.concat_number hplace zero .empty)
      hbehind gap⟩
    rw [String.toList_ofList]
    exact List.prefix_append _ _

/-- Where an operator is due, a digit cannot be the next character. -/
theorem not_completable_digit {c : Char} (hends : EndBefore [c] laid) (h : LaidInPlace laid)
    (hplace : placeBehind laid = .operator) (hdigit : c.isDigit = true) (gap : Gap) :
    ¬ Completable (laidChars gap laid ++ [c]) := by
  rintro ⟨text, ⟨more, hmore⟩, value, hvalue⟩
  have hchars : text.toList = laidChars gap laid ++ c :: more := by
    rw [← hmore, List.append_assoc]
    rfl
  have hends' : EndBefore (c :: more) laid := hends.of_head? rfl
  -- whatever follows the digit, the next entry is a number or an error
  have hblank : Breaks Scanner.isBlank (c :: more) := .cons (Scanner.isBlank_of_isDigit hdigit) _
  obtain ⟨entry, hfront⟩ := exists_front_of_breaks hblank (0 + (laidChars gap laid).length)
  obtain ⟨after, hall⟩ := Scanner.all_laidChars_front hends' gap 0 hfront
  have hverdict : ∃ e, Verdict (lexemeTokens 0 gap laid) entry (.error e) := by
    rcases hfront.of_digit hdigit with ⟨number, rfl⟩ | ⟨e, rfl⟩
    · refine ⟨_, .misplaced ?_⟩
      rw [length_lexemeTokens, ← placeBehind, hplace]
      simp [Token.kind, Place.expected]
    · exact ⟨_, .misspelled e⟩
  obtain ⟨e, hverdict⟩ := hverdict
  rw [← hchars] at hall
  obtain ⟨-, hrejected⟩ :=
    results_of_outcome ⟨_, entry, after, hall, h.lexemeTokens 0 gap, hverdict⟩
  cases hvalue.symm.trans hrejected

end Places

/-! ## §3 Before an error -/

/-- The error is that of a point behind a number that begins at `start`, where no number may stand:
the text before it has a value, so that an operator is due. -/
def InMisplacedNumber (text : String) (e : Rejection) (start : Nat) : Prop :=
  ∃ (error : LexicalError) (numeral : Numeral), e = .lexical error ∧
    (error.fault = .trailingDot ∨ error.fault = .secondDot) ∧
    Accepted (String.ofList (text.toList.take start)) ∧
    text.toList.take error.position = text.toList.take start ++ numeral.chars ∧
    EndsInNumeral (text.toList.take error.position) numeral

/-- The token at the front is where the front is. -/
theorem Front.position_eq {chars : List Char} {position : Nat} {token : LocatedToken}
    (h : Front chars position (.ok token)) : token.position = position := by
  cases h with
  | finish => rfl
  | lexeme => rfl

/-- If a misspelling begins with a number, its wrong character is a point behind it. -/
theorem Misspelling.fault_of_numeral? {m : Misspelling} {numeral : Numeral}
    (h : m.numeral? = some numeral) : m.fault = .trailingDot ∨ m.fault = .secondDot := by
  cases m with
  | unrecognized => cases h
  | leadingDot => cases h
  | trailingDot => exact .inl rfl
  | secondDot => exact .inr rfl

/-- What stands before a misplaced number cannot be completed together with its first digit. -/
theorem InMisplacedNumber.not_completable {text : String} {e : Rejection} {start : Nat}
    (h : InMisplacedNumber text e start) : ¬ Completable (text.toList.take (start + 1)) := by
  obtain ⟨error, numeral, -, -, haccepted, hchars, ⟨gap, laid, hapart, hlaid⟩, before, rfl⟩ := h
  obtain ⟨c, digits, hnumber, hdigit⟩ := numeral.exists_cons
  obtain ⟨more, htext⟩ := List.take_prefix error.position text.toList
  generalize hfront : text.toList.take start = front at haccepted hchars
  rw [hchars] at hlaid htext
  -- the lexemes before the number make up the text before it
  rw [laidChars_concat_number] at hlaid
  obtain rfl := List.append_cancel_right hlaid
  obtain ⟨hends, -⟩ := (EndBefore.concat_iff _ _ _ _).mp ((apart_iff_endBefore _).mp hapart)
  obtain ⟨h, hplace⟩ := laidInPlace_of_accepted hends.apart haccepted
  -- and the first digit of the number follows them
  have hlength : (laidChars gap before).length = start := by
    have hcount := congrArg List.length htext
    rw [← hfront]
    simp only [hnumber, ← hfront, List.length_append, List.length_cons, List.length_take]
      at hcount ⊢
    omega
  have hfirst : text.toList.take (start + 1) = laidChars gap before ++ [c] := by
    rw [← htext, hnumber, List.append_assoc, ← hlength, List.take_length_add_append]
    rfl
  rw [hfirst]
  exact not_completable_digit (hends.of_head? (by rw [Lexeme.chars, hnumber]; rfl)) h hplace hdigit gap

/-- Behind lexemes in their places a misspelling can be completed up to the wrong character, unless
it begins with a number where an operator is due. -/
theorem completable_or_inMisplacedNumber {text : String} {gap : Gap} {laid : Laid}
    {m : Misspelling} {rest : List Char}
    (hchars : text.toList = laidChars gap laid ++ (m.before ++ m.character :: rest))
    (hends : EndBefore (m.before ++ m.character :: rest) laid) (h : LaidInPlace laid)
    {error : LexicalError}
    (herror : error = m.errorAt ((laidChars gap laid).length + m.before.length)) :
    Completable (text.toList.take error.position) ∨
      ∃ start < error.position, InMisplacedNumber text (.lexical error) start := by
  have htake : text.toList.take error.position = laidChars gap laid ++ m.before := by
    rw [herror, hchars, Misspelling.errorAt, List.take_length_add_append, List.take_left]
  rw [htake]
  rcases m.before_cases with ⟨-, hbefore⟩ | ⟨numeral, hnumeral, hbefore⟩
  -- no number is begun: the lexemes stand before the wrong character
  · rw [hbefore, List.append_nil]
    exact .inl (completable_laidChars hends h gap)
  · rw [hbefore] at hends htake ⊢
    cases hplace : placeBehind laid with
    | operand =>
      -- the number is laid behind the lexemes
      rw [← laidChars_concat_number]
      exact .inl (completable_laidChars hends.concat_number
        (h.concat_number hplace numeral .empty) gap)
    | operator =>
      -- the number begins behind the lexemes
      obtain ⟨c, more, hnumber, -⟩ := numeral.exists_cons
      have hstart : text.toList.take (laidChars gap laid).length = laidChars gap laid := by
        rw [hchars, List.take_left]
      refine .inr ⟨(laidChars gap laid).length, ?_, error, numeral, rfl, ?_, ?_, ?_, ?_⟩
      · simp [herror, Misspelling.errorAt, hbefore, hnumber]
      · rw [herror]
        exact Misspelling.fault_of_numeral? hnumeral
      · rw [hstart]
        exact accepted_laidChars hends.apart h hplace gap
      · rw [htake, hstart]
      · rw [htake]
        exact endsInNumeral_laidChars hends gap

/-- **The first violation**: a text is rejected with the same error for its value and for its tree,
and the characters before the error are the beginning of some text with a value. The exception is
the error of a point behind a number that may not stand where it stands. Then the characters before
the number are a text with a value, and they cannot be completed together with its first digit,
wherever such a number begins. -/
theorem rejected_completable (text : String) :
    (∀ e, (treeOf text).result = .error e ↔ (valueOf text).result = .error e) ∧
    (∀ e, (valueOf text).result = .error e →
      Completable (text.toList.take e.position) ∨
      ∃ start < e.position, InMisplacedNumber text e start ∧
        ¬ Completable (text.toList.take (start + 1))) ∧
    ∀ e start, InMisplacedNumber text e start → ¬ Completable (text.toList.take (start + 1)) := by
  obtain ⟨answer, ⟨tokens, stop, more, hall, hplace, hverdict⟩, htree, hvalue⟩ :=
    exists_outcome_ofText text
  rw [htree, hvalue]
  refine ⟨fun e => ?_, fun e he => ?_, fun _ _ => InMisplacedNumber.not_completable⟩
  -- the tree and the value come from one answer
  · cases answer with
    | ok chain => exact ⟨fun h => (nomatch h), fun h => (nomatch h)⟩
    | error cause => simp [Except.map]
  -- before the entry at which reading stops there are lexemes in their places
  · obtain ⟨gap, laid, rest, hchars, hends, rfl, hfront⟩ := exists_front hall
    replace hchars : text.toList = laidChars gap laid ++ rest := hchars
    have hlaid : LaidInPlace laid := by
      rwa [map_token_lexemeTokens] at hplace
    simp only [Scanner.ofText, Nat.zero_add] at hfront
    cases hverdict with
    | sum => cases he
    | @misplaced token hkind =>
      obtain rfl := Except.error.inj he
      -- the token stands behind the lexemes
      refine .inl ?_
      rw [Rejection.position, hfront.position_eq, hchars, List.take_left]
      exact completable_laidChars hends hlaid gap
    -- the error is that of the misspelling at the front
    | misspelled error =>
      obtain rfl := Except.error.inj he
      generalize hentry : Except.error error = entry at hfront
      cases hfront with
      | finish => cases hentry
      | lexeme => cases hentry
      | misspelling m rest =>
        rcases completable_or_inMisplacedNumber hchars hends hlaid (Except.error.inj hentry) with
          hcompletable | ⟨start, hstart, hmisplaced⟩
        · exact .inl hcompletable
        · exact .inr ⟨start, hstart, hmisplaced, hmisplaced.not_completable⟩

/-- Behind a sign that is one too many nothing is read any more. -/
theorem rejected_completable_at_second_sign :
    (valueOf "1 + + @").result = .error (.grammatical ⟨4, [.number], .plus⟩) ∧
      Completable ("1 + + @".toList.take 4) := by
  have h : (valueOf "1 + + @").result = .error (.grammatical ⟨4, [.number], .plus⟩) := by
    decide +kernel
  refine ⟨h, ?_⟩
  obtain ⟨-, hrejected, -⟩ := rejected_completable "1 + + @"
  rcases hrejected _ h with hcompletable | ⟨_, _, ⟨_, _, heq, _⟩, _⟩
  · exact hcompletable
  · cases heq

/-- The point behind the second number is found before it is seen that no number may stand there. -/
theorem not_completable_before_error :
    (valueOf "1 2.").result = .error (.lexical ⟨.trailingDot, 3, '.'⟩) ∧
      (treeOf "1 2.").result = .error (.lexical ⟨.trailingDot, 3, '.'⟩) ∧
      ¬ Completable ("1 2.".toList.take 3) := by
  refine ⟨by decide +kernel, by decide +kernel, ?_⟩
  -- an operator is due behind the first number and the blank
  let blank : Gap := ⟨[' '], by simp [Scanner.isBlank]⟩
  let one : Numeral := .whole ⟨['1'], by simp, by simp⟩
  have hends : EndBefore ['2'] [(.number one, blank)] := ⟨.cons rfl _, trivial⟩
  exact not_completable_digit hends ⟨trivial, trivial⟩ rfl rfl .empty

end AddingMachine
