import AddingMachine.Proofs.Reader.Outcome
import AddingMachine.Proofs.Scanner.Relocation
import Mathlib.Control.Monad.Basic

/-!
# Calculations as a whole

The tokens of a text, reading them one by one or all at once, and blanks between them.
-/

namespace AddingMachine

/-! ## §1 The tokens of a text

`tokensOf` gives all tokens of a text, or the first error among its entries. The tokens before this
error are what stepping through the text gives (`steps_of_error`), the end of the input is not among
them, and all of them stand before the place of the error. -/

/-! ### Tokens or the first error -/

theorem mapM_id_map_ok (tokens : List LocatedToken) :
    (tokens.map .ok : List Scanned).mapM id = .ok tokens := by
  induction tokens with
  | nil => rfl
  | cons token rest ih =>
    rw [List.map_cons, List.mapM_cons, ih]
    rfl

/-- The first error is found, whatever stands behind it. -/
theorem mapM_id_append_error (tokens : List LocatedToken) (e : LexicalError)
    (more : List Scanned) :
    (tokens.map .ok ++ .error e :: more : List Scanned).mapM id = .error e := by
  induction tokens with
  | nil => rfl
  | cons token rest ih =>
    rw [List.map_cons, List.cons_append, List.mapM_cons, ih]
    rfl

/-- Either all entries are tokens, which are the result, or the first error among them is. -/
theorem mapM_id_cases (entries : List Scanned) :
    (∃ tokens : List LocatedToken, entries = tokens.map .ok ∧ entries.mapM id = .ok tokens) ∨
    ∃ (tokens : List LocatedToken) (e : LexicalError) (more : List Scanned),
      entries = tokens.map .ok ++ .error e :: more ∧ entries.mapM id = .error e := by
  induction entries with
  | nil => exact .inl ⟨[], rfl, rfl⟩
  | cons entry rest ih =>
    cases entry with
    | error e => exact .inr ⟨[], e, rest, rfl, rfl⟩
    -- a token changes neither case
    | ok token =>
      rcases ih with ⟨tokens, rfl, -⟩ | ⟨tokens, e, more, rfl, -⟩
      · exact .inl ⟨token :: tokens, rfl, mapM_id_map_ok (token :: tokens)⟩
      · exact .inr ⟨token :: tokens, e, more, rfl, mapM_id_append_error (token :: tokens) e more⟩

section Found

variable {text : String} {tokens : List LocatedToken} {e : LexicalError}

theorem all_eq_of_tokensOf (h : (tokensOf text).result = .ok tokens) :
    (Scanner.ofText text).all = tokens.map .ok := by
  rcases mapM_id_cases (Scanner.ofText text).all with ⟨found, hall, hfound⟩ | ⟨_, _, _, -, herror⟩
  · obtain rfl := Except.ok.inj (hfound.symm.trans h)
    exact hall
  · cases herror.symm.trans h

/-- Before an error that is found there are tokens only. -/
theorem exists_all_eq_of_tokensOf (h : (tokensOf text).result = .error e) :
    ∃ (tokens : List LocatedToken) (more : List Scanned),
      (Scanner.ofText text).all = tokens.map .ok ++ .error e :: more := by
  rcases mapM_id_cases (Scanner.ofText text).all with ⟨_, -, hfound⟩ | ⟨found, _, more, hall, herror⟩
  · cases hfound.symm.trans h
  · obtain rfl := Except.error.inj (herror.symm.trans h)
    exact ⟨found, more, hall⟩

theorem tokensOf_of_all_eq (h : (Scanner.ofText text).all = tokens.map .ok) :
    (tokensOf text).result = .ok tokens := by
  show (Scanner.ofText text).all.mapM id = _
  rw [h, mapM_id_map_ok]

/-- The first entry that is an error is found. -/
theorem tokensOf_of_all_eq_error {more : List Scanned}
    (h : (Scanner.ofText text).all = tokens.map .ok ++ .error e :: more) :
    (tokensOf text).result = .error e := by
  show (Scanner.ofText text).all.mapM id = _
  rw [h, mapM_id_append_error]

/-! ### Tokens before an error -/

namespace Scanner

variable {s : Scanner} {more : List Scanned}

/-- Tokens before an error are the first steps, and the error is the next. -/
theorem steps_of_error (hall : s.all = tokens.map .ok ++ .error e :: more) :
    s.steps (tokens.length + 1) = tokens.map .ok ++ [.error e] := by
  have hlength : (tokens.map .ok : List Scanned).length = tokens.length := List.length_map _
  rw [steps_eq_take _ (by simp [hall]), hall, ← hlength, List.take_length_add_append]
  rfl

/-- The input does not end before an error. -/
theorem endOfInput_notMem_of_error (hall : s.all = tokens.map .ok ++ .error e :: more) :
    Token.endOfInput ∉ tokens.map LocatedToken.token := by
  intro hmem
  obtain ⟨token, htoken, hend⟩ := List.mem_map.mp hmem
  -- otherwise the text would go on behind its end
  obtain ⟨before, after, rfl⟩ := List.append_of_mem htoken
  rw [List.map_append, List.map_cons, List.append_assoc, List.cons_append] at hall
  -- nothing would follow the end
  obtain ⟨hnil, -⟩ := eq_nil_of_end hall hend
  simp at hnil

/-- A token before an error stands before it in the text too. -/
theorem position_lt_of_error (hall : s.all = tokens.map .ok ++ .error e :: more)
    {token : LocatedToken} (htoken : token ∈ tokens) : token.position < e.position := by
  have hpairwise := s.pairwise_all
  rw [hall, List.pairwise_append] at hpairwise
  obtain ⟨-, -, hacross⟩ := hpairwise
  exact hacross _ (List.mem_map_of_mem htoken) _ List.mem_cons_self token rfl

end Scanner

end Found

/-! ## §2 Token by token or all at once

`valueOf` and `treeOf` draw the tokens of a text while they read, `tokensOf` finds all of them
first. If there are tokens to be found, reading them from a list makes no difference. If there is an
error among them, the tokens before it decide: where they may begin a sentence the error is
reported, and otherwise the first of them that may not stand where it stands.
`valueOf_agrees_valueOfTokens` says this of every text. -/

/-! ### The first token out of place -/

/-- The error describes the first of the tokens that may not stand where it stands: with the tokens
before it the sentence may go on, but only with a token of the expected kinds. -/
def DescribesFirstMisplaced (tokens : List LocatedToken) (e : SyntaxError) : Prop :=
  ∃ before token after, tokens = before ++ token :: after ∧
    BeginsSentence (before.map LocatedToken.token) ∧
    ¬ BeginsSentence (before.map LocatedToken.token ++ [token.token]) ∧
    (∀ other : Token, BeginsSentence (before.map LocatedToken.token ++ [other]) ↔
      other.kind ∈ e.expected) ∧
    e = ⟨token.position, (Place.operand.after before.length).expected, token.token.kind⟩

/-- Tokens that begin no sentence have a first one that is out of place. -/
theorem exists_describesFirstMisplaced {tokens : List LocatedToken}
    (hend : Token.endOfInput ∉ tokens.map LocatedToken.token)
    (h : ¬ BeginsSentence (tokens.map LocatedToken.token)) :
    ∃ before token after, tokens = before ++ token :: after ∧
      InPlace .operand (before.map LocatedToken.token) ∧
      token.token.kind ∉ (Place.operand.after before.length).expected ∧
      DescribesFirstMisplaced tokens
        ⟨token.position, (Place.operand.after before.length).expected, token.token.kind⟩ := by
  rw [beginsSentence_iff_inPlace hend] at h
  obtain ⟨before, token, after, rfl, hbefore, htoken⟩ := exists_first_misplaced h
  -- the end is not among the tokens, so it is not what is out of place
  have hne : token.token ≠ .endOfInput := by
    intro heq
    apply hend
    simp [heq]
  have hkind : token.token.kind ∉ (Place.operand.after before.length).expected :=
    fun hmem => htoken ((Place.takes_iff _ _).mpr ⟨hmem, hne⟩)
  -- the kinds that may go on are the expected ones, of which the found one is not
  have hgoesOn : ∀ other : Token, BeginsSentence (before.map LocatedToken.token ++ [other]) ↔
      other.kind ∈ (Place.operand.after before.length).expected := by
    intro other
    rw [beginsSentence_concat_iff hbefore, List.length_map]
  refine ⟨before, token, after, rfl, hbefore, hkind, before, token, after, rfl,
    hbefore.beginsSentence, ?_, hgoesOn, rfl⟩
  rwa [hgoesOn]

/-! ### Agreement -/

/-- Tokens that are there already are never rejected for a character. -/
theorem valueOfTokens_ne_lexical (tokens : List LocatedToken) (e : LexicalError) :
    (valueOfTokens tokens).result ≠ .error (.lexical e) := by
  obtain ⟨result, hresult⟩ :=
    exists_valueOrFault (tokensBeforeEnd tokens) (endOf tokens).position
  rw [hresult.result_eq]
  cases hresult with
  | value => exact nofun
  | outOfPlace => exact nofun
  | cutShort => exact nofun

/-- The outcome of a text settles its tree and its value. -/
theorem results_of_outcome {text : String} {answer : Except Rejection Chain}
    (h : Outcome (Scanner.ofText text).all answer) :
    (treeOf text).result = answer.map Chain.tree ∧
      (valueOf text).result = answer.map Chain.value := by
  rw [← ahead_ofText] at h
  rw [result_valueOf]
  exact readOnce_of_outcome h

/-- Every text has an outcome. -/
theorem exists_outcome_ofText (text : String) :
    ∃ answer, Outcome (Scanner.ofText text).all answer ∧
      (treeOf text).result = answer.map Chain.tree ∧
      (valueOf text).result = answer.map Chain.value := by
  obtain ⟨answer, houtcome, -, -⟩ := exists_outcome (Feed.ofText text)
  rw [ahead_ofText] at houtcome
  exact ⟨answer, houtcome, results_of_outcome houtcome⟩

/-- Reading the tokens of a text from a list comes to the same as drawing them from the text. -/
theorem results_of_tokens {text : String} {tokens : List LocatedToken}
    (h : (tokensOf text).result = .ok tokens) :
    (treeOf text).result = (readOnce Reader.readTree (Feed.ofTokens tokens)).result ∧
      (valueOf text).result = (valueOfTokens tokens).result := by
  have hall := all_eq_of_tokensOf h
  -- the same tokens lie ahead in both
  have hahead : (Feed.ofText text).ahead = (Feed.ofTokens tokens).ahead := by
    rw [ahead_ofText, ← untilEnd_all_append, hall]
    rfl
  rw [result_valueOf]
  exact result_readOnce_congr hahead

/-- **Token by token or all at once**: if all tokens of a text are found, its value and its tree are
those of the list of them, and whatever is wrong is wrong in the grammar. If an error is found, the
text is rejected with this error where the tokens before it may begin a sentence, and otherwise for
the first of them that is out of place, which stands before the error. -/
theorem valueOf_agrees_valueOfTokens (text : String) :
    (∀ tokens, (tokensOf text).result = .ok tokens →
      (valueOf text).result = (valueOfTokens tokens).result ∧
      (treeOf text).result = (readOnce Reader.readTree (Feed.ofTokens tokens)).result ∧
      (treeOf text).result.map Expression.value = (valueOfTokens tokens).result ∧
      ∀ e, (valueOfTokens tokens).result ≠ .error (.lexical e)) ∧
    ∀ e, (tokensOf text).result = .error e →
      ∃ tokens, (Scanner.ofText text).steps (tokens.length + 1) = tokens.map .ok ++ [.error e] ∧
        (BeginsSentence (tokens.map LocatedToken.token) →
          (valueOf text).result = .error (.lexical e) ∧
          (treeOf text).result = .error (.lexical e)) ∧
        (¬ BeginsSentence (tokens.map LocatedToken.token) →
          ∃ misplaced, DescribesFirstMisplaced tokens misplaced ∧
            misplaced.position < e.position ∧
            (valueOf text).result = .error (.grammatical misplaced) ∧
            (treeOf text).result = .error (.grammatical misplaced)) := by
  constructor
  · intro tokens hfound
    obtain ⟨htree, hvalue⟩ := results_of_tokens hfound
    refine ⟨hvalue, htree, ?_, valueOfTokens_ne_lexical tokens⟩
    rw [htree, ← result_readOnce_readValue]
    rfl
  · intro e hfound
    obtain ⟨tokens, more, hall⟩ := exists_all_eq_of_tokensOf hfound
    have hend := Scanner.endOfInput_notMem_of_error hall
    refine ⟨tokens, Scanner.steps_of_error hall, fun hbegins => ?_, fun hbegins => ?_⟩
    · -- every token is accepted, and drawing the next one fails
      have hplace := (beginsSentence_iff_inPlace hend).mp hbegins
      obtain ⟨htree, hvalue⟩ :=
        results_of_outcome ⟨tokens, .error e, more, hall, hplace, .misspelled e⟩
      exact ⟨hvalue, htree⟩
    · -- the reader stops before it comes to the error
      obtain ⟨before, token, after, rfl, hbefore, hkind, hdescribes⟩ :=
        exists_describesFirstMisplaced hend hbegins
      refine ⟨_, hdescribes, Scanner.position_lt_of_error hall (by simp), ?_⟩
      rw [List.map_append, List.map_cons, List.append_assoc, List.cons_append] at hall
      obtain ⟨htree, hvalue⟩ :=
        results_of_outcome ⟨before, .ok token, _, hall, hbefore, .misplaced hkind⟩
      exact ⟨hvalue, htree⟩

/-! ## §3 Blanks do not matter

Blanks may be inserted into a text wherever they do not divide a number. The text has the same
tokens, value and tree then, or the same error, and only positions behind the blanks change
(`results_insertBlanks`). -/

/-! ### Relocated answers -/

def SyntaxError.relocate (f : Nat → Nat) (e : SyntaxError) : SyntaxError :=
  ⟨f e.position, e.expected, e.found⟩

def Rejection.relocate (f : Nat → Nat) : Rejection → Rejection
  | .lexical e => .lexical (e.relocate f)
  | .grammatical e => .grammatical (e.relocate f)

section Relocate

variable {f : Nat → Nat}

@[simp] theorem map_token_relocate (tokens : List LocatedToken) :
    (tokens.map (LocatedToken.relocate f)).map LocatedToken.token =
      tokens.map LocatedToken.token := by
  rw [List.map_map]
  rfl

theorem map_relocateEntry_ok (tokens : List LocatedToken) :
    (tokens.map .ok : List Scanned).map (relocateEntry f) =
      (tokens.map (LocatedToken.relocate f)).map .ok := by
  rw [List.map_map, List.map_map]
  rfl

/-- A verdict does not depend on positions, but for that of its error. -/
theorem Verdict.relocate {tokens : List LocatedToken} {stop : Scanned}
    {answer : Except Rejection Chain} (h : Verdict tokens stop answer) :
    Verdict (tokens.map (LocatedToken.relocate f)) (relocateEntry f stop)
      (answer.mapError (Rejection.relocate f)) := by
  cases h with
  | sum htokens hfinish => exact .sum (by rwa [map_token_relocate]) hfinish
  -- how many tokens stand before it stays the same, and so does what is expected
  | @misplaced token hkind =>
    have hlength : (tokens.map (LocatedToken.relocate f)).length = tokens.length :=
      List.length_map _
    have hmisplaced := @Verdict.misplaced (tokens.map (LocatedToken.relocate f))
      (token.relocate f) (by rwa [hlength])
    rwa [hlength] at hmisplaced
  | misspelled e => exact .misspelled (e.relocate f)

/-- The outcome moves as the entries do. -/
theorem Outcome.relocate {entries : List Scanned} {answer : Except Rejection Chain}
    (h : Outcome entries answer) :
    Outcome (entries.map (relocateEntry f)) (answer.mapError (Rejection.relocate f)) := by
  obtain ⟨tokens, stop, more, rfl, hplace, hverdict⟩ := h
  refine ⟨tokens.map (LocatedToken.relocate f), relocateEntry f stop,
    more.map (relocateEntry f), ?_, ?_, hverdict.relocate⟩
  · rw [List.map_append, map_relocateEntry_ok, List.map_cons]
  · rwa [map_token_relocate]

/-! ### Relocated results -/

variable {text text' : String}

/-- Where entries are moved, so are the tokens that are found, or the error. -/
theorem result_tokensOf_relocate
    (h : (Scanner.ofText text').all = (Scanner.ofText text).all.map (relocateEntry f)) :
    (tokensOf text').result =
      ((tokensOf text).result.map (List.map (LocatedToken.relocate f))).mapError
        (LexicalError.relocate f) := by
  cases hfound : (tokensOf text).result with
  | ok tokens =>
    rw [all_eq_of_tokensOf hfound, map_relocateEntry_ok] at h
    exact tokensOf_of_all_eq h
  | error e =>
    obtain ⟨tokens, more, hall⟩ := exists_all_eq_of_tokensOf hfound
    -- what stands behind the first error is moved as well, but is not found
    rw [hall, List.map_append, map_relocateEntry_ok, List.map_cons] at h
    exact tokensOf_of_all_eq_error h

/-- A value and a tree stay as they are, and an error moves. -/
theorem results_relocate
    (h : (Scanner.ofText text').all = (Scanner.ofText text).all.map (relocateEntry f)) :
    (treeOf text').result = (treeOf text).result.mapError (Rejection.relocate f) ∧
      (valueOf text').result = (valueOf text).result.mapError (Rejection.relocate f) := by
  obtain ⟨answer, houtcome, htree, hvalue⟩ := exists_outcome_ofText text
  have hmoved := houtcome.relocate (f := f)
  rw [← h] at hmoved
  obtain ⟨htree', hvalue'⟩ := results_of_outcome hmoved
  rw [htree, hvalue, htree', hvalue']
  -- positions stand in errors alone
  cases answer with
  | ok chain => exact ⟨rfl, rfl⟩
  | error e => exact ⟨rfl, rfl⟩

end Relocate

/-! ### Inserted blanks -/

/-- The text with blanks before the character with index `i`, or at its end. -/
def insertBlanks (text : String) (i : Nat) (blanks : Gap) : String :=
  String.ofList (text.toList.take i ++ (blanks.chars ++ text.toList.drop i))

/-- Inserted blanks move the entries behind them. -/
theorem all_insertBlanks {text : String} {i : Nat} (hi : i ≤ text.length)
    (hjoined : ¬ Joined (text.toList.take i) (text.toList.drop i)) (blanks : Gap) :
    (Scanner.ofText (insertBlanks text i blanks)).all =
      (Scanner.ofText text).all.map (relocateEntry (moved i blanks.chars.length)) := by
  have hlength : (text.toList.take i).length = i := by
    rw [List.length_take, String.length_toList, Nat.min_eq_left hi]
  have hall := Scanner.all_insert hjoined blanks 0
  rw [hlength, Nat.zero_add, List.take_append_drop] at hall
  rwa [Scanner.ofText, insertBlanks, String.toList_ofList]

/-- **Blanks do not matter**: where the characters of a text at some place do not both belong to a
number, blanks can be inserted there. The tokens are the same then, and so are the value and the
tree, or else the error, and positions change by the number of blanks from that place on. -/
theorem results_insertBlanks {text : String} {i : Nat} (hi : i ≤ text.length)
    (hjoined : ¬ Joined (text.toList.take i) (text.toList.drop i)) (blanks : Gap) :
    (tokensOf (insertBlanks text i blanks)).result =
      ((tokensOf text).result.map
        (List.map (LocatedToken.relocate (moved i blanks.chars.length)))).mapError
          (LexicalError.relocate (moved i blanks.chars.length)) ∧
    (valueOf (insertBlanks text i blanks)).result =
      (valueOf text).result.mapError (Rejection.relocate (moved i blanks.chars.length)) ∧
    (treeOf (insertBlanks text i blanks)).result =
      (treeOf text).result.mapError (Rejection.relocate (moved i blanks.chars.length)) := by
  have hall := all_insertBlanks hi hjoined blanks
  obtain ⟨htree, hvalue⟩ := results_relocate hall
  exact ⟨result_tokensOf_relocate hall, hvalue, htree⟩

/-- The point stays as wrong as it is, two characters further on. -/
theorem results_insertBlanks_before_point :
    2 ≤ "1+.5".length ∧ ¬ Joined ("1+.5".toList.take 2) ("1+.5".toList.drop 2) ∧
      (valueOf (insertBlanks "1+.5" 2 ⟨[' ', '\t'], by simp [Scanner.isBlank]⟩)).result =
        .error (.lexical ⟨.leadingDot, 4, '.'⟩) := by
  have hlength : 2 ≤ "1+.5".length := by decide
  have hjoined : ¬ Joined ("1+.5".toList.take 2) ("1+.5".toList.drop 2) := by
    -- a sign belongs to no number
    rintro ⟨c, hc, -, -, hplus, -⟩
    obtain rfl : '+' = c := Option.some.inj hc
    cases hplus
  have hfound : (valueOf "1+.5").result = .error (.lexical ⟨.leadingDot, 2, '.'⟩) := by
    decide +kernel
  obtain ⟨-, hvalue, -⟩ :=
    results_insertBlanks hlength hjoined ⟨[' ', '\t'], by simp [Scanner.isBlank]⟩
  refine ⟨hlength, hjoined, ?_⟩
  rw [hvalue, hfound]
  rfl

end AddingMachine
