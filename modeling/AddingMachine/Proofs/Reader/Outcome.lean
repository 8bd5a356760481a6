import AddingMachine.Proofs.Reader.Passing
import AddingMachine.Proofs.Scanner.Layout
import Mathlib.Data.List.TakeWhile

/-!
# Outcomes

What reading a feed once comes to, for the tokens of a text and for any list of tokens.
-/

namespace AddingMachine

/-! ## §1 The outcome of reading a feed

What reading a feed once comes to depends only on the entries ahead of it. Tokens in their places
lead up to a first entry that is not taken any more: the end of the input behind an operand, a token
of a kind that is not expected, or an error. `Outcome` says which answer belongs to that entry, and
`readOnce_of_outcome` that reading gives that answer and no other. -/

/-! ### The first entry that is not taken -/

/-- No token, or one that the place does not take. -/
def Place.Stops (place : Place) : Scanned → Prop
  | .ok token => ¬ place.Takes token.token
  | .error _ => True

/-- There is one way to divide entries at the first one that is not taken. -/
theorem InPlace.eq_of_stops {place : Place} {us vs : List LocatedToken} {x y : Scanned}
    {more more' : List Scanned}
    (hus : InPlace place (us.map LocatedToken.token))
    (hvs : InPlace place (vs.map LocatedToken.token))
    (hx : (place.after us.length).Stops x) (hy : (place.after vs.length).Stops y)
    (h : us.map .ok ++ x :: more = vs.map .ok ++ y :: more') : us = vs ∧ x = y := by
  induction us generalizing place vs with
  | nil =>
    cases vs with
    | nil => exact ⟨rfl, (List.cons.inj h).1⟩
    | cons v vs =>
      -- `x` would be a token in place
      obtain rfl : x = .ok v := (List.cons.inj h).1
      exact absurd hvs.1 hx
  | cons u us ih =>
    cases vs with
    | nil =>
      -- and here `y` would be
      obtain rfl : y = .ok u := (List.cons.inj h).1.symm
      exact absurd hus.1 hy
    | cons v vs =>
      obtain rfl : u = v := Except.ok.inj (List.cons.inj h).1
      obtain ⟨rfl, rfl⟩ := ih hus.2 hvs.2 hx hy (List.cons.inj h).2
      exact ⟨rfl, rfl⟩

/-- The end of the input is taken nowhere. -/
theorem Place.stops_of_end {token : LocatedToken} (h : token.token = .endOfInput) (place : Place) :
    place.Stops (.ok token) :=
  fun htakes => ((place.takes_iff token.token).mp htakes).2 h

theorem Place.stops_of_notMem {place : Place} {token : LocatedToken}
    (h : token.token.kind ∉ place.expected) : place.Stops (.ok token) :=
  fun htakes => h ((place.takes_iff token.token).mp htakes).1

/-! ### Outcomes -/

/-- The answer that belongs to tokens in their places and the entry behind them that is not taken. -/
inductive Verdict (tokens : List LocatedToken) : Scanned → Except Rejection Chain → Prop where
  /-- The tokens are those of a chain, and the input ends there. -/
  | sum {chain : Chain} {finish : LocatedToken}
      (htokens : tokens.map LocatedToken.token = chain.tokens)
      (hfinish : finish.token = .endOfInput) :
      Verdict tokens (.ok finish) (.ok chain)
  /-- A token of a kind that is not expected follows. -/
  | misplaced {token : LocatedToken}
      (hkind : token.token.kind ∉ (Place.operand.after tokens.length).expected) :
      Verdict tokens (.ok token) (.error (.grammatical
        ⟨token.position, (Place.operand.after tokens.length).expected, token.token.kind⟩))
  /-- An error follows. -/
  | misspelled (e : LexicalError) : Verdict tokens (.error e) (.error (.lexical e))

namespace Verdict

variable {tokens : List LocatedToken} {stop : Scanned} {answer answer' : Except Rejection Chain}

/-- Behind a chain an operator is expected, or the end. -/
theorem expected_of_chain {chain : Chain}
    (htokens : tokens.map LocatedToken.token = chain.tokens) :
    (Place.operand.after tokens.length).expected = [.plus, .minus, .endOfInput] := by
  have hlength : tokens.length = chain.tokens.length := by rw [← htokens, List.length_map]
  rw [hlength, chain.after_length_tokens]
  rfl

theorem stops (h : Verdict tokens stop answer) : (Place.operand.after tokens.length).Stops stop := by
  cases h with
  | sum _ hfinish => exact Place.stops_of_end hfinish _
  | misplaced hkind => exact Place.stops_of_notMem hkind
  | misspelled => trivial

/-- There is one verdict on tokens and what follows them. -/
theorem unique (h : Verdict tokens stop answer) (h' : Verdict tokens stop answer') :
    answer = answer' := by
  cases h with
  -- a chain is settled by its tokens
  | sum htokens hfinish =>
    cases h' with
    | sum htokens' _ => exact congrArg _ (Chain.tokens_injective (htokens.symm.trans htokens'))
    | misplaced hkind =>
      -- behind a chain the end is expected
      rw [expected_of_chain htokens, hfinish] at hkind
      simp [Token.kind] at hkind
  | misplaced hkind =>
    cases h' with
    | sum htokens hfinish =>
      rw [expected_of_chain htokens, hfinish] at hkind
      simp [Token.kind] at hkind
    | misplaced => rfl
  | misspelled => cases h' with | misspelled => rfl

end Verdict

/-- The answer that belongs to a sequence of entries: the verdict on the first one not taken. -/
def Outcome (entries : List Scanned) (answer : Except Rejection Chain) : Prop :=
  ∃ (tokens : List LocatedToken) (stop : Scanned) (more : List Scanned),
    entries = tokens.map .ok ++ stop :: more ∧
    InPlace .operand (tokens.map LocatedToken.token) ∧ Verdict tokens stop answer

/-- There is one outcome: entries are divided in one way, and one verdict belongs to it. -/
theorem Outcome.unique {entries : List Scanned} {answer answer' : Except Rejection Chain}
    (h : Outcome entries answer) (h' : Outcome entries answer') : answer = answer' := by
  obtain ⟨tokens, stop, more, rfl, hplace, hverdict⟩ := h
  obtain ⟨tokens', stop', more', heq, hplace', hverdict'⟩ := h'
  obtain ⟨rfl, rfl⟩ := hplace.eq_of_stops hplace' hverdict.stops hverdict'.stops heq
  exact hverdict.unique hverdict'

/-! ### Reading comes to the outcome -/

/-- The three ways in which a reading ends are the three verdicts. -/
theorem Reader.Reading.outcome {r s : Reader} {answer : Except Rejection Chain}
    (h : Reading Chain.tokens .operand r answer s) : Outcome r.ahead answer := by
  cases h with
  | @finished chain tokens s hpass htokens hend =>
    exact ⟨tokens, .ok s.current, [], by rw [hpass.ahead_eq, ahead_of_end hend], hpass.inPlace,
      .sum htokens hend⟩
  -- the refused token is the one that is not taken
  | @refused tokens q s hpass hkind =>
    obtain rfl := hpass.after_length
    exact ⟨tokens, .ok s.current, _, hpass.ahead_eq, hpass.inPlace, .misplaced hkind⟩
  | @cutOff tokens q s e hpass htakes hpeek =>
    have hne := ((q.takes_iff s.current.token).mp htakes).2
    -- the accepted token is the last one before the error
    refine ⟨tokens ++ [s.current], .error e, s.feed.tail.ahead, ?_, ?_, .misspelled e⟩
    · rw [hpass.ahead_eq, ahead_of_ne_end hne, Feed.ahead_of_peek_error hpeek]
      simp
    · rw [List.map_append, InPlace.append_iff, List.length_map, hpass.after_length]
      exact ⟨hpass.inPlace, htakes, trivial⟩

/-- Every feed has an outcome, and reading comes to it. -/
theorem exists_outcome (feed : Feed) :
    ∃ answer, Outcome feed.ahead answer ∧
      (readOnce Reader.readTree feed).result = answer.map Chain.tree ∧
      (readOnce Reader.readValue feed).result = answer.map Chain.value := by
  cases hpeek : feed.peek with
  -- the reading of the first reader gives it
  | ok next =>
    have hstart : Reader.start feed = .ok ⟨next, feed.tail⟩ := by simp [Reader.start, hpeek]
    obtain ⟨answer, s, hreading, htree, hvalue⟩ := (Reader.mk next feed.tail).exists_reading
    refine ⟨answer, ?_, by simp [readOnce, hstart, htree], by simp [readOnce, hstart, hvalue]⟩
    rw [Feed.ahead_of_peek_ok hpeek]
    exact hreading.outcome
  | error e =>
    -- there is no reader without a first token
    have hstart : Reader.start feed = .error e := by simp [Reader.start, hpeek]
    exact ⟨_, ⟨[], _, _, Feed.ahead_of_peek_error hpeek, trivial, .misspelled e⟩,
      by simp [readOnce, hstart, Except.map], by simp [readOnce, hstart, Except.map]⟩

/-- **Reading comes to the outcome**: what is read from a feed, as a tree or as a value, is the
answer that belongs to the entries ahead. -/
theorem readOnce_of_outcome {feed : Feed} {answer : Except Rejection Chain}
    (h : Outcome feed.ahead answer) :
    (readOnce Reader.readTree feed).result = answer.map Chain.tree ∧
      (readOnce Reader.readValue feed).result = answer.map Chain.value := by
  obtain ⟨answer', houtcome, hresults⟩ := exists_outcome feed
  obtain rfl := h.unique houtcome
  exact hresults

/-- Feeds with the same entries ahead are read alike. -/
theorem result_readOnce_congr {feed feed' : Feed} (h : feed.ahead = feed'.ahead) :
    (readOnce Reader.readTree feed).result = (readOnce Reader.readTree feed').result ∧
      (readOnce Reader.readValue feed).result = (readOnce Reader.readValue feed').result := by
  obtain ⟨answer, houtcome, htree, hvalue⟩ := exists_outcome feed
  obtain ⟨htree', hvalue'⟩ := readOnce_of_outcome (h ▸ houtcome)
  exact ⟨htree.trans htree'.symm, hvalue.trans hvalue'.symm⟩

/-! ### What lies ahead of a text -/

/-- What follows the entries of a text is behind its end. -/
@[simp] theorem untilEnd_all_append (s : Scanner) (more : List Scanned) :
    untilEnd (s.all ++ more) = s.all := by
  obtain ⟨entries, hall, hentries⟩ := s.exists_all_eq
  rw [hall, List.append_assoc]
  exact untilEnd_append hentries rfl more

/-- Ahead of a text lie all its entries. -/
theorem ahead_ofText (text : String) :
    (Feed.ofText text).ahead = (Scanner.ofText text).all :=
  untilEnd_all_append _ _

/-! ## §2 Values of token lists

Tokens need not come from a text: a list of them can hold any tokens in any order, at any positions,
with the end of the input missing, in the middle or repeated. Only the tokens before the first end
count, and an end that is missing is put at the position of the last token. `valueOfTokens_spec`
says which lists have a value, and what is wrong with all others. -/

/-! ### The end of a token list -/

/-- The tokens before the first end of the input. -/
def tokensBeforeEnd (tokens : List LocatedToken) : List LocatedToken :=
  tokens.takeWhile fun token => token.token ≠ .endOfInput

/-- The position of the last token; 0 if there is none. -/
def lastPosition (tokens : List LocatedToken) : Nat :=
  (tokens.getLast?.map LocatedToken.position).getD 0

/-- The first end of the input, or, where there is none, one at the position of the last token. -/
def endOf (tokens : List LocatedToken) : LocatedToken :=
  (tokens.find? fun token => token.token = .endOfInput).getD ⟨.endOfInput, lastPosition tokens⟩

@[simp] theorem token_endOf (tokens : List LocatedToken) : (endOf tokens).token = .endOfInput := by
  unfold endOf
  cases hfind : tokens.find? fun token => token.token = .endOfInput with
  | none =>
    -- the end that is put behind the last token
    rfl
  | some token =>
    have htoken := List.find?_some hfind
    exact of_decide_eq_true htoken

/-- Up to the first end there are the tokens before it, and that end, or else the one behind the
list. -/
theorem untilEnd_tokens (tokens : List LocatedToken) {finish : LocatedToken}
    (hfinish : finish.token = .endOfInput) :
    untilEnd (tokens.map .ok ++ [.ok finish]) =
      (tokensBeforeEnd tokens).map .ok ++
        [.ok ((tokens.find? fun token => token.token = .endOfInput).getD finish)] := by
  induction tokens with
  | nil => simp [untilEnd, tokensBeforeEnd, hfinish]
  | cons token rest ih =>
    by_cases htoken : token.token = .endOfInput
    · simp [untilEnd, tokensBeforeEnd, htoken]
    · simpa [untilEnd, tokensBeforeEnd, htoken] using ih

/-- Ahead of a list of tokens lie those before its end, and its end. -/
theorem ahead_ofTokens (tokens : List LocatedToken) :
    (Feed.ofTokens tokens).ahead = (tokensBeforeEnd tokens).map .ok ++ [.ok (endOf tokens)] :=
  untilEnd_tokens tokens rfl

/-- Behind an end nothing counts. -/
@[simp] theorem tokensBeforeEnd_append (tokens more : List LocatedToken) (position : Nat) :
    tokensBeforeEnd (tokens ++ ⟨.endOfInput, position⟩ :: more) = tokensBeforeEnd tokens := by
  unfold tokensBeforeEnd
  induction tokens with
  | nil => simp
  | cons token rest ih =>
    by_cases htoken : token.token = .endOfInput
    · simp [htoken]
    · simpa [htoken] using ih

/-- An end behind a list is its end, if the list has none. -/
theorem endOf_append (tokens more : List LocatedToken) (position : Nat) :
    endOf (tokens ++ ⟨.endOfInput, position⟩ :: more) =
      (tokens.find? fun token => token.token = .endOfInput).getD ⟨.endOfInput, position⟩ := by
  simp only [endOf, List.find?_append]
  cases tokens.find? fun token => token.token = .endOfInput with
  | none => rfl
  | some token => rfl

/-! ### The value or the first fault -/

/-- There are no tokens, or the last one is an operator. -/
def CutShort (tokens : List LocatedToken) : Prop :=
  tokens = [] ∨ ∃ before operator position,
    tokens = before ++ [⟨Operator.token operator, position⟩]

/-- What tokens without an end come to, where the input ends at the position `finish`. -/
inductive ValueOrFault (tokens : List LocatedToken) (finish : Nat) :
    Except Rejection Binary64 → Prop where
  /-- They are those of a chain, which has a value. -/
  | value {chain : Chain} (htokens : tokens.map LocatedToken.token = chain.tokens) :
      ValueOrFault tokens finish (.ok chain.value)
  /-- One of them is the first that is out of place. -/
  | outOfPlace {before after : List LocatedToken} {token : LocatedToken}
      (htokens : tokens = before ++ token :: after)
      (hbefore : InPlace .operand (before.map LocatedToken.token))
      (htoken : ¬ (Place.operand.after before.length).Takes token.token) :
      ValueOrFault tokens finish (.error (.grammatical
        ⟨token.position, (Place.operand.after before.length).expected, token.token.kind⟩))
  /-- All are in their places, but an operand is missing behind them. -/
  | cutShort (htokens : InPlace .operand (tokens.map LocatedToken.token))
      (hlast : CutShort tokens) :
      ValueOrFault tokens finish (.error (.grammatical ⟨finish, [.number], .endOfInput⟩))

/-- Tokens are cut short if the last one is an operator. -/
theorem cutShort_concat {before : List LocatedToken} {last : LocatedToken} :
    CutShort (before ++ [last]) ↔ ∃ operator : Operator, last.token = operator.token := by
  constructor
  · intro hcut
    rcases hcut with hnil | ⟨before', operator, position, heq⟩
    · simp at hnil
    · obtain ⟨-, hlast⟩ := List.append_inj' heq rfl
      obtain rfl := List.singleton_inj.mp hlast
      exact ⟨operator, rfl⟩
  · intro hlast
    obtain ⟨operator, hoperator⟩ := hlast
    exact .inr ⟨before, operator, last.position, by rw [← hoperator]⟩

/-- Places alternate, counted from the back as from the front. -/
@[simp] theorem Place.after_succ (place : Place) (n : Nat) :
    place.after (n + 1) = (place.after n).other := by
  induction n generalizing place with
  | zero => rfl
  | succ n ih => exact ih place.other

/-- Tokens in their places are cut short where an operand is due. -/
theorem InPlace.cutShort_iff {tokens : List LocatedToken}
    (h : InPlace .operand (tokens.map LocatedToken.token)) :
    CutShort tokens ↔ Place.operand.after tokens.length = .operand := by
  rcases tokens.eq_nil_or_concat with rfl | ⟨before, last, rfl⟩
  · exact ⟨fun _ => rfl, fun _ => .inl rfl⟩
  · -- the last token says which place it stands in
    rw [List.concat_eq_append] at h ⊢
    rw [List.map_append, InPlace.append_iff, List.length_map] at h
    have htakes := h.2.1
    rw [List.length_append, List.length_singleton, Place.after_succ, cutShort_concat]
    cases hplace : Place.operand.after before.length with
    -- a number stands in this place, and no operator
    | operand =>
      rw [hplace] at htakes
      refine ⟨?_, fun hother => nomatch hother⟩
      intro hlast
      obtain ⟨operator, hoperator⟩ := hlast
      rw [hoperator] at htakes
      cases operator with
      | add => exact htakes.elim
      | subtract => exact htakes.elim
    -- an operator stands in this place, and an operand is due behind it
    | operator =>
      rw [hplace] at htakes
      exact ⟨fun _ => rfl, fun _ => Place.exists_operator htakes⟩

/-- Every list of tokens comes to a value or a fault. -/
theorem exists_valueOrFault (tokens : List LocatedToken) (finish : Nat) :
    ∃ result, ValueOrFault tokens finish result := by
  -- if all tokens are in place, the place behind them decides
  by_cases hplace : InPlace .operand (tokens.map LocatedToken.token)
  · cases hafter : Place.operand.after tokens.length with
    | operand => exact ⟨_, .cutShort hplace (hplace.cutShort_iff.mpr hafter)⟩
    | operator =>
      obtain ⟨chain, hchain⟩ := hplace.exists_chain (by rwa [List.length_map])
      exact ⟨_, .value hchain⟩
  · obtain ⟨before, token, after, htokens, hbefore, htoken⟩ := exists_first_misplaced hplace
    exact ⟨_, .outOfPlace htokens hbefore htoken⟩

/-- What the tokens before the end come to belongs to the entries ahead of the list. -/
theorem ValueOrFault.outcome {tokens : List LocatedToken} {result : Except Rejection Binary64}
    (h : ValueOrFault (tokensBeforeEnd tokens) (endOf tokens).position result) :
    ∃ answer : Except Rejection Chain,
      Outcome (Feed.ofTokens tokens).ahead answer ∧ result = answer.map Chain.value := by
  rw [ahead_ofTokens]
  cases h with
  -- a chain, with the end behind it
  | @value chain htokens =>
    exact ⟨.ok chain, ⟨_, _, [], rfl, htokens ▸ chain.inPlace_tokens,
      .sum htokens (token_endOf tokens)⟩, rfl⟩
  | @outOfPlace before after token htokens hbefore htoken =>
    -- it is not the end that is out of place
    have hne : token.token ≠ .endOfInput := by
      have hmem : token ∈ tokensBeforeEnd tokens := by simp [htokens]
      simpa using List.mem_takeWhile_imp hmem
    refine ⟨_, ⟨before, .ok token, after.map .ok ++ [.ok (endOf tokens)], ?_, hbefore,
      .misplaced fun hkind => htoken (((Place.takes_iff _ _).mpr ⟨hkind, hne⟩))⟩, rfl⟩
    rw [htokens]
    simp
  | cutShort htokens hlast =>
    -- a number is expected, and the end is found
    have hafter := htokens.cutShort_iff.mp hlast
    have hend := token_endOf tokens
    refine ⟨_, ⟨_, _, [], rfl, htokens, @Verdict.misplaced _ (endOf tokens) ?_⟩, ?_⟩
    · rw [hafter, hend]
      simp [Place.expected, Token.kind]
    · rw [hafter, hend]
      rfl

/-! ### Values of token lists -/

theorem ValueOrFault.result_eq {tokens : List LocatedToken} {result : Except Rejection Binary64}
    (h : ValueOrFault (tokensBeforeEnd tokens) (endOf tokens).position result) :
    (valueOfTokens tokens).result = result := by
  obtain ⟨answer, houtcome, rfl⟩ := h.outcome
  exact (readOnce_of_outcome houtcome).2

/-- The tokens before the end, and the end, settle the calculation. -/
theorem valueOfTokens_congr {tokens tokens' : List LocatedToken}
    (hbefore : tokensBeforeEnd tokens = tokensBeforeEnd tokens') (hend : endOf tokens = endOf tokens') :
    valueOfTokens tokens = valueOfTokens tokens' := by
  have hahead : (Feed.ofTokens tokens).ahead = (Feed.ofTokens tokens').ahead := by
    rw [ahead_ofTokens, ahead_ofTokens, hbefore, hend]
  simp only [valueOfTokens, (result_readOnce_congr hahead).2]

/-- **Values of token lists**: the value of a list of tokens is that of the chain before its end, or
else its first fault is reported. What follows the first end has no part in this, and a missing end
may as well stand at the position of the last token. -/
theorem valueOfTokens_spec (tokens : List LocatedToken) :
    (∀ result, (valueOfTokens tokens).result = result ↔
      ValueOrFault (tokensBeforeEnd tokens) (endOf tokens).position result) ∧
    (∀ position more, valueOfTokens (tokens ++ ⟨.endOfInput, position⟩ :: more) =
      valueOfTokens (tokens ++ [⟨.endOfInput, position⟩])) ∧
    valueOfTokens (tokens ++ [⟨.endOfInput, lastPosition tokens⟩]) = valueOfTokens tokens := by
  refine ⟨fun result => ⟨?_, ValueOrFault.result_eq⟩, fun position more => ?_, ?_⟩
  · rintro rfl
    -- the tokens come to something, which is then the result
    obtain ⟨result, h⟩ := exists_valueOrFault (tokensBeforeEnd tokens) (endOf tokens).position
    rwa [h.result_eq]
  -- what follows the end changes neither the tokens before it nor the end
  · apply valueOfTokens_congr
    · rw [tokensBeforeEnd_append, tokensBeforeEnd_append]
    · rw [endOf_append, endOf_append]
  · apply valueOfTokens_congr
    -- the end that is written is the one that would be put there
    · exact tokensBeforeEnd_append tokens [] _
    · exact endOf_append tokens [] _

end AddingMachine
