import AddingMachine.Proofs.Reader.Outcome
import Mathlib.Data.List.Forall2

/-!
# Readers that are used again

What the later answers of a reader are about, and when there are no new ones.
-/

namespace AddingMachine

/-! ## §1 Readers that are used again

A reader can be asked again, whatever its last answer was. The tokens that it has accepted are behind
it then, and all others still lie ahead, in their order. An answer that is no rejection is about all of
them: a sentence at the end of the tokens that its feed has given since the beginning
(`responses_at_the_end`). -/

namespace Reader

/-! ### Queries as readings -/

/-- The response to a query about a chain. -/
def Query.response : Query → Chain → Response
  | .value, chain => .value chain.value
  | .tree, chain => .tree chain.tree
  | .valueOfTree, chain => .value chain.tree.value

/-- Whatever is asked for, a query makes one and the same reading. -/
theorem exists_respond (r : Reader) :
    ∃ answer s, Reading Chain.tokens .operand r answer s ∧
      ∀ query : Query, r.respond query = (answer.map query.response, s) := by
  obtain ⟨answer, s, hreading, htree, hvalue⟩ := r.exists_reading
  refine ⟨answer, s, hreading, fun query => ?_⟩
  -- what is done to the answer is done to its chain
  have hmap : ∀ {α : Type} (f : Chain → α) (g : α → Response),
      (answer.map f).map g = answer.map fun chain => g (f chain) := by
    intro α f g
    cases answer with
    | ok chain => rfl
    | error cause => rfl
  cases query with
  | value => rw [respond, hvalue, hmap]; rfl
  | tree => rw [respond, htree, hmap]; rfl
  | valueOfTree => rw [respond, htree, hmap]; rfl

end Reader

/-! ### Tokens that lie ahead -/

/-- The tokens among some entries, without the errors. -/
def tokensAmong (entries : List Scanned) : List LocatedToken :=
  entries.filterMap Except.toOption

@[simp] theorem tokensAmong_append (entries more : List Scanned) :
    tokensAmong (entries ++ more) = tokensAmong entries ++ tokensAmong more :=
  List.filterMap_append

@[simp] theorem tokensAmong_map_ok (tokens : List LocatedToken) :
    tokensAmong (tokens.map .ok) = tokens := by
  rw [tokensAmong, List.filterMap_map]
  exact List.filterMap_some

namespace Reader

/-- The tokens that a reader can still come to, the current one first. -/
def tokensAhead (r : Reader) : List LocatedToken :=
  tokensAmong r.ahead

/-- What lies ahead of a feed lies ahead of its first reader. -/
theorem ahead_of_start {feed : Feed} {r : Reader} (h : start feed = .ok r) :
    feed.ahead = r.ahead := by
  unfold start at h
  cases hpeek : feed.peek with
  | error e => simp [hpeek] at h
  | ok token =>
    obtain rfl : ⟨token, feed.tail⟩ = r := by simpa [hpeek] using h
    exact Feed.ahead_of_peek_ok hpeek

variable {r s : Reader} {tokens : List LocatedToken}

theorem Passes.tokensAhead_eq {place q : Place} (h : Passes place r tokens q s) :
    r.tokensAhead = tokens ++ s.tokensAhead := by
  rw [tokensAhead, h.ahead_eq, tokensAmong_append, tokensAmong_map_ok, tokensAhead]

/-- An error that is drawn is no token, so that none is lost with it. -/
theorem tokensAhead_of_peek_error {e : LexicalError} (hne : r.current.token ≠ .endOfInput)
    (hpeek : r.feed.peek = .error e) :
    (Reader.mk r.current r.feed.tail).tokensAhead = r.tokensAhead := by
  have hahead : (Reader.mk r.current r.feed.tail).ahead = .ok r.current :: r.feed.tail.ahead :=
    ahead_of_ne_end hne
  rw [tokensAhead, tokensAhead, hahead, ahead_of_ne_end hne, Feed.ahead_of_peek_error hpeek]
  rfl

/-- **A reading takes tokens from the front** of those that lie ahead, and from nowhere else. -/
theorem Reading.tokensAhead_suffix {answer : Except Rejection Chain}
    (h : Reading Chain.tokens .operand r answer s) : s.tokensAhead <:+ r.tokensAhead := by
  cases h with
  | finished hpass => exact ⟨_, hpass.tokensAhead_eq.symm⟩
  | refused hpass => exact ⟨_, hpass.tokensAhead_eq.symm⟩
  -- the token before the error is passed to be the current one, and stays it
  | @cutOff tokens q s e hpass htakes hpeek =>
    have hne := ((q.takes_iff s.current.token).mp htakes).2
    rw [tokensAhead_of_peek_error hne hpeek]
    exact ⟨_, hpass.tokensAhead_eq.symm⟩

/-- A chain that is read is all that lies ahead, up to the end. -/
theorem Reading.tokensAhead_eq {chain : Chain}
    (h : Reading Chain.tokens .operand r (.ok chain) s) :
    r.tokensAhead.map LocatedToken.token = chain.tokens ++ [.endOfInput] := by
  cases h with
  | @finished chain tokens s hpass htokens hend =>
    -- where the reading is finished, only the end lies ahead
    have hlast : s.tokensAhead = [s.current] := by
      rw [tokensAhead, ahead_of_end hend]
      rfl
    rw [hpass.tokensAhead_eq, hlast, List.map_append, htokens, List.map_singleton, hend]

/-! ### Sequences of queries -/

/-- If a query has a response, this is about a sentence at the end of the tokens. -/
def RespondsAtEnd (tokens : List LocatedToken) (query : Query)
    (result : Except Rejection Response) : Prop :=
  ∀ response, result = .ok response → ∃ (sentence : List LocatedToken) (chain : Chain),
    sentence <:+ tokens ∧ sentence.map LocatedToken.token = chain.tokens ++ [.endOfInput] ∧
      response = query.response chain

/-- One query: the tokens ahead stay at the end of all tokens, and it responds about them. -/
theorem respond_at_end (h : r.tokensAhead <:+ tokens) (query : Query) :
    RespondsAtEnd tokens query (r.respond query).1 ∧
      (r.respond query).2.tokensAhead <:+ tokens := by
  obtain ⟨answer, s, hreading, hrespond⟩ := r.exists_respond
  rw [hrespond]
  refine ⟨fun response hresponse => ?_, hreading.tokensAhead_suffix.trans h⟩
  cases answer with
  | error cause => cases hresponse
  | ok chain =>
    exact ⟨r.tokensAhead, chain, h, hreading.tokensAhead_eq, (Except.ok.inj hresponse).symm⟩

/-- Many queries, by induction on them. -/
theorem forall₂_responses (h : r.tokensAhead <:+ tokens) (queries : List Query) :
    List.Forall₂ (RespondsAtEnd tokens) queries (r.responses queries).1 := by
  induction queries generalizing r with
  | nil => exact .nil
  | cons query rest ih =>
    obtain ⟨hresponds, hahead⟩ := respond_at_end h query
    exact .cons hresponds (ih hahead)

/-- A list of tokens always gives a first token. -/
theorem exists_start_ofTokens (tokens : List LocatedToken) :
    ∃ reader, start (Feed.ofTokens tokens) = .ok reader := by
  cases tokens with
  | nil => exact ⟨_, rfl⟩
  | cons token rest => exact ⟨_, rfl⟩

/-- **A reader that is used again** neither repeats tokens nor leaves any out, and keeps their order.
However often it is asked, and whatever it has answered before, each response that it gives is about
a sentence at the end of the tokens: for a text those that stepping through it finds up to its end,
without the errors between them, and for a list of tokens those before its end, and its end. -/
theorem responses_at_the_end :
    (∀ text : String, ∃ (count : Nat) (entries : List Scanned),
      (Scanner.ofText text).steps count = entries ++ [.ok ⟨.endOfInput, text.length⟩] ∧
      (∀ token, .ok token ∈ entries → token.token ≠ .endOfInput) ∧
      ∀ reader, start (Feed.ofText text) = .ok reader → ∀ queries,
        List.Forall₂ (RespondsAtEnd (tokensAmong ((Scanner.ofText text).steps count)))
          queries (reader.responses queries).1) ∧
    ∀ tokens : List LocatedToken, ∃ reader, start (Feed.ofTokens tokens) = .ok reader ∧
      ∀ queries, List.Forall₂ (RespondsAtEnd (tokensBeforeEnd tokens ++ [endOf tokens]))
        queries (reader.responses queries).1 := by
  constructor
  · intro text
    obtain ⟨entries, hall, hentries⟩ := (Scanner.ofText text).exists_all_eq
    have hsteps := (Scanner.ofText text).steps_eq_take (Nat.le_refl _)
    rw [List.take_length] at hsteps
    -- as many steps as there are entries
    refine ⟨(Scanner.ofText text).all.length, entries, ?_, hentries, fun reader hstart => ?_⟩
    · have hend : (Scanner.ofText text).position + (Scanner.ofText text).rest.length = text.length :=
        Nat.zero_add _
      rw [hsteps, hall, hend]
    -- from the first token on, all of them lie ahead
    · have hahead : reader.tokensAhead = tokensAmong (Scanner.ofText text).all := by
        rw [tokensAhead, ← ahead_of_start hstart, ahead_ofText]
      rw [hsteps, ← hahead]
      exact forall₂_responses List.suffix_rfl
  · intro tokens
    obtain ⟨reader, hstart⟩ := exists_start_ofTokens tokens
    have hahead : reader.tokensAhead = tokensBeforeEnd tokens ++ [endOf tokens] := by
      rw [tokensAhead, ← ahead_of_start hstart, ahead_ofTokens, tokensAmong_append,
        tokensAmong_map_ok]
      rfl
    refine ⟨reader, hstart, ?_⟩
    rw [← hahead]
    exact forall₂_responses List.suffix_rfl

end Reader

/-! ## §2 Readers that are frozen

A reader whose current token is no number gives every query the same answer and stays as it is: it is
frozen. A response leaves it frozen, since it stands at the end then, and so does the rejection of what
stands where a number is due. Every other answer leaves less ahead than before, so that a reader is
frozen after as many answers as there are characters or tokens, and one more
(`freezes_and_stays_frozen`). -/

namespace Reader

/-! ### Frozen readers -/

/-- What is wrong with the current token where a number is due. -/
def operandMissing (r : Reader) : SyntaxError :=
  ⟨r.current.position, [.number], r.current.token.kind⟩

/-- The current token is no number, so that no expression begins with it. -/
def Frozen (r : Reader) : Prop :=
  r.current.token.kind ≠ .number

variable {r s : Reader}

/-- Where no number stands, every query is refused, and nothing is drawn. -/
theorem Frozen.respond (h : r.Frozen) (query : Query) :
    r.respond query = (.error (.grammatical r.operandMissing), r) := by
  have htree : r.readTree = (.error (.grammatical r.operandMissing), r) := by
    rw [readTree_eq, readNumber_of_ne_number h]
    rfl
  have hvalue : r.readValue = (.error (.grammatical r.operandMissing), r) := by
    rw [readValue_eq, htree]
    rfl
  cases query with
  | value => rw [Reader.respond, hvalue]; rfl
  | tree => rw [Reader.respond, htree]; rfl
  | valueOfTree => rw [Reader.respond, htree]; rfl

/-- **Frozen for good**: every query is answered alike, and the reader stays as it is. -/
theorem Frozen.responses (h : r.Frozen) (queries : List Query) :
    r.responses queries =
      (queries.map fun _ => .error (.grammatical r.operandMissing), r) := by
  induction queries with
  | nil => rfl
  | cons query rest ih => rw [Reader.responses, h.respond, ih]; rfl

/-! ### Final answers -/

/-- Something is read, or rejected where a number is due. -/
inductive Final {α : Type} : Except Rejection α → Prop where
  | ok (a : α) : Final (.ok a)
  | operandMissing (position : Nat) (found : TokenKind) :
      Final (.error (.grammatical ⟨position, [.number], found⟩))

/-- Whether an answer is final does not depend on what is read. -/
theorem final_map_iff {α β : Type} (f : α → β) (answer : Except Rejection α) :
    Final (answer.map f) ↔ Final answer := by
  cases answer with
  | ok a => exact ⟨fun _ => .ok a, fun _ => .ok (f a)⟩
  | error cause =>
    constructor
    · intro h
      cases h with
      | operandMissing position found => exact .operandMissing position found
    · intro h
      cases h with
      | operandMissing position found => exact .operandMissing position found

/-- A final answer leaves the reader frozen, at what the answer says is wrong, if it does. -/
theorem Reading.frozen_of_final {answer : Except Rejection Chain}
    (h : Reading Chain.tokens .operand r answer s) (hfinal : Final answer) :
    s.Frozen ∧ ∀ e, answer = .error (.grammatical e) → e = s.operandMissing := by
  cases h with
  | finished hpass htokens hend =>
    refine ⟨?_, nofun⟩
    rw [Frozen, hend]
    exact nofun
  | @refused tokens q s hpass hkind =>
    cases q with
    -- it was refused as no number
    | operand =>
      refine ⟨fun hnumber => hkind ?_, fun e he => ?_⟩
      · rw [hnumber]
        exact List.mem_singleton_self _
      · cases he
        rfl
    | operator =>
      -- behind an operand no number is expected
      cases hfinal
  | cutOff => cases hfinal

/-- Any other answer has taken a token or an error from what lay ahead. -/
theorem Reading.length_ahead_lt {answer : Except Rejection Chain}
    (h : Reading Chain.tokens .operand r answer s) (hfinal : ¬ Final answer) :
    s.ahead.length < r.ahead.length := by
  cases h with
  | finished => exact absurd (.ok _) hfinal
  | @refused tokens q s hpass hkind =>
    cases q with
    | operand => exact absurd (.operandMissing _ _) hfinal
    | operator =>
      -- an operand has been passed before
      have hne : tokens ≠ [] := by
        rintro rfl
        cases hpass.after_length
      have hpos := List.length_pos_iff.mpr hne
      rw [hpass.ahead_eq, List.length_append, List.length_map]
      omega
  -- the error is drawn, and the token before it stays
  | @cutOff tokens q s e hpass htakes hpeek =>
    have hne := ((q.takes_iff s.current.token).mp htakes).2
    have hleft : (Reader.mk s.current s.feed.tail).ahead = .ok s.current :: s.feed.tail.ahead :=
      ahead_of_ne_end hne
    rw [hpass.ahead_eq, ahead_of_ne_end hne, Feed.ahead_of_peek_error hpeek, hleft]
    simp only [List.length_append, List.length_cons]
    omega

/-- Whatever was asked for, a final answer leaves the reader frozen, at what the answer says. -/
theorem frozen_of_final {query : Query} (h : Final (r.respond query).1) :
    (r.respond query).2.Frozen ∧ ∀ e, (r.respond query).1 = .error (.grammatical e) →
      e = (r.respond query).2.operandMissing := by
  obtain ⟨answer, s, hreading, hrespond⟩ := r.exists_respond
  rw [hrespond] at h ⊢
  obtain ⟨hfrozen, hmissing⟩ := hreading.frozen_of_final ((final_map_iff _ _).mp h)
  refine ⟨hfrozen, fun e he => hmissing e ?_⟩
  cases answer with
  | ok chain => cases he
  | error cause => exact congrArg Except.error (Except.error.inj he)

theorem length_ahead_lt {query : Query} (h : ¬ Final (r.respond query).1) :
    (r.respond query).2.ahead.length < r.ahead.length := by
  obtain ⟨answer, s, hreading, hrespond⟩ := r.exists_respond
  rw [hrespond] at h ⊢
  exact hreading.length_ahead_lt (mt (final_map_iff _ _).mpr h)

/-! ### Sequences of queries -/

/-- Behind a response there are only rejections. -/
theorem countP_isOk_responses_le (r : Reader) (queries : List Query) :
    (r.responses queries).1.countP Except.isOk ≤ 1 := by
  induction queries generalizing r with
  | nil => exact Nat.zero_le 1
  | cons query rest ih =>
    rw [responses, List.countP_cons]
    cases hrespond : (r.respond query).1 with
    | error cause => exact ih _
    | ok response =>
      -- behind a response, all answers are the same rejection
      have hfinal : Final (r.respond query).1 := hrespond ▸ .ok response
      have hnone : ((r.respond query).2.responses rest).1.countP Except.isOk = 0 := by
        rw [(frozen_of_final hfinal).1.responses, List.countP_eq_zero]
        intro result hresult
        obtain ⟨_, -, rfl⟩ := List.mem_map.mp hresult
        exact Bool.false_ne_true
      rw [hnone]
      rfl

/-- Among as many answers as there are entries ahead, one is final. -/
theorem exists_final (r : Reader) {n : Nat} (hahead : r.ahead.length ≤ n) {queries : List Query}
    (hqueries : n ≤ queries.length) :
    ∃ result ∈ (r.responses queries).1.take n, Final result := by
  induction n generalizing r queries with
  | zero => simp [ahead] at hahead
  | succ n ih =>
    cases queries with
    | nil => simp at hqueries
    | cons query rest =>
      rw [responses, List.take_succ_cons]
      -- the first answer is final, or leaves so much less ahead that a later one is
      by_cases hfinal : Final (r.respond query).1
      · exact ⟨_, List.mem_cons_self, hfinal⟩
      · have hlt := length_ahead_lt hfinal
        obtain ⟨result, hmem, hresult⟩ :=
          ih (r.respond query).2 (by omega) (Nat.le_of_succ_le_succ hqueries)
        exact ⟨result, List.mem_cons_of_mem _ hmem, hresult⟩

/-! ### How much lies ahead -/

/-- Ahead of a text lie no more entries than it has characters, and the end. -/
theorem length_ahead_of_text {text : String} (h : start (Feed.ofText text) = .ok r) :
    r.ahead.length ≤ text.length + 1 := by
  rw [← ahead_of_start h, ahead_ofText]
  exact (Scanner.ofText text).length_all_le

/-- Ahead of a list lie no more entries than it has tokens, and an end. -/
theorem length_ahead_of_tokens {tokens : List LocatedToken}
    (h : start (Feed.ofTokens tokens) = .ok r) : r.ahead.length ≤ tokens.length + 1 := by
  rw [← ahead_of_start h, ahead_ofTokens, List.length_append, List.length_map]
  exact Nat.succ_le_succ (List.takeWhile_sublist _).length_le

/-- **Readers freeze and stay frozen.** When something has been read, or has been rejected where a
number is due, every later query is answered with one and the same rejection, that of the current
token, and changes nothing. So among all answers there is one response at most. Of a reader of a text
one of the first answers is such, which are as many as there are characters, and one more; of a
reader of a list as many as there are tokens, and one more. -/
theorem freezes_and_stays_frozen :
    (∀ (r : Reader) (query : Query), Final (r.respond query).1 →
      let s := (r.respond query).2
      (∀ e, (r.respond query).1 = .error (.grammatical e) → e = s.operandMissing) ∧
        ∀ later : List Query, s.responses later =
          (later.map fun _ => .error (.grammatical s.operandMissing), s)) ∧
    (∀ (r : Reader) (queries : List Query),
      (r.responses queries).1.countP Except.isOk ≤ 1) ∧
    (∀ text r, start (Feed.ofText text) = .ok r → ∀ queries : List Query,
      text.length + 1 ≤ queries.length →
        ∃ result ∈ (r.responses queries).1.take (text.length + 1), Final result) ∧
    ∀ tokens r, start (Feed.ofTokens tokens) = .ok r → ∀ queries : List Query,
      tokens.length + 1 ≤ queries.length →
        ∃ result ∈ (r.responses queries).1.take (tokens.length + 1), Final result := by
  refine ⟨fun r query hfinal => ?_, countP_isOk_responses_le, fun text r hstart queries => ?_,
    fun tokens r hstart queries => ?_⟩
  · obtain ⟨hfrozen, hmissing⟩ := frozen_of_final hfinal
    exact ⟨hmissing, hfrozen.responses⟩
  -- what lies ahead bounds the number of answers that are not final
  · exact r.exists_final (length_ahead_of_text hstart)
  · exact r.exists_final (length_ahead_of_tokens hstart)

end Reader

end AddingMachine
