import AddingMachine.Calculation
import AddingMachine.Proofs.Grammar

/-!
# Readings

What one reading does to a reader, and that reading a value and reading a tree do the same.
-/

namespace AddingMachine

/-! ## §1 What a reading does

A reading passes tokens that stand in their places, one after another, and then ends in one of three
ways: it is finished at the end of the input, it refuses the token in front of it, or its feed gives
an error when the next token is drawn. `exists_reading` says this of every reader, whatever its
feed, and gives the answers of `readTree` and `readValue` in all three cases. -/

/-! ### What lies ahead -/

/-- The entries up to the first end of the input, which is kept. -/
def untilEnd : List Scanned → List Scanned
  | [] => []
  | .error e :: rest => .error e :: untilEnd rest
  | .ok token :: rest => .ok token :: if token.token = .endOfInput then [] else untilEnd rest

/-- What follows the first end is not kept. -/
theorem untilEnd_append {entries : List Scanned} {finish : LocatedToken}
    (hentries : ∀ token, .ok token ∈ entries → token.token ≠ .endOfInput)
    (hfinish : finish.token = .endOfInput) (more : List Scanned) :
    untilEnd (entries ++ .ok finish :: more) = entries ++ [.ok finish] := by
  induction entries with
  | nil => simp [untilEnd, hfinish]
  | cons entry rest ih =>
    have hrest := ih fun token h => hentries token (List.mem_cons_of_mem _ h)
    cases entry with
    | error e => simpa [untilEnd] using hrest
    | ok token =>
      have htoken := hentries token List.mem_cons_self
      simpa [untilEnd, htoken] using hrest

/-- The entries that a feed is going to give, up to the first end of the input. -/
def Feed.ahead (feed : Feed) : List Scanned :=
  untilEnd (feed.pending ++ [.ok ⟨.endOfInput, feed.finish⟩])

namespace Reader

/-- The current token and the entries that follow it, up to the first end of the input. -/
def ahead (r : Reader) : List Scanned :=
  .ok r.current :: if r.current.token = .endOfInput then [] else r.feed.ahead

end Reader

namespace Feed

/-- If a token can be drawn, what lies ahead of the feed lies ahead of a reader of that token. -/
theorem ahead_of_peek_ok {feed : Feed} {next : LocatedToken} (h : feed.peek = .ok next) :
    feed.ahead = (Reader.mk next feed.tail).ahead := by
  unfold peek at h
  cases hp : feed.pending with
  | nil =>
    -- behind its entries a feed gives the end
    obtain rfl : ⟨.endOfInput, feed.finish⟩ = next := by simpa [hp] using h
    simp [ahead, Reader.ahead, hp, untilEnd]
  | cons entry rest =>
    obtain rfl : entry = .ok next := by simpa [hp] using h
    simp [ahead, Reader.ahead, tail, hp, untilEnd]

/-- An error that is drawn was the first entry ahead. -/
theorem ahead_of_peek_error {feed : Feed} {e : LexicalError} (h : feed.peek = .error e) :
    feed.ahead = .error e :: feed.tail.ahead := by
  unfold peek at h
  cases hp : feed.pending with
  | nil => simp [hp] at h
  | cons entry rest =>
    obtain rfl : entry = .error e := by simpa [hp] using h
    simp [ahead, tail, hp, untilEnd]

@[simp] theorem history_tail (feed : Feed) : feed.tail.history = feed.history ++ [feed.peek] := by
  simp [history, tail]

end Feed

namespace Reader

theorem ahead_of_end {r : Reader} (h : r.current.token = .endOfInput) :
    r.ahead = [.ok r.current] := by
  simp [ahead, h]

theorem ahead_of_ne_end {r : Reader} (h : r.current.token ≠ .endOfInput) :
    r.ahead = .ok r.current :: r.feed.ahead := by
  simp [ahead, h]

/-! ### Passing tokens -/

/-- Beginning in the first place, the reader `r` accepts the tokens one by one, each in a place that
takes it, and then stands as `s` in the second place. -/
inductive Passes : Place → Reader → List LocatedToken → Place → Reader → Prop where
  | stay (place : Place) (r : Reader) : Passes place r [] place r
  /-- The current token is accepted, and the next one is drawn. -/
  | accept {place q : Place} {r s : Reader} {next : LocatedToken} {tokens : List LocatedToken}
      (htakes : place.Takes r.current.token) (hpeek : r.feed.peek = .ok next)
      (hrest : Passes place.other ⟨next, r.feed.tail⟩ tokens q s) :
      Passes place r (r.current :: tokens) q s

namespace Passes

variable {place q : Place} {r s : Reader} {tokens : List LocatedToken}

theorem inPlace (h : Passes place r tokens q s) :
    InPlace place (tokens.map LocatedToken.token) := by
  induction h with
  | stay => trivial
  | accept htakes _ _ ih => exact ⟨htakes, ih⟩

theorem after_length (h : Passes place r tokens q s) : place.after tokens.length = q := by
  induction h with
  | stay => rfl
  | accept _ _ _ ih => exact ih

/-- What lay ahead are the passed tokens and what still lies ahead. -/
theorem ahead_eq (h : Passes place r tokens q s) : r.ahead = tokens.map .ok ++ s.ahead := by
  induction h with
  | stay => rfl
  | @accept place q r s next tokens htakes hpeek _ ih =>
    -- a token that is taken is not the end
    have hne := ((place.takes_iff r.current.token).mp htakes).2
    rw [ahead_of_ne_end hne, Feed.ahead_of_peek_ok hpeek, ih]
    rfl

/-- All that was drawn meanwhile were tokens: the passed ones but for the first, and the one that is
current now. -/
theorem history_eq (h : Passes place r tokens q s) :
    ∃ drawn, r.current :: drawn = tokens ++ [s.current] ∧
      s.feed.history = r.feed.history ++ drawn.map .ok := by
  induction h with
  | stay => exact ⟨[], rfl, (List.append_nil _).symm⟩
  | @accept place q r s next tokens _ hpeek _ ih =>
    obtain ⟨drawn, hdrawn, hhistory⟩ := ih
    refine ⟨next :: drawn, congrArg (r.current :: ·) hdrawn, ?_⟩
    rw [hhistory]
    simp [Feed.history_tail, hpeek]

end Passes

/-! ### How a reading ends -/

/-- A reading that begins in `place`, with its answer and the reader it leaves. What it has read is
of any type that is written as a sequence of tokens. -/
inductive Reading {α : Type} (written : α → List Token) (place : Place) (r : Reader) :
    Except Rejection α → Reader → Prop where
  /-- All tokens are passed up to the end of the input, which stays the current one. -/
  | finished {a : α} {tokens : List LocatedToken} {s : Reader}
      (hpass : Passes place r tokens .operator s)
      (htokens : tokens.map LocatedToken.token = written a)
      (hend : s.current.token = .endOfInput) :
      Reading written place r (.ok a) s
  /-- The current token is of a kind that its place does not allow, and stays the current one. -/
  | refused {tokens : List LocatedToken} {q : Place} {s : Reader}
      (hpass : Passes place r tokens q s) (hkind : s.current.token.kind ∉ q.expected) :
      Reading written place r
        (.error (.grammatical ⟨s.current.position, q.expected, s.current.token.kind⟩)) s
  /-- The current token is in place, but the feed gives an error instead of the next one. -/
  | cutOff {tokens : List LocatedToken} {q : Place} {s : Reader} {e : LexicalError}
      (hpass : Passes place r tokens q s) (htakes : q.Takes s.current.token)
      (hpeek : s.feed.peek = .error e) :
      Reading written place r (.error (.lexical e)) ⟨s.current, s.feed.tail⟩

/-- Before the tokens of a reading there can be one more. -/
theorem Reading.accept {α β : Type} {written : α → List Token} {written' : β → List Token}
    {place : Place} {r s : Reader} {next : LocatedToken} {answer : Except Rejection β}
    (f : β → α) (hf : ∀ b, written (f b) = r.current.token :: written' b)
    (htakes : place.Takes r.current.token) (hpeek : r.feed.peek = .ok next)
    (h : Reading written' place.other ⟨next, r.feed.tail⟩ answer s) :
    Reading written place r (answer.map f) s := by
  cases h with
  | finished hpass htokens hend =>
    refine .finished (.accept htakes hpeek hpass) ?_ hend
    -- the token that is accepted is the first one of what is read
    rw [hf, ← htokens]
    rfl
  | refused hpass hkind => exact .refused (.accept htakes hpeek hpass) hkind
  | cutOff hpass hq hpeek' => exact .cutOff (.accept htakes hpeek hpass) hq hpeek'

/-! ### Readings of expressions -/

/-- Goes on with a result and the reader it leaves, or keeps the rejection. -/
def andThen {α β : Type} (answer : Except Rejection α × Reader)
    (go : α → Reader → Except Rejection β × Reader) : Except Rejection β × Reader :=
  match answer with
  | (.error e, s) => (.error e, s)
  | (.ok a, s) => go a s

theorem readTree_eq (r : Reader) :
    r.readTree = andThen r.readNumber fun number s => s.readTreeFrom (.literal number) := by
  unfold readTree
  split
  next h => simp only [andThen, h]
  next h => simp only [andThen, h]

/-- What follows is an operator and a number, again and again. -/
theorem readTreeFrom_eq (left : Expression) (r : Reader) :
    r.readTreeFrom left = andThen r.readOperator? fun
      | none, s => (.ok left, s)
      | some operator, s => andThen s.readNumber fun number t =>
        t.readTreeFrom (.binary left operator (.literal number)) := by
  -- an error, no operator, or an operator and then the number behind it
  rw [readTreeFrom]
  split
  next ho => rw [ho]; rfl
  next ho => rw [ho]; rfl
  next ho =>
    split
    next hn => simp only [andThen, ho, hn]
    next hn => simp only [andThen, ho, hn]

/-- A value is read in the same way, with a total in the place of the tree. -/
theorem readValueFrom_eq (total : Binary64) (r : Reader) :
    r.readValueFrom total = andThen r.readOperator? fun
      | none, s => (.ok total, s)
      | some operator, s => andThen s.readNumber fun number t =>
        t.readValueFrom (operator.apply total number) := by
  rw [readValueFrom]
  split
  next ho => rw [ho]; rfl
  next ho => rw [ho]; rfl
  next ho =>
    split
    next hn => simp only [andThen, ho, hn]
    next hn => simp only [andThen, ho, hn]

theorem accept_of_peek_ok {α : Type} {r : Reader} {next : LocatedToken}
    (h : r.feed.peek = .ok next) (a : α) : r.accept a = (.ok a, ⟨next, r.feed.tail⟩) := by
  simp [accept, h]

theorem accept_of_peek_error {α : Type} {r : Reader} {e : LexicalError}
    (h : r.feed.peek = .error e) (a : α) :
    r.accept a = (.error (.lexical e), ⟨r.current, r.feed.tail⟩) := by
  simp [accept, h]

theorem readOperator?_of_operator {r : Reader} {operator : Operator}
    (h : r.current.token = operator.token) : r.readOperator? = r.accept (some operator) := by
  cases operator with
  | add => simp [readOperator?, h, Operator.token]
  | subtract => simp [readOperator?, h, Operator.token]

theorem readNumber_of_ne_number {r : Reader} (h : r.current.token.kind ≠ .number) :
    r.readNumber = r.refuse [.number] := by
  unfold readNumber
  split
  next value hvalue => exact absurd (by rw [hvalue]; rfl) h
  next => rfl

/-- What reading from an operator's place on amounts to. -/
def ReadsOperations (r : Reader) : Prop :=
  ∃ answer s, Reading operationTokens .operator r answer s ∧
    ∀ left, r.readTreeFrom left = (answer.map left.nestIn, s)

/-- Reading a number and then operations is the reading of a chain. -/
theorem exists_reading_chain (r : Reader)
    (hrest : ∀ s : Reader, s.remaining < r.remaining → s.ReadsOperations) :
    ∃ answer s, Reading Chain.tokens .operand r answer s ∧
      ∀ start : Binary64 → Expression,
        (andThen r.readNumber fun number t => t.readTreeFrom (start number)) =
          (answer.map fun chain => (start chain.first).nestIn chain.operations, s) := by
  by_cases hkind : r.current.token.kind = .number
  · obtain ⟨number, hnumber⟩ := r.current.token.exists_number hkind
    have htakes : Place.operand.Takes r.current.token := by rw [hnumber]; trivial
    have hread : r.readNumber = r.accept number := by simp [readNumber, hnumber]
    cases hpeek : r.feed.peek with
    | error e =>
      -- the number is in its place, but nothing is drawn behind it
      refine ⟨_, _, .cutOff (.stay _ _) htakes hpeek, fun start => ?_⟩
      rw [hread, accept_of_peek_error hpeek]
      rfl
    | ok next =>
      rw [accept_of_peek_ok hpeek] at hread
      -- the number is passed, and what follows it is read from the place of an operator
      obtain ⟨answer, s, hreading, htree⟩ := hrest _ (remaining_of_readNumber hread)
      refine ⟨answer.map (Chain.mk number), s,
        .accept (Chain.mk number) (fun _ => by rw [hnumber]; rfl) htakes hpeek hreading,
        fun start => ?_⟩
      rw [hread]
      show Reader.readTreeFrom (start number) _ = _
      rw [htree]
      cases answer with
      | error e => rfl
      | ok operations => rfl
  -- no number, where one is due
  · refine ⟨_, r, .refused (.stay _ _) (by simpa [Place.expected] using hkind), fun start => ?_⟩
    rw [readNumber_of_ne_number hkind]
    rfl

/-- Reading from an operator's place on is the reading of operations. -/
theorem readsOperations (r : Reader) : r.ReadsOperations := by
  -- an operator and a number are passed at a time, so fewer tokens remain
  induction h : r.remaining using Nat.strongRecOn generalizing r with
  | _ n ih =>
    subst h
    rcases r.current.token.cases_operator with hend | ⟨number, hnumber⟩ | ⟨operator, hoperator⟩
    · -- the end: there are no operations
      have hread : r.readOperator? = (.ok none, r) := by simp [readOperator?, hend]
      refine ⟨.ok [], r, .finished (.stay _ _) rfl hend, fun left => ?_⟩
      rw [readTreeFrom_eq, hread]
      rfl
    · -- a number, which is refused
      have hread : r.readOperator? = r.refuse [.plus, .minus, .endOfInput] := by
        simp [readOperator?, hnumber]
      have hkind : r.current.token.kind ∉ Place.operator.expected := by
        simp [hnumber, Token.kind, Place.expected]
      refine ⟨_, r, .refused (.stay _ _) hkind, fun left => ?_⟩
      rw [readTreeFrom_eq, hread]
      rfl
    · -- an operator: what follows it is read as a chain
      have hread := readOperator?_of_operator hoperator
      have htakes : Place.operator.Takes r.current.token := by
        rw [hoperator]
        exact operator.takes_token
      cases hpeek : r.feed.peek with
      | error e =>
        refine ⟨_, _, .cutOff (.stay _ _) htakes hpeek, fun left => ?_⟩
        rw [readTreeFrom_eq, hread, accept_of_peek_error hpeek]
        rfl
      | ok next =>
        rw [accept_of_peek_ok hpeek] at hread
        have hlt := remaining_of_readOperator hread
        obtain ⟨answer, s, hreading, htree⟩ :=
          exists_reading_chain _ fun t ht => ih _ (Nat.lt_trans ht hlt) t rfl
        refine ⟨answer.map fun chain => (operator, chain.first) :: chain.operations, s,
          .accept _ (fun _ => by rw [hoperator]; rfl) htakes hpeek hreading, fun left => ?_⟩
        rw [readTreeFrom_eq, hread]
        -- the operator takes the tree so far as its left operand
        refine (htree fun number => .binary left operator (.literal number)).trans ?_
        cases answer with
        | error e => rfl
        | ok chain => rfl

/-- Where reading a tree goes on from a tree, reading a value goes on from its value. -/
theorem readValueFrom_value (left : Expression) (r : Reader) :
    r.readValueFrom left.value =
      ((r.readTreeFrom left).1.map Expression.value, (r.readTreeFrom left).2) := by
  fun_induction readTreeFrom left r with
  -- the loops end alike: at an error, at the end, or where a number is missing
  | case1 left r e s ho => simp [readValueFrom_eq, andThen, ho, Except.map]
  | case2 left r s ho => simp [readValueFrom_eq, andThen, ho, Except.map]
  | case3 left r operator s ho e t hn => simp [readValueFrom_eq, andThen, ho, hn, Except.map]
  | case4 left r operator s ho number t hn _ ih =>
    -- the total so far is the value of the tree so far
    rw [readValueFrom_eq, ho]
    simp only [andThen, hn]
    rw [← ih, Expression.value_binary]
    rfl

/-- A value is read as the value of the tree that is read. -/
theorem readValue_eq (r : Reader) :
    r.readValue = (r.readTree.1.map Expression.value, r.readTree.2) := by
  rcases h : r.readNumber with ⟨e | number, s⟩
  · simp [readValue, readTree, h, Except.map]
  · simp only [readValue, readTree, h]
    exact readValueFrom_value (.literal number) s

/-- **What a reading does**: every reader has a reading of a chain, of which `readTree` gives the
tree and `readValue` the value, and which leaves both in the same state. -/
theorem exists_reading (r : Reader) :
    ∃ answer s, Reading Chain.tokens .operand r answer s ∧
      r.readTree = (answer.map Chain.tree, s) ∧ r.readValue = (answer.map Chain.value, s) := by
  obtain ⟨answer, s, hreading, htree⟩ := exists_reading_chain r fun s _ => s.readsOperations
  have hread : r.readTree = (answer.map Chain.tree, s) :=
    (readTree_eq r).trans (htree Expression.literal)
  refine ⟨answer, s, hreading, hread, ?_⟩
  -- the value of the chain is that of its tree
  rw [readValue_eq, hread]
  cases answer with
  | error e => rfl
  | ok chain => exact congrArg (fun value => (Except.ok value, s)) chain.value_tree

end Reader

/-! ## §2 Values agree with trees

Reading a value and reading a tree are two loops over the same feed. They accept and reject alike,
leave the reader in the same state, and the tree has the value that is read
(`readTree_agrees_readValue`). So whoever asks a reader for values may as well ask for trees and
find their values afterwards, in any sequence of queries and whatever came before. -/

namespace Reader

/-! ### Tokens that a reader consumes -/

/-- From `r` to `s` the tokens are consumed: the current one of `r` and all that are drawn from the
feed, but for the last, which is the current one of `s`. -/
def Consumes (r s : Reader) (tokens : List LocatedToken) : Prop :=
  ∃ drawn, r.current :: drawn = tokens ++ [s.current] ∧
    s.feed.history = r.feed.history ++ drawn.map .ok

/-- A tree that is read is left-nested, and holds the tokens that were consumed for it. -/
theorem consumes_of_readTree {r s : Reader} {tree : Expression} (h : r.readTree = (.ok tree, s)) :
    tree.LeftNested ∧ s.current.token = .endOfInput ∧
      ∃ tokens, r.Consumes s tokens ∧ tokens.map LocatedToken.token = tree.tokens := by
  obtain ⟨answer, s', hreading, htree, -⟩ := r.exists_reading
  obtain ⟨hanswer, rfl⟩ := Prod.mk.inj (htree.symm.trans h)
  -- of the three ways to end only the first gives a tree
  cases hreading with
  | @finished chain tokens _ hpass htokens hend =>
    obtain rfl : chain.tree = tree := Except.ok.inj hanswer
    exact ⟨chain.leftNested_tree, hend, tokens, hpass.history_eq, by rw [htokens, chain.tokens_tree]⟩
  | refused => exact nomatch hanswer
  | cutOff => exact nomatch hanswer

/-! ### Sequences of queries -/

/-- What a reader can be asked for. -/
inductive Query where
  | value
  | tree
  /-- The tree of an expression, of which the value is found afterwards. -/
  | valueOfTree
  deriving DecidableEq

/-- What a query is answered with. -/
inductive Response where
  | value (value : Binary64)
  | tree (tree : Expression)
  deriving DecidableEq

def respond (r : Reader) : Query → Except Rejection Response × Reader
  | .value => (r.readValue.1.map .value, r.readValue.2)
  | .tree => (r.readTree.1.map .tree, r.readTree.2)
  | .valueOfTree => (r.readTree.1.map fun tree => .value tree.value, r.readTree.2)

/-- The responses to queries that are made one after another, and the reader that is left. -/
def responses (r : Reader) : List Query → List (Except Rejection Response) × Reader
  | [] => ([], r)
  | query :: rest =>
    ((r.respond query).1 :: ((r.respond query).2.responses rest).1,
      ((r.respond query).2.responses rest).2)

/-- The query that asks for a value without a tree. -/
def Query.direct : Query → Query
  | .valueOfTree => .value
  | query => query

/-- Asking for the value without the tree changes neither the answer nor the reader. -/
theorem respond_direct (r : Reader) (query : Query) : r.respond query.direct = r.respond query := by
  cases query with
  | value => rfl
  | tree => rfl
  | valueOfTree =>
    show (r.readValue.1.map Response.value, r.readValue.2) = _
    rw [readValue_eq]
    cases h : r.readTree.1 with
    | error e => simp [respond, h, Except.map]
    | ok tree => simp [respond, h, Except.map]

/-- Nor does it in a sequence of queries, by induction on them. -/
theorem responses_direct (r : Reader) (queries : List Query) :
    r.responses (queries.map Query.direct) = r.responses queries := by
  induction queries generalizing r with
  | nil => rfl
  | cons query rest ih =>
    simp only [List.map_cons, responses, respond_direct, ih]

end Reader

/-! ### Values and trees of texts -/

/-- What is recorded at the end of a calculation has no part in its result. -/
theorem result_valueOf (text : String) :
    (valueOf text).result = (readOnce Reader.readValue (Feed.ofText text)).result := by
  unfold valueOf
  cases Reader.start (Feed.ofText text) with
  | error e => rfl
  | ok reader => rfl

/-- From every feed, the value that is read once is that of the tree. -/
theorem result_readOnce_readValue (feed : Feed) :
    (readOnce Reader.readValue feed).result =
      (readOnce Reader.readTree feed).result.map Expression.value := by
  unfold readOnce
  cases Reader.start feed with
  | ok reader =>
    show reader.readValue.1 = _
    rw [reader.readValue_eq]
  | error e => rfl

/-- **Values agree with trees**: from every reader, `readValue` and `readTree` give the same
rejection or a value and a tree of that value, and leave the same reader. The tree is left-nested
and holds the consumed tokens in order. In any sequence of queries values can be found with or
without trees, and so they can for every text. -/
theorem readTree_agrees_readValue (r : Reader) :
    r.readValue = (r.readTree.1.map Expression.value, r.readTree.2) ∧
    (∀ tree s, r.readTree = (.ok tree, s) →
      tree.LeftNested ∧ s.current.token = .endOfInput ∧
        ∃ tokens, r.Consumes s tokens ∧ tokens.map LocatedToken.token = tree.tokens) ∧
    (∀ queries : List Reader.Query,
      r.responses (queries.map Reader.Query.direct) = r.responses queries) ∧
    ∀ text, (treeOf text).result.map Expression.value = (valueOf text).result := by
  refine ⟨r.readValue_eq, fun tree s h => Reader.consumes_of_readTree h, r.responses_direct, ?_⟩
  intro text
  rw [result_valueOf, result_readOnce_readValue]
  rfl

end AddingMachine
