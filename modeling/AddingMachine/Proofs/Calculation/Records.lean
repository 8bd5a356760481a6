import AddingMachine.Proofs.Calculation.Streaming

/-!
# Records of calculations

What is recorded while a text is read, and how the outcome is told.
-/

namespace AddingMachine

/-! ## §1 What a calculation records

Looking for the tokens, the tree or the value of a text records each token that is drawn, in order,
and behind them the error, if there is one (`recordsOf`). Reading draws no more than it needs: up to
the end, to the token that it refuses, or to the error (`Drawn`). So what it draws is the beginning
of what there is to be found. `records_tell_drawn` says this of every text. -/

/-! ### Records -/

/-- What an event shows. -/
structure Record where
  level : Level
  target : Target
  message : String

def Event.record (event : Event) : Record :=
  ⟨event.level, event.target, event.message⟩

/-- The record of a token that is found. -/
def LocatedToken.record (token : LocatedToken) : Record :=
  ⟨.trace, .scanner, "lexed " ++ token.token.logText ++ " at " ++ Nat.repr token.position⟩

/-- The part that finds a cause. -/
def Rejection.target : Rejection → Target
  | .lexical _ => .scanner
  | .grammatical _ => .reader

/-- The record of a cause for which something is rejected. -/
def Rejection.record (cause : Rejection) : Record :=
  ⟨.debug, cause.target, cause.message⟩

/-- One record for each token, and behind them one for a rejection. -/
def recordsOf {α : Type} (tokens : List LocatedToken) (result : Except Rejection α) : List Record :=
  tokens.map LocatedToken.record ++ match result with
    | .ok _ => []
    | .error cause => [cause.record]

@[simp] theorem recordsOf_map {α β : Type} (f : α → β) (tokens : List LocatedToken)
    (result : Except Rejection α) : recordsOf tokens (result.map f) = recordsOf tokens result := by
  cases result with
  | ok a => rfl
  | error cause => rfl

/-- What is made of a result has no part in the events on the way to it. -/
theorem readingEvents_map {α β : Type} (f : α → β) (answer : Except Rejection α) (s : Reader) :
    readingEvents (answer.map f, s) = readingEvents (answer, s) := by
  cases answer with
  | ok a => rfl
  | error cause => cases cause <;> rfl

theorem map_record_ofScanned (tokens : List LocatedToken) :
    ((tokens.map .ok).map Event.ofScanned).map Event.record = tokens.map LocatedToken.record := by
  rw [List.map_map, List.map_map]
  rfl

/-! ### Tokens that are found -/

/-- The tokens before the first error. -/
def leadingTokens : List Scanned → List LocatedToken
  | .ok token :: rest => token :: leadingTokens rest
  | .error _ :: _ => []
  | [] => []

theorem leadingTokens_append (tokens : List LocatedToken) (more : List Scanned) :
    leadingTokens (tokens.map .ok ++ more) = tokens ++ leadingTokens more := by
  induction tokens with
  | nil => rfl
  | cons token rest ih => exact congrArg (token :: ·) ih

theorem untilError_append (tokens : List LocatedToken) (more : List Scanned) :
    untilError (tokens.map .ok ++ more) = tokens.map .ok ++ untilError more := by
  induction tokens with
  | nil => rfl
  | cons token rest ih => exact congrArg (.ok token :: ·) ih

/-- Looking for all tokens records those before the first error, and the error. -/
theorem records_tokensOf (text : String) :
    (tokensOf text).events.map Event.record =
      recordsOf (leadingTokens (Scanner.ofText text).all)
        ((tokensOf text).result.mapError .lexical) := by
  show ((untilError (Scanner.ofText text).all).map Event.ofScanned).map Event.record = _
  -- all entries are tokens, or an error is the first that is none
  rcases mapM_id_cases (Scanner.ofText text).all with
    ⟨tokens, hall, hresult⟩ | ⟨tokens, e, more, hall, hresult⟩
  · have hfound : (tokensOf text).result = .ok tokens := hresult
    have hend : (Scanner.ofText text).all = tokens.map .ok ++ [] := by rw [hall, List.append_nil]
    rw [hfound, hend, untilError_append, leadingTokens_append, List.map_append, List.map_append,
      map_record_ofScanned]
    simp [recordsOf, leadingTokens, untilError, Except.mapError]
  · have hfound : (tokensOf text).result = .error e := hresult
    rw [hfound, hall, untilError_append, leadingTokens_append, List.map_append, List.map_append,
      map_record_ofScanned]
    simp [recordsOf, leadingTokens, untilError, Except.mapError]
    rfl

/-! ### Tokens that are drawn -/

/-- The tokens that are drawn from the front of some entries, when reading comes to a result. -/
inductive Drawn {α : Type} (entries : List Scanned) :
    List LocatedToken → Except Rejection α → Prop where
  /-- The last one is the end of the input. -/
  | finished {a : α} {before : List LocatedToken} {finish : LocatedToken} {more : List Scanned}
      (hentries : entries = (before ++ [finish]).map .ok ++ more)
      (hfinish : finish.token = .endOfInput) :
      Drawn entries (before ++ [finish]) (.ok a)
  /-- The last one is the token that is refused. -/
  | refused {before : List LocatedToken} {token : LocatedToken} {more : List Scanned}
      {expected : List TokenKind} (hentries : entries = (before ++ [token]).map .ok ++ more) :
      Drawn entries (before ++ [token])
        (.error (.grammatical ⟨token.position, expected, token.token.kind⟩))
  /-- All tokens before an error are drawn. -/
  | cutOff {tokens : List LocatedToken} {e : LexicalError} {more : List Scanned}
      (hentries : entries = tokens.map .ok ++ .error e :: more) :
      Drawn entries tokens (.error (.lexical e))

namespace Drawn

variable {α β : Type} {entries : List Scanned} {tokens : List LocatedToken}
  {result : Except Rejection α}

theorem map (h : Drawn entries tokens result) (f : α → β) :
    Drawn entries tokens (result.map f) := by
  cases h with
  | finished hentries hfinish => exact .finished hentries hfinish
  | refused hentries => exact .refused hentries
  | cutOff hentries => exact .cutOff hentries

/-- What is drawn is the beginning of what can be found. -/
theorem isPrefix (h : Drawn entries tokens result) : tokens <+: leadingTokens entries := by
  have hprefix : ∀ more, entries = tokens.map .ok ++ more → tokens <+: leadingTokens entries := by
    rintro more rfl
    rw [leadingTokens_append]
    exact List.prefix_append _ _
  cases h with
  | finished hentries => exact hprefix _ hentries
  | refused hentries => exact hprefix _ hentries
  | cutOff hentries => exact hprefix _ hentries

end Drawn

namespace Reader

variable {r s : Reader} {answer : Except Rejection Chain}

/-- A reading that begins with the first token of its feed records what it draws. -/
theorem Reading.exists_drawn (h : Reading Chain.tokens .operand r answer s)
    (hfirst : r.feed.history = [.ok r.current]) :
    ∃ drawn, Drawn r.ahead drawn answer ∧
      (readingEvents (answer, s)).map Event.record = recordsOf drawn answer := by
  -- what has been handed out are the tokens that were passed, and the current one
  have hhistory : ∀ {tokens : List LocatedToken} {q : Place} {t : Reader},
      Passes .operand r tokens q t → t.feed.history = (tokens ++ [t.current]).map .ok := by
    intro tokens q t hpass
    obtain ⟨drawn, hdrawn, hmore⟩ := hpass.history_eq
    rw [hmore, hfirst, ← hdrawn]
    rfl
  cases h with
  -- the end is the current token, and the last one drawn
  | @finished chain tokens s hpass htokens hend =>
    have hentries : r.ahead = (tokens ++ [s.current]).map .ok ++ [] := by
      rw [hpass.ahead_eq, ahead_of_end hend]
      simp
    refine ⟨tokens ++ [s.current], .finished hentries hend, ?_⟩
    rw [readingEvents, hhistory hpass, List.map_append, map_record_ofScanned]
    rfl
  -- so is the token that is refused
  | @refused tokens q s hpass hkind =>
    obtain ⟨more, hmore⟩ : ∃ more, s.ahead = .ok s.current :: more := ⟨_, rfl⟩
    have hentries : r.ahead = (tokens ++ [s.current]).map .ok ++ more := by
      rw [hpass.ahead_eq, hmore]
      simp
    refine ⟨tokens ++ [s.current], .refused hentries, ?_⟩
    rw [readingEvents, hhistory hpass, List.map_append, map_record_ofScanned]
    rfl
  -- the token before the error is the last one drawn, and the error follows it in the history
  | @cutOff tokens q s e hpass htakes hpeek =>
    have hne := ((q.takes_iff s.current.token).mp htakes).2
    have hentries : r.ahead =
        (tokens ++ [s.current]).map .ok ++ .error e :: s.feed.tail.ahead := by
      rw [hpass.ahead_eq, ahead_of_ne_end hne, Feed.ahead_of_peek_error hpeek]
      simp
    refine ⟨tokens ++ [s.current], .cutOff hentries, ?_⟩
    rw [readingEvents, Feed.history_tail, hhistory hpass, hpeek, List.append_nil, List.map_append,
      List.map_append, map_record_ofScanned]
    rfl

end Reader

/-- Reading a feed that has handed out nothing yet records what it draws. -/
theorem exists_drawn_readOnce {feed : Feed} (hnew : feed.drawn = []) :
    ∃ drawn, Drawn feed.ahead drawn (readOnce Reader.readTree feed).result ∧
      (readOnce Reader.readTree feed).events.map Event.record =
        recordsOf drawn (readOnce Reader.readTree feed).result := by
  cases hpeek : feed.peek with
  | ok next =>
    have hstart : Reader.start feed = .ok ⟨next, feed.tail⟩ := by simp [Reader.start, hpeek]
    -- the first token is drawn to start with
    have hfirst : feed.tail.history = [.ok next] := by
      rw [Feed.history_tail, Feed.history, hnew, hpeek]
      rfl
    obtain ⟨answer, s, hreading, htree, -⟩ := (Reader.mk next feed.tail).exists_reading
    obtain ⟨drawn, hdrawn, hrecords⟩ := hreading.exists_drawn hfirst
    refine ⟨drawn, ?_, ?_⟩
    · rw [Feed.ahead_of_peek_ok hpeek]
      simpa [readOnce, hstart, htree] using hdrawn.map Chain.tree
    · simp only [readOnce, hstart, htree, readingEvents_map, hrecords, recordsOf_map]
  | error e =>
    -- there is no reader without a first token
    have hstart : Reader.start feed = .error e := by simp [Reader.start, hpeek]
    refine ⟨[], ?_, ?_⟩
    · simp only [readOnce, hstart]
      exact .cutOff (Feed.ahead_of_peek_error hpeek)
    · simp only [readOnce, hstart]
      rfl

/-- A value causes the events of a tree. -/
theorem events_readOnce_readValue (feed : Feed) :
    (readOnce Reader.readValue feed).events = (readOnce Reader.readTree feed).events := by
  unfold readOnce
  cases Reader.start feed with
  | error e => rfl
  | ok reader =>
    show readingEvents reader.readValue = readingEvents reader.readTree
    rw [reader.readValue_eq, readingEvents_map]

/-- The value of a text causes the events of its tree, and then one that tells the outcome, unless
there is no first token. -/
theorem exists_events_valueOf (text : String) :
    ∃ outcome : List Event, (valueOf text).events = (treeOf text).events ++ outcome ∧
      outcome.length ≤ 1 ∧ ∀ event ∈ outcome, event.target = .calculation ∧ event.level = .debug := by
  have hreading := events_readOnce_readValue (Feed.ofText text)
  unfold valueOf treeOf
  cases Reader.start (Feed.ofText text) with
  | error e => exact ⟨[], by rw [List.append_nil]; exact hreading, Nat.zero_le _, nofun⟩
  -- the outcome is the one event more
  | ok reader =>
    refine ⟨[outcomeEvent text (readOnce Reader.readValue (Feed.ofText text)).result], ?_,
      Nat.le_refl _, List.forall_mem_singleton.mpr ?_⟩
    · exact congrArg (· ++ _) hreading
    · cases (readOnce Reader.readValue (Feed.ofText text)).result with
      | ok value => exact ⟨rfl, rfl⟩
      | error cause => exact ⟨rfl, rfl⟩

/-- Of tokens that are there already, only a rejection is recorded, and it is one of the grammar. -/
theorem records_valueOfTokens (tokens : List LocatedToken) :
    (valueOfTokens tokens).events.map Event.record = recordsOf [] (valueOfTokens tokens).result := by
  have hresult : (valueOfTokens tokens).result =
      (readOnce Reader.readValue (Feed.ofTokens tokens)).result := rfl
  have hlexical := valueOfTokens_ne_lexical tokens
  rw [hresult] at hlexical ⊢
  unfold valueOfTokens
  dsimp only
  cases h : (readOnce Reader.readValue (Feed.ofTokens tokens)).result with
  | ok value => rfl
  | error cause =>
    cases cause with
    | lexical e => exact absurd h (hlexical e)
    | grammatical e => rfl

/-! ### Records of a text -/

/-- **Records tell what is drawn.** Looking for all tokens of a text records each token that stepping
through it finds, in order, and behind them the error, if there is one. Looking for the tree records
the tokens that are drawn for it, which are the first of these, and then what is wrong. Looking for
the value records the same, and then at most the outcome. For tokens that are there already only what
is wrong is recorded. -/
theorem records_tell_drawn (text : String) :
    (∃ found drawn : List LocatedToken,
      (tokensOf text).events.map Event.record =
        recordsOf found ((tokensOf text).result.mapError .lexical) ∧
      (∀ tokens, (tokensOf text).result = .ok tokens →
        found = tokens ∧ (Scanner.ofText text).steps tokens.length = tokens.map .ok) ∧
      (∀ e, (tokensOf text).result = .error e →
        (Scanner.ofText text).steps (found.length + 1) = found.map .ok ++ [.error e]) ∧
      (treeOf text).events.map Event.record = recordsOf drawn (treeOf text).result ∧
      Drawn (Scanner.ofText text).all drawn (treeOf text).result ∧ drawn <+: found ∧
      ∃ outcome : List Event, (valueOf text).events = (treeOf text).events ++ outcome ∧
        outcome.length ≤ 1 ∧
        ∀ event ∈ outcome, event.target = .calculation ∧ event.level = .debug) ∧
    ∀ tokens : List LocatedToken, (valueOfTokens tokens).events.map Event.record =
      recordsOf [] (valueOfTokens tokens).result := by
  have hnew : (Feed.ofText text).drawn = [] := rfl
  obtain ⟨drawn, hdrawn, hrecords⟩ := exists_drawn_readOnce hnew
  rw [ahead_ofText] at hdrawn
  refine ⟨⟨_, drawn, records_tokensOf text, fun tokens hfound => ?_, fun e hfound => ?_, hrecords,
    hdrawn, hdrawn.isPrefix, exists_events_valueOf text⟩, records_valueOfTokens⟩
  -- all entries are tokens, so that none is missing before an error
  · have hall := all_eq_of_tokensOf hfound
    have hlength : tokens.length = (Scanner.ofText text).all.length := by simp [hall]
    refine ⟨?_, ?_⟩
    · have hleading := leadingTokens_append tokens []
      rwa [List.append_nil, leadingTokens, List.append_nil, ← hall] at hleading
    · rw [Scanner.steps_eq_take _ hlength.le, hlength, List.take_length, hall]
  -- the tokens before the first error are those that lead
  · obtain ⟨tokens, more, hall⟩ := exists_all_eq_of_tokensOf hfound
    have hleading : leadingTokens (Scanner.ofText text).all = tokens := by
      rw [hall, leadingTokens_append]
      exact List.append_nil _
    rw [hleading]
    exact Scanner.steps_of_error hall

/-! ## §2 The record of an outcome

Where a text has a first token, the last record of its calculation tells the outcome: the value, or
why there is none. No other record tells one (`TellsOutcome`). Of a text that begins with a
misspelling nothing is recorded but the misspelling, since a calculation begins with its first token
(`outcome_recorded`). -/

/-! ### Records of the calculation -/

/-- What is recorded of the outcome for a text. -/
def outcomeRecord (text : String) : Except Rejection Binary64 → Record
  | .ok value => ⟨.debug, .calculation,
      "calculate(" ++ Text.quotedText text ++ ") = " ++ value.text .plain⟩
  | .error cause => ⟨.debug, .calculation,
      "calculate(" ++ Text.quotedText text ++ ") failed: " ++ cause.message⟩

theorem record_outcomeEvent (text : String) (result : Except Rejection Binary64) :
    (outcomeEvent text result).record = outcomeRecord text result := by
  cases result with
  | ok value => rfl
  | error cause => rfl

theorem target_outcomeRecord (text : String) (result : Except Rejection Binary64) :
    (outcomeRecord text result).target = .calculation := by
  cases result with
  | ok value => rfl
  | error cause => rfl

/-- The last record for a text tells its outcome, and no other one comes from the calculation. -/
def TellsOutcome (text : String) : Prop :=
  ∃ before, (valueOf text).events.map Event.record =
      before ++ [outcomeRecord text (valueOf text).result] ∧
    ∀ record ∈ before, record.target ≠ .calculation

/-- While reading, the scanner records what it hands out and the reader what it refuses. -/
theorem origin_of_mem_readOnce {α : Type} {read : Reader → Except Rejection α × Reader}
    {feed : Feed} {event : Event} (h : event ∈ (readOnce read feed).events) :
    (∃ entry, event = .ofScanned entry) ∨ ∃ e, event = .misplaced e := by
  unfold readOnce at h
  cases hstart : Reader.start feed with
  | error e =>
    rw [hstart] at h
    exact .inl ⟨.error e, List.mem_singleton.mp h⟩
  | ok reader =>
    rw [hstart] at h
    -- what was drawn, and behind it what was refused
    rcases List.mem_append.mp h with hdrawn | hrefused
    · obtain ⟨entry, -, rfl⟩ := List.mem_map.mp hdrawn
      exact .inl ⟨entry, rfl⟩
    · -- a reading that ends otherwise adds nothing to what is drawn
      split at hrefused
      next => exact .inr ⟨_, List.mem_singleton.mp hrefused⟩
      next => cases hrefused

/-- Scanner and reader record what they do in their own names. -/
theorem target_of_mem_readOnce {α : Type} {read : Reader → Except Rejection α × Reader}
    {feed : Feed} {event : Event} (h : event ∈ (readOnce read feed).events) :
    event.target ≠ .calculation := by
  obtain ⟨entry, rfl⟩ | ⟨e, rfl⟩ := origin_of_mem_readOnce h
  · cases entry with
    | ok token => exact nofun
    | error e => exact nofun
  · exact nofun

/-! ### Texts without a first token -/

/-- Behind a gap, the characters begin with a misspelling, of which the error is given. -/
inductive OpensMisspelled : List Char → LexicalError → Prop where
  | behind (gap : Gap) (m : Misspelling) (rest : List Char) (hstays : m.StaysBefore rest) :
      OpensMisspelled (gap.chars ++ (m.before ++ m.character :: rest))
        (m.errorAt (gap.chars.length + m.before.length))

/-- The first step finds an error where a misspelling is the first thing there is. -/
theorem Scanner.next_eq_error_iff (chars : List Char) (e : LexicalError) :
    (Scanner.mk chars 0).next.1 = .error e ↔ OpensMisspelled chars e := by
  constructor
  · intro hnext
    -- only a misspelling gives an error
    cases opening chars with
    | gap gap =>
      rw [next_gap] at hnext
      cases hnext
    | lexeme gap lexeme rest hends =>
      rw [next_lexeme gap lexeme hends] at hnext
      cases hnext
    | misspelling gap m rest hstays =>
      rw [next_misspelling gap m hstays, Nat.zero_add] at hnext
      obtain rfl := Except.error.inj hnext
      exact .behind gap m rest hstays
  · rintro ⟨gap, m, rest, hstays⟩
    rw [next_misspelling gap m hstays, Nat.zero_add]

/-- The first entry of the feed of a text is what the first step finds. -/
theorem Feed.peek_ofText (text : String) :
    (Feed.ofText text).peek = (Scanner.mk text.toList 0).next.1 := by
  show ((Scanner.ofText text).all.head?).getD _ = _
  rw [Scanner.head?_all]
  rfl

theorem Reader.start_eq_error_iff (text : String) (e : LexicalError) :
    Reader.start (Feed.ofText text) = .error e ↔ OpensMisspelled text.toList e := by
  rw [← Scanner.next_eq_error_iff, ← Feed.peek_ofText, Reader.start]
  cases (Feed.ofText text).peek with
  | ok token => simp
  | error e => simp

/-! ### Outcomes -/

/-- With a first token, the last event is that of the outcome. -/
theorem events_valueOf_of_start {text : String} {reader : Reader}
    (h : Reader.start (Feed.ofText text) = .ok reader) :
    (valueOf text).events = (readOnce Reader.readValue (Feed.ofText text)).events ++
      [outcomeEvent text (valueOf text).result] := by
  rw [valueOf, h]

/-- Without a first token, the error in its place is all there is. -/
theorem valueOf_of_opensMisspelled {text : String} {e : LexicalError}
    (h : OpensMisspelled text.toList e) : (valueOf text).result = .error (.lexical e) ∧
      (valueOf text).events.map Event.record = [(Rejection.lexical e).record] := by
  have hstart := (Reader.start_eq_error_iff text e).mpr h
  rw [valueOf, readOnce, hstart]
  exact ⟨rfl, rfl⟩

/-- The outcome is told unless the text begins with a misspelling. -/
theorem tellsOutcome_iff (text : String) :
    TellsOutcome text ↔ ∀ e, ¬ OpensMisspelled text.toList e := by
  constructor
  · rintro ⟨before, hrecords, -⟩ e hopens
    rw [(valueOf_of_opensMisspelled hopens).2] at hrecords
    -- the only record is of the scanner
    obtain ⟨-, hlast⟩ := List.append_inj' (show [] ++ _ = _ from hrecords) rfl
    have htarget := target_outcomeRecord text (valueOf text).result
    rw [← (List.cons.inj hlast).1] at htarget
    cases htarget
  · intro hopens
    cases hstart : Reader.start (Feed.ofText text) with
    | error e => exact absurd ((Reader.start_eq_error_iff text e).mp hstart) (hopens e)
    -- the records of reading come before the outcome, and none of them is of the calculation
    | ok reader =>
      let reading := (readOnce Reader.readValue (Feed.ofText text)).events
      refine ⟨reading.map Event.record, ?_, fun record hrecord => ?_⟩
      · rw [events_valueOf_of_start hstart, List.map_append, List.map_singleton,
          record_outcomeEvent]
      · obtain ⟨event, hevent, rfl⟩ := List.mem_map.mp hrecord
        exact target_of_mem_readOnce hevent

/-- **Outcomes are recorded** where a calculation begins. The records for a text end with one that
tells the value, or why there is none, and none before it comes from the calculation, unless the text
begins with a misspelling. Then the text is rejected for the misspelling, and this is the only
record. -/
theorem outcome_recorded (text : String) :
    (TellsOutcome text ↔ ∀ e, ¬ OpensMisspelled text.toList e) ∧
      ∀ e, OpensMisspelled text.toList e →
        (valueOf text).result = .error (.lexical e) ∧
          (valueOf text).events.map Event.record = [(Rejection.lexical e).record] :=
  ⟨tellsOutcome_iff text, fun _ => valueOf_of_opensMisspelled⟩

/-- Nothing tells that there is no value of a letter. -/
theorem not_tellsOutcome_letter : ¬ TellsOutcome "x" := by
  rw [tellsOutcome_iff]
  intro hopens
  have hletter : isRecognized 'x' = false := by decide
  exact hopens _ (.behind .empty (.unrecognized 'x' hletter) [] trivial)

end AddingMachine
