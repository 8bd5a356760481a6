import AddingMachine.Proofs.Calculation.Streaming
import AddingMachine.Proofs.Session.Report

/-!
# Six configurations

Whatever is asked for, the value, the tree or the tokens, and whether it is answered as text or in
JSON, it is the same story: the text is what the fields of the JSON line say
(`Report.shown?_of_denotes`), values and trees are found for the same texts, and the tokens for these
texts at least. `configurations_agree` says all of it.
-/

namespace AddingMachine

/-! ## §1 What the fields of a report say -/

namespace JsonValue

/-- The double that a JSON number is nearest to, or that stands in a string where there is no such
number. -/
def double? : JsonValue → Option Binary64
  | .number negative d => some (d.toBinary64 negative)
  | .string text => [("inf", .infinite false), ("-inf", .infinite true), ("NaN", .nan)].lookup text
  | _ => none

def natural? : JsonValue → Option Nat
  | .number false ⟨n, 0⟩ => some n
  | _ => none

end JsonValue

namespace Report

/-- The message of a rejection. -/
def message? (fields : List (String × JsonValue)) : Option String :=
  match fields.lookup "error" with
  | some (.object error) =>
    match error.lookup "message" with
    | some (.string message) => some message
    | _ => none
  | _ => none

def result? (fields : List (String × JsonValue)) : Option Binary64 :=
  (fields.lookup "result").bind JsonValue.double?

/-- The text of a token. -/
def tokenText? : JsonValue → Option String
  | .object [("Number", value)] => value.double?.map (·.text .plain)
  | .string name => [("Plus", "+"), ("Minus", "-"), ("EOF", "end of input")].lookup name
  | _ => none

/-- The line of a token: its position, a tab and its text. -/
def tokenLine? : JsonValue → Option String
  | .object fields => do
    let token ← (fields.lookup "token").bind tokenText?
    let position ← (fields.lookup "position").bind JsonValue.natural?
    return Nat.repr position ++ "\t" ++ token ++ "\n"
  | _ => none

/-- The text that the fields of an accepted expression determine: its result, its tree and its
result, or a line for each of its tokens. -/
def shown? (fields : List (String × JsonValue)) : Option String :=
  match fields.lookup "tokens", fields.lookup "ast" with
  | some (.array items), none => (items.mapM tokenLine?).map String.join
  | none, some (.string tree) =>
    (result? fields).map fun result => tree ++ " = " ++ result.text .plain ++ "\n"
  | none, none => (result? fields).map fun result => result.text .plain ++ "\n"
  | _, _ => none

/-! ## §2 Text and JSON -/

open Json

variable {input : String} {entries : List (String × JsonValue)}

/-- The double of a result is read off its JSON, whichever form it has. -/
theorem double?_of_denotes {x : Binary64} {value : JsonValue}
    (h : (Answer.resultJson x).Denotes value) : value.double? = some x := by
  cases x with
  | nan =>
    obtain rfl := denotes_string_iff.mp h
    decide +kernel
  | infinite negative =>
    obtain rfl := denotes_string_iff.mp h
    cases negative <;> decide +kernel
  -- a number that has it as its nearest double
  | finite negative m =>
    obtain ⟨d, rfl, hread⟩ := denotes_finite_iff.mp h
    exact congrArg some hread

/-- Every number among the tokens of a text is finite. -/
def FiniteLiterals (text : String) : Prop :=
  ∀ tokens, (tokensOf text).result = .ok tokens →
    ∀ located ∈ tokens, ∀ x, located.token = .number x → x.isFinite = true

/-- The text of a token is read off its JSON, if its number is finite. -/
theorem tokenText?_of_denotes {token : Token} {value : JsonValue}
    (hfinite : ∀ x, token = .number x → x.isFinite = true)
    (h : (Answer.tokenJson token).Denotes value) : tokenText? value = some token.text := by
  cases token with
  | number x =>
    have hx := hfinite x rfl
    -- a finite number is written like a result
    have hresult : Answer.resultJson x = .number x := if_pos hx
    obtain ⟨number, hnumber, rfl⟩ := Answer.denotes_tokenJson_number_iff.mp h
    rw [← hresult] at hnumber
    simp [tokenText?, double?_of_denotes hnumber, Token.text]
  | plus =>
    -- all other tokens are strings
    obtain rfl := denotes_string_iff.mp h
    decide +kernel
  | minus =>
    obtain rfl := denotes_string_iff.mp h
    decide +kernel
  | endOfInput =>
    obtain rfl := denotes_string_iff.mp h
    decide +kernel

theorem tokenLine?_of_denotes {located : LocatedToken} {value : JsonValue}
    (hfinite : ∀ x, located.token = .number x → x.isFinite = true)
    (h : (Answer.locatedJson located).Denotes value) :
    tokenLine? value = some (Answer.tokenLine located) := by
  obtain ⟨token, htoken, rfl⟩ := Answer.denotes_locatedJson_iff.mp h
  simp [tokenLine?, List.lookup_cons, tokenText?_of_denotes hfinite htoken, JsonValue.natural?,
    Answer.tokenLine]

theorem mapM_tokenLine? {tokens : List LocatedToken} {values : List JsonValue}
    (hfinite : ∀ located ∈ tokens, ∀ x, located.token = .number x → x.isFinite = true)
    (h : List.Forall₂ Denotes (tokens.map Answer.locatedJson) values) :
    values.mapM tokenLine? = some (tokens.map Answer.tokenLine) := by
  induction tokens generalizing values with
  | nil =>
    cases h
    rfl
  | cons located rest ih =>
    obtain ⟨value, others, hvalue, hothers, rfl⟩ := List.forall₂_cons_left_iff.mp h
    have hfirst := tokenLine?_of_denotes (hfinite located List.mem_cons_self) hvalue
    have hrest := ih (fun other hother => hfinite other (List.mem_cons_of_mem _ hother)) hothers
    simp [List.mapM_cons, hfirst, hrest]

/-- **Text and JSON** show the same of an accepted expression: the text is what the fields say. -/
theorem shown?_of_denotes {answer : Answer}
    (hfinite : ∀ tokens, answer = .tokens tokens →
      ∀ located ∈ tokens, ∀ x, located.token = .number x → x.isFinite = true)
    (h : DenotesFields (Reply.fields input (.ok answer)) entries) :
    shown? entries = some answer.text := by
  cases answer with
  | value x =>
    obtain ⟨result, hresult, rfl⟩ := Reply.denotesFields_value h
    simp [shown?, result?, List.lookup_cons, double?_of_denotes hresult, Answer.text]
  | tokens tokens =>
    -- the lines of the tokens make up the text
    obtain ⟨values, hvalues, rfl⟩ := Reply.denotesFields_tokens h
    simp [shown?, List.lookup_cons, mapM_tokenLine? (hfinite tokens rfl) hvalues, Answer.text]
  | tree e =>
    obtain ⟨result, hresult, rfl⟩ := Reply.denotesFields_tree h
    simp [shown?, result?, List.lookup_cons, double?_of_denotes hresult, Answer.text]

theorem message?_of_ok {answer : Answer}
    (h : DenotesFields (Reply.fields input (.ok answer)) entries) : message? entries = none := by
  cases answer with
  | value x =>
    obtain ⟨result, -, rfl⟩ := Reply.denotesFields_value h
    rfl
  | tokens tokens =>
    obtain ⟨values, -, rfl⟩ := Reply.denotesFields_tokens h
    rfl
  | tree e =>
    obtain ⟨result, -, rfl⟩ := Reply.denotesFields_tree h
    rfl

theorem message?_of_error {cause : Rejection}
    (h : DenotesFields (Reply.fields input (.error cause)) entries) :
    message? entries = some cause.message := by
  obtain rfl := Reply.denotesFields_rejection h
  rfl

end Report

/-! ## §3 Values, trees and tokens -/

/-- The value of a text is that of its tree. -/
theorem result_valueOf_eq_map (text : String) :
    (valueOf text).result = (treeOf text).result.map Expression.value := by
  rw [result_valueOf, result_readOnce_readValue]
  rfl

/-- Where an error keeps the tokens from being found, value and tree are rejected for this error, or
for a token that stands before it. -/
theorem exists_cause_of_tokensOf {text : String} {e : LexicalError}
    (h : (tokensOf text).result = .error e) :
    ∃ cause, (valueOf text).result = .error cause ∧ (treeOf text).result = .error cause ∧
      (cause = .lexical e ∨
        ∃ misplaced, cause = .grammatical misplaced ∧ misplaced.position < e.position) := by
  obtain ⟨tokens, more, hall⟩ := exists_all_eq_of_tokensOf h
  -- either all tokens before the error are in place, or one of them is the first that is not
  by_cases hplace : InPlace .operand (tokens.map LocatedToken.token)
  · obtain ⟨htree, hvalue⟩ :=
      results_of_outcome ⟨tokens, .error e, more, hall, hplace, .misspelled e⟩
    exact ⟨_, hvalue, htree, .inl rfl⟩
  · obtain ⟨before, token, after, rfl, hbefore, htoken⟩ := exists_first_misplaced hplace
    have hne : token.token ≠ .endOfInput := by
      intro heq
      apply Scanner.endOfInput_notMem_of_error hall
      simp [heq]
    have hkind : token.token.kind ∉ (Place.operand.after before.length).expected :=
      fun hmem => htoken ((Place.takes_iff _ _).mpr ⟨hmem, hne⟩)
    have hposition : token.position < e.position :=
      Scanner.position_lt_of_error hall (by simp)
    rw [List.map_append, List.map_cons, List.append_assoc, List.cons_append] at hall
    obtain ⟨htree, hvalue⟩ :=
      results_of_outcome ⟨before, .ok token, _, hall, hbefore, .misplaced hkind⟩
    exact ⟨_, hvalue, htree, .inr ⟨_, rfl, hposition⟩⟩

/-- The tokens of a text are found if its value or its tree is. -/
theorem Mode.not_rejected_tokens {mode : Mode} {text : String} (h : ¬ mode.Rejected text) :
    ¬ Mode.tokens.Rejected text := by
  rintro ⟨-, e, htokens, -⟩
  obtain ⟨cause, hvalue, htree, -⟩ := exists_cause_of_tokensOf htokens
  apply h
  cases mode with
  | value => exact ⟨cause, hvalue⟩
  | tokens => exact ⟨_, e, htokens, rfl⟩
  | tree => exact ⟨cause, htree⟩

/-- Tokens are the answer only where they are asked for. -/
theorem Settings.tokensOf_of_outcome {settings : Settings} {text : String}
    {tokens : List LocatedToken} (h : settings.outcome text = .ok (.tokens tokens)) :
    settings.mode = .tokens ∧ (tokensOf text).result = .ok tokens := by
  obtain ⟨mode, json⟩ := settings
  cases mode with
  | value =>
    have h : (valueOf text).result.map Answer.value = .ok (.tokens tokens) := h
    -- a value is no list of tokens
    cases hvalue : (valueOf text).result <;> simp [hvalue, Except.map] at h
  | tokens =>
    have h : ((tokensOf text).result.mapError Rejection.lexical).map Answer.tokens =
      .ok (.tokens tokens) := h
    cases htokens : (tokensOf text).result with
    | error e => simp [htokens, Except.map, Except.mapError] at h
    | ok found => simpa [htokens, Except.map, Except.mapError] using h
  | tree =>
    have h : (treeOf text).result.map Answer.tree = .ok (.tokens tokens) := h
    -- nor is a tree
    cases htree : (treeOf text).result <;> simp [htree, Except.map] at h

/-- Reports on value and tree of a text have the same error, or the same result. -/
theorem Report.error_result_congr {text : String} {entries entries' : List (String × JsonValue)}
    (h : Json.DenotesFields (Reply.fields text (Answer.find .value text).result) entries)
    (h' : Json.DenotesFields (Reply.fields text (Answer.find .tree text).result) entries') :
    entries.lookup "error" = entries'.lookup "error" ∧ result? entries = result? entries' := by
  have hvalue : (Answer.find .value text).result = (valueOf text).result.map .value := rfl
  have htree : (Answer.find .tree text).result = (treeOf text).result.map .tree := rfl
  rw [hvalue, result_valueOf_eq_map] at h
  rw [htree] at h'
  cases hresult : (treeOf text).result with
  -- the same error is written in both
  | error cause =>
    rw [hresult] at h h'
    obtain rfl := Reply.denotesFields_rejection h
    obtain rfl := Reply.denotesFields_rejection h'
    exact ⟨rfl, rfl⟩
  -- the result of the tree is that of the value
  | ok e =>
    rw [hresult] at h h'
    obtain ⟨value, hvalue, rfl⟩ := Reply.denotesFields_value h
    obtain ⟨value', hvalue', rfl⟩ := Reply.denotesFields_tree h'
    refine ⟨rfl, ?_⟩
    show value.double? = value'.double?
    rw [double?_of_denotes hvalue, double?_of_denotes hvalue']

/-! ## §4 The outputs -/

/-- What an answer writes to the outputs, apart from log lines. -/
structure Session.Writes (session : Session) (input out err : String) : Prop where
  out : (session.run input).2.out.content = session.out.content ++ utf8 out
  err : (session.run input).2.err.content =
    session.err.content ++ utf8 (session.logLines input ++ err)

/-- What is written is settled by what the outputs hold. -/
theorem Session.Writes.unique {session : Session} {input out out' err err' : String}
    (h : session.Writes input out err) (h' : session.Writes input out' err') :
    out = out' ∧ err = err' := by
  have hout := h.out.symm.trans h'.out
  have herr := h.err.symm.trans h'.err
  rw [utf8_append, utf8_append] at herr
  exact ⟨utf8_injective (List.append_cancel_left hout),
    utf8_injective (List.append_cancel_left (List.append_cancel_left herr))⟩

theorem Session.Unlimited.writes {session : Session} (h : session.Unlimited) (input : String) :
    session.Writes input ((session.settings.reply input).on .out)
      ((session.settings.reply input).on .err) :=
  ⟨h.content_run input .out, h.content_run input .err⟩

section Unlimited

variable {session : Session} {input : String}

/-- With JSON, the line goes to `out`. -/
theorem Session.Unlimited.writes_json (h : session.Unlimited)
    (hjson : session.settings.json = true) :
    session.Writes input (Reply.jsonLine input (session.settings.outcome input)) "" := by
  have hreply : session.settings.reply input =
      ⟨.out, Reply.jsonLine input (session.settings.outcome input)⟩ := by
    rw [Settings.reply, hjson]
    rfl
  have hwrites := h.writes input
  rw [hreply] at hwrites
  exact hwrites

/-- Without JSON, the text of an answer goes to `out`. -/
theorem Session.Unlimited.writes_answer (h : session.Unlimited)
    (hjson : session.settings.json = false) {answer : Answer}
    (houtcome : session.settings.outcome input = .ok answer) :
    session.Writes input answer.text "" := by
  have hreply : session.settings.reply input = ⟨.out, answer.text⟩ := by
    rw [Settings.reply, hjson, houtcome]
    rfl
  have hwrites := h.writes input
  rw [hreply] at hwrites
  exact hwrites

/-- Without JSON, the text of a rejection goes to `err`. -/
theorem Session.Unlimited.writes_rejection (h : session.Unlimited)
    (hjson : session.settings.json = false) {cause : Rejection}
    (houtcome : session.settings.outcome input = .error cause) :
    session.Writes input "" cause.text := by
  have hreply : session.settings.reply input = ⟨.err, cause.text⟩ := by
    rw [Settings.reply, hjson, houtcome]
    rfl
  have hwrites := h.writes input
  rw [hreply] at hwrites
  exact hwrites

/-- The text of a rejection determines its message. -/
theorem error_text_injective {m m' : String}
    (h : "error: " ++ m ++ "\n" = "error: " ++ m' ++ "\n") : m = m' := by
  simpa [← String.toList_inj] using h

/-- What a session that takes everything makes of a text of which a JSON line reports: with JSON it
writes the line, and without it what the fields of the line say, a rejection to `err` and all else to
`out`. The text of tokens is determined where their numbers are finite. -/
structure Session.Tells (session : Session) (text line : String)
    (fields : List (String × JsonValue)) : Prop where
  result : (session.run text).1 = .ok (Report.message? fields).isNone
  failures : (session.run text).2.failures =
    session.failures + if (Report.message? fields).isNone then 0 else 1
  json : session.settings.json = true → session.Writes text (line ++ "\n") ""
  rejected : session.settings.json = false → ∀ m,
    session.Writes text "" ("error: " ++ m ++ "\n") ↔ Report.message? fields = some m
  accepted : session.settings.json = false → Report.message? fields = none →
    ∃ shown, session.Writes text shown "" ∧
      ((session.settings.mode = .tokens → Report.FiniteLiterals text) →
        Report.shown? fields = some shown)

variable {line : String} {fields : List (String × JsonValue)}

/-- What is made of a text that is answered. -/
theorem Session.Unlimited.tells_of_ok (h : session.Unlimited) {answer : Answer}
    (houtcome : session.settings.outcome input = .ok answer)
    (hline : Reply.jsonLine input (.ok answer) = line ++ "\n")
    (hfields : Json.DenotesFields (Reply.fields input (.ok answer)) fields) :
    session.Tells input line fields := by
  have hmessage := Report.message?_of_ok hfields
  have hfailures := session.failures_run input
  rw [houtcome] at hfailures
  refine ⟨?_, ?_, fun hjson => ?_, fun htext m => ?_, fun htext _ => ?_⟩
  · rw [h.result_run, houtcome, hmessage]
    rfl
  · rw [hfailures, hmessage]
    rfl
  · rw [← hline, ← houtcome]
    exact h.writes_json hjson
  · rw [hmessage]
    refine ⟨fun hwrites => ?_, nofun⟩
    -- a rejection would be written to `err`
    have herr := (hwrites.unique (h.writes_answer htext houtcome)).2
    simp [← String.toList_inj] at herr
  -- the text of the answer is what the fields show
  · refine ⟨answer.text, h.writes_answer htext houtcome, fun hfinite => ?_⟩
    refine Report.shown?_of_denotes (fun tokens htokens => ?_) hfields
    subst htokens
    obtain ⟨hmode, hall⟩ := Settings.tokensOf_of_outcome houtcome
    exact hfinite hmode tokens hall

/-- What is made of a text that is rejected. -/
theorem Session.Unlimited.tells_of_error (h : session.Unlimited) {cause : Rejection}
    (houtcome : session.settings.outcome input = .error cause)
    (hline : Reply.jsonLine input (.error cause) = line ++ "\n")
    (hfields : Json.DenotesFields (Reply.fields input (.error cause)) fields) :
    session.Tells input line fields := by
  have hmessage := Report.message?_of_error hfields
  have hfailures := session.failures_run input
  rw [houtcome] at hfailures
  refine ⟨?_, ?_, fun hjson => ?_, fun htext m => ?_, fun _ hnone => ?_⟩
  · rw [h.result_run, houtcome, hmessage]
    rfl
  · rw [hfailures, hmessage]
    rfl
  · rw [← hline, ← houtcome]
    exact h.writes_json hjson
  -- the message can be read off the text that is written
  · have hrejection := h.writes_rejection htext houtcome
    rw [hmessage]
    constructor
    · intro hwrites
      exact congrArg some (error_text_injective (hrejection.unique hwrites).2)
    · intro hm
      rw [← Option.some.inj hm]
      exact hrejection
  · rw [hmessage] at hnone
    cases hnone

/-- What is made of a text, answered or rejected. -/
theorem Session.Unlimited.tells (h : session.Unlimited)
    (hline : Reply.jsonLine input (session.settings.outcome input) = line ++ "\n")
    (hfields : Json.DenotesFields (Reply.fields input (session.settings.outcome input)) fields) :
    session.Tells input line fields := by
  cases houtcome : session.settings.outcome input with
  | ok answer =>
    rw [houtcome] at hline hfields
    exact h.tells_of_ok houtcome hline hfields
  | error cause =>
    rw [houtcome] at hline hfields
    exact h.tells_of_error houtcome hline hfields

end Unlimited

/-- **Six configurations** tell the same story. For each mode there is a JSON line that determines
what is answered to a text, with JSON and without it. Values and trees are found for the same texts,
with the same result, and rejected with the same error. Tokens are found for these texts too; where
they are not, value and tree are rejected for the same error or for a token before it. -/
theorem configurations_agree (text : String) :
    ∃ (line : Mode → String) (fields : Mode → List (String × JsonValue)),
      (∀ mode, '\n' ∉ (line mode).toList ∧
        JsonValue.ofText? (line mode) = some (.object (fields mode))) ∧
      (∀ session : Session, session.Unlimited →
        session.Tells text (line session.settings.mode) (fields session.settings.mode)) ∧
      ((fields .value).lookup "error" = (fields .tree).lookup "error" ∧
        Report.result? (fields .value) = Report.result? (fields .tree) ∧
        (valueOf text).result = (treeOf text).result.map Expression.value) ∧
      (∀ mode : Mode, ¬ mode.Rejected text → ¬ Mode.tokens.Rejected text) ∧
      ∀ e, (tokensOf text).result = .error e →
        ∃ cause, (valueOf text).result = .error cause ∧ (treeOf text).result = .error cause ∧
          (cause = .lexical e ∨
            ∃ misplaced, cause = .grammatical misplaced ∧ misplaced.position < e.position) := by
  -- one line for each mode, and the fields that it is read as
  choose line fields hline hone hread hfields using
    fun mode => Reply.exists_fields text (Answer.find mode text).result
  obtain ⟨herror, hresult⟩ := Report.error_result_congr (hfields .value) (hfields .tree)
  exact ⟨line, fields, fun mode => ⟨hone mode, hread mode⟩,
    fun session h => h.tells (hline session.settings.mode) (hfields session.settings.mode),
    ⟨herror, hresult, result_valueOf_eq_map text⟩, fun mode => Mode.not_rejected_tokens,
    fun e => exists_cause_of_tokensOf⟩

end AddingMachine
