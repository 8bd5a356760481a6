import AddingMachine.Proofs.Json.Written
import AddingMachine.Proofs.Session.Lines
import AddingMachine.Proofs.Text.Clean

/-!
# Reports and replies

What the JSON line of an answer says, and what one answer writes.
-/

namespace AddingMachine

/-! ## §1 What JSON reports say

A report is one line, which is read as an object that begins with the input. For a value it has the
result besides, for a tree the result and the tree, and for a rejection its kind, its position and
its message (`Reply.exists_report`). A session writes it to `out`, and to `err` only log lines. -/

/-! ### Reports -/

/-- How a double is reported: as a number that has it as its nearest double, with the same sign, or
as a text where there is no such number. -/
def Binary64.ReportedAs : Binary64 → JsonValue → Prop
  | .finite negative m, value =>
    ∃ d : Decimal, value = .number negative d ∧ d.toBinary64 negative = .finite negative m
  | .infinite false, value => value = .string "inf"
  | .infinite true, value => value = .string "-inf"
  | .nan, value => value = .string "NaN"

/-- The cause for which a text is rejected in a mode. -/
def Mode.Rejects (text : String) (cause : Rejection) : Mode → Prop
  | .value => (valueOf text).result = .error cause
  | .tokens => ∃ e, (tokensOf text).result = .error e ∧ cause = .lexical e
  | .tree => (treeOf text).result = .error cause

/-- The fields of the report on a text in a mode. -/
inductive Reports (text : String) : Mode → List (String × JsonValue) → Prop where
  | value {x : Binary64} {result : JsonValue} (hvalue : (valueOf text).result = .ok x)
      (hresult : x.ReportedAs result) :
      Reports text .value [("input", .string text), ("result", result)]
  | tree {e : Expression} {result : JsonValue} (htree : (treeOf text).result = .ok e)
      (hresult : e.value.ReportedAs result) :
      Reports text .tree
        [("input", .string text), ("result", result), ("ast", .string e.text)]
  | rejection {mode : Mode} {cause : Rejection} (hcause : mode.Rejects text cause) :
      Reports text mode
        [("input", .string text),
          ("error", .object [("kind", .string cause.kindName),
            ("position", .number false ⟨cause.position, 0⟩), ("message", .string cause.message)])]

/-! ### What the fields denote -/

/-- What is written for a result is how the double is reported. -/
theorem Binary64.reportedAs_of_denotes {x : Binary64} {value : JsonValue}
    (h : (Answer.resultJson x).Denotes value) : x.ReportedAs value := by
  cases x with
  | nan => exact Json.denotes_string_iff.mp h
  | infinite negative =>
    cases negative with
    | true => exact Json.denotes_string_iff.mp h
    | false => exact Json.denotes_string_iff.mp h
  | finite negative m => exact Json.denotes_finite_iff.mp h

theorem Answer.denotes_tokenJson_number_iff {x : Binary64} {value : JsonValue} :
    (tokenJson (.number x)).Denotes value ↔
      ∃ number, (Json.number x).Denotes number ∧ value = .object [("Number", number)] := by
  simp [tokenJson]

theorem Answer.denotes_locatedJson_iff {located : LocatedToken} {value : JsonValue} :
    (locatedJson located).Denotes value ↔
      ∃ token, (tokenJson located.token).Denotes token ∧
        value = .object [("token", token), ("position", .number false ⟨located.position, 0⟩)] := by
  simp [locatedJson]

/-- The fields of a JSON line: the input, and those of the answer or the rejection. -/
def Reply.fields (input : String) (outcome : Except Rejection Answer) : List (String × Json) :=
  ("input", .string input) :: match outcome with
    | .ok answer => answer.fields
    | .error cause => cause.fields

section Fields

variable {input : String} {entries : List (String × JsonValue)}

theorem Reply.denotesFields_value {x : Binary64}
    (h : Json.DenotesFields (fields input (.ok (.value x))) entries) :
    ∃ result, (Answer.resultJson x).Denotes result ∧
      entries = [("input", .string input), ("result", result)] := by
  simpa [fields, Answer.fields] using h

theorem Reply.denotesFields_tokens {tokens : List LocatedToken}
    (h : Json.DenotesFields (fields input (.ok (.tokens tokens))) entries) :
    ∃ values, List.Forall₂ Json.Denotes (tokens.map Answer.locatedJson) values ∧
      entries = [("input", .string input), ("tokens", .array values)] := by
  simpa [fields, Answer.fields] using h

theorem Reply.denotesFields_tree {e : Expression}
    (h : Json.DenotesFields (fields input (.ok (.tree e))) entries) :
    ∃ result, (Answer.resultJson e.value).Denotes result ∧
      entries = [("input", .string input), ("result", result), ("ast", .string e.text)] := by
  simpa [fields, Answer.fields] using h

theorem Reply.denotesFields_rejection {cause : Rejection}
    (h : Json.DenotesFields (fields input (.error cause)) entries) :
    entries = [("input", .string input),
      ("error", .object [("kind", .string cause.kindName),
        ("position", .number false ⟨cause.position, 0⟩), ("message", .string cause.message)])] := by
  simpa [fields, Rejection.fields] using h

theorem reports_value {x : Binary64} (hvalue : (valueOf input).result = .ok x)
    (h : Json.DenotesFields (Reply.fields input (.ok (.value x))) entries) :
    Reports input .value entries := by
  obtain ⟨result, hresult, rfl⟩ := Reply.denotesFields_value h
  exact .value hvalue (Binary64.reportedAs_of_denotes hresult)

theorem reports_tree {e : Expression} (htree : (treeOf input).result = .ok e)
    (h : Json.DenotesFields (Reply.fields input (.ok (.tree e))) entries) :
    Reports input .tree entries := by
  obtain ⟨result, hresult, rfl⟩ := Reply.denotesFields_tree h
  exact .tree htree (Binary64.reportedAs_of_denotes hresult)

/-- A line for a rejection is a report on it, in every mode. -/
theorem reports_rejection {mode : Mode} {cause : Rejection} (hcause : mode.Rejects input cause)
    (h : Json.DenotesFields (Reply.fields input (.error cause)) entries) :
    Reports input mode entries := by
  obtain rfl := Reply.denotesFields_rejection h
  exact .rejection hcause

/-- The fields of a line are read as a report. Only the tokens of a text have none here. -/
theorem reports_find {mode : Mode}
    (hmode : mode = .tokens → ∃ e, (tokensOf input).result = .error e)
    (h : Json.DenotesFields (Reply.fields input (Answer.find mode input).result) entries) :
    Reports input mode entries := by
  cases mode with
  | value =>
    have hfind : (Answer.find .value input).result = (valueOf input).result.map .value := rfl
    cases hvalue : (valueOf input).result with
    | ok x =>
      rw [hfind, hvalue] at h
      exact reports_value hvalue h
    | error cause =>
      rw [hfind, hvalue] at h
      exact reports_rejection hvalue h
  -- only the rejection is left
  | tokens =>
    obtain ⟨e, htokens⟩ := hmode rfl
    have hfind : (Answer.find .tokens input).result = .error (.lexical e) := by
      show ((tokensOf input).result.mapError _).map _ = _
      rw [htokens]
      rfl
    rw [hfind] at h
    exact reports_rejection ⟨e, htokens, rfl⟩ h
  | tree =>
    have hfind : (Answer.find .tree input).result = (treeOf input).result.map .tree := rfl
    cases htree : (treeOf input).result with
    | ok e =>
      rw [hfind, htree] at h
      exact reports_tree htree h
    | error cause =>
      rw [hfind, htree] at h
      exact reports_rejection htree h

end Fields

/-- A JSON line is read as an object with the fields that were written. -/
theorem Reply.exists_fields (input : String) (outcome : Except Rejection Answer) :
    ∃ (line : String) (entries : List (String × JsonValue)),
      jsonLine input outcome = line ++ "\n" ∧ '\n' ∉ line.toList ∧
        JsonValue.ofText? line = some (.object entries) ∧
        Json.DenotesFields (fields input outcome) entries := by
  let report := Json.object (fields input outcome)
  obtain ⟨value, hread, hdenotes⟩ := report.exists_ofText?
  obtain ⟨entries, hentries, rfl⟩ := Json.denotes_object_iff.mp hdenotes
  exact ⟨report.text, entries, rfl, report.lineFeed_notMem_text, hread, hentries⟩

/-- A JSON line tells the input. -/
theorem Reply.jsonLine_injective {input input' : String} {outcome outcome' : Except Rejection Answer}
    (h : jsonLine input outcome = jsonLine input' outcome') : input = input' := by
  obtain ⟨line, entries, hline, -, hread, hfields⟩ := exists_fields input outcome
  obtain ⟨line', entries', hline', -, hread', hfields'⟩ := exists_fields input' outcome'
  obtain rfl : line = line' := by
    rw [hline, hline'] at h
    simpa [← String.toList_inj] using h
  rw [hread] at hread'
  obtain rfl := JsonValue.object.inj (Option.some.inj hread')
  -- both lines begin with the field for the input
  obtain ⟨value, others, hvalue, -, rfl⟩ := Json.denotesFields_cons_iff.mp hfields
  obtain ⟨value', others', hvalue', -, hentries⟩ := Json.denotesFields_cons_iff.mp hfields'
  obtain rfl := Json.denotes_string_iff.mp hvalue
  obtain rfl := Json.denotes_string_iff.mp hvalue'
  cases hentries
  rfl

/-- A JSON line is read as a report. -/
theorem Reply.exists_report {mode : Mode} {input : String}
    (hmode : mode = .tokens → ∃ e, (tokensOf input).result = .error e) :
    ∃ (line : String) (fields : List (String × JsonValue)),
      jsonLine input (Answer.find mode input).result = line ++ "\n" ∧ '\n' ∉ line.toList ∧
        JsonValue.ofText? line = some (.object fields) ∧ Reports input mode fields := by
  obtain ⟨line, entries, hline, hone, hread, hentries⟩ :=
    exists_fields input (Answer.find mode input).result
  exact ⟨line, entries, hline, hone, hread, reports_find hmode hentries⟩

/-! ### Writing to the outputs -/

namespace Sink

/-- If there is room for bytes, all of them are written. -/
theorem fitting_of_hasRoom {sink : Sink} {bytes : List UInt8} (h : sink.hasRoom bytes = true) :
    sink.fitting bytes = bytes := by
  unfold hasRoom at h
  unfold fitting
  cases hroom : sink.room with
  | none => rfl
  | some room =>
    rw [hroom] at h
    exact List.take_of_length_le (of_decide_eq_true h)

/-- Nothing is written for the empty text. -/
theorem content_write_empty (sink : Sink) : (sink.write "").2.content = sink.content := by
  have hnone : utf8 "" = [] := utf8_eq ""
  have hfits : sink.hasRoom [] = true := by
    rw [hasRoom]
    split
    next => rfl
    next => exact decide_eq_true (Nat.zero_le _)
  rw [content_write, hnone, fitting_of_hasRoom hfits, List.append_nil]

end Sink

/-- Events that are not logged leave no line. -/
theorem Journal.recordAll_of_not_admitted {journal : Journal} {events : List Event}
    (h : ∀ event ∈ events, journal.filter.admits event = false) :
    journal.recordAll events = ("", journal) := by
  induction events with
  | nil => rfl
  | cons event rest ih =>
    have hfirst := h event List.mem_cons_self
    have hrest := ih fun event hevent => h event (List.mem_cons_of_mem _ hevent)
    simp [recordAll, record, hfirst, hrest]

namespace Session

/-- What is recorded while a session answers an input. -/
def eventsOf (session : Session) (input : String) : List Event :=
  let found := Answer.find session.settings.mode input
  found.events ++ rejectionEvents (session.evaluated + 1) found.result

variable {session : Session} {input : String}

/-- A JSON line is written to `out`, and log lines to `err`. -/
theorem run_json (hjson : session.settings.json = true) :
    (session.run input).2.out =
        (session.out.write
          (Reply.jsonLine input (Answer.find session.settings.mode input).result)).2 ∧
      (session.run input).2.err =
        (session.err.write (session.journal.recordAll (session.eventsOf input)).1).2 := by
  have hreply : Reply.ofOutcome session.settings.json input
      (Answer.find session.settings.mode input).result =
        ⟨.out, Reply.jsonLine input (Answer.find session.settings.mode input).result⟩ := by
    rw [hjson]
    rfl
  -- the log lines are written before the reply, which does not go where they go
  unfold run
  dsimp only
  rw [hreply]
  exact ⟨rfl, rfl⟩

/-- **JSON reports say what has happened.** An input is answered with one line, whatever is in it,
unless it is the tokens that are asked for and found. The line is read as an object that says what
the input is and what came of it. Log lines are all that `err` gets. -/
theorem run_reports (hjson : session.settings.json = true)
    (hmode : session.settings.mode = .tokens → ∃ e, (tokensOf input).result = .error e) :
    ∃ (line : String) (fields : List (String × JsonValue)),
      '\n' ∉ line.toList ∧ JsonValue.ofText? line = some (.object fields) ∧
        Reports input session.settings.mode fields ∧
        (session.out.hasRoom (utf8 (line ++ "\n")) = true →
          (session.run input).2.out.content = session.out.content ++ utf8 (line ++ "\n")) ∧
        (session.run input).2.err =
          (session.err.write (session.journal.recordAll (session.eventsOf input)).1).2 ∧
        ((∀ event ∈ session.eventsOf input, session.journal.filter.admits event = false) →
          (session.run input).2.err.content = session.err.content) := by
  obtain ⟨line, fields, hline, hone, hread, hreports⟩ := Reply.exists_report hmode
  obtain ⟨hout, herr⟩ := @run_json session input hjson
  refine ⟨line, fields, hone, hread, hreports, fun hroom => ?_, herr, fun hsilent => ?_⟩
  -- with room for it, the whole line is written
  · rw [hout, hline, Sink.content_write, Sink.fitting_of_hasRoom hroom]
  -- no log line is written for what the filter does not admit
  · rw [herr, Journal.recordAll_of_not_admitted hsilent, Sink.content_write_empty]

/-- A quotation mark is reported in two places, and both are read as it. -/
theorem run_reports_quotationMark :
    let session := start ⟨.value, true⟩ .silent (.empty none) (.empty none)
    session.settings.json = true ∧
      (session.settings.mode = .tokens → ∃ e, (tokensOf "2 - \"\n").result = .error e) ∧
      ∃ line : String, '\n' ∉ line.toList ∧
        JsonValue.ofText? line = some (.object [("input", .string "2 - \"\n"),
          ("error", .object [("kind", .string "lexical"), ("position", .number false ⟨4, 0⟩),
            ("message",
              .string "Lexical error at position 4: unrecognized character '\"'")])]) ∧
        (session.run "2 - \"\n").2.out.content = utf8 (line ++ "\n") ∧
        (session.run "2 - \"\n").2.err.content = [] := by
  intro session
  have hmode : session.settings.mode = .tokens → ∃ e, (tokensOf "2 - \"\n").result = .error e :=
    nofun
  refine ⟨rfl, hmode, ?_⟩
  obtain ⟨line, fields, hone, hread, hreports, hout, -, herr⟩ :=
    @run_reports session "2 - \"\n" rfl hmode
  refine ⟨line, hone, ?_, hout rfl, herr fun _ _ => rfl⟩
  have hrejected : (valueOf "2 - \"\n").result =
      .error (.lexical ⟨.unrecognizedCharacter, 4, '\x22'⟩) := by
    decide +kernel
  have hmessage : (Rejection.lexical ⟨.unrecognizedCharacter, 4, '\x22'⟩).message =
      "Lexical error at position 4: unrecognized character '\"'" := by
    decide +kernel
  have hreports : Reports "2 - \"\n" .value fields := hreports
  rw [hread]
  -- the report is that of the rejection, since there is no value
  cases hreports with
  | value hvalue hresult =>
    rw [hrejected] at hvalue
    cases hvalue
  | rejection hcause =>
    obtain rfl := Except.error.inj (hrejected.symm.trans hcause)
    rw [hmessage]
    rfl

end Session

/-! ## §2 What one answer writes

A session counts an input, logs its events and then writes one reply to one of its outputs
(`Session.run_eq`). Where the outputs take everything, each of them grows by what is written there:
`out` by a reply, `err` by log lines and then by a reply (`Session.Unlimited.content_run`). -/

/-! ### What settings decide -/

namespace Settings

/-- What comes of an input. -/
def outcome (settings : Settings) (input : String) : Except Rejection Answer :=
  (Answer.find settings.mode input).result

/-- What is written for an input. -/
def reply (settings : Settings) (input : String) : Reply :=
  .ofOutcome settings.json input (settings.outcome input)

/-- An input is rejected for its cause in the mode that is set. -/
theorem outcome_eq_error_iff (settings : Settings) (input : String) (cause : Rejection) :
    settings.outcome input = .error cause ↔ settings.mode.Rejects input cause := by
  obtain ⟨mode, json⟩ := settings
  cases mode with
  | value =>
    show (valueOf input).result.map Answer.value = .error cause ↔
      (valueOf input).result = .error cause
    cases (valueOf input).result <;> simp [Except.map]
  | tokens =>
    show ((tokensOf input).result.mapError Rejection.lexical).map Answer.tokens = .error cause ↔
      ∃ e, (tokensOf input).result = .error e ∧ cause = .lexical e
    cases (tokensOf input).result <;> simp [Except.map, Except.mapError, eq_comm]
  | tree =>
    show (treeOf input).result.map Answer.tree = .error cause ↔ (treeOf input).result = .error cause
    cases (treeOf input).result <;> simp [Except.map]

end Settings

/-- A text is rejected in a mode, whatever the cause. -/
def Mode.Rejected (mode : Mode) (text : String) : Prop :=
  ∃ cause, mode.Rejects text cause

/-- An input is answered if it is not rejected. -/
theorem Settings.isOk_outcome_iff (settings : Settings) (input : String) :
    (settings.outcome input).isOk = true ↔ ¬ settings.mode.Rejected input := by
  simp only [Mode.Rejected, ← settings.outcome_eq_error_iff]
  cases settings.outcome input <;> simp [Except.isOk, Except.toBool]

/-- An input is answered, or rejected. -/
theorem Settings.outcome_cases (settings : Settings) (input : String) :
    (∃ answer, settings.outcome input = .ok answer ∧ ¬ settings.mode.Rejected input) ∨
      ∃ cause, settings.outcome input = .error cause ∧ settings.mode.Rejected input := by
  cases houtcome : settings.outcome input with
  | ok answer =>
    have hok : (settings.outcome input).isOk = true := by
      rw [houtcome]
      rfl
    exact .inl ⟨answer, rfl, (settings.isOk_outcome_iff input).mp hok⟩
  | error cause =>
    exact .inr ⟨cause, rfl, cause, (settings.outcome_eq_error_iff input cause).mp houtcome⟩

instance (mode : Mode) (text : String) : Decidable (mode.Rejected text) :=
  decidable_of_iff (¬ (Settings.outcome ⟨mode, false⟩ text).isOk = true)
    (not_iff_comm.mp (Settings.isOk_outcome_iff ⟨mode, false⟩ text).symm)

/-! ### Writing where there is room for everything -/

@[simp] theorem utf8_append (text more : String) : utf8 (text ++ more) = utf8 text ++ utf8 more := by
  rw [utf8_eq, utf8_eq, utf8_eq, String.toList_append, utf8Chars_append]

@[simp] theorem utf8_empty : utf8 "" = [] :=
  utf8_eq ""

@[simp] theorem utf8_lineFeed : utf8 "\n" = [lineFeed] := by
  decide +kernel

theorem Sink.content_write_of_limit {sink : Sink} (h : sink.limit = none) (text : String) :
    (sink.write text).2.content = sink.content ++ utf8 text := by
  rw [content_write, fitting_of_hasRoom (Session.hasRoom_of_limit h _)]

/-- What a reply is to one of the outputs: its text, or nothing. -/
def Reply.on (reply : Reply) (stream : Stream) : String :=
  if reply.stream = stream then reply.text else ""

namespace Session

variable {session : Session}

def sink (session : Session) : Stream → Sink
  | .out => session.out
  | .err => session.err

theorem Unlimited.limit_sink (h : session.Unlimited) (stream : Stream) :
    (session.sink stream).limit = none := by
  cases stream with
  | out => exact h.out
  | err => exact h.err

/-- A reply is written to its own output, and the other one stays as it is. -/
theorem sink_write (session : Session) (reply : Reply) (stream : Stream) :
    (session.write reply).2.sink stream =
      if reply.stream = stream then ((session.sink stream).write reply.text).2
      else session.sink stream := by
  obtain ⟨goal, text⟩ := reply
  cases goal <;> cases stream <;> rfl

/-- Writing changes nothing but the outputs. -/
theorem write_keeps (session : Session) (reply : Reply) :
    (session.write reply).2.settings = session.settings ∧
      (session.write reply).2.journal = session.journal ∧
      (session.write reply).2.evaluated = session.evaluated ∧
      (session.write reply).2.failures = session.failures := by
  obtain ⟨goal, text⟩ := reply
  cases goal <;> exact ⟨rfl, rfl, rfl, rfl⟩

/-- An output gets the replies that are for it. -/
theorem Unlimited.content_write (h : session.Unlimited) (reply : Reply) (stream : Stream) :
    ((session.write reply).2.sink stream).content =
      (session.sink stream).content ++ utf8 (reply.on stream) := by
  rw [sink_write, Reply.on]
  split
  next => exact Sink.content_write_of_limit (h.limit_sink stream) _
  next => rw [utf8_empty, List.append_nil]

/-! ### One answer -/

/-- The log lines of an input. -/
def logLines (session : Session) (input : String) : String :=
  (session.journal.recordAll (session.eventsOf input)).1

/-- The session that has counted an input and logged its events, but has not yet replied. -/
def logged (session : Session) (input : String) : Session :=
  (session.count (session.settings.outcome input)).log (session.eventsOf input)

/-- **One answer**: the input is counted and logged, and then the reply is written. -/
theorem run_eq (session : Session) (input : String) :
    session.run input =
      let written := (session.logged input).write (session.settings.reply input)
      (if written.1 then .ok (session.settings.outcome input).isOk else .error .full, written.2) :=
  rfl

/-- An answer leaves the settings as they are. -/
@[simp] theorem settings_run (session : Session) (input : String) :
    (session.run input).2.settings = session.settings :=
  (write_keeps _ _).1

@[simp] theorem settings_runEach (session : Session) (inputs : List String) :
    (session.runEach inputs).settings = session.settings := by
  induction inputs generalizing session with
  | nil => rfl
  | cons input rest ih => exact (ih _).trans (session.settings_run input)

/-- A rejection counts as a failure. -/
theorem failures_run (session : Session) (input : String) :
    (session.run input).2.failures =
      session.failures + if (session.settings.outcome input).isOk then 0 else 1 :=
  (write_keeps (session.logged input) (session.settings.reply input)).2.2.2

/-- All rejections are counted. -/
theorem failures_runEach (session : Session) (inputs : List String) :
    (session.runEach inputs).failures = session.failures +
      inputs.countP fun input => decide (session.settings.mode.Rejected input) := by
  induction inputs generalizing session with
  | nil => rfl
  | cons input rest ih =>
    have hiff := session.settings.isOk_outcome_iff input
    show ((session.run input).2.runEach rest).failures = _
    rw [ih, failures_run, settings_run, List.countP_cons, Nat.add_assoc,
      Nat.add_comm (List.countP _ _)]
    -- an input counts where it is rejected, and otherwise adds nothing
    by_cases hrejected : session.settings.mode.Rejected input
    · simp [hrejected, mt hiff.mp (not_not.mpr hrejected)]
    · simp [hrejected, hiff.mpr hrejected]

/-- Where both outputs take everything, an input is always answered. -/
theorem Unlimited.result_run (h : session.Unlimited) (input : String) :
    (session.run input).1 = .ok (session.settings.outcome input).isOk := by
  have hlogged : (session.logged input).Unlimited := ⟨h.out, h.err⟩
  rw [run_eq]
  exact if_pos (hlogged.write _).1

/-- What an answer adds to an output: log lines, which go to `err`, and the reply. -/
def added (session : Session) (input : String) : Stream → String
  | .out => (session.settings.reply input).on .out
  | .err => session.logLines input ++ (session.settings.reply input).on .err

/-- **Outputs grow** by what an answer adds to them. -/
theorem Unlimited.content_run (h : session.Unlimited) (input : String) (stream : Stream) :
    ((session.run input).2.sink stream).content =
      (session.sink stream).content ++ utf8 (session.added input stream) := by
  have hlogged : (session.logged input).Unlimited := ⟨h.out, h.err⟩
  rw [run_eq]
  show (((session.logged input).write _).2.sink stream).content = _
  rw [hlogged.content_write]
  cases stream with
  | out => rfl
  -- the log lines are there before the reply is written
  | err =>
    have herr : (session.logged input).err.content =
        session.err.content ++ utf8 (session.logLines input) :=
      Sink.content_write_of_limit h.err _
    show (session.logged input).err.content ++ _ = _
    rw [herr, added, utf8_append, List.append_assoc]
    rfl

end Session

end AddingMachine
