import AddingMachine.Proofs.Session.Report

/-!
# The error output of a session

Which lines the error output holds, and what has happened for each of them.
-/

namespace AddingMachine

/-! ## §1 What the error output holds

The error output of a session holds log lines and reports of errors, each on a line of its own. Log
lines begin with a number, so the lines that begin with `error: ` are the reports
(`errorLines_textOf`). Where outputs take everything, the reports of a session are those of the
inputs that it rejects, in order (`Session.reports_diagnosticsOf`). -/

/-! ### Lines of the error output -/

/-- What makes a line of the error output. -/
inductive Diagnostic where
  | logged (number : Nat) (event : Event)
  /-- The report of a rejected expression. -/
  | rejected (cause : Rejection)
  /-- The report of what ends a run. -/
  | failed (failure : Failure)

namespace Diagnostic

def isReport : Diagnostic → Bool
  | .logged .. => false
  | .rejected _ => true
  | .failed _ => true

def text : Diagnostic → String
  | .logged number event => Journal.line number event
  | .rejected cause => cause.text
  | .failed failure => "error: " ++ failure.message ++ "\n"

def textOf (diagnostics : List Diagnostic) : String :=
  String.join (diagnostics.map text)

@[simp] theorem textOf_nil : textOf [] = "" :=
  rfl

@[simp] theorem textOf_append (diagnostics more : List Diagnostic) :
    textOf (diagnostics ++ more) = textOf diagnostics ++ textOf more := by
  rw [textOf, textOf, textOf, List.map_append, String.join_append]

theorem textOf_cons (diagnostic : Diagnostic) (rest : List Diagnostic) :
    textOf (diagnostic :: rest) = diagnostic.text ++ textOf rest := by
  rw [textOf, List.map_cons, String.join_cons]
  rfl

theorem textOf_singleton (diagnostic : Diagnostic) : textOf [diagnostic] = diagnostic.text := by
  simp [textOf]

end Diagnostic

/-- Whether a line reports an error. -/
def isErrorLine (line : List UInt8) : Bool :=
  (utf8 "error: ").isPrefixOf line

/-- How many lines of some bytes report errors. -/
def errorLines (bytes : List UInt8) : Nat :=
  (bytes.splitOn lineFeed).countP isErrorLine

theorem errorLines_feed {line : List UInt8} (hline : lineFeed ∉ line) (rest : List UInt8) :
    errorLines (line ++ lineFeed :: rest) =
      (if isErrorLine line then 1 else 0) + errorLines rest := by
  rw [errorLines, List.splitOn_append_cons_self_of_not_mem hline, List.countP_cons, add_comm]
  rfl

/-- A report is a line that reports an error. -/
theorem isErrorLine_report (message : String) :
    isErrorLine (utf8 ("error: " ++ message)) = true := by
  rw [isErrorLine, utf8_append, List.isPrefixOf_iff_prefix]
  exact List.prefix_append _ _

/-- A line that begins with a number reports no error. -/
theorem isErrorLine_repr (number : Nat) (more : String) :
    isErrorLine (utf8 (Nat.repr number ++ more)) = false := by
  have hne : Nat.toDigits 10 number ≠ [] := Nat.toDigits_ne_nil
  obtain ⟨c, rest, hdigits⟩ := List.exists_cons_of_ne_nil hne
  have hdigit : c.isDigit = true := Nat.isDigit_of_mem_toDigits (b := 10) (n := number)
    (by decide) (by decide) (hdigits ▸ List.mem_cons_self)
  have hbytes : utf8 (Nat.repr number ++ more) =
      String.utf8EncodeChar c ++ utf8Chars (rest ++ more.toList) := by
    rw [utf8_eq, String.toList_append, Nat.repr, String.toList_ofList, hdigits, List.cons_append,
      utf8Chars_cons]
  have herror : utf8 "error: " = 101 :: utf8 "rror: " := by decide +kernel
  -- the first byte of the line is one of its first character, which is no letter
  obtain ⟨b, bytes, hfirst⟩ := List.exists_cons_of_ne_nil (String.utf8EncodeChar_ne_nil (c := c))
  rw [isErrorLine, hbytes, hfirst, herror, List.cons_append, List.isPrefixOf_cons_cons,
    Bool.and_eq_false_iff]
  left
  rw [beq_eq_false_iff_ne]
  rintro rfl
  have hletter : c.toNat = 101 :=
    (mem_utf8EncodeChar_iff (b := 101) (by decide) c).mp (hfirst ▸ List.mem_cons_self)
  have hrefuted : 'e'.isDigit = true := (Char.toNat_inj.mp hletter : c = 'e') ▸ hdigit
  cases hrefuted

/-- **One line each**: a line of the error output has no line feed in it but the last character. -/
theorem Diagnostic.exists_line (diagnostic : Diagnostic) : ∃ line, diagnostic.text = line ++ "\n" ∧
    Text.Clean line.toList ∧ isErrorLine (utf8 line) = diagnostic.isReport := by
  have herror : Text.Clean "error: ".toList := by decide
  cases diagnostic with
  | logged number event =>
    refine ⟨Nat.repr number ++ "|" ++ event.level.letter ++ "|" ++ event.target.name ++ "|" ++
      event.message, rfl, ?_, ?_⟩
    -- number, level, target and message are clean, and the bars between them
    · have hbar : Text.Clean "|".toList := by decide
      have hletter : Text.Clean event.level.letter.toList := by
        cases event.level <;> decide
      have htarget : Text.Clean event.target.name.toList := by
        cases event.target <;> decide
      have hlevel := ((Text.clean_repr number).append hbar).append hletter
      exact (((hlevel.append hbar).append htarget).append hbar).append event.clean_message
    · simp only [String.append_assoc]
      exact isErrorLine_repr number _
  | rejected cause =>
    exact ⟨"error: " ++ cause.message, rfl, herror.append cause.clean_message,
      isErrorLine_report _⟩
  | failed failure =>
    exact ⟨"error: " ++ failure.message, rfl, herror.append failure.clean_message,
      isErrorLine_report _⟩

/-- The lines that report errors are the reports. -/
theorem errorLines_textOf (diagnostics : List Diagnostic) (more : List UInt8) :
    errorLines (utf8 (Diagnostic.textOf diagnostics) ++ more) =
      diagnostics.countP Diagnostic.isReport + errorLines more := by
  induction diagnostics with
  | nil => simp
  | cons diagnostic rest ih =>
    obtain ⟨line, htext, hclean, hreport⟩ := diagnostic.exists_line
    -- so the line ends at its own line feed
    have hline : lineFeed ∉ utf8 line := by
      rw [utf8_eq, lineFeed_mem_utf8Chars_iff]
      exact hclean.lineFeed_notMem
    rw [Diagnostic.textOf_cons, htext, utf8_append, utf8_append, utf8_lineFeed, List.append_assoc,
      List.append_assoc, List.singleton_append, errorLines_feed hline, ih, hreport, List.countP_cons]
    omega

/-- Of some whole lines, those that report errors are the reports. -/
theorem errorLines_utf8_textOf (diagnostics : List Diagnostic) :
    errorLines (utf8 (Diagnostic.textOf diagnostics)) = diagnostics.countP Diagnostic.isReport := by
  have hnil : errorLines [] = 0 := by decide +kernel
  have hall := errorLines_textOf diagnostics []
  rwa [List.append_nil, hnil, Nat.add_zero] at hall

/-! ### What a session adds -/

/-- The log lines of some events: those that the filter admits, numbered one after another. -/
def Journal.entries (journal : Journal) (events : List Event) : List Diagnostic :=
  ((events.filter journal.filter.admits).zipIdx (journal.written + 1)).map fun entry =>
    .logged entry.2 entry.1

/-- What the journal writes are the lines of the events that it admits. -/
theorem Journal.recordAll_fst (journal : Journal) (events : List Event) :
    (journal.recordAll events).1 = Diagnostic.textOf (journal.entries events) := by
  induction events generalizing journal with
  | nil => rfl
  | cons event rest ih =>
    by_cases hadmits : journal.filter.admits event = true
    -- the event takes the next number
    · simp only [recordAll, record, hadmits, if_true, ih, entries, List.filter_cons_of_pos,
        List.zipIdx_cons, List.map_cons, Diagnostic.textOf, String.join_cons]
      rfl
    -- it has no line, and the number is left for the next one
    · simp only [recordAll, record, hadmits, if_false, ih, entries, Bool.false_eq_true,
        not_false_eq_true, List.filter_cons_of_neg]
      simp

/-- Where the error output takes everything, it gets these lines. -/
theorem Session.Unlimited.err_log {session : Session} (h : session.Unlimited)
    (events : List Event) :
    (session.log events).err.content =
      session.err.content ++ utf8 (Diagnostic.textOf (session.journal.entries events)) := by
  rw [← Journal.recordAll_fst]
  exact Sink.content_write_of_limit h.err _

theorem Journal.filter_isReport_entries (journal : Journal) (events : List Event) :
    (journal.entries events).filter Diagnostic.isReport = [] := by
  rw [List.filter_eq_nil_iff]
  intro diagnostic hmem
  obtain ⟨entry, -, rfl⟩ := List.mem_map.mp hmem
  exact Bool.false_ne_true

theorem Journal.countP_isReport_entries (journal : Journal) (events : List Event) :
    (journal.entries events).countP Diagnostic.isReport = 0 := by
  rw [List.countP_eq_length_filter, filter_isReport_entries, List.length_nil]

/-- The reports of an input: one where it is rejected, unless replies are JSON. -/
def Settings.reports (settings : Settings) (input : String) : List Diagnostic :=
  match settings.json, settings.outcome input with
  | false, .error cause => [.rejected cause]
  | _, _ => []

/-- What a reply is to the error output is the report, if there is one. -/
theorem Settings.reply_on_err (settings : Settings) (input : String) :
    (settings.reply input).on .err = Diagnostic.textOf (settings.reports input) := by
  rw [reply, reports]
  cases settings.json with
  | true => rfl
  | false =>
    cases settings.outcome input with
    | ok answer => rfl
    | error cause => simp [Diagnostic.textOf, Diagnostic.text, Reply.ofOutcome, Reply.on]

theorem Settings.isReport_reports (settings : Settings) (input : String) :
    ∀ diagnostic ∈ settings.reports input, diagnostic.isReport = true := by
  rw [reports]
  split
  next => exact List.forall_mem_singleton.mpr rfl
  next => exact List.forall_mem_nil _

theorem Settings.length_reports (settings : Settings) (input : String) :
    (settings.reports input).length =
      if settings.json = false ∧ settings.mode.Rejected input then 1 else 0 := by
  rw [reports]
  cases settings.json with
  | true => rfl
  | false =>
    -- without JSON, the outcome decides
    obtain ⟨answer, houtcome, hnot⟩ | ⟨cause, houtcome, hrejected⟩ := settings.outcome_cases input
    · simp [houtcome, hnot]
    · simp [houtcome, hrejected]

namespace Session

variable {session : Session}

/-- What an input adds to the error output. -/
def diagnostics (session : Session) (input : String) : List Diagnostic :=
  session.journal.entries (session.eventsOf input) ++ session.settings.reports input

theorem added_err (session : Session) (input : String) :
    session.added input .err = Diagnostic.textOf (session.diagnostics input) := by
  rw [added, logLines, Journal.recordAll_fst, Settings.reply_on_err, diagnostics,
    Diagnostic.textOf_append]

/-- What some inputs add to the error output. -/
def diagnosticsOf (session : Session) : List String → List Diagnostic
  | [] => []
  | input :: rest => session.diagnostics input ++ (session.run input).2.diagnosticsOf rest

/-- The error output grows by what each of the inputs adds. -/
theorem Unlimited.err_runEach (h : session.Unlimited) (inputs : List String) :
    (session.runEach inputs).err.content =
      session.err.content ++ utf8 (Diagnostic.textOf (session.diagnosticsOf inputs)) := by
  induction inputs generalizing session with
  | nil => exact (List.append_nil _).symm
  | cons input rest ih =>
    -- the first input adds its lines, and the others add theirs behind them
    have hstep : (session.run input).2.err.content =
        session.err.content ++ utf8 (session.added input .err) := h.content_run input .err
    show ((session.run input).2.runEach rest).err.content = _
    rw [ih (h.run input).2, hstep, added_err, diagnosticsOf,
      Diagnostic.textOf_append, utf8_append, List.append_assoc]

/-- **Reports are rejections**: the reports are those of the inputs, in order. -/
theorem reports_diagnosticsOf (session : Session) (inputs : List String) :
    (session.diagnosticsOf inputs).filter Diagnostic.isReport =
      inputs.flatMap session.settings.reports := by
  induction inputs generalizing session with
  | nil => rfl
  | cons input rest ih =>
    -- log lines are left out, and all other lines stay
    have hreports := List.filter_eq_self.mpr (session.settings.isReport_reports input)
    rw [diagnosticsOf, diagnostics, List.filter_append, List.filter_append,
      Journal.filter_isReport_entries, hreports, ih, settings_run, List.nil_append,
      List.flatMap_cons]

/-- In text there are as many reports as rejected inputs, and in JSON there are none. -/
theorem countP_diagnosticsOf (session : Session) (inputs : List String) :
    (session.diagnosticsOf inputs).countP Diagnostic.isReport =
      if session.settings.json then 0
      else inputs.countP fun input => decide (session.settings.mode.Rejected input) := by
  rw [List.countP_eq_length_filter, reports_diagnosticsOf]
  induction inputs with
  | nil => simp
  | cons input rest ih =>
    rw [List.flatMap_cons, List.length_append, ih, Settings.length_reports, List.countP_cons]
    cases session.settings.json <;> simp [add_comm]

end Session

/-! ## §2 What happens in a session

What happens while a session answers its inputs depends on its settings and on how many it has
answered, but not on its log (`Settings.trace`). The error output shows of this what the journal
admits, and numbers the log lines (`Session.Unlimited.err_runEach_eq`). -/

/-! ### Occurrences -/

/-- What can make a line of the error output. -/
inductive Occurrence where
  | recorded (event : Event)
  /-- The report of a rejected expression. -/
  | rejected (cause : Rejection)
  /-- The report of what ends a run. -/
  | failed (failure : Failure)

/-- What made a line, without the number of a log line. -/
def Diagnostic.occurrence : Diagnostic → Occurrence
  | .logged _ event => .recorded event
  | .rejected cause => .rejected cause
  | .failed failure => .failed failure

/-- The number of a log line. -/
def Diagnostic.number? : Diagnostic → Option Nat
  | .logged number _ => some number
  | .rejected _ => none
  | .failed _ => none

namespace Occurrence

def isEvent : Occurrence → Bool
  | .recorded _ => true
  | .rejected _ => false
  | .failed _ => false

def report? : Occurrence → Option Diagnostic
  | .recorded _ => none
  | .rejected cause => some (.rejected cause)
  | .failed failure => some (.failed failure)

/-- The lines of some occurrences, when so many log lines are written already. -/
def numbered (written : Nat) : List Occurrence → List Diagnostic
  | [] => []
  | .recorded event :: rest => .logged (written + 1) event :: numbered (written + 1) rest
  | .rejected cause :: rest => .rejected cause :: numbered written rest
  | .failed failure :: rest => .failed failure :: numbered written rest

variable (occurrences more : List Occurrence) (written : Nat)

/-- The later lines are numbered from where the earlier ones end. -/
theorem numbered_append : numbered written (occurrences ++ more) =
    numbered written occurrences ++ numbered (written + occurrences.countP isEvent) more := by
  induction occurrences generalizing written with
  | nil => rfl
  | cons occurrence rest ih =>
    cases occurrence with
    | recorded event =>
      -- a log line, and nothing else, moves the numbers on
      have hcount : written + (Occurrence.recorded event :: rest).countP isEvent =
          written + 1 + rest.countP isEvent := by
        rw [List.countP_cons_of_pos rfl]
        omega
      rw [hcount]
      exact congrArg (.logged (written + 1) event :: ·) (ih (written + 1))
    | rejected cause => exact congrArg (.rejected cause :: ·) (ih written)
    | failed failure => exact congrArg (.failed failure :: ·) (ih written)

/-- Each occurrence makes one line. -/
theorem map_occurrence_numbered :
    (numbered written occurrences).map Diagnostic.occurrence = occurrences := by
  induction occurrences generalizing written with
  | nil => rfl
  | cons occurrence rest ih =>
    cases occurrence with
    | recorded event => exact congrArg (.recorded event :: ·) (ih (written + 1))
    | rejected cause => exact congrArg (.rejected cause :: ·) (ih written)
    | failed failure => exact congrArg (.failed failure :: ·) (ih written)

/-- Log lines are numbered one after another, whatever reports stand between them. -/
theorem numbers_numbered : (numbered written occurrences).filterMap Diagnostic.number? =
    List.range' (written + 1) (occurrences.countP isEvent) := by
  induction occurrences generalizing written with
  | nil => rfl
  | cons occurrence rest ih =>
    cases occurrence with
    -- a log line has the next number, and a report has none
    | recorded event =>
      rw [List.countP_cons_of_pos rfl, List.range'_succ, ← ih]
      rfl
    | rejected cause => exact ih written
    | failed failure => exact ih written

/-- The reports among the lines do not depend on the numbers. -/
theorem reports_numbered : (numbered written occurrences).filter Diagnostic.isReport =
    occurrences.filterMap report? := by
  induction occurrences generalizing written with
  | nil => rfl
  | cons occurrence rest ih =>
    cases occurrence with
    | recorded event => exact ih (written + 1)
    | rejected cause => exact congrArg (.rejected cause :: ·) (ih written)
    | failed failure => exact congrArg (.failed failure :: ·) (ih written)

theorem numbered_recorded (events : List Event) : numbered written (events.map .recorded) =
    (events.zipIdx (written + 1)).map fun entry => .logged entry.2 entry.1 := by
  induction events generalizing written with
  | nil => rfl
  | cons event rest ih => exact congrArg (.logged (written + 1) event :: ·) (ih (written + 1))

theorem countP_recorded (events : List Event) :
    (events.map Occurrence.recorded).countP isEvent = events.length := by
  rw [List.countP_map]
  exact List.countP_eq_length.mpr fun _ _ => rfl

end Occurrence

/-! ### What a journal shows -/

/-- Whether an occurrence makes a line: an event does where it is admitted, and a report always. -/
def Filter.shows (filter : Filter) : Occurrence → Bool
  | .recorded event => filter.admits event
  | .rejected _ => true
  | .failed _ => true

/-- No filter hides a report. -/
theorem Filter.reports_shown (filter : Filter) (occurrences : List Occurrence) :
    (occurrences.filter filter.shows).filterMap Occurrence.report? =
      occurrences.filterMap Occurrence.report? := by
  rw [List.filterMap_filter]
  congr 1
  funext occurrence
  cases occurrence with
  | recorded event => exact ite_self none
  | rejected cause => rfl
  | failed failure => rfl

namespace Journal

/-- The lines that some occurrences make. -/
def shown (journal : Journal) (occurrences : List Occurrence) : List Diagnostic :=
  Occurrence.numbered journal.written (occurrences.filter journal.filter.shows)

/-- The journal behind some occurrences. -/
def behind (journal : Journal) (occurrences : List Occurrence) : Journal :=
  { journal with
    written :=
      journal.written + (occurrences.filter journal.filter.shows).countP Occurrence.isEvent }

variable (journal : Journal) (occurrences more : List Occurrence) (events : List Event)

/-- What is shown of later occurrences begins where the journal is then. -/
theorem shown_append :
    journal.shown (occurrences ++ more) =
      journal.shown occurrences ++ (journal.behind occurrences).shown more := by
  rw [shown, List.filter_append, Occurrence.numbered_append]
  rfl

/-- The journal goes on from where it was. -/
theorem behind_append :
    journal.behind (occurrences ++ more) = (journal.behind occurrences).behind more := by
  rw [behind, List.filter_append, List.countP_append, ← Nat.add_assoc]
  rfl

theorem filter_recorded : (events.map Occurrence.recorded).filter journal.filter.shows =
    (events.filter journal.filter.admits).map .recorded :=
  List.filter_map

/-- The log lines of events are what is shown of them. -/
theorem entries_eq_shown : journal.entries events = journal.shown (events.map .recorded) := by
  rw [shown, filter_recorded, Occurrence.numbered_recorded, entries]

/-- The journal is behind the events that it has recorded. -/
theorem recordAll_snd : (journal.recordAll events).2 = journal.behind (events.map .recorded) := by
  rw [behind, filter_recorded, Occurrence.countP_recorded]
  induction events generalizing journal with
  | nil => rfl
  | cons event rest ih =>
    by_cases hadmits : journal.filter.admits event = true
    · simp [recordAll, record, hadmits, ih, Nat.add_assoc, Nat.add_comm]
    · simp [recordAll, record, hadmits, ih]

end Journal

/-! ### What happens in a session -/

namespace Settings

/-- What happens when an input is the one of this number. -/
def occurrences (settings : Settings) (number : Nat) (input : String) : List Occurrence :=
  let found := Answer.find settings.mode input
  (found.events ++ Session.rejectionEvents number found.result).map .recorded ++
    (settings.reports input).map Diagnostic.occurrence

/-- What happens when some inputs are answered, behind so many others. -/
def trace (settings : Settings) (evaluated : Nat) : List String → List Occurrence
  | [] => []
  | input :: rest =>
    settings.occurrences (evaluated + 1) input ++ settings.trace (evaluated + 1) rest

theorem shown_reports (settings : Settings) (journal : Journal) (input : String) :
    journal.shown ((settings.reports input).map Diagnostic.occurrence) = settings.reports input := by
  rw [reports]
  split <;> rfl

theorem behind_reports (settings : Settings) (journal : Journal) (input : String) :
    journal.behind ((settings.reports input).map Diagnostic.occurrence) = journal := by
  rw [reports]
  split <;> rfl

end Settings

namespace Session

variable {session : Session}

/-- What an answer adds to the error output is what is shown of it. -/
theorem diagnostics_eq_shown (session : Session) (input : String) :
    session.diagnostics input =
      session.journal.shown (session.settings.occurrences (session.evaluated + 1) input) := by
  rw [diagnostics, Journal.entries_eq_shown, Settings.occurrences, Journal.shown_append,
    Settings.shown_reports]
  rfl

/-- After an answer, the journal is behind what happened. -/
theorem journal_run (session : Session) (input : String) :
    (session.run input).2.journal =
      session.journal.behind (session.settings.occurrences (session.evaluated + 1) input) := by
  rw [Settings.occurrences, Journal.behind_append, Settings.behind_reports]
  -- the reply leaves the journal as the events have made it
  exact (write_keeps _ _).2.1.trans (Journal.recordAll_snd _ _)

theorem evaluated_run (session : Session) (input : String) :
    (session.run input).2.evaluated = session.evaluated + 1 :=
  (write_keeps (session.logged input) (session.settings.reply input)).2.2.1

/-- What inputs add to the error output is what is shown of them. -/
theorem diagnosticsOf_eq_shown (session : Session) (inputs : List String) :
    session.diagnosticsOf inputs =
      session.journal.shown (session.settings.trace session.evaluated inputs) := by
  induction inputs generalizing session with
  | nil => rfl
  | cons input rest ih =>
    -- the later inputs are shown by the journal that the first one leaves
    rw [diagnosticsOf, ih, diagnostics_eq_shown, journal_run, settings_run, evaluated_run,
      Settings.trace, Journal.shown_append]

/-- The journal of a session that has answered inputs is the one behind what happened. -/
theorem journal_runEach (session : Session) (inputs : List String) :
    (session.runEach inputs).journal =
      session.journal.behind (session.settings.trace session.evaluated inputs) := by
  induction inputs generalizing session with
  | nil => rfl
  | cons input rest ih =>
    show ((session.run input).2.runEach rest).journal = _
    rw [ih, journal_run, settings_run, evaluated_run, Settings.trace, Journal.behind_append]

/-- **The error output is what is shown**: where outputs take everything, it grows by the lines for
what happens. -/
theorem Unlimited.err_runEach_eq (h : session.Unlimited) (inputs : List String) :
    (session.runEach inputs).err.content = session.err.content ++ utf8 (Diagnostic.textOf
      (session.journal.shown (session.settings.trace session.evaluated inputs))) := by
  rw [h.err_runEach, diagnosticsOf_eq_shown]

/-- The replies to inputs do not depend on what is logged. -/
theorem Unlimited.out_runEach (h : session.Unlimited) (inputs : List String) :
    (session.runEach inputs).out.content = session.out.content ++
      utf8 (String.join (inputs.map fun input => (session.settings.reply input).on .out)) := by
  induction inputs generalizing session with
  | nil => exact (List.append_nil _).symm
  | cons input rest ih =>
    have hstep : (session.run input).2.out.content =
        session.out.content ++ utf8 (session.added input .out) := h.content_run input .out
    show ((session.run input).2.runEach rest).out.content = _
    rw [ih (h.run input).2, hstep, settings_run, List.map_cons, String.join_cons, utf8_append,
      List.append_assoc]
    rfl

end Session

end AddingMachine
