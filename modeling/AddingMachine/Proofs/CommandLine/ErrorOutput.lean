import AddingMachine.Proofs.CommandLine.Flags
import AddingMachine.Proofs.CommandLine.Inputs

/-!
# Runs and their logs

What happens in a run, how the error output shows it, and that nothing else depends on what is logged.
-/

namespace AddingMachine

/-! ## §1 What happens in a run

A run takes its course whatever is logged: which expressions it answers, and why it ends early, is
decided by the request and the input (`Request.course`), and so is what happens on the way
(`Request.trace`). Its exit code and its output follow from the course, and its error output shows
what happens (`Request.carryOut_eq`). -/

/-! ### The course of a run -/

/-- The expressions that a run answers, and why it ends early, if it does. -/
structure Course where
  given : List String
  ending : Option Failure

namespace Course

/-- The texts of some lines, up to the first line that is none. -/
def ofLines : List (List UInt8) → Course
  | [] => ⟨[], none⟩
  | line :: rest =>
    match ofUtf8? line with
    | none => ⟨[], some .notText⟩
    | some text => { ofLines rest with given := text :: (ofLines rest).given }

def result (course : Course) : Except Failure Unit :=
  match course.ending with
  | none => .ok ()
  | some failure => .error failure

def exitCode (course : Course) (mode : Mode) : Nat :=
  match course.ending with
  | none => if ∃ e ∈ course.given, mode.Rejected e then 1 else 0
  | some _ => 2

/-- What happens when a run ends early. -/
def last (course : Course) : List Occurrence :=
  match course.ending with
  | none => []
  | some failure => [.recorded (.failed failure), .failed failure]

end Course

/-- Lines are answered as far as they are texts. -/
theorem Session.Unlimited.runDecoded_eq {session : Session} (h : session.Unlimited)
    (lines : List (List UInt8)) : session.runDecoded lines =
      ((Course.ofLines lines).result, session.runEach (Course.ofLines lines).given) := by
  induction lines generalizing session with
  | nil => rfl
  | cons line rest ih =>
    cases htext : ofUtf8? line with
    | none =>
      -- the course ends here, and so does the session
      rw [runDecoded, Course.ofLines, htext]
      rfl
    | some text =>
      obtain rfl := (ofUtf8?_eq_some_iff _ _).mp htext
      obtain ⟨⟨accepted, hrun⟩, hnext⟩ := h.run text
      rw [runDecoded_text hrun, ih hnext, Course.ofLines, htext]
      rfl

namespace Request

variable (request : Request) (logFilter : Option String) (input : List UInt8)

/-- The course of a run: over the expressions among the arguments or, if there are none, over the
lines of the input. -/
def course : Course :=
  if request.expressions.isEmpty then .ofLines (lines input) else ⟨request.expressions, none⟩

/-- A request answers what its course gives, and ends as that says. -/
theorem answer_eq {session : Session} (h : session.Unlimited) : request.answer session input =
    ((request.course input).result, session.runEach (request.course input).given) := by
  rw [answer, course]
  split
  next => exact h.runDecoded_eq _
  next =>
    have hall := h.runDecoded_append request.expressions []
    rw [List.append_nil, Session.runDecoded_map_utf8] at hall
    exact hall

/-! ### What happens on the way -/

/-- What happens in a run, in order. -/
def trace : List Occurrence :=
  .recorded (.started request.settings) ::
    (request.settings.trace 0 (request.course input).given ++ (request.course input).last)

/-- The filter that a run logs with. -/
def filter : Filter :=
  (WrittenFilter.ofText (logFilter.getD usualFilter)).filterFor (Level.ofVerbosity request.verbosity)

/-- What a run replies. -/
def replies : String :=
  String.join ((request.course input).given.map fun e => (request.settings.reply e).on .out)

variable {logFilter} in
/-- With a well-formed log filter, a session begins with nothing but the log line for its start. -/
theorem openSession_eq (h : WellFormedFilter logFilter) : request.openSession logFilter =
    (Session.start request.settings (request.filter logFilter) (.empty none) (.empty none)).log
      [.started request.settings] := by
  rw [openSession]
  simp only [show (WrittenFilter.ofText (logFilter.getD usualFilter)).complaints = [] from h,
    List.map_nil, List.foldl_nil]
  rfl

variable {request logFilter} in
/-- What is written before the first answer is what is shown of the start. -/
theorem err_openSession (h : WellFormedFilter logFilter) :
    (request.openSession logFilter).err.content =
        utf8 (Diagnostic.textOf ((Journal.start (request.filter logFilter)).shown
          [.recorded (.started request.settings)])) ∧
      (request.openSession logFilter).journal =
        (Journal.start (request.filter logFilter)).behind
          [.recorded (.started request.settings)] := by
  have hunlimited : (Session.start request.settings (request.filter logFilter) (.empty none)
    (.empty none)).Unlimited := ⟨rfl, rfl⟩
  rw [openSession_eq request h, hunlimited.err_log, Journal.entries_eq_shown]
  exact ⟨rfl, Journal.recordAll_snd (.start _) [.started request.settings]⟩

/-- What a run writes at its end is what is shown of it. -/
theorem err_finish {session : Session} (h : session.Unlimited) (course : Course) :
    (finish (course.result, session)).err = session.err.content ++
      utf8 (Diagnostic.textOf (session.journal.shown course.last)) := by
  obtain ⟨given, ending⟩ := course
  cases ending with
  | none => exact (List.append_nil _).symm
  | some failure =>
    have hlimit : (session.log [.failed failure]).err.limit = none := h.err
    -- the log line for the failure comes first, and then the report of it
    have hlast : session.journal.shown [.recorded (.failed failure), .failed failure] =
        session.journal.entries [.failed failure] ++ [.failed failure] := by
      rw [Journal.entries_eq_shown]
      exact session.journal.shown_append [.recorded (.failed failure)] [.failed failure]
    rw [Course.last, hlast, Diagnostic.textOf_append, utf8_append, ← List.append_assoc, ← h.err_log,
      Diagnostic.textOf_singleton]
    exact Sink.content_write_of_limit hlimit _

theorem out_finish (session : Session) (course : Course) :
    (finish (course.result, session)).out = session.out.content := by
  obtain ⟨given, ending⟩ := course
  cases ending <;> rfl

/-- The exit code follows from the course. -/
theorem exitCode_finish {session : Session} (hnew : session.failures = 0) (course : Course) :
    (finish (course.result, session.runEach course.given)).exitCode =
      course.exitCode session.settings.mode := by
  have hfailures := session.failures_runEach course.given
  rw [hnew, Nat.zero_add] at hfailures
  obtain ⟨given, ending⟩ := course
  cases ending with
  | none =>
    -- nothing is counted as a failure if nothing is rejected
    have hzero : (session.runEach given).failures = 0 ↔
        ¬ ∃ e ∈ given, session.settings.mode.Rejected e := by
      rw [hfailures, List.countP_eq_zero]
      simp
    simp only [Course.result, finish, Course.exitCode, hzero, ite_not]
  | some failure => rfl

variable {logFilter} in
/-- **A run takes its course**: its exit code and its output follow from the course, and its error
output shows what happens on the way. -/
theorem carryOut_eq (h : WellFormedFilter logFilter) : request.carryOut logFilter input =
    ⟨(request.course input).exitCode request.settings.mode, utf8 (request.replies input),
      utf8 (Diagnostic.textOf ((Journal.start (request.filter logFilter)).shown
        (request.trace input)))⟩ := by
  have hopen := request.openSession_unlimited logFilter
  obtain ⟨hstart, hjournal⟩ := err_openSession h
  have hnew : (request.openSession logFilter).failures = 0 := rfl
  have hanswered := hopen.runEach (request.course input).given
  let finished := finish ((request.course input).result,
    (request.openSession logFilter).runEach (request.course input).given)
  -- each output by itself
  have hcode : finished.exitCode = (request.course input).exitCode request.settings.mode :=
    exitCode_finish hnew _
  have hout : finished.out = utf8 (request.replies input) :=
    (out_finish _ _).trans (hopen.out_runEach _)
  have herr : finished.err = utf8 (Diagnostic.textOf
      ((Journal.start (request.filter logFilter)).shown (request.trace input))) := by
    -- the start, the answers and the end write one behind the other
    rw [err_finish hanswered, hopen.err_runEach_eq, Session.journal_runEach, hstart, hjournal,
      ← Journal.behind_append, ← utf8_append, ← utf8_append, ← Diagnostic.textOf_append,
      ← Diagnostic.textOf_append, ← Journal.shown_append, ← Journal.shown_append]
    rfl
  rw [← hcode, ← hout, ← herr]
  exact congrArg finish (request.answer_eq input hopen)

end Request

/-! ## §2 The lines of the error output

Whatever an input holds, it cannot divide a line of the error output or make one of its own
(`error_output_lines`): each event that is logged and each report makes one line, in which no control
character is left, and log lines are numbered from one. -/

/-! ### How lines read -/

def Level.letters : List String :=
  ["E", "W", "I", "D", "T"]

def Target.names : List String :=
  ["calc", "calc::runner", "calc_parser", "calc_parser::lexer", "calc_parser::parser"]

theorem Level.letter_mem_letters (level : Level) : level.letter ∈ letters := by
  cases level <;> decide

theorem Target.name_mem_names (target : Target) : target.name ∈ names := by
  cases target <;> decide

/-- How a line of the error output can read, and the number that it begins with. -/
inductive LineForm : Option Nat → String → Prop where
  | log (number : Nat) {letter target : String} (message : String)
      (hletter : letter ∈ Level.letters) (htarget : target ∈ Target.names) :
      LineForm (some number)
        (Nat.repr number ++ "|" ++ letter ++ "|" ++ target ++ "|" ++ message)
  | report (message : String) : LineForm none ("error: " ++ message)

namespace Diagnostic

/-- The line that is made, without its end. -/
def line : Diagnostic → String
  | .logged number event =>
    Nat.repr number ++ "|" ++ event.level.letter ++ "|" ++ event.target.name ++ "|" ++ event.message
  | .rejected cause => "error: " ++ cause.message
  | .failed failure => "error: " ++ failure.message

variable (diagnostic : Diagnostic)

theorem text_eq_line : diagnostic.text = diagnostic.line ++ "\n" := by
  cases diagnostic <;> rfl

/-- A line reads as a log line or as a report. -/
theorem lineForm : LineForm diagnostic.number? diagnostic.line := by
  cases diagnostic with
  | logged number event =>
    exact .log number event.message event.level.letter_mem_letters event.target.name_mem_names
  | rejected cause => exact .report cause.message
  | failed failure => exact .report failure.message

/-- No control character is in a line. -/
theorem clean_line : Text.Clean diagnostic.line.toList := by
  obtain ⟨line, htext, hclean, -⟩ := diagnostic.exists_line
  have hline : diagnostic.line = line :=
    (String.append_left_inj "\n").mp (diagnostic.text_eq_line.symm.trans htext)
  rwa [hline]

theorem lineFeed_notMem_line : lineFeed ∉ utf8 diagnostic.line := by
  rw [utf8_eq, lineFeed_mem_utf8Chars_iff]
  intro hmem
  exact absurd (diagnostic.clean_line _ hmem) (by decide)

/-- Cut at its line feeds, the error output is its lines, and nothing is behind the last one. -/
theorem splitOn_textOf (diagnostics : List Diagnostic) :
    (utf8 (textOf diagnostics)).splitOn lineFeed = diagnostics.map (utf8 ·.line) ++ [[]] := by
  induction diagnostics with
  | nil => simp
  | cons diagnostic rest ih =>
    rw [textOf_cons, text_eq_line, utf8_append, utf8_append, utf8_lineFeed, List.append_assoc,
      List.singleton_append, List.splitOn_append_cons_self_of_not_mem
        diagnostic.lineFeed_notMem_line, ih]
    rfl

end Diagnostic

/-! ### The whole error output -/

/-- **Nothing forges or divides a line.** With a well-formed log filter, the error output is one line
for each occurrence that is shown, in order. A line is a log line or a report, and has no control
character in it; log lines are numbered from one without a gap. -/
theorem error_output_lines (request : Request) {logFilter : Option String}
    (hfilter : Request.WellFormedFilter logFilter) (input : List UInt8) :
    let shown := (request.trace input).filter (request.filter logFilter).shows
    ∃ diagnostics : List Diagnostic,
      (request.carryOut logFilter input).err =
        utf8 (String.join (diagnostics.map fun diagnostic => diagnostic.line ++ "\n")) ∧
      diagnostics.map Diagnostic.occurrence = shown ∧
      diagnostics.filterMap Diagnostic.number? = List.range' 1 (shown.countP Occurrence.isEvent) ∧
      ∀ diagnostic ∈ diagnostics,
        LineForm diagnostic.number? diagnostic.line ∧ Text.Clean diagnostic.line.toList := by
  intro shown
  refine ⟨Occurrence.numbered 0 shown, ?_, Occurrence.map_occurrence_numbered _ _,
    Occurrence.numbers_numbered _ _, fun d _ => ⟨d.lineForm, d.clean_line⟩⟩
  -- the error output is what is shown, numbered from one
  rw [request.carryOut_eq input hfilter]
  simp only [← Diagnostic.text_eq_line]
  rfl

/-- A bar and a line feed in an expression are quoted, and what is not logged has no number. -/
theorem error_output_lines_quoted :
    Request.WellFormedFilter (some "calc=info,calc_parser=debug") ∧
      ∃ diagnostics : List Diagnostic,
        utf8 ("1|I|calc|calc starting, mode=Value json=false\n" ++
            "2|D|calc_parser::lexer|Lexical error at position 1: unrecognized character '|'\n" ++
            "3|D|calc_parser|calculate(\"3|\\n\") failed: " ++
              "Lexical error at position 1: unrecognized character '|'\n" ++
            "4|I|calc::runner|expression #1 rejected: " ++
              "Lexical error at position 1: unrecognized character '|'\n" ++
            "error: Lexical error at position 1: unrecognized character '|'\n") =
          utf8 (String.join (diagnostics.map fun diagnostic => diagnostic.line ++ "\n")) ∧
        diagnostics.filterMap Diagnostic.number? = [1, 2, 3, 4] ∧
        ∀ diagnostic ∈ diagnostics,
          LineForm diagnostic.number? diagnostic.line ∧ Text.Clean diagnostic.line.toList := by
  have hfilter : Request.WellFormedFilter (some "calc=info,calc_parser=debug") := by
    decide +kernel
  -- the line feed that is quoted is escaped, and the bar stands behind those that divide the line
  obtain ⟨diagnostics, herr, -, hnumbers, hlines⟩ :=
    error_output_lines ⟨⟨.value, false⟩, 0, ["3|\n"]⟩ hfilter []
  refine ⟨hfilter, diagnostics, ?_, ?_, hlines⟩
  · rw [← herr]
    decide +kernel
  · rw [hnumbers]
    decide +kernel

/-! ## §3 Logging only observes

Two runs that differ in what they log, and in nothing else, end with the same exit code, write the
same output and report the same errors (`logging_only_observes`). What they log is decided by the log
filter and by the flags for verbosity, which are no part of what is asked for otherwise
(`withoutVerbosity`). -/

/-! ### Log lines among other lines -/

/-- Whether a line is one of the log: a number, the letter of a level, a target and a message, with
bars between them. -/
def isLogLine (line : List UInt8) : Bool :=
  match ofUtf8? line with
  | none => false
  | some text =>
    !(text.toList.takeWhile Char.isDigit).isEmpty &&
      Level.letters.any fun letter => Target.names.any fun target =>
        ("|" ++ letter ++ "|" ++ target ++ "|").toList.isPrefixOf (text.toList.dropWhile Char.isDigit)

/-- The lines of some bytes that are not lines of the log, and what is behind the last line. -/
def otherLines (bytes : List UInt8) : List (List UInt8) :=
  (bytes.splitOn lineFeed).filter (!isLogLine ·)

/-- A number, a letter, a target and a message make a log line. -/
theorem isLogLine_logged (number : Nat) {letter target : String} (message : String)
    (hletter : letter ∈ Level.letters) (htarget : target ∈ Target.names) :
    isLogLine (utf8 (Nat.repr number ++ "|" ++ letter ++ "|" ++ target ++ "|" ++ message)) = true := by
  have hdigits : ∀ c ∈ (Nat.repr number).toList, c.isDigit = true :=
    fun _ hc => Text.isDigit_of_mem_repr hc
  have hchars : (Nat.repr number ++ "|" ++ letter ++ "|" ++ target ++ "|" ++ message).toList =
      (Nat.repr number).toList ++
        (("|" ++ letter ++ "|" ++ target ++ "|").toList ++ message.toList) := by
    simp
  have hbar : ("|" ++ letter ++ "|" ++ target ++ "|").toList ++ message.toList =
      '|' :: ((letter ++ "|" ++ target ++ "|").toList ++ message.toList) := by
    simp
  -- the digits end at the first bar
  have hnumber : (Nat.repr number ++ "|" ++ letter ++ "|" ++ target ++ "|" ++ message).toList.takeWhile
      Char.isDigit = (Nat.repr number).toList := by
    rw [hchars, List.takeWhile_append_of_pos hdigits, hbar, List.takeWhile_cons_of_neg (by decide),
      List.append_nil]
  have hbehind : (Nat.repr number ++ "|" ++ letter ++ "|" ++ target ++ "|" ++ message).toList.dropWhile
      Char.isDigit = ("|" ++ letter ++ "|" ++ target ++ "|").toList ++ message.toList := by
    rw [hchars, List.dropWhile_append_of_pos hdigits, hbar, List.dropWhile_cons_of_neg (by decide)]
  rw [isLogLine, (ofUtf8?_eq_some_iff _ _).mpr rfl]
  dsimp only
  rw [hnumber, hbehind, Bool.and_eq_true, List.any_eq_true]
  refine ⟨by simp, letter, hletter, List.any_eq_true.mpr ⟨target, htarget, ?_⟩⟩
  exact List.isPrefixOf_iff_prefix.mpr (List.prefix_append _ _)

theorem isLogLine_report (message : String) : isLogLine (utf8 ("error: " ++ message)) = false := by
  have hchars : ("error: " ++ message).toList = 'e' :: ("rror: " ++ message).toList := by
    simp
  have hletter : ¬ 'e'.isDigit = true := by
    decide
  rw [isLogLine, (ofUtf8?_eq_some_iff _ _).mpr rfl]
  dsimp only
  rw [hchars, List.takeWhile_cons_of_neg hletter]
  rfl

namespace Diagnostic

/-- The lines that are not of the log are the reports. -/
theorem isLogLine_line (diagnostic : Diagnostic) :
    isLogLine (utf8 diagnostic.line) = !diagnostic.isReport := by
  cases diagnostic with
  | logged number event =>
    exact isLogLine_logged number event.message event.level.letter_mem_letters
      event.target.name_mem_names
  | rejected cause => exact isLogLine_report cause.message
  | failed failure => exact isLogLine_report failure.message

/-- Without the log lines, the reports are left. -/
theorem otherLines_textOf (diagnostics : List Diagnostic) :
    otherLines (utf8 (textOf diagnostics)) =
      (diagnostics.filter isReport).map (utf8 ·.line) ++ [[]] := by
  have hreports : (diagnostics.map (utf8 ·.line)).filter (!isLogLine ·) =
      (diagnostics.filter isReport).map (utf8 ·.line) := by
    rw [List.filter_map]
    simp [Function.comp_def, isLogLine_line]
  have hend : isLogLine [] = false := by decide +kernel
  rw [otherLines, splitOn_textOf, List.filter_append, hreports]
  simp [hend]

end Diagnostic

/-! ### Flags for verbosity -/

/-- Arguments without those in front of the expressions that ask for verbosity and nothing else. -/
def withoutVerbosity : List String → List String
  | [] => []
  | argument :: rest =>
    match Argument.classify argument with
    | .flags found =>
      if found.all (· = .verbose) then withoutVerbosity rest
      else argument :: withoutVerbosity rest
    | _ => argument :: rest

namespace Flags

/-- The flags but for verbosity. -/
def still (flags : Flags) : Flags :=
  { flags with verbosity := 0 }

variable {given given' : Flags}

theorem still_eq_iff : given.still = given'.still ↔
    given.json = given'.json ∧ given.tokens = given'.tokens ∧ given.tree = given'.tree := by
  simp [still]

theorem add_still (h : given.still = given'.still) (flag : Flag) :
    (given.add flag).map still = (given'.add flag).map still := by
  obtain ⟨hjson, htokens, htree⟩ := still_eq_iff.mp h
  cases flag with
  | json => simp only [add, hjson]; split <;> simp [Except.map, still, htokens, htree]
  | tokens => simp only [add, htokens]; split <;> simp [Except.map, still, hjson, htree]
  | tree => simp only [add, htree]; split <;> simp [Except.map, still, hjson, htokens]
  | verbose => exact congrArg Except.ok h
  | help => rfl
  | version => rfl

/-- What follows flags that agree but for verbosity comes to the same, if it takes no notice of it. -/
theorem bind_still {α β : Type} {x x' : Except Refusal Flags} {f f' : Flags → Except Refusal α}
    {g : α → β} (hx : x.map still = x'.map still)
    (hf : ∀ more more', more.still = more'.still → (f more).map g = (f' more').map g) :
    (x >>= f).map g = (x' >>= f').map g := by
  cases x with
  | error refusal =>
    cases x' with
    | error refusal' =>
      -- both are refused for the same reason
      obtain rfl := Except.error.inj hx
      rfl
    | ok more' => cases hx
  | ok more =>
    cases x' with
    | error refusal' => cases hx
    | ok more' => exact hf more more' (Except.ok.inj hx)

theorem foldlM_add_still (h : given.still = given'.still) (found : List Flag) :
    (found.foldlM add given).map still = (found.foldlM add given').map still := by
  induction found generalizing given given' with
  | nil => exact congrArg Except.ok h
  | cons flag rest ih =>
    rw [List.foldlM_cons, List.foldlM_cons]
    exact bind_still (add_still h flag) fun more more' hmore => ih hmore

/-- Flags for verbosity change nothing else. -/
theorem foldlM_add_verbose {found : List Flag} (hfound : ∀ flag ∈ found, flag = .verbose)
    (given : Flags) : (found.foldlM add given).map still = .ok given.still := by
  induction found generalizing given with
  | nil => rfl
  | cons flag rest ih =>
    obtain rfl := hfound flag List.mem_cons_self
    exact ih (fun flag hflag => hfound flag (List.mem_cons_of_mem _ hflag)) _

end Flags

namespace Request

/-- The request but for verbosity. -/
def still (request : Request) : Request :=
  { request with verbosity := 0 }

/-- What is asked for does not depend on the verbosity but for itself. -/
theorem request_still {given given' : Flags} (h : given.still = given'.still)
    (expressions : List String) :
    (given.request expressions).map still = (given'.request expressions).map still := by
  obtain ⟨hjson, htokens, htree⟩ := Flags.still_eq_iff.mp h
  simp only [Flags.request, hjson, htokens, htree]
  split <;> rfl

/-- Flags for verbosity have no part in what is asked for otherwise. -/
theorem readAfter_still {given given' : Flags} (h : given.still = given'.still)
    (arguments : List String) :
    (readAfter given arguments).map still =
      (readAfter given' (withoutVerbosity arguments)).map still := by
  -- what is given differs by the verbosity of the words that are left out
  induction arguments generalizing given given' with
  | nil => exact request_still h []
  | cons argument rest ih =>
    have hrest : ∀ more more' : Flags, more.still = more'.still →
        (readAfter more rest).map still = (readAfter more' (withoutVerbosity rest)).map still :=
      fun more more' hmore => ih hmore
    cases hkind : Argument.classify argument with
    | endOfFlags =>
      simp only [withoutVerbosity, readAfter, hkind]
      exact request_still h rest
    | valued flag => simp only [withoutVerbosity, readAfter, hkind]
    | expression =>
      simp only [withoutVerbosity, readAfter, hkind]
      exact request_still h (argument :: rest)
    | flags found =>
      by_cases hverbose : found.all (· = .verbose) = true
      -- the word asks for verbosity only, and is left out
      · have hfound : ∀ flag ∈ found, flag = .verbose := by simpa using hverbose
        have hgiven : (found.foldlM Flags.add given).map Flags.still =
            (Except.ok given').map Flags.still :=
          (Flags.foldlM_add_verbose hfound given).trans (congrArg Except.ok h)
        simp only [withoutVerbosity, hkind, hverbose, if_true, readAfter_flags hkind]
        exact Flags.bind_still hgiven hrest
      -- the word asks for more, and is kept
      · rw [withoutVerbosity, hkind]
        dsimp only
        rw [if_neg hverbose, readAfter_flags hkind, readAfter_flags hkind]
        exact Flags.bind_still (Flags.foldlM_add_still h found) hrest

/-- Arguments that differ in flags for verbosity ask for the same but for verbosity. -/
theorem eq_but_for_verbosity {arguments arguments' : List String} {request request' : Request}
    (hrequest : ofArguments arguments = .ok request)
    (hrequest' : ofArguments arguments' = .ok request')
    (hsame : withoutVerbosity arguments = withoutVerbosity arguments') :
    request' = { request with verbosity := request'.verbosity } := by
  have hread := readAfter_still (rfl : Flags.none.still = Flags.none.still) arguments
  have hread' := readAfter_still (rfl : Flags.none.still = Flags.none.still) arguments'
  rw [ofArguments] at hrequest hrequest'
  -- both read the same arguments, so all but their verbosity agrees
  rw [← hsame, ← hread, hrequest, hrequest'] at hread'
  have hstill : request'.still = request.still := Except.ok.inj hread'
  obtain ⟨settings, verbosity, expressions⟩ := request
  obtain ⟨settings', verbosity', expressions'⟩ := request'
  obtain ⟨rfl, -, rfl⟩ := Request.mk.inj hstill
  rfl

/-! ### Two runs -/

/-- The lines that are not of the log are the reports of what happens, whatever is logged. -/
theorem otherLines_carryOut (request : Request) {logFilter : Option String}
    (hfilter : WellFormedFilter logFilter) (input : List UInt8) :
    otherLines (request.carryOut logFilter input).err =
      ((request.trace input).filterMap Occurrence.report?).map (utf8 ·.line) ++ [[]] := by
  rw [request.carryOut_eq input hfilter, Diagnostic.otherLines_textOf, Journal.shown,
    Occurrence.reports_numbered, Filter.reports_shown]

end Request

/-- **Logging only observes.** Two runs on the same input, with arguments that differ in their flags
for verbosity and with any two well-formed log filters, end with the same exit code, write the same
output, and have the same lines in their error output besides those of the log, in the same order. -/
theorem logging_only_observes {arguments arguments' : List String} {request request' : Request}
    {logFilter logFilter' : Option String}
    (hrequest : Request.ofArguments arguments = .ok request)
    (hrequest' : Request.ofArguments arguments' = .ok request')
    (hsame : withoutVerbosity arguments = withoutVerbosity arguments')
    (hfilter : Request.WellFormedFilter logFilter) (hfilter' : Request.WellFormedFilter logFilter')
    (input : List UInt8) :
    let finished := request.carryOut logFilter input
    let finished' := request'.carryOut logFilter' input
    finished.exitCode = finished'.exitCode ∧ finished.out = finished'.out ∧
      otherLines finished.err = otherLines finished'.err := by
  intro finished finished'
  have hverbosity := Request.eq_but_for_verbosity hrequest hrequest' hsame
  -- course, replies and trace do not look at the verbosity
  have hcourse : request'.course input = request.course input := by
    rw [hverbosity]
    rfl
  have hreplies : request'.replies input = request.replies input := by
    rw [hverbosity]
    rfl
  have htrace : request'.trace input = request.trace input := by
    rw [hverbosity]
    rfl
  have hsettings : request'.settings = request.settings := by
    rw [hverbosity]
  refine ⟨?_, ?_, ?_⟩
  · show (request.carryOut logFilter input).exitCode = (request'.carryOut logFilter' input).exitCode
    rw [request.carryOut_eq input hfilter, request'.carryOut_eq input hfilter', hcourse, hsettings]
  · show (request.carryOut logFilter input).out = (request'.carryOut logFilter' input).out
    rw [request.carryOut_eq input hfilter, request'.carryOut_eq input hfilter', hreplies]
  · show otherLines (request.carryOut logFilter input).err =
      otherLines (request'.carryOut logFilter' input).err
    rw [request.otherLines_carryOut hfilter, request'.otherLines_carryOut hfilter', htrace]

/-- A report stands among other log lines, and is the same. -/
theorem logging_only_observes_rejection :
    let request : Request := ⟨⟨.value, false⟩, 0, ["1", "2+"]⟩
    let request' : Request := ⟨⟨.value, false⟩, 2, ["1", "2+"]⟩
    let finished := request.carryOut none []
    let finished' := request'.carryOut (some "calc_parser=trace,off") []
    Request.ofArguments ["1", "2+"] = .ok request ∧
      Request.ofArguments ["-v", "--verbose", "1", "2+"] = .ok request' ∧
      withoutVerbosity ["1", "2+"] = withoutVerbosity ["-v", "--verbose", "1", "2+"] ∧
      Request.WellFormedFilter none ∧ Request.WellFormedFilter (some "calc_parser=trace,off") ∧
      finished.exitCode = finished'.exitCode ∧ finished.out = finished'.out ∧
      otherLines finished.err = otherLines finished'.err ∧ finished.err ≠ finished'.err := by
  intro request request' finished finished'
  have hrequest : Request.ofArguments ["1", "2+"] = .ok request := by
    decide
  have hrequest' : Request.ofArguments ["-v", "--verbose", "1", "2+"] = .ok request' := by
    decide
  have hsame : withoutVerbosity ["1", "2+"] = withoutVerbosity ["-v", "--verbose", "1", "2+"] := by
    decide
  have hfilter : Request.WellFormedFilter none := by
    decide +kernel
  have hfilter' : Request.WellFormedFilter (some "calc_parser=trace,off") := by
    decide +kernel
  -- the second run logs more, by its verbosity and by the entry for the parser
  obtain ⟨hcode, hout, hlines⟩ := logging_only_observes hrequest hrequest' hsame hfilter hfilter' []
  refine ⟨hrequest, hrequest', hsame, hfilter, hfilter', hcode, hout, hlines, ?_⟩
  decide +kernel

end AddingMachine
