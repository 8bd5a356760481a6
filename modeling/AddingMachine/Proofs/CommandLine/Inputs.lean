import AddingMachine.CommandLine
import AddingMachine.Proofs.Session.Diagnostics

/-!
# Runs and their inputs

What a run answers, how it ends, and that expressions can be given in two ways.
-/

namespace AddingMachine

/-! ## §1 Exit codes

The exit code says how a run went (`exit_code_tells`): 2 where the input has a line that is no text
and lines are what is answered, and otherwise 1 where an expression is rejected, and 0 where none is.
The error output has a line for each rejection, and a last one where the run ends early. -/

/-! ### Lines that are no text -/

/-- The first line of an input that is no text is `bad`, and `before` stands in front of it. -/
structure BreaksAt (input before bad : List UInt8) : Prop where
  complete : before = [] ∨ before.getLast? = some lineFeed
  text : ∃ text, before = utf8 text
  noFeed : lineFeed ∉ bad
  notText : ∀ text, bad ≠ utf8 text
  rest : ∃ after, input = before ++ bad ++ after ∧ (after = [] ∨ after.head? = some lineFeed)

namespace BreaksAt

variable {input before bad line : List UInt8}

/-- More lines in front. -/
theorem behind (h : BreaksAt input before bad) (hline : ∃ text, line = utf8 text) :
    BreaksAt (line ++ lineFeed :: input) (line ++ lineFeed :: before) bad := by
  obtain ⟨first, rfl⟩ := hline
  obtain ⟨text, rfl⟩ := h.text
  obtain ⟨after, rfl, hafter⟩ := h.rest
  refine ⟨.inr ?_, ⟨first ++ "\n" ++ text, by simp⟩, h.noFeed, h.notText, after, by simp, hafter⟩
  -- what stood in front still ends with a line feed, or was nothing
  rcases h.complete with hnil | hlast
  · simp [hnil]
  · rw [List.getLast?_append, List.getLast?_cons, hlast]
    rfl

/-- The line that is no text is still none without the return at its end. -/
theorem lines (h : BreaksAt input before bad) : ∃ bad' later,
    AddingMachine.lines input = AddingMachine.lines before ++ bad' :: later ∧
      ∀ text, bad' ≠ utf8 text := by
  obtain ⟨after, rfl, hafter⟩ := h.rest
  have hstripped : ∀ text, stripReturn bad ≠ utf8 text := by
    intro text htext
    rw [stripReturn] at htext
    split at htext
    next hreturn =>
      have hreturnText : utf8 "\r" = [carriageReturn] := by decide +kernel
      obtain ⟨init, rfl⟩ := List.getLast?_eq_some_iff.mp hreturn
      rw [List.dropLast_concat] at htext
      exact h.notText (text ++ "\r") (by rw [utf8_append, hreturnText, htext])
    next => exact h.notText text htext
  have hne : ∀ {line : List UInt8}, (∀ text, line ≠ utf8 text) → line.isEmpty = false := by
    intro line hline
    rw [List.isEmpty_eq_false_iff]
    exact fun hnil => hline "" (hnil.trans utf8_empty.symm)
  rw [List.append_assoc, lines_append h.complete]
  cases after with
  -- nothing follows: the line is the last one, and keeps its return
  | nil =>
    refine ⟨bad, [], ?_, h.notText⟩
    rw [List.append_nil, AddingMachine.lines, AddingMachine.lines, allLines_of_notMem h.noFeed]
    simp [hne h.notText]
  -- a line feed follows, and takes the return with it
  | cons feed rest =>
    obtain rfl : feed = lineFeed := Option.some.inj (hafter.resolve_left (List.cons_ne_nil _ _))
    refine ⟨stripReturn bad, AddingMachine.lines rest, ?_, hstripped⟩
    rw [lines_feed h.noFeed]
    simp [hne hstripped]

end BreaksAt

/-- All lines of an input are texts, and then it is one, or there is a first that is none. -/
theorem exists_text_or_breaksAt (input : List UInt8) :
    ((∀ line ∈ input.splitOn lineFeed, ∃ text, line = utf8 text) ∧ ∃ text, input = utf8 text) ∨
      ((∃ line ∈ input.splitOn lineFeed, ∀ text, line ≠ utf8 text) ∧
        ∃ before bad, BreaksAt input before bad) := by
  induction hlength : input.length using Nat.strongRecOn generalizing input with
  | ind n ih =>
    -- by the first line, and then what is left behind its line feed
    by_cases hfeed : lineFeed ∈ input
    · obtain ⟨line, rest, rfl, hline⟩ := List.eq_append_cons_of_mem hfeed
      have hlt : rest.length < n := by
        rw [← hlength, List.length_append, List.length_cons]
        omega
      rw [List.splitOn_append_cons_self_of_not_mem hline, List.forall_mem_cons,
        List.exists_mem_cons_iff]
      by_cases htext : ∃ text, line = utf8 text
      · rcases ih _ hlt rest rfl with ⟨hall, text, rfl⟩ | ⟨hbad, before, bad, hbreaks⟩
        · obtain ⟨first, rfl⟩ := htext
          exact .inl ⟨⟨⟨first, rfl⟩, hall⟩, first ++ "\n" ++ text, by simp⟩
        · exact .inr ⟨.inr hbad, _, bad, hbreaks.behind htext⟩
      -- the first line is no text
      · have hnot := not_exists.mp htext
        exact .inr ⟨.inl hnot, [], line,
          ⟨.inl rfl, ⟨"", rfl⟩, hline, hnot, lineFeed :: rest, rfl, .inr rfl⟩⟩
    -- without a line feed there is one line, which is a text or not
    · rw [List.splitOn_eq_singleton hfeed, List.forall_mem_singleton]
      by_cases htext : ∃ text, input = utf8 text
      · exact .inl ⟨htext, htext⟩
      · have hnot := not_exists.mp htext
        exact .inr ⟨⟨input, List.mem_singleton_self _, hnot⟩, [], input,
          ⟨.inl rfl, ⟨"", rfl⟩, hfeed, hnot, [], (List.append_nil _).symm, .inl rfl⟩⟩

namespace Request

variable {request : Request} {input : List UInt8} {given : List String}

/-! ### What a request is given -/

/-- The expressions that a request is given: those among its arguments or, if there are none, the
lines of an input that is a text, without the empty ones. -/
inductive Given (request : Request) (input : List UInt8) : List String → Prop where
  | arguments (hsome : request.expressions ≠ []) : request.Given input request.expressions
  | lines (hnone : request.expressions = []) {text : String} (htext : input = utf8 text)
      {pieces : List (List Char)} (hpieces : CutsInto '\n' '\r' text.toList pieces) :
      request.Given input ((pieces.filter (!·.isEmpty)).map String.ofList)

/-- If it is given no arguments, a request is given the lines of its input. -/
theorem Given.lines_eq (h : request.Given input given) (hnone : request.expressions = []) :
    AddingMachine.lines input = given.map utf8 := by
  cases h with
  | arguments hsome => exact absurd hnone hsome
  | lines _ htext hpieces => rw [htext, Session.lines_utf8 hpieces]

/-- An input that is a text gives expressions. -/
theorem exists_given (hnone : request.expressions = []) (htext : ∃ text, input = utf8 text) :
    ∃ given, request.Given input given := by
  obtain ⟨text, htext⟩ := htext
  obtain ⟨pieces, hpieces⟩ := exists_cutsInto '\n' '\r' text.toList
  exact ⟨_, .lines hnone htext hpieces⟩

variable {session : Session}

/-- What is given is answered, one expression after another. -/
theorem Given.answer_eq (h : request.Given input given) (hsession : session.Unlimited) :
    request.answer session input = (.ok (), session.runEach given) := by
  have hall := hsession.runDecoded_append given []
  rw [List.append_nil] at hall
  rw [answer]
  cases h with
  -- the expressions are answered as lines that are texts
  | arguments hsome =>
    rw [if_neg (by simpa using hsome), ← Session.runDecoded_map_utf8, hall]
    rfl
  -- the lines of the input are answered
  | lines hnone htext hpieces =>
    rw [if_pos (by simp [hnone]), Session.runLines, htext, Session.lines_utf8 hpieces, hall]
    rfl

/-- What is given in front of a line that is no text is answered, and then the run ends. -/
theorem answer_of_breaksAt {before bad : List UInt8} (hbreaks : BreaksAt input before bad)
    (hnone : request.expressions = []) (h : request.Given before given)
    (hsession : session.Unlimited) :
    request.answer session input = (.error .notText, session.runEach given) := by
  obtain ⟨bad', later, hlines, hbad⟩ := hbreaks.lines
  rw [answer, if_pos (by simp [hnone]), Session.runLines, hlines, h.lines_eq hnone,
    hsession.runDecoded_append, Session.runDecoded_notText hbad]

/-! ### How a run begins and ends -/

theorem limit_foldl_write (lines : List String) {sink : Sink} (h : sink.limit = none) :
    (lines.foldl (fun sink line => (sink.write line).2) sink).limit = none := by
  induction lines generalizing sink with
  | nil => exact h
  | cons line rest ih => exact ih h

/-- A session begins with outputs that take everything. -/
theorem openSession_unlimited (request : Request) (logFilter : Option String) :
    (request.openSession logFilter).Unlimited :=
  ⟨rfl, limit_foldl_write _ rfl⟩

/-- The log filter gives no cause for complaint. -/
def WellFormedFilter (logFilter : Option String) : Prop :=
  (WrittenFilter.ofText (logFilter.getD usualFilter)).complaints = []

instance (logFilter : Option String) : Decidable (WellFormedFilter logFilter) :=
  inferInstanceAs (Decidable ((WrittenFilter.ofText (logFilter.getD usualFilter)).complaints = []))

/-- With a well-formed log filter, only log lines are written before the first answer. -/
theorem exists_entries_openSession (request : Request) {logFilter : Option String}
    (h : WellFormedFilter logFilter) : ∃ entries : List Diagnostic,
      (request.openSession logFilter).err.content = utf8 (Diagnostic.textOf entries) ∧
        entries.countP Diagnostic.isReport = 0 := by
  let written := WrittenFilter.ofText (logFilter.getD usualFilter)
  let before := Session.start request.settings
    (written.filterFor (Level.ofVerbosity request.verbosity)) (.empty none) (.empty none)
  have hbefore : before.Unlimited := ⟨rfl, rfl⟩
  -- without complaints nothing is written before the log
  have hopen : request.openSession logFilter = before.log [.started request.settings] := by
    rw [openSession]
    simp only [show written.complaints = [] from h, List.map_nil, List.foldl_nil, written, before]
  refine ⟨before.journal.entries [.started request.settings], ?_, ?_⟩
  · rw [hopen, hbefore.err_log]
    rfl
  · exact before.journal.countP_isReport_entries _

/-- How many reports there are of some expressions: one for each that is rejected, in text. -/
def reportCount (settings : Settings) (given : List String) : Nat :=
  if settings.json then 0
  else given.countP fun expression => decide (settings.mode.Rejected expression)

/-- A run that is given expressions answers them all. -/
theorem Given.carryOut_eq (h : request.Given input given) (logFilter : Option String) :
    request.carryOut logFilter input =
      finish (.ok (), (request.openSession logFilter).runEach given) :=
  congrArg finish (h.answer_eq (request.openSession_unlimited logFilter))

/-- A run that answers all that it is given reports what it rejects. -/
theorem Given.exists_diagnostics (h : request.Given input given) {logFilter : Option String}
    (hfilter : WellFormedFilter logFilter) : ∃ diagnostics : List Diagnostic,
      (request.carryOut logFilter input).err = utf8 (Diagnostic.textOf diagnostics) ∧
        diagnostics.countP Diagnostic.isReport = reportCount request.settings given := by
  obtain ⟨entries, hentries, hnone⟩ := request.exists_entries_openSession hfilter
  have hsettings : (request.openSession logFilter).settings = request.settings := rfl
  refine ⟨entries ++ (request.openSession logFilter).diagnosticsOf given, ?_, ?_⟩
  · rw [h.carryOut_eq, Diagnostic.textOf_append, utf8_append, ← hentries]
    exact (request.openSession_unlimited logFilter).err_runEach given
  · rw [List.countP_append, hnone, Session.countP_diagnosticsOf, hsettings, Nat.zero_add,
      reportCount]

/-- A run that answers all that it is given has the exit code 1 if something is rejected, and else
0. -/
theorem Given.exitCode_carryOut (h : request.Given input given) (logFilter : Option String) :
    (request.carryOut logFilter input).exitCode =
      if ∃ e ∈ given, request.settings.mode.Rejected e then 1 else 0 := by
  have hfailures : ((request.openSession logFilter).runEach given).failures =
      given.countP fun e => decide (request.settings.mode.Rejected e) :=
    ((request.openSession logFilter).failures_runEach given).trans (Nat.zero_add _)
  rw [h.carryOut_eq, finish, hfailures]
  -- something is rejected if rejections are counted
  by_cases hrejected : ∃ e ∈ given, request.settings.mode.Rejected e
  · have hne : given.countP (fun e => decide (request.settings.mode.Rejected e)) ≠ 0 := by
      rw [← Nat.pos_iff_ne_zero, List.countP_pos_iff]
      simpa using hrejected
    rw [if_neg hne, if_pos hrejected]
  · have hzero : given.countP (fun e => decide (request.settings.mode.Rejected e)) = 0 := by
      rw [List.countP_eq_zero]
      simpa using hrejected
    rw [if_pos hzero, if_neg hrejected]

/-- A run that ends early logs why, and reports it on a last line. -/
theorem exists_err_finish (hsession : session.Unlimited) (failure : Failure) :
    ∃ entries : List Diagnostic, entries.countP Diagnostic.isReport = 0 ∧
      (finish (.error failure, session)).err = session.err.content ++
        utf8 (Diagnostic.textOf entries) ++ utf8 (Diagnostic.failed failure).text := by
  have hlimit : (session.log [.failed failure]).err.limit = none := hsession.err
  refine ⟨session.journal.entries [.failed failure], session.journal.countP_isReport_entries _, ?_⟩
  rw [← hsession.err_log]
  exact Sink.content_write_of_limit hlimit _

/-- A run that ends at a line that is no text is one over what stands in front of it, and one more
report. -/
theorem Given.carryOut_of_breaksAt {before bad : List UInt8} (h : request.Given before given)
    (hbreaks : BreaksAt input before bad) (hnone : request.expressions = [])
    (logFilter : Option String) :
    let finished := request.carryOut logFilter input
    finished.exitCode = 2 ∧ finished.out = (request.carryOut logFilter before).out ∧
      ∃ entries : List Diagnostic, entries.countP Diagnostic.isReport = 0 ∧
        finished.err = (request.carryOut logFilter before).err ++
          utf8 (Diagnostic.textOf entries) ++ utf8 (Diagnostic.failed .notText).text := by
  have hopen := request.openSession_unlimited logFilter
  have hcarry : request.carryOut logFilter input =
      finish (.error .notText, (request.openSession logFilter).runEach given) :=
    congrArg finish (answer_of_breaksAt hbreaks hnone h hopen)
  rw [hcarry, h.carryOut_eq]
  exact ⟨rfl, rfl, exists_err_finish (hopen.runEach given) .notText⟩

/-- A request is given expressions, unless it answers lines of which one is no text. -/
theorem exists_given_or_breaksAt (request : Request) (input : List UInt8) :
    (¬ (request.expressions = [] ∧ ∃ line ∈ input.splitOn lineFeed, ∀ text, line ≠ utf8 text) ∧
        ∃ given, request.Given input given) ∨
      (request.expressions = [] ∧ ∃ line ∈ input.splitOn lineFeed, ∀ text, line ≠ utf8 text) ∧
        ∃ before bad given, BreaksAt input before bad ∧ request.Given before given := by
  -- with expressions among the arguments, the input is not looked at
  by_cases hnone : request.expressions = []
  · rcases exists_text_or_breaksAt input with ⟨hall, htext⟩ | ⟨hbad, before, bad, hbreaks⟩
    · refine .inl ⟨?_, exists_given hnone htext⟩
      rintro ⟨-, line, hline, hbad⟩
      obtain ⟨text, htext⟩ := hall line hline
      exact hbad text htext
    · obtain ⟨given, hgiven⟩ := exists_given hnone hbreaks.text
      exact .inr ⟨⟨hnone, hbad⟩, before, bad, given, hbreaks, hgiven⟩
  · exact .inl ⟨fun h => hnone h.1, _, .arguments hnone⟩

end Request

/-! ### Exit codes -/

/-- **Exit codes tell how a run went.** The code is 2 exactly where no expressions are among the
arguments and a line of the input is no text. Otherwise it is 1 where one of the expressions that are
given is rejected, and 0 where none is; in text, each rejection makes one line of the error output
that begins with `error: `. On code 2 this holds of what is given in front of the first line that is
no text: the output is that of a run over it, and the error output has one more line, the last. -/
theorem exit_code_tells (request : Request) (logFilter : Option String) (input : List UInt8) :
    let finished := request.carryOut logFilter input
    (finished.exitCode = 2 ↔ request.expressions = [] ∧
      ∃ line ∈ input.splitOn lineFeed, ∀ text, line ≠ utf8 text) ∧
    (finished.exitCode ≠ 2 → ∃ given, request.Given input given ∧
      (finished.exitCode = 1 ↔ ∃ e ∈ given, request.settings.mode.Rejected e) ∧
      (finished.exitCode = 0 ↔ ∀ e ∈ given, ¬ request.settings.mode.Rejected e) ∧
      (Request.WellFormedFilter logFilter →
        errorLines finished.err = Request.reportCount request.settings given)) ∧
    (finished.exitCode = 2 → ∃ before bad given, BreaksAt input before bad ∧
      request.Given before given ∧ finished.out = (request.carryOut logFilter before).out ∧
      ∃ earlier, finished.err = earlier ++ utf8 (Diagnostic.failed .notText).text ∧
        (Request.WellFormedFilter logFilter →
          errorLines earlier = Request.reportCount request.settings given ∧
          errorLines finished.err = Request.reportCount request.settings given + 1)) := by
  intro finished
  rcases request.exists_given_or_breaksAt input with
    ⟨hwhole, given, hgiven⟩ | ⟨hbroken, before, bad, given, hbreaks, hgiven⟩
  -- all that is given is answered: the code is 1 or 0, and there is a report for each rejection
  · have hcode : finished.exitCode =
        if ∃ e ∈ given, request.settings.mode.Rejected e then 1 else 0 :=
      hgiven.exitCode_carryOut logFilter
    have hne : finished.exitCode ≠ 2 := by
      rw [hcode]
      split <;> decide
    refine ⟨iff_of_false hne hwhole, fun _ => ⟨given, hgiven, ?_, ?_, fun hfilter => ?_⟩,
      fun htwo => absurd htwo hne⟩
    -- the code is 1 where something is rejected
    · simp [hcode]
    -- and 0 where nothing is
    · simp [hcode]
    -- the lines that report errors are the reports
    · obtain ⟨diagnostics, herr, hcount⟩ := hgiven.exists_diagnostics hfilter
      rw [herr, errorLines_utf8_textOf, hcount]
  -- a line is no text: what stands in front of it is answered, and the failure is reported behind
  · obtain ⟨hcode, hout, entries, hnone, herr⟩ :=
      hgiven.carryOut_of_breaksAt hbreaks hbroken.1 logFilter
    refine ⟨iff_of_true hcode hbroken, fun hne => absurd hcode hne, fun _ => ⟨before, bad, given,
      hbreaks, hgiven, hout, _, herr, fun hfilter => ?_⟩⟩
    obtain ⟨diagnostics, hdiagnostics, hcount⟩ := hgiven.exists_diagnostics hfilter
    -- the last line counts as one report more
    have hfinal : (Diagnostic.failed .notText).text = Diagnostic.textOf [.failed .notText] :=
      (Diagnostic.textOf_singleton _).symm
    rw [herr, hdiagnostics, hfinal]
    simp only [← utf8_append, ← Diagnostic.textOf_append, errorLines_utf8_textOf,
      List.countP_append, hnone, hcount]
    exact ⟨rfl, rfl⟩

example :
    let finished := (Request.mk ⟨.value, false⟩ 0 []).carryOut none
      (utf8 "1+2\n1+\n" ++ 255 :: utf8 "\n3")
    finished.exitCode = 2 ∧ finished.out = utf8 "3\n" ∧ errorLines finished.err = 2 := by
  decide +kernel

/-! ## §2 Two ways to give expressions

Expressions behind `--` are answered as the lines of an input are that holds them one by one
(`arguments_like_lines`): the session begins alike, and each line is read as the expression on it. -/

/-! ### Lines that hold expressions -/

/-- An expression that a line can hold as it is. -/
structure FitsLine (expression : String) : Prop where
  ne_empty : expression ≠ ""
  noFeed : '\n' ∉ expression.toList
  noReturn : expression.toList.getLast? ≠ some '\r'

namespace FitsLine

variable {expression : String}

theorem noFeed_utf8 (h : FitsLine expression) : lineFeed ∉ utf8 expression := by
  rw [utf8_eq]
  exact mt (lineFeed_mem_utf8Chars_iff _).mp h.noFeed

theorem utf8_ne_nil (h : FitsLine expression) : utf8 expression ≠ [] :=
  fun hnil => h.ne_empty (utf8_injective (hnil.trans utf8_empty.symm))

theorem stripReturn_utf8 (h : FitsLine expression) :
    stripReturn (utf8 expression) = utf8 expression := by
  apply stripReturn_of_ne
  rw [utf8_eq]
  exact getLast?_utf8Chars_ne h.noReturn

theorem lines_feed (h : FitsLine expression) (rest : List UInt8) :
    lines (utf8 expression ++ lineFeed :: rest) = utf8 expression :: lines rest := by
  rw [AddingMachine.lines_feed h.noFeed_utf8, h.stripReturn_utf8]
  simp [h.utf8_ne_nil]

theorem lines_eq (h : FitsLine expression) : lines (utf8 expression) = [utf8 expression] := by
  rw [lines, allLines_of_notMem h.noFeed_utf8]
  simp [h.utf8_ne_nil]

end FitsLine

variable {expressions : List String}

/-- Each expression with a line feed behind it is a line of its own. -/
theorem lines_join (h : ∀ e ∈ expressions, FitsLine e) :
    lines (utf8 (String.join (expressions.map (· ++ "\n")))) = expressions.map utf8 := by
  induction expressions with
  | nil => rfl
  | cons e rest ih =>
    have hrest := ih fun e he => h e (List.mem_cons_of_mem _ he)
    rw [List.map_cons, String.join_cons, utf8_append, utf8_append, utf8_lineFeed, List.append_assoc,
      List.singleton_append, (h e List.mem_cons_self).lines_feed, hrest, List.map_cons]

/-- The last line feed has no part in the lines. -/
theorem lines_intercalate (h : ∀ e ∈ expressions, FitsLine e) :
    lines (utf8 ("\n".intercalate expressions)) = expressions.map utf8 := by
  induction expressions with
  | nil => rfl
  | cons e rest ih =>
    have hfirst := h e List.mem_cons_self
    have hrest := ih fun e he => h e (List.mem_cons_of_mem _ he)
    cases rest with
    -- the last expression, without a line feed
    | nil => rw [String.intercalate_singleton, hfirst.lines_eq, List.map_singleton]
    | cons f rest =>
      rw [String.intercalate_cons_cons, utf8_append, utf8_append, utf8_lineFeed, List.append_assoc,
        List.singleton_append, hfirst.lines_feed, hrest]
      rfl

/-! ### Flags and the expressions behind them -/

/-- An argument that is made of flags. -/
def Argument.IsFlags (argument : String) : Prop :=
  ∃ found, classify argument = .flags found

namespace Request

variable {flags : List String} {request : Request}

/-- Flags ask for the same with expressions behind them, and for these expressions besides. -/
theorem readAfter_append {given : Flags} (hflags : ∀ argument ∈ flags, Argument.IsFlags argument)
    (hread : readAfter given flags = .ok request) (expressions : List String) :
    readAfter given (flags ++ "--" :: expressions) = .ok { request with expressions } ∧
      request.expressions = [] := by
  induction flags generalizing given with
  | nil =>
    have hend : Argument.classify "--" = .endOfFlags := by decide
    rw [readAfter, Flags.request] at hread
    rw [List.nil_append, readAfter, hend]
    dsimp only
    rw [Flags.request]
    split at hread
    next => cases hread
    next hconflict =>
      obtain rfl := Except.ok.inj hread
      exact ⟨if_neg hconflict, rfl⟩
  -- the flags of this word are added in both
  | cons argument rest ih =>
    obtain ⟨found, hfound⟩ := hflags argument List.mem_cons_self
    rw [readAfter, hfound] at hread
    rw [List.cons_append, readAfter, hfound]
    dsimp only at hread ⊢
    cases hadd : found.foldlM Flags.add given with
    | error refusal =>
      rw [hadd] at hread
      cases hread
    | ok more =>
      rw [hadd] at hread
      exact ih (fun argument hargument => hflags argument (.tail _ hargument)) hread

/-- Expressions are answered as the lines that hold them. -/
theorem carryOut_expressions (hnone : request.expressions = []) (hne : expressions ≠ [])
    (logFilter : Option String) (ignored : List UInt8) {bytes : List UInt8}
    (hlines : lines bytes = expressions.map utf8) :
    ({ request with expressions } : Request).carryOut logFilter ignored =
      request.carryOut logFilter bytes := by
  have hsession : ({ request with expressions } : Request).openSession logFilter =
    request.openSession logFilter := rfl
  have hempty : expressions.isEmpty = false := by simpa using hne
  simp only [carryOut, answer, hsession, hempty, hnone, List.isEmpty_nil, if_true, Session.runLines,
    hlines, Session.runDecoded_map_utf8]
  rfl

end Request

/-- **Arguments are like lines.** Expressions behind flags and `--` come to the same exit code and
the same outputs, log lines included, as the flags alone with an input that holds the expressions
one on each line. The last line may lack its line feed, and with expressions the input is not read. -/
theorem arguments_like_lines {flags : List String} {request : Request}
    (hflags : ∀ argument ∈ flags, Argument.IsFlags argument)
    (hrequest : Request.ofArguments flags = .ok request)
    (hne : expressions ≠ []) (hfits : ∀ e ∈ expressions, FitsLine e)
    (logFilter : Option String) (ignored : List UInt8) :
    ∃ asked, Request.ofArguments (flags ++ "--" :: expressions) = .ok asked ∧
      asked.carryOut logFilter ignored =
        request.carryOut logFilter (utf8 (String.join (expressions.map (· ++ "\n")))) ∧
      asked.carryOut logFilter ignored =
        request.carryOut logFilter (utf8 ("\n".intercalate expressions)) := by
  obtain ⟨hasked, hnone⟩ := Request.readAfter_append hflags hrequest expressions
  exact ⟨_, hasked, Request.carryOut_expressions hnone hne logFilter ignored (lines_join hfits),
    Request.carryOut_expressions hnone hne logFilter ignored (lines_intercalate hfits)⟩

/-- What looks like a flag behind `--` is an expression, and so is a line that looks like one. -/
theorem arguments_like_lines_dashes :
    (∀ argument ∈ ["-v", "--json"], Argument.IsFlags argument) ∧
      Request.ofArguments ["-v", "--json"] = .ok ⟨⟨.value, true⟩, 1, []⟩ ∧
      ["--json", "1\r+1"] ≠ [] ∧ (∀ e ∈ ["--json", "1\r+1"], FitsLine e) ∧
      ∃ asked, Request.ofArguments ["-v", "--json", "--", "--json", "1\r+1"] = .ok asked ∧
        asked.carryOut (some "calc=off") (utf8 "7") =
          (Request.mk ⟨.value, true⟩ 1 []).carryOut (some "calc=off") (utf8 "--json\n1\r+1\n") ∧
        asked.carryOut (some "calc=off") (utf8 "7") =
          (Request.mk ⟨.value, true⟩ 1 []).carryOut (some "calc=off") (utf8 "--json\n1\r+1") := by
  have hflags : ∀ argument ∈ ["-v", "--json"], Argument.IsFlags argument := by
    have hverbose : Argument.IsFlags "-v" := ⟨[.verbose], by decide⟩
    have hjson : Argument.IsFlags "--json" := ⟨[.json], by decide⟩
    simp [hverbose, hjson]
  have hrequest : Request.ofArguments ["-v", "--json"] = .ok ⟨⟨.value, true⟩, 1, []⟩ := by
    decide
  have hfits : ∀ e ∈ ["--json", "1\r+1"], FitsLine e := by
    have hflag : FitsLine "--json" := ⟨by decide, by decide, by decide⟩
    -- the return is inside the line, so it is no part of its ending
    have hreturn : FitsLine "1\r+1" := ⟨by decide, by decide, by decide⟩
    simp [hflag, hreturn]
  have hjoin : String.join (["--json", "1\r+1"].map (· ++ "\n")) = "--json\n1\r+1\n" := by
    decide
  have hintercalate : "\n".intercalate ["--json", "1\r+1"] = "--json\n1\r+1" := by
    decide
  obtain ⟨asked, hasked, hlines, hlast⟩ := arguments_like_lines hflags hrequest
    (List.cons_ne_nil _ _) hfits (some "calc=off") (utf8 "7")
  rw [hjoin] at hlines
  rw [hintercalate] at hlast
  exact ⟨hflags, hrequest, List.cons_ne_nil _ _, hfits, asked, hasked, hlines, hlast⟩

end AddingMachine
