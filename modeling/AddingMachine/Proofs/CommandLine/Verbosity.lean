import AddingMachine.Proofs.CommandLine.ErrorOutput
import AddingMachine.Proofs.Log.Ruling
import AddingMachine.Proofs.Scanner.Layout
import Mathlib.Tactic.MkIffOfInductiveProp

/-!
# Flags for verbosity

What a run shows on its error output when it is asked for more than by its log filter.
-/

namespace AddingMachine

/-! ## §1 Verbosity and log filters

Flags for verbosity replace what a log filter says for all targets, but not what it says for certain
targets. So two runs with such flags end alike and write the same output, but their error outputs
are the same only if the filters agree on what happens (`verbosity_overrides`). -/

/-! ### What a log line tells -/

theorem Level.letter_injective {level level' : Level} (h : level.letter = level'.letter) :
    level = level' := by
  revert h
  cases level <;> cases level' <;> decide

theorem Target.name_injective {target target' : Target} (h : target.name = target'.name) :
    target = target' := by
  revert h
  cases target <;> cases target' <;> decide

theorem Level.bar_notMem_letter (level : Level) : '|' ∉ level.letter.toList := by
  cases level <;> decide

theorem Target.bar_notMem_name (target : Target) : '|' ∉ target.name.toList := by
  cases target <;> decide

/-- A text in which there is no bar ends at the first one. -/
theorem append_bar_inj {text text' : String} {rest rest' : List Char} (hbar : '|' ∉ text.toList)
    (hbar' : '|' ∉ text'.toList) (h : text.toList ++ '|' :: rest = text'.toList ++ '|' :: rest') :
    text = text' ∧ rest = rest' := by
  obtain ⟨htext, hrest⟩ := append_mark_inj hbar hbar' h
  exact ⟨String.toList_inj.mp htext, hrest⟩

/-- The beginning of a log line tells level and target. -/
theorem Journal.level_target_of_line {number : Nat} {event event' : Event} {more more' : String}
    (h : line number event ++ more = line number event' ++ more') :
    event.level = event'.level ∧ event.target = event'.target := by
  have hchars : event.level.letter.toList ++ '|' :: (event.target.name.toList ++ '|' ::
        (event.message.toList ++ '\n' :: more.toList)) =
      event'.level.letter.toList ++ '|' :: (event'.target.name.toList ++ '|' ::
        (event'.message.toList ++ '\n' :: more'.toList)) := by
    simpa [line, ← String.toList_inj] using h
  -- bars stand behind the letter and behind the name, and in neither of them
  obtain ⟨hletter, hbehind⟩ :=
    append_bar_inj event.level.bar_notMem_letter event'.level.bar_notMem_letter hchars
  obtain ⟨hname, -⟩ :=
    append_bar_inj event.target.bar_notMem_name event'.target.bar_notMem_name hbehind
  exact ⟨Level.letter_injective hletter, Target.name_injective hname⟩

/-- A log line is no report. -/
theorem Journal.line_ne_report (number : Nat) (event : Event) (message more more' : String) :
    line number event ++ more ≠ "error: " ++ message ++ "\n" ++ more' := by
  intro h
  have hreport := isErrorLine_report (message ++ "\n" ++ more')
  rw [String.append_assoc, String.append_assoc] at h
  rw [String.append_assoc, ← h] at hreport
  simp only [line, String.append_assoc] at hreport
  rw [isErrorLine_repr] at hreport
  cases hreport

/-! ### What is shown tells what is admitted -/

/-- Whether an event is admitted depends on its level and its target. -/
def Filter.ByLevel (filter : Filter) : Prop :=
  ∀ event event' : Event, event.level = event'.level → event.target = event'.target →
    filter.admits event = filter.admits event'

section Shown

open Diagnostic Occurrence

variable {filter filter' : Filter} {written : Nat} {occurrences : List Occurrence}

/-- The line of an event does not come first where a filter does not admit the event. -/
theorem textOf_logged_ne (hfilter : filter.ByLevel) {event : Event}
    (hevent : filter.admits event = false) (more : String) :
    Journal.line (written + 1) event ++ more ≠
      textOf (numbered written (occurrences.filter filter.shows)) := by
  intro h
  cases hshown : occurrences.filter filter.shows with
  | nil =>
    have hempty : (Journal.line (written + 1) event ++ more).toList = [] := by
      rw [h, hshown]
      rfl
    simp [Journal.line] at hempty
  | cons first rest =>
    have hfirst : filter.shows first = true := by
      have hmem : first ∈ occurrences.filter filter.shows := by
        rw [hshown]
        exact List.mem_cons_self
      exact (List.mem_filter.mp hmem).2
    rw [hshown] at h
    cases first with
    -- the first line would be of an event of the same level and target, which is admitted
    | recorded event' =>
      rw [numbered, textOf_cons] at h
      obtain ⟨hlevel, htarget⟩ := Journal.level_target_of_line h
      have hadmits : filter.admits event' = true := hfirst
      rw [hfilter event event' hlevel htarget, hadmits] at hevent
      cases hevent
    -- a report does not begin as a log line does
    | rejected cause =>
      rw [numbered, textOf_cons] at h
      exact Journal.line_ne_report _ _ _ _ _ h
    | failed failure =>
      rw [numbered, textOf_cons] at h
      exact Journal.line_ne_report _ _ _ _ _ h

/-- Where two filters show the same text, they show the same occurrences. -/
theorem shows_eq_of_textOf_eq (hfilter : filter.ByLevel) (hfilter' : filter'.ByLevel)
    (h : textOf (numbered written (occurrences.filter filter.shows)) =
      textOf (numbered written (occurrences.filter filter'.shows))) :
    ∀ occurrence ∈ occurrences, filter.shows occurrence = filter'.shows occurrence := by
  induction occurrences generalizing written with
  | nil => exact List.forall_mem_nil _
  | cons first rest ih =>
    rw [List.filter_cons, List.filter_cons] at h
    rw [List.forall_mem_cons]
    cases first with
    | recorded event =>
      cases hadmits : filter.shows (.recorded event) <;>
        cases hadmits' : filter'.shows (.recorded event)
      -- both show the event, and then the texts go on alike
      case true.true =>
        rw [hadmits, hadmits', if_pos rfl, if_pos rfl, numbered, numbered, textOf_cons, textOf_cons,
          String.append_right_inj] at h
        exact ⟨rfl, ih h⟩
      -- only one shows it, so that its line comes first in one of the texts
      case true.false =>
        rw [hadmits, hadmits', if_pos rfl, if_neg Bool.false_ne_true, numbered, textOf_cons] at h
        exact absurd h (textOf_logged_ne hfilter' hadmits' _)
      case false.true =>
        rw [hadmits, hadmits', if_pos rfl, if_neg Bool.false_ne_true, numbered, textOf_cons] at h
        exact absurd h.symm (textOf_logged_ne hfilter hadmits _)
      -- neither shows it
      case false.false =>
        rw [hadmits, hadmits', if_neg Bool.false_ne_true, if_neg Bool.false_ne_true] at h
        exact ⟨rfl, ih h⟩
    | rejected cause =>
      -- no filter hides a report
      have hrest : textOf (.rejected cause :: numbered written (rest.filter filter.shows)) =
        textOf (.rejected cause :: numbered written (rest.filter filter'.shows)) := h
      rw [textOf_cons, textOf_cons, String.append_right_inj] at hrest
      exact ⟨rfl, ih hrest⟩
    | failed failure =>
      -- no filter hides a report
      have hrest : textOf (.failed failure :: numbered written (rest.filter filter.shows)) =
        textOf (.failed failure :: numbered written (rest.filter filter'.shows)) := h
      rw [textOf_cons, textOf_cons, String.append_right_inj] at hrest
      exact ⟨rfl, ih hrest⟩

/-- Two filters show the same text exactly if they admit the same of the events. -/
theorem textOf_eq_iff (hfilter : filter.ByLevel) (hfilter' : filter'.ByLevel) :
    textOf (numbered written (occurrences.filter filter.shows)) =
        textOf (numbered written (occurrences.filter filter'.shows)) ↔
      ∀ event, .recorded event ∈ occurrences → filter.admits event = filter'.admits event := by
  constructor
  · exact fun h event => shows_eq_of_textOf_eq hfilter hfilter' h (.recorded event)
  · intro h
    have hshows : ∀ occurrence ∈ occurrences,
        filter.shows occurrence = filter'.shows occurrence := by
      intro occurrence hmem
      -- only what is recorded is left to the filter
      cases occurrence with
      | recorded event => exact h event hmem
      | rejected cause => rfl
      | failed failure => rfl
    rw [List.filter_congr hshows]

end Shown

/-! ### Log filters with a verbosity -/

/-- One flag for verbosity asks for a level, and each further one for the next, if there is one. -/
theorem Level.exists_ofVerbosity {verbosity : Nat} (h : 0 < verbosity) :
    ∃ level, ofVerbosity verbosity = some level ∧ level.rank = min (verbosity + 2) 5 := by
  match verbosity, h with
  | 1, _ => exact ⟨.info, rfl, rfl⟩
  | 2, _ => exact ⟨.debug, rfl, rfl⟩
  | n + 3, _ =>
    have hmin : min (n + 3 + 2) 5 = 5 := by omega
    exact ⟨.trace, rfl, hmin.symm⟩

namespace Request

/-- What a log filter is read as. -/
def writtenFilter (logFilter : Option String) : Filter :=
  (WrittenFilter.ofText (logFilter.getD usualFilter)).filter

/-- A log filter that is a list of levels and of targets, with a level each or without one. -/
@[mk_iff] structure PlainFilter (logFilter : Option String) : Prop where
  wellFormed : WellFormedFilter logFilter
  named : ∀ entry ∈ (writtenFilter logFilter).entries, entry.scope ≠ .within ""
  phrase : (writtenFilter logFilter).phrase = []

instance (logFilter : Option String) : Decidable (PlainFilter logFilter) :=
  decidable_of_iff' _ (plainFilter_iff logFilter)

/-- The least important level that is logged for a target: the one that the log filter has for the
target, or else the one that the verbosity asks for. -/
def threshold (request : Request) (logFilter : Option String) (target : Target) : Threshold :=
  ((writtenFilter logFilter).own? target).getD (Level.ofVerbosity request.verbosity)

variable {request : Request} {logFilter : Option String}

/-- With a flag for verbosity, an event is admitted by the threshold of its target. -/
theorem admits_filter (hverbosity : 0 < request.verbosity) (hplain : PlainFilter logFilter)
    (event : Event) : (request.filter logFilter).admits event =
      (request.threshold logFilter event.target).admits event.level := by
  obtain ⟨level, hlevel, -⟩ := Level.exists_ofVerbosity hverbosity
  have hset : request.filter logFilter =
      (writtenFilter logFilter).set ⟨.everywhere, some level⟩ := by
    rw [Request.filter, hlevel, WrittenFilter.filterFor_some]
    rfl
  rw [hset, Filter.admits_set_everywhere hplain.named hplain.phrase, threshold, hlevel]

theorem byLevel_filter (hverbosity : 0 < request.verbosity) (hplain : PlainFilter logFilter) :
    (request.filter logFilter).ByLevel := by
  intro event event' hlevel htarget
  rw [admits_filter hverbosity hplain, admits_filter hverbosity hplain, hlevel, htarget]

/-- A flag for verbosity in front of the expressions counts. -/
theorem verbosity_pos {words rest : List String} {flags : List Flag}
    (hwords : SpelledWith words flags) (hverbose : .verbose ∈ flags)
    (hread : ofArguments (words ++ rest) = .ok request) : 0 < request.verbosity := by
  obtain ⟨given, hadd, hrest⟩ := (ofArguments_words_eq_ok_iff hwords rest request).mp hread
  obtain ⟨more, expressions, last, -, hmore, hrequest⟩ :=
    (readAfter_eq_ok_iff given rest request).mp hrest
  -- the flags of the words are added first, and those behind them later
  have hall : (flags ++ more).foldlM Flags.add .none = .ok last := by
    rw [List.foldlM_append, hadd]
    exact hmore
  obtain ⟨htogether, rfl⟩ := (Flags.foldlM_add_eq_ok_iff _ _).mp hall
  obtain ⟨n, hperm, hverbosity, -⟩ :=
    (Flags.request_gathered_eq_ok_iff _ expressions request).mp ⟨htogether, hrequest⟩
  have hcount : 0 < (flags ++ more).count .verbose :=
    List.count_pos_iff.mpr (List.mem_append_left more hverbose)
  obtain ⟨-, -, -, hn, -⟩ := (perm_flags_iff _ request.settings n).mp hperm
  omega

end Request

/-! ### Two log filters -/

/-- **Verbosity overrides** what a log filter says for all targets. Two runs on the same input, with
the same arguments, a flag for verbosity in front of the expressions among them, and with any two
log filters, end with the same exit code and write the same output. Their error outputs are the same
exactly if each event on the way is important enough for both or for neither, where an entry for its
target still goes before what the flags ask for. So the runs are the same if the filters say the
same for certain targets, as they do if they have no entries for any. -/
theorem verbosity_overrides {words rest : List String} {flags : List Flag} {request : Request}
    {logFilter logFilter' : Option String} (hwords : SpelledWith words flags)
    (hverbose : .verbose ∈ flags) (hread : Request.ofArguments (words ++ rest) = .ok request)
    (hplain : Request.PlainFilter logFilter) (hplain' : Request.PlainFilter logFilter')
    (input : List UInt8) :
    let finished := request.carryOut logFilter input
    let finished' := request.carryOut logFilter' input
    finished.exitCode = finished'.exitCode ∧ finished.out = finished'.out ∧
      (finished.err = finished'.err ↔ ∀ event, .recorded event ∈ request.trace input →
        (request.threshold logFilter event.target).admits event.level =
          (request.threshold logFilter' event.target).admits event.level) ∧
      ((∀ target, (Request.writtenFilter logFilter).own? target =
          (Request.writtenFilter logFilter').own? target) → finished = finished') := by
  intro finished finished'
  have hverbosity := Request.verbosity_pos hwords hverbose hread
  have hfinished := request.carryOut_eq input hplain.wellFormed
  have hfinished' := request.carryOut_eq input hplain'.wellFormed
  have hcode : finished.exitCode = finished'.exitCode :=
    (congrArg Finished.exitCode hfinished).trans (congrArg Finished.exitCode hfinished').symm
  have hout : finished.out = finished'.out :=
    (congrArg Finished.out hfinished).trans (congrArg Finished.out hfinished').symm
  -- the error outputs show the same trace, so they differ where an event is shown in one only
  have herr : finished.err = finished'.err ↔ ∀ event, .recorded event ∈ request.trace input →
      (request.threshold logFilter event.target).admits event.level =
        (request.threshold logFilter' event.target).admits event.level := by
    simp only [← Request.admits_filter hverbosity hplain,
      ← Request.admits_filter hverbosity hplain']
    rw [← textOf_eq_iff (Request.byLevel_filter hverbosity hplain)
      (Request.byLevel_filter hverbosity hplain')]
    rw [show finished.err = _ from congrArg Finished.err hfinished,
      show finished'.err = _ from congrArg Finished.err hfinished']
    exact ⟨utf8_injective, congrArg utf8⟩
  refine ⟨hcode, hout, herr, fun hown => ?_⟩
  have hsame : finished.err = finished'.err := by
    refine herr.mpr fun event _ => ?_
    rw [Request.threshold, Request.threshold, hown]
  calc
    finished = ⟨finished.exitCode, finished.out, finished.err⟩ := rfl
    _ = ⟨finished'.exitCode, finished'.out, finished'.err⟩ := by rw [hcode, hout, hsame]
    _ = finished' := rfl

/-- Two log filters say the same for the same part of the calculator, and other things otherwise. -/
theorem verbosity_overrides_levels :
    let request : Request := ⟨⟨.value, false⟩, 1, ["2-x"]⟩
    SpelledWith ["-v"] [.verbose] ∧ .verbose ∈ [Flag.verbose] ∧
      Request.ofArguments (["-v"] ++ ["2-x"]) = .ok request ∧
      Request.PlainFilter (some "calc_parser=debug,error") ∧
      Request.PlainFilter (some "trace,calc_parser=debug") ∧
      request.carryOut (some "calc_parser=debug,error") [] =
        request.carryOut (some "trace,calc_parser=debug") [] := by
  intro request
  have hword : Spelling "-v" (.flags [.verbose]) :=
    Argument.spelling_of_classify (by decide) nofun
  have hwords : SpelledWith ["-v"] [.verbose] := .cons hword .nil
  have hverbose : .verbose ∈ [Flag.verbose] := List.mem_singleton_self _
  have hread : Request.ofArguments (["-v"] ++ ["2-x"]) = .ok request := by
    decide
  have hplain : Request.PlainFilter (some "calc_parser=debug,error") := by
    decide +kernel
  have hplain' : Request.PlainFilter (some "trace,calc_parser=debug") := by
    decide +kernel
  -- the entries for the parser agree, and those for all targets are replaced
  obtain ⟨-, -, -, hsame⟩ := verbosity_overrides hwords hverbose hread hplain hplain' []
  refine ⟨hwords, hverbose, hread, hplain, hplain', hsame fun target => ?_⟩
  cases target <;> decide +kernel

/-- A log filter hides the start of a run in spite of a flag for verbosity. -/
theorem not_overridden_off :
    let request : Request := ⟨⟨.value, false⟩, 1, ["1"]⟩
    Request.ofArguments ["-v", "1"] = .ok request ∧
      Request.PlainFilter none ∧ Request.PlainFilter (some "calc=off") ∧
      (request.carryOut none []).err = utf8 "1|I|calc|calc starting, mode=Value json=false\n" ∧
      (request.carryOut (some "calc=off") []).err = [] := by
  decide +kernel

/-! ## §2 More verbosity

Each further flag for verbosity widens the filter that a run logs with, whatever the log filter says
for certain targets (`Request.filter_within`). So the error output only gains log lines: without
their numbers, which count the lines before them, those of the run that asks for less are among those
of the other one, and at the same places between the reports (`verbosity_hides_nothing`). -/

/-! ### Log lines without their numbers -/

/-- The mark between the parts of a log line. -/
def bar : UInt8 := 124

/-- A line without its number and the bar behind that, if it is one of the log. -/
def unnumbered (line : List UInt8) : List UInt8 :=
  if isLogLine line then (line.dropWhile (· != bar)).tail else line

/-- The lines of some bytes, those of the log without their numbers, and what is behind the last
line. -/
def unnumberedLines (bytes : List UInt8) : List (List UInt8) :=
  (bytes.splitOn lineFeed).map unnumbered

/-- The lines of the log among those of some bytes, without their numbers. -/
def logLines (bytes : List UInt8) : List (List UInt8) :=
  ((bytes.splitOn lineFeed).filter isLogLine).map unnumbered

/-- The line that an occurrence makes, without a number. -/
def Occurrence.line : Occurrence → String
  | .recorded event => event.level.letter ++ "|" ++ event.target.name ++ "|" ++ event.message
  | .rejected cause => "error: " ++ cause.message
  | .failed failure => "error: " ++ failure.message

theorem bar_notMem_repr (number : Nat) : bar ∉ utf8 (Nat.repr number) := by
  rw [utf8_eq, mem_utf8Chars_iff (c := '|') (by decide) rfl]
  intro hmem
  have hdigit : '|'.isDigit = true := Text.isDigit_of_mem_repr hmem
  cases hdigit

namespace Diagnostic

/-- What is left of a line does not depend on its number. -/
theorem unnumbered_line (diagnostic : Diagnostic) :
    unnumbered (utf8 diagnostic.line) = utf8 diagnostic.occurrence.line := by
  rw [unnumbered, isLogLine_line]
  cases diagnostic with
  | logged number event =>
    have hbar : utf8 "|" = [bar] := by decide +kernel
    -- the number ends at the first bar
    have hline : utf8 (logged number event).line =
        utf8 (Nat.repr number) ++ bar :: utf8 (logged number event).occurrence.line := by
      simp [line, occurrence, Occurrence.line, hbar]
    have hnumber : ∀ b ∈ utf8 (Nat.repr number), (b != bar) = true := by
      intro b hb
      rw [bne_iff_ne]
      rintro rfl
      exact bar_notMem_repr number hb
    rw [hline, List.dropWhile_append_of_pos hnumber, List.dropWhile_cons_of_neg (by simp)]
    rfl
  | rejected cause => rfl
  | failed failure => rfl

/-- Without their numbers, lines are those of what has happened. -/
theorem unnumberedLines_textOf (diagnostics : List Diagnostic) :
    unnumberedLines (utf8 (textOf diagnostics)) =
      (diagnostics.map occurrence).map (utf8 ·.line) ++ [[]] := by
  have hend : unnumbered [] = [] := by decide +kernel
  rw [unnumberedLines, splitOn_textOf]
  simp [unnumbered_line, hend]

theorem logLines_textOf (diagnostics : List Diagnostic) :
    logLines (utf8 (textOf diagnostics)) =
      ((diagnostics.map occurrence).filter Occurrence.isEvent).map (utf8 ·.line) := by
  have hend : isLogLine [] = false := by decide +kernel
  have hevent (diagnostic : Diagnostic) :
      isLogLine (utf8 diagnostic.line) = diagnostic.occurrence.isEvent := by
    rw [isLogLine_line]
    cases diagnostic <;> rfl
  rw [logLines, splitOn_textOf, List.filter_append, List.filter_map, List.filter_map]
  simp [Function.comp_def, hevent, unnumbered_line, hend]

end Diagnostic

/-! ### Wider filters show more -/

namespace Filter

variable {filter wider : Filter}

/-- What a filter shows is shown by a wider one. -/
theorem Within.shows (h : filter.Within wider) {occurrence : Occurrence}
    (hshows : filter.shows occurrence = true) : wider.shows occurrence = true := by
  cases occurrence with
  | recorded event => exact h.admits hshows
  | rejected cause => rfl
  | failed failure => rfl

/-- What a filter shows is shown by a wider one too, in the same order. -/
theorem Within.shown_sublist (h : filter.Within wider) (occurrences : List Occurrence) :
    (occurrences.filter filter.shows).Sublist (occurrences.filter wider.shows) := by
  apply List.monotone_filter_right
  intro occurrence hshows
  exact h.shows hshows

end Filter

namespace Request

variable {request request' : Request} {logFilter : Option String}

/-- Asking for more widens the filter. -/
theorem filter_within (hasked : 0 < request.verbosity)
    (hmore : request.verbosity ≤ request'.verbosity) (logFilter : Option String) :
    (request.filter logFilter).Within (request'.filter logFilter) := by
  obtain ⟨level, hlevel, hrank⟩ := Level.exists_ofVerbosity hasked
  obtain ⟨level', hlevel', hrank'⟩ := Level.exists_ofVerbosity (hasked.trans_le hmore)
  rw [filter, filter, hlevel, hlevel', WrittenFilter.filterFor_some, WrittenFilter.filterFor_some]
  -- both levels are set in the same place, in front of and behind the same entries
  apply Filter.set_within
  apply Threshold.within_of_rank_le
  omega

/-- Without their numbers, the lines of the error output are those of what is shown. -/
theorem unnumberedLines_carryOut (request : Request) (hfilter : WellFormedFilter logFilter)
    (input : List UInt8) : unnumberedLines (request.carryOut logFilter input).err =
      ((request.trace input).filter (request.filter logFilter).shows).map (utf8 ·.line) ++ [[]] := by
  rw [request.carryOut_eq input hfilter, Diagnostic.unnumberedLines_textOf, Journal.shown,
    Occurrence.map_occurrence_numbered]
  rfl

/-- Without their numbers, the log lines are those of the events that are shown. -/
theorem logLines_carryOut (request : Request) (hfilter : WellFormedFilter logFilter)
    (input : List UInt8) : logLines (request.carryOut logFilter input).err =
      (((request.trace input).filter (request.filter logFilter).shows).filter
        Occurrence.isEvent).map (utf8 ·.line) := by
  rw [request.carryOut_eq input hfilter, Diagnostic.logLines_textOf, Journal.shown,
    Occurrence.map_occurrence_numbered]
  rfl

end Request

/-! ### Two verbosities -/

/-- **More verbosity hides nothing.** Of two runs on the same input and with the same well-formed log
filter, whose arguments differ in their flags for verbosity, let the first one have a flag for
verbosity and the second one no fewer. Then the log lines of the first run, without their numbers, are
a subsequence of those of the second one. They stand between the same reports: the other lines of both
error outputs are the same, and all lines of the first one, log lines and others in the order in which
they stand, are a subsequence of all lines of the second one. -/
theorem verbosity_hides_nothing {arguments arguments' : List String} {request request' : Request}
    {logFilter : Option String} (hrequest : Request.ofArguments arguments = .ok request)
    (hrequest' : Request.ofArguments arguments' = .ok request')
    (hsame : withoutVerbosity arguments = withoutVerbosity arguments')
    (hasked : 0 < request.verbosity) (hmore : request.verbosity ≤ request'.verbosity)
    (hfilter : Request.WellFormedFilter logFilter) (input : List UInt8) :
    let finished := request.carryOut logFilter input
    let finished' := request'.carryOut logFilter input
    (logLines finished.err).Sublist (logLines finished'.err) ∧
      otherLines finished.err = otherLines finished'.err ∧
      (unnumberedLines finished.err).Sublist (unnumberedLines finished'.err) := by
  intro finished finished'
  have hverbosity := Request.eq_but_for_verbosity hrequest hrequest' hsame
  -- what happens does not look at the verbosity, so only what is shown of it differs
  have htrace : request'.trace input = request.trace input := by
    rw [hverbosity]
    rfl
  have hshown : ((request.trace input).filter (request.filter logFilter).shows).Sublist
      ((request'.trace input).filter (request'.filter logFilter).shows) := by
    rw [htrace]
    exact (Request.filter_within hasked hmore logFilter).shown_sublist _
  refine ⟨?_, ?_, ?_⟩
  -- the events among what is shown
  · show (logLines (request.carryOut logFilter input).err).Sublist
      (logLines (request'.carryOut logFilter input).err)
    rw [request.logLines_carryOut hfilter, request'.logLines_carryOut hfilter]
    exact (hshown.filter _).map _
  -- the reports, which are shown in any case
  · show otherLines (request.carryOut logFilter input).err =
      otherLines (request'.carryOut logFilter input).err
    rw [request.otherLines_carryOut hfilter, request'.otherLines_carryOut hfilter, htrace]
  -- all that is shown, with the end behind it
  · show (unnumberedLines (request.carryOut logFilter input).err).Sublist
      (unnumberedLines (request'.carryOut logFilter input).err)
    rw [request.unnumberedLines_carryOut hfilter, request'.unnumberedLines_carryOut hfilter]
    exact (hshown.map _).append_right _

/-- What more verbosity shows stands in front of a report and behind another one, although the log
filter hides all that a part of the calculator records. -/
theorem verbosity_hides_nothing_between :
    let request : Request := ⟨⟨.value, false⟩, 1, ["2 3", "+", "4"]⟩
    let request' : Request := ⟨⟨.value, false⟩, 2, ["2 3", "+", "4"]⟩
    let logFilter := some "calc_parser::lexer=off,error"
    let finished := request.carryOut logFilter []
    let finished' := request'.carryOut logFilter []
    Request.ofArguments ["-v", "2 3", "+", "4"] = .ok request ∧
      Request.ofArguments ["-vv", "2 3", "+", "4"] = .ok request' ∧
      withoutVerbosity ["-v", "2 3", "+", "4"] = withoutVerbosity ["-vv", "2 3", "+", "4"] ∧
      0 < request.verbosity ∧ request.verbosity ≤ request'.verbosity ∧
      Request.WellFormedFilter logFilter ∧
      (logLines finished.err).Sublist (logLines finished'.err) ∧
      otherLines finished.err = otherLines finished'.err ∧
      (unnumberedLines finished.err).Sublist (unnumberedLines finished'.err) ∧
      finished.err ≠ finished'.err := by
  intro request request' logFilter finished finished'
  have hrequest : Request.ofArguments ["-v", "2 3", "+", "4"] = .ok request := by
    decide
  have hrequest' : Request.ofArguments ["-vv", "2 3", "+", "4"] = .ok request' := by
    decide
  have hsame : withoutVerbosity ["-v", "2 3", "+", "4"] =
      withoutVerbosity ["-vv", "2 3", "+", "4"] := by
    decide
  have hasked : 0 < request.verbosity := Nat.one_pos
  have hmore : request.verbosity ≤ request'.verbosity := Nat.le_succ 1
  have hfilter : Request.WellFormedFilter logFilter := by
    decide +kernel
  -- the scanner is silenced by an entry of its own in both runs
  obtain ⟨hlog, hother, hlines⟩ :=
    verbosity_hides_nothing hrequest hrequest' hsame hasked hmore hfilter []
  refine ⟨hrequest, hrequest', hsame, hasked, hmore, hfilter, hlog, hother, hlines, ?_⟩
  decide +kernel

end AddingMachine
