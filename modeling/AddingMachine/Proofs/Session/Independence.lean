import AddingMachine.Proofs.Calculation.Records
import AddingMachine.Proofs.Session.Configurations
import AddingMachine.Proofs.Session.Diagnostics
import Mathlib.Data.List.FinRange

/-!
# Answers are independent

What a session writes for an input is what a fresh session writes for it (`Session.block`), whatever
was answered before. So the outputs are blocks one after another, and inputs in another order have the
same blocks in that order. In JSON each block is one line of `out`, and for values and trees as text
it is one line of `out` or, where the input is rejected, of `err`. Only the records of rejections tell
inputs apart by their place (`Session.answers_independent`).
-/

namespace AddingMachine

/-! ## §1 One line for an input -/

/-- A tree is clean, its parentheses and operators included. -/
theorem Expression.clean_chars (e : Expression) : Text.Clean e.chars := by
  induction e with
  | literal value =>
    rw [chars, charsThen, List.append_nil]
    exact value.clean_chars .plain
  | binary left operator right ihl ihr =>
    have hopen : Text.isControl '(' = false := by decide
    have hoperator : Text.Clean [' ', operator.symbol, ' '] := by cases operator <;> decide
    have hclose : Text.Clean [')'] := by decide
    rw [chars_binary]
    have hleft := Text.clean_append.mpr ⟨Text.clean_cons.mpr ⟨hopen, ihl⟩, hoperator⟩
    exact Text.clean_append.mpr ⟨Text.clean_append.mpr ⟨hleft, ihr⟩, hclose⟩

theorem Expression.clean_text (e : Expression) : Text.Clean e.text.toList := by
  rw [text, String.toList_ofList]
  exact e.clean_chars

/-- The answer to an accepted input is one line, unless it is the tokens. -/
theorem Answer.exists_line {answer : Answer} (h : ∀ tokens, answer ≠ .tokens tokens) :
    ∃ line, answer.text = line ++ "\n" ∧ Text.Clean line.toList := by
  cases answer with
  | value x => exact ⟨x.text .plain, rfl, x.clean_text .plain⟩
  | tokens tokens => exact absurd rfl (h tokens)
  | tree e =>
    have hequals : Text.Clean " = ".toList := by decide
    exact ⟨e.text ++ " = " ++ e.value.text .plain, rfl,
      (e.clean_text.append hequals).append (e.value.clean_text .plain)⟩

namespace Settings

variable (settings : Settings) (input : String)

/-- A reply is one line, whatever characters the input has. Only tokens as text take more. -/
theorem exists_line (h : settings.json = true ∨ settings.mode ≠ .tokens) :
    ∃ line, (settings.reply input).text = line ++ "\n" ∧ '\n' ∉ line.toList := by
  rw [reply]
  cases hjson : settings.json with
  | true => exact ⟨_, rfl, Json.lineFeed_notMem_text _⟩
  | false =>
    cases houtcome : settings.outcome input with
    | ok answer =>
      have hanswer : ∀ tokens, answer ≠ .tokens tokens := by
        rintro tokens rfl
        have hmode := (tokensOf_of_outcome houtcome).1
        rcases h with htrue | hother
        · exact Bool.false_ne_true (hjson.symm.trans htrue)
        · exact hother hmode
      obtain ⟨line, htext, hclean⟩ := Answer.exists_line hanswer
      exact ⟨line, htext, hclean.lineFeed_notMem⟩
    -- a rejection is one line, as in the error output
    | error cause =>
      obtain ⟨line, htext, hclean, -⟩ := (Diagnostic.rejected cause).exists_line
      exact ⟨line, htext, hclean.lineFeed_notMem⟩

/-- Rejections go to `err`, unless they are JSON. -/
theorem stream_reply : (settings.reply input).stream =
    if settings.json = false ∧ settings.mode.Rejected input then .err else .out := by
  rw [reply]
  cases settings.json with
  | true => rfl
  | false =>
    obtain ⟨answer, houtcome, hnot⟩ | ⟨cause, houtcome, hrejected⟩ := settings.outcome_cases input
    · simp [houtcome, Reply.ofOutcome, hnot]
    · simp [houtcome, Reply.ofOutcome, hrejected]

end Settings

namespace Session

/-! ## §2 Blocks -/

/-- A session that has not answered anything, and whose outputs take everything. -/
def fresh (settings : Settings) (filter : Filter) : Session :=
  start settings filter (.empty none) (.empty none)

/-- What a fresh session that logs nothing writes to an output for an input. -/
def block (settings : Settings) (stream : Stream) (input : String) : List UInt8 :=
  (((fresh settings .silent).run input).2.sink stream).content

theorem unlimited_fresh (settings : Settings) (filter : Filter) :
    (fresh settings filter).Unlimited :=
  ⟨rfl, rfl⟩

variable {session : Session}

/-- Without a log, nothing is written but replies. -/
theorem added_of_silent (h : session.journal.filter = .silent) (input : String) (stream : Stream) :
    session.added input stream = (session.settings.reply input).on stream := by
  cases stream with
  | out => rfl
  | err =>
    have hnone : ∀ event ∈ session.eventsOf input, session.journal.filter.admits event = false := by
      intro event _
      rw [h]
      rfl
    rw [added, logLines, Journal.recordAll_of_not_admitted hnone, String.empty_append]

theorem block_eq (settings : Settings) (stream : Stream) (input : String) :
    block settings stream input = utf8 ((settings.reply input).on stream) := by
  have hcontent := (unlimited_fresh settings .silent).content_run input stream
  rw [added_of_silent rfl] at hcontent
  have hnone : ((fresh settings .silent).sink stream).content = [] := by
    cases stream <;> rfl
  rwa [hnone, List.nil_append] at hcontent

/-- Without a log, outputs grow by blocks, whatever was answered before. -/
theorem Unlimited.content_runEach_of_silent (h : session.Unlimited)
    (hsilent : session.journal.filter = .silent) (inputs : List String) (stream : Stream) :
    ((session.runEach inputs).sink stream).content = (session.sink stream).content ++
      inputs.flatMap (block session.settings stream) := by
  induction inputs generalizing session with
  | nil => exact (List.append_nil _).symm
  | cons input rest ih =>
    have hnext : (session.run input).2.journal.filter = .silent := by
      rw [journal_run]
      exact hsilent
    -- the first block, and then those of the others, written by a session that logs nothing either
    show (((session.run input).2.runEach rest).sink stream).content = _
    rw [ih (h.run input).2 hnext, h.content_run, added_of_silent hsilent, settings_run,
      List.flatMap_cons, block_eq, List.append_assoc]

/-- The outputs of a fresh session are its blocks, since they are empty at first. -/
theorem content_runEach_fresh (settings : Settings) (inputs : List String) (stream : Stream) :
    (((fresh settings .silent).runEach inputs).sink stream).content =
      inputs.flatMap (block settings stream) := by
  rw [(unlimited_fresh settings .silent).content_runEach_of_silent rfl]
  cases stream <;> rfl

theorem evaluated_runEach (session : Session) (inputs : List String) :
    (session.runEach inputs).evaluated = session.evaluated + inputs.length := by
  induction inputs generalizing session with
  | nil => rfl
  | cons input rest ih =>
    show ((session.run input).2.runEach rest).evaluated = _
    rw [ih, evaluated_run, List.length_cons]
    omega

/-- What a session says to inputs, one after another. -/
def results (session : Session) : List String → List (Except Failure Bool)
  | [] => []
  | input :: rest => (session.run input).1 :: (session.run input).2.results rest

/-- Whether an input is accepted does not depend on what was answered before. -/
theorem Unlimited.results_eq (h : session.Unlimited) (inputs : List String) :
    session.results inputs =
      inputs.map fun input => .ok (decide (¬ session.settings.mode.Rejected input)) := by
  induction inputs generalizing session with
  | nil => rfl
  | cons input rest ih =>
    have hiff := session.settings.isOk_outcome_iff input
    have hresult : (session.run input).1 = .ok (decide (¬ session.settings.mode.Rejected input)) := by
      rw [h.result_run, Bool.eq_iff_iff.mpr (hiff.trans decide_eq_true_iff.symm)]
    rw [results, hresult, ih (h.run input).2, settings_run, List.map_cons]

/-! ## §3 Order -/

/-- Inputs in another order are answered by their blocks in that order. -/
theorem content_runEach_permuted (settings : Settings) {inputs : List String}
    (σ : Equiv.Perm (Fin inputs.length)) (stream : Stream) :
    (((fresh settings .silent).runEach (List.ofFn (inputs.get ∘ σ))).sink stream).content =
      (List.ofFn fun i => block settings stream (inputs.get (σ i))).flatten := by
  rw [content_runEach_fresh, List.flatMap_def, List.map_ofFn]
  rfl

/-- The order of the inputs has no part in how many are rejected. -/
theorem failures_runEach_permuted (session : Session) {inputs : List String}
    (σ : Equiv.Perm (Fin inputs.length)) :
    (session.runEach (List.ofFn (inputs.get ∘ σ))).failures =
      (session.runEach inputs).failures := by
  have hperm : (List.ofFn (inputs.get ∘ σ)).Perm inputs := by
    simpa using σ.ofFn_comp_perm inputs.get
  rw [failures_runEach, failures_runEach, hperm.countP_eq]

end Session

/-! ## §4 Records of rejections -/

def Occurrence.event? : Occurrence → Option Event
  | .recorded event => some event
  | .rejected _ => none
  | .failed _ => none

/-- What is shown of events are those that are admitted. -/
theorem Filter.events_shown (filter : Filter) (occurrences : List Occurrence) :
    (occurrences.filter filter.shows).filterMap Occurrence.event? =
      (occurrences.filterMap Occurrence.event?).filter filter.admits := by
  rw [List.filterMap_filter, List.filter_filterMap]
  congr 1
  funext occurrence
  cases occurrence with
  | recorded event => rfl
  | rejected cause => rfl
  | failed failure => rfl

theorem Event.level_ofScanned (entry : Scanned) : (Event.ofScanned entry).level ≠ .info := by
  cases entry with
  | ok token => exact nofun
  | error e => exact nofun

/-- Reading makes no record of the level of rejections. -/
theorem level_of_mem_readOnce {α : Type} {read : Reader → Except Rejection α × Reader}
    {feed : Feed} {event : Event} (h : event ∈ (readOnce read feed).events) :
    event.level ≠ .info := by
  obtain ⟨entry, rfl⟩ | ⟨e, rfl⟩ := origin_of_mem_readOnce h
  · exact Event.level_ofScanned entry
  · exact nofun

/-- The outcome of a calculation is of the debug level. -/
theorem level_outcomeEvent (text : String) (result : Except Rejection Binary64) :
    (outcomeEvent text result).level = .debug := by
  cases result with
  | ok value => rfl
  | error cause => rfl

/-- No event of a calculation is of the info level. -/
theorem level_of_mem_valueOf {text : String} {event : Event} (h : event ∈ (valueOf text).events) :
    event.level ≠ .info := by
  cases hstart : Reader.start (Feed.ofText text) with
  | error e =>
    rw [valueOf, hstart] at h
    exact level_of_mem_readOnce h
  | ok reader =>
    rw [events_valueOf_of_start hstart] at h
    -- what reading has recorded, and the outcome behind it
    rcases List.mem_append.mp h with hreading | houtcome
    · exact level_of_mem_readOnce hreading
    · obtain rfl := List.mem_singleton.mp houtcome
      rw [level_outcomeEvent]
      decide

/-- Finding an answer makes no record of the level of rejections. -/
theorem level_of_mem_find {mode : Mode} {text : String} {event : Event}
    (h : event ∈ (Answer.find mode text).events) : event.level ≠ .info := by
  cases mode with
  | value => exact level_of_mem_valueOf h
  -- the scanner alone makes events
  | tokens =>
    obtain ⟨entry, -, rfl⟩ := List.mem_map.mp h
    exact Event.level_ofScanned entry
  | tree =>
    have hreading : event ∈ (readOnce Reader.readTree (Feed.ofText text)).events := h
    exact level_of_mem_readOnce hreading

namespace Settings

/-- The rejected ones among some inputs, the first of which has the number `first`: each by its number
and the cause. -/
def rejected (settings : Settings) (first : Nat) (inputs : List String) : List (Nat × Rejection) :=
  (inputs.zipIdx first).filterMap fun entry =>
    match settings.outcome entry.1 with
    | .ok _ => none
    | .error cause => some (entry.2, cause)

/-- The first input is among them if it is rejected, by its own number. -/
theorem rejected_cons (settings : Settings) (first : Nat) (input : String) (rest : List String) :
    settings.rejected first (input :: rest) =
      (match settings.outcome input with
        | .ok _ => []
        | .error cause => [(first, cause)]) ++ settings.rejected (first + 1) rest := by
  rw [rejected, List.zipIdx_cons, List.filterMap_cons]
  cases settings.outcome input with
  | ok answer => rfl
  | error cause => rfl

/-- Of what an input makes happen, only its rejection is of the info level. -/
theorem info_occurrences (settings : Settings) (number : Nat) (input : String) :
    ((settings.occurrences number input).filterMap Occurrence.event?).filter
        (fun event => decide (event.level = .info)) =
      Session.rejectionEvents number (settings.outcome input) := by
  have hfound : (Answer.find settings.mode input).events.filter
      (fun event => decide (event.level = .info)) = [] := by
    rw [List.filter_eq_nil_iff]
    intro event hevent
    simpa using level_of_mem_find hevent
  have hrejection : (Session.rejectionEvents number (settings.outcome input)).filter
      (fun event => decide (event.level = .info)) =
        Session.rejectionEvents number (settings.outcome input) := by
    cases settings.outcome input with
    | ok answer => rfl
    | error cause => rfl
  have hreports : ((settings.reports input).map Diagnostic.occurrence).filterMap
      Occurrence.event? = [] := by
    rw [reports]
    split <;> rfl
  have hevents : ∀ events : List Event,
      (events.map Occurrence.recorded).filterMap Occurrence.event? = events := by
    intro events
    rw [List.filterMap_map]
    exact List.filterMap_some
  -- of all that an input makes happen, the record of its rejection is left
  rw [occurrences, List.filterMap_append, hevents, hreports, List.append_nil, List.filter_append,
    hfound, List.nil_append]
  exact hrejection

/-- Of the info level are the events of rejected inputs, one for each, which carry its number. -/
theorem info_trace (settings : Settings) (evaluated : Nat) (inputs : List String) :
    ((settings.trace evaluated inputs).filterMap Occurrence.event?).filter
        (fun event => decide (event.level = .info)) =
      (settings.rejected (evaluated + 1) inputs).map fun entry => .rejected entry.1 entry.2 := by
  induction inputs generalizing evaluated with
  | nil => rfl
  | cons input rest ih =>
    rw [trace, List.filterMap_append, List.filter_append, info_occurrences, ih, rejected_cons,
      List.map_append]
    -- an accepted input makes no event, and a rejected one makes one
    cases settings.outcome input with
    | ok answer => rfl
    | error cause => rfl

end Settings

/-- The record of a rejected input, which carries its number and the cause. -/
def rejectionRecord (number : Nat) (cause : Rejection) : Record :=
  ⟨.info, .session, "expression #" ++ Nat.repr number ++ " rejected: " ++ cause.message⟩

/-- The events that some lines are for. -/
def Diagnostic.events (diagnostics : List Diagnostic) : List Event :=
  (diagnostics.map Diagnostic.occurrence).filterMap Occurrence.event?

/-- The events of the lines that are shown are those that the filter admits. -/
theorem Journal.events_shown (journal : Journal) (occurrences : List Occurrence) :
    Diagnostic.events (journal.shown occurrences) =
      (occurrences.filterMap Occurrence.event?).filter journal.filter.admits := by
  rw [Diagnostic.events, shown, Occurrence.map_occurrence_numbered, Filter.events_shown]

theorem Diagnostic.utf8_textOf_flatMap {α : Type} (reports : α → List Diagnostic) (xs : List α) :
    utf8 (textOf (xs.flatMap reports)) = xs.flatMap fun x => utf8 (textOf (reports x)) := by
  induction xs with
  | nil => exact utf8_empty
  | cons x rest ih =>
    rw [List.flatMap_cons, textOf_append, utf8_append, ih, List.flatMap_cons]

namespace Session

/-- A log makes no difference to the replies, and adds nothing to the reports but log lines, of which
those of the info level are for rejections. -/
theorem exists_diagnostics_fresh (settings : Settings) (filter : Filter) (inputs : List String) :
    ∃ diagnostics,
      ((fresh settings filter).runEach inputs).err.content = utf8 (Diagnostic.textOf diagnostics) ∧
        utf8 (Diagnostic.textOf (diagnostics.filter Diagnostic.isReport)) =
          inputs.flatMap (block settings .err) ∧
        (Diagnostic.events diagnostics).filter (fun event => decide (event.level = .info)) =
          ((settings.rejected 1 inputs).filter fun entry =>
            filter.admits (.rejected entry.1 entry.2)).map fun entry => .rejected entry.1 entry.2 := by
  refine ⟨(fresh settings filter).diagnosticsOf inputs,
    (unlimited_fresh settings filter).err_runEach inputs, ?_, ?_⟩
  -- the reports are the blocks of `err`, one input after another
  · have hblock : ∀ input, block settings .err input =
        utf8 (Diagnostic.textOf (settings.reports input)) := by
      intro input
      rw [block_eq, Settings.reply_on_err]
    rw [reports_diagnosticsOf, Diagnostic.utf8_textOf_flatMap, funext hblock]
    rfl
  · rw [diagnosticsOf_eq_shown, Journal.events_shown, List.filter_comm]
    -- what is of the info level is settled first, and then what the filter admits of it
    exact (congrArg _ (settings.info_trace 0 inputs)).trans List.filter_map

end Session

/-! ## §5 Independence -/

theorem flatMap_filter {α β : Type} (p : α → Bool) (f : α → List β) (xs : List α) :
    (xs.filter p).flatMap f = xs.flatMap fun x => if p x then f x else [] := by
  induction xs with
  | nil => rfl
  | cons x rest ih =>
    by_cases hp : p x = true
    · rw [List.filter_cons_of_pos hp, List.flatMap_cons, List.flatMap_cons, ih, if_pos hp]
    · rw [List.filter_cons_of_neg hp, List.flatMap_cons, ih, if_neg hp, List.nil_append]

namespace Session

/-- Where replies are lines, an output gets the lines of the replies that are for it. -/
theorem exists_lines_blocks (settings : Settings)
    (h : settings.json = true ∨ settings.mode ≠ .tokens) :
    ∃ line : String → String, (∀ input, '\n' ∉ (line input).toList) ∧
      ∀ stream (inputs : List String), inputs.flatMap (block settings stream) =
        (inputs.filter fun input => (settings.reply input).stream = stream).flatMap
          (fun input => utf8 (line input ++ "\n")) := by
  choose line hline hone using fun input => settings.exists_line input h
  refine ⟨line, hone, fun stream inputs => ?_⟩
  have hblock : ∀ input, block settings stream input =
      if (settings.reply input).stream = stream then utf8 (line input ++ "\n") else [] := by
    intro input
    rw [block_eq, Reply.on, hline, apply_ite utf8, utf8_empty]
  rw [flatMap_filter, funext hblock]
  simp only [decide_eq_true_eq]

/-- In JSON, the line of every input is in `out`. -/
theorem exists_lines_json {settings : Settings} (h : settings.json = true) (inputs : List String) :
    ∃ line : String → String, (∀ input, '\n' ∉ (line input).toList) ∧
      inputs.flatMap (block settings .out) = inputs.flatMap (fun input => utf8 (line input ++ "\n")) ∧
      inputs.flatMap (block settings .err) = [] := by
  obtain ⟨line, hone, hblocks⟩ := exists_lines_blocks settings (.inl h)
  -- in JSON every reply is for `out`
  have hstream : ∀ input, (settings.reply input).stream = .out := by
    intro input
    simp [settings.stream_reply, h]
  refine ⟨line, hone, ?_, ?_⟩
  · simp [hblocks, hstream]
  · simp [hblocks, hstream]

/-- As text, the lines of accepted inputs are in `out`, and those of rejected ones in `err`. -/
theorem exists_lines_text {settings : Settings} (hjson : settings.json = false)
    (hmode : settings.mode ≠ .tokens) (inputs : List String) :
    ∃ line : String → String, (∀ input, '\n' ∉ (line input).toList) ∧
      inputs.flatMap (block settings .out) =
        (inputs.filter fun input => ¬ settings.mode.Rejected input).flatMap
          (fun input => utf8 (line input ++ "\n")) ∧
      inputs.flatMap (block settings .err) =
        (inputs.filter fun input => settings.mode.Rejected input).flatMap
          (fun input => utf8 (line input ++ "\n")) := by
  obtain ⟨line, hone, hblocks⟩ := exists_lines_blocks settings (.inr hmode)
  -- as text the stream tells whether the input is rejected
  have hstream : ∀ input, (settings.reply input).stream =
      if settings.mode.Rejected input then .err else .out := by
    intro input
    simp [settings.stream_reply, hjson]
  refine ⟨line, hone, ?_, ?_⟩
  · simp [hblocks, hstream]
  · simp [hblocks, hstream]

/-- **Independence.** A session whose outputs take everything writes of its inputs, one after
another, the blocks that fresh sessions write of them. It accepts an input as a fresh session does,
counts its inputs and the rejected ones among them, and answers them in another order by the same
blocks in that order, with as many rejections. A log adds nothing but log lines. Of the info level
are those that the filter admits of the lines for rejected inputs, one for each with its number,
from one. In JSON there is one line of `out` for each input, and nothing in `err`. For values and
trees as text there is one line for each input, in `err` for the rejected ones and in `out` for the
others. -/
theorem answers_independent (settings : Settings) (inputs : List String) :
    let alone := fresh settings .silent
    let whole := alone.runEach inputs
    (∀ stream, (whole.sink stream).content = inputs.flatMap (block settings stream)) ∧
      alone.results inputs = inputs.map (fun input => (alone.run input).1) ∧
      alone.results inputs = inputs.map (fun input => .ok (decide (¬ settings.mode.Rejected input))) ∧
      whole.failures = inputs.countP (fun input => decide (settings.mode.Rejected input)) ∧
      whole.evaluated = inputs.length ∧
      (∀ filter,
        let logged := (fresh settings filter).runEach inputs
        logged.out.content = whole.out.content ∧ ∃ diagnostics,
          logged.err.content = utf8 (Diagnostic.textOf diagnostics) ∧
          utf8 (Diagnostic.textOf (diagnostics.filter Diagnostic.isReport)) = whole.err.content ∧
          let rejected := (settings.rejected 1 inputs).filter fun entry =>
            filter.admits (.rejected entry.1 entry.2)
          let informed := (Diagnostic.events diagnostics).filter fun event =>
            decide (event.level = .info)
          informed = rejected.map (fun entry => .rejected entry.1 entry.2) ∧
          informed.map Event.record = rejected.map fun entry => rejectionRecord entry.1 entry.2) ∧
      (∀ σ : Equiv.Perm (Fin inputs.length),
        let permuted := alone.runEach (List.ofFn (inputs.get ∘ σ))
        (∀ stream, (permuted.sink stream).content =
          (List.ofFn fun i => block settings stream (inputs.get (σ i))).flatten) ∧
        permuted.failures = whole.failures) ∧
      (settings.json = true → ∃ line : String → String, (∀ input, '\n' ∉ (line input).toList) ∧
        whole.out.content = inputs.flatMap (fun input => utf8 (line input ++ "\n")) ∧
        whole.err.content = []) ∧
      (settings.json = false → settings.mode ≠ .tokens →
        ∃ line : String → String, (∀ input, '\n' ∉ (line input).toList) ∧
          whole.out.content = (inputs.filter fun input => ¬ settings.mode.Rejected input).flatMap
            (fun input => utf8 (line input ++ "\n")) ∧
          whole.err.content = (inputs.filter fun input => settings.mode.Rejected input).flatMap
            (fun input => utf8 (line input ++ "\n"))) := by
  intro alone whole
  -- the outputs and counts of the whole are those of its inputs, by induction on them
  have halone : alone.Unlimited := unlimited_fresh settings .silent
  have hcontent := content_runEach_fresh settings inputs
  have hout : whole.out.content = inputs.flatMap (block settings .out) := hcontent .out
  have herr : whole.err.content = inputs.flatMap (block settings .err) := hcontent .err
  have hresults := halone.results_eq inputs
  have hresult : ∀ input, (alone.run input).1 = .ok (decide (¬ settings.mode.Rejected input)) :=
    fun input => (List.cons.inj (halone.results_eq [input])).1
  have hfailures : whole.failures = 0 + _ := alone.failures_runEach inputs
  have hevaluated : whole.evaluated = 0 + _ := alone.evaluated_runEach inputs
  refine ⟨hcontent, ?_, hresults, hfailures.trans (Nat.zero_add _), hevaluated.trans (Nat.zero_add _),
    fun filter => ⟨?_, ?_⟩, fun σ => ⟨content_runEach_permuted settings σ,
      failures_runEach_permuted alone σ⟩, fun hjson => ?_, fun hjson hmode => ?_⟩
  -- each input is accepted or rejected as by a fresh session
  · rw [hresults, funext hresult]
    rfl
  -- a log does not reach `out`
  · rw [(unlimited_fresh settings filter).out_runEach, halone.out_runEach]
    rfl
  -- in `err`, log lines stand between the reports
  · obtain ⟨diagnostics, hdiagnostics, hreports, hinformed⟩ :=
      exists_diagnostics_fresh settings filter inputs
    refine ⟨diagnostics, hdiagnostics, hreports.trans herr.symm, hinformed, ?_⟩
    rw [hinformed, List.map_map]
    rfl
  -- in JSON, lines for all inputs are in `out`
  · rw [hout, herr]
    exact exists_lines_json hjson inputs
  -- as text, those for rejected inputs are in `err`
  · rw [hout, herr]
    exact exists_lines_text hjson hmode inputs

end Session

end AddingMachine
