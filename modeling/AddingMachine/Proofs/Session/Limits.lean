import AddingMachine.Proofs.Session.Report

/-!
# Outputs with limits

An output with a limit takes bytes as long as it has room. Whatever the limits are, and however
replies are divided into pieces that are written one after another, the outputs hold the beginning of
what they would hold without limits, and the session counts as it would without them
(`limits_cut_the_end`). Only an answer whose reply does not fit fails.
-/

namespace AddingMachine

namespace Sink

/-! ## §1 Writing in pieces -/

/-- Writes texts one after another, up to the first for which there is no room. -/
def writeEach (sink : Sink) : List String → Bool × Sink
  | [] => (true, sink)
  | piece :: rest =>
    let written := sink.write piece
    if written.1 then written.2.writeEach rest else (false, written.2)

theorem writeEach_singleton (sink : Sink) (text : String) :
    sink.writeEach [text] = sink.write text := by
  rw [writeEach]
  cases hwritten : sink.write text with
  | mk fits next => cases fits <;> rfl

/-- The sink takes `n` bytes in all, and holds the first `n` of those that it was given. -/
structure HoldsFirst (sink : Sink) (n : Nat) (given : List UInt8) : Prop where
  limit : sink.limit = some n
  content : sink.content = given.take n

namespace HoldsFirst

variable {sink : Sink} {n : Nat} {given : List UInt8}

/-- There is room for a text if its bytes fit in what is left. -/
theorem write_fst (h : sink.HoldsFirst n given) (text : String) :
    (sink.write text).1 = decide ((utf8 text).length ≤ n - sink.content.length) := by
  rw [write, hasRoom, room, h.limit]
  rfl

/-- What is written is given to the sink, as far as there is room for it. -/
theorem write (h : sink.HoldsFirst n given) (text : String) :
    (sink.write text).2.HoldsFirst n (given ++ utf8 text) := by
  refine ⟨h.limit, ?_⟩
  have hroom : sink.room = some (n - given.length) := by
    rw [room, h.limit, h.content, List.length_take, Option.map_some,
      ← Nat.sub_eq_sub_min]
  rw [content_write, fitting, hroom, h.content, List.take_append]

/-- Pieces are written as the text is that they make up: if they do not fit, the sink is full before
the last of them is written. -/
theorem writeEach (h : sink.HoldsFirst n given) (pieces : List String) :
    (sink.writeEach pieces).2.HoldsFirst n (given ++ utf8 (String.join pieces)) ∧
      (sink.writeEach pieces).1 =
        decide ((utf8 (String.join pieces)).length ≤ n - sink.content.length) := by
  induction pieces generalizing sink given with
  | nil => simpa [Sink.writeEach] using h
  | cons piece rest ih =>
    have hfirst := h.write piece
    obtain ⟨hrest, hflag⟩ := ih hfirst
    have hlength : sink.content.length = min n given.length := by
      rw [h.content, List.length_take]
    rw [Sink.writeEach, h.write_fst, String.join_cons, utf8_append, ← List.append_assoc]
    by_cases hfits : (utf8 piece).length ≤ n - sink.content.length
    -- the first piece is in, so its bytes count for the others
    · have hnext : (sink.write piece).2.content.length =
          min n (given.length + (utf8 piece).length) := by
        rw [hfirst.content, List.length_take, List.length_append]
      simp only [hfits, decide_true, if_true, hflag, hnext, List.length_append]
      exact ⟨hrest, decide_eq_decide.mpr (by omega)⟩
    · -- nothing of the later pieces is among the first `n` bytes
      simp only [hfits, decide_false, Bool.false_eq_true, if_false]
      refine ⟨⟨hfirst.limit, hfirst.content.trans (List.take_append_of_le_length ?_).symm⟩,
        (decide_eq_false ?_).symm⟩
      · rw [List.length_append]
        omega
      · rw [List.length_append]
        omega

end HoldsFirst

end Sink

/-- How replies are divided into the pieces that are written one after another. -/
structure Division where
  pieces : Settings → String → List String
  join_pieces : ∀ settings input, String.join (pieces settings input) = (settings.reply input).text

/-- No reply is divided. -/
def Division.whole : Division :=
  ⟨fun settings input => [(settings.reply input).text], fun _ _ => by simp⟩

namespace Session

/-- Writes texts to an output one after another, up to the first for which there is no room. -/
def writeEach (session : Session) (stream : Stream) (pieces : List String) : Bool × Session :=
  match stream with
  | .out =>
    let (fits, sink) := session.out.writeEach pieces
    (fits, { session with out := sink })
  | .err =>
    let (fits, sink) := session.err.writeEach pieces
    (fits, { session with err := sink })

theorem writeEach_fst (session : Session) (stream : Stream) (pieces : List String) :
    (session.writeEach stream pieces).1 = ((session.sink stream).writeEach pieces).1 := by
  cases stream <;> rfl

/-- Pieces are written to one output, and the other one stays as it is. -/
theorem sink_writeEach (session : Session) (goal : Stream) (pieces : List String)
    (stream : Stream) :
    (session.writeEach goal pieces).2.sink stream =
      if goal = stream then ((session.sink stream).writeEach pieces).2 else session.sink stream := by
  cases goal <;> cases stream <;> rfl

/-- A reply is written at once, which is in one piece. -/
theorem write_eq_writeEach (session : Session) (reply : Reply) :
    session.write reply = session.writeEach reply.stream [reply.text] := by
  obtain ⟨goal, text⟩ := reply
  cases goal with
  | out =>
    exact congrArg (fun w : Bool × Sink => (w.1, { session with out := w.2 }))
      (session.out.writeEach_singleton text).symm
  | err =>
    exact congrArg (fun w : Bool × Sink => (w.1, { session with err := w.2 }))
      (session.err.writeEach_singleton text).symm

/-- Writing changes nothing but the outputs. -/
theorem writeEach_keeps (session : Session) (stream : Stream) (pieces : List String) :
    (session.writeEach stream pieces).2.settings = session.settings ∧
      (session.writeEach stream pieces).2.journal = session.journal ∧
      (session.writeEach stream pieces).2.evaluated = session.evaluated ∧
      (session.writeEach stream pieces).2.failures = session.failures := by
  cases stream <;> exact ⟨rfl, rfl, rfl, rfl⟩

/-- Answers an expression with a reply that is written in pieces. -/
def runDivided (division : Division) (session : Session) (input : String) :
    Except Failure Bool × Session :=
  let written := (session.logged input).writeEach (session.settings.reply input).stream
    (division.pieces session.settings input)
  (if written.1 then .ok (session.settings.outcome input).isOk else .error .full, written.2)

/-- The session after some expressions, whatever their replies came to. -/
def runEachDivided (division : Division) (session : Session) (inputs : List String) : Session :=
  inputs.foldl (fun s input => (s.runDivided division input).2) session

/-- A reply that is written at once is written in one piece. -/
theorem run_eq_runDivided (session : Session) (input : String) :
    session.run input = session.runDivided .whole input := by
  rw [run_eq, write_eq_writeEach]
  rfl

/-! ## §2 Sessions with limits and without -/

/-- The first session differs from the second only in that its outputs have limits. -/
structure Truncates (limit : Stream → Nat) (cut whole : Session) : Prop where
  settings : cut.settings = whole.settings
  journal : cut.journal = whole.journal
  evaluated : cut.evaluated = whole.evaluated
  failures : cut.failures = whole.failures
  unlimited : whole.Unlimited
  sink : ∀ stream, (cut.sink stream).HoldsFirst (limit stream) (whole.sink stream).content

variable {limit : Stream → Nat} {cut whole : Session}

/-- A new session with limits is one without them, cut at the limits. -/
theorem truncates_start (settings : Settings) (filter : Filter) (limit : Stream → Nat) :
    Truncates limit
      (start settings filter (.empty (some (limit .out))) (.empty (some (limit .err))))
      (start settings filter (.empty none) (.empty none)) where
  settings := rfl
  journal := rfl
  evaluated := rfl
  failures := rfl
  unlimited := ⟨rfl, rfl⟩
  sink := by
    intro stream
    cases stream <;> exact ⟨rfl, List.take_nil.symm⟩

/-- Counting does not depend on the outputs, and log lines are lost only at the end of `err`. -/
theorem Truncates.logged (h : Truncates limit cut whole) (input : String) :
    Truncates limit (cut.logged input) (whole.logged input) where
  settings := h.settings
  journal := by
    show (cut.journal.recordAll (cut.eventsOf input)).2 =
      (whole.journal.recordAll (whole.eventsOf input)).2
    rw [eventsOf, eventsOf, h.journal, h.settings, h.evaluated]
  evaluated := congrArg (· + 1) h.evaluated
  failures := by
    show cut.failures + (if (cut.settings.outcome input).isOk then 0 else 1) =
      whole.failures + (if (whole.settings.outcome input).isOk then 0 else 1)
    rw [h.failures, h.settings]
  unlimited := ⟨h.unlimited.out, h.unlimited.err⟩
  sink := by
    intro stream
    cases stream with
    | out => exact h.sink .out
    -- the same lines are written, as far as there is room
    | err =>
      have hlines : cut.logLines input = whole.logLines input := by
        rw [logLines, logLines, eventsOf, eventsOf, h.journal, h.settings, h.evaluated]
      show (cut.err.write (cut.logLines input)).2.HoldsFirst _
        (whole.err.write (whole.logLines input)).2.content
      rw [Sink.content_write_of_limit h.unlimited.err, hlines]
      exact (h.sink .err).write _

/-- Pieces of a reply are written as the reply is, up to the limits. -/
theorem Truncates.writeEach (h : Truncates limit cut whole) {reply : Reply} {pieces : List String}
    (hpieces : String.join pieces = reply.text) :
    Truncates limit (cut.writeEach reply.stream pieces).2 (whole.write reply).2 := by
  obtain ⟨hsettings, hjournal, hevaluated, hfailures⟩ := cut.writeEach_keeps reply.stream pieces
  obtain ⟨hsettings', hjournal', hevaluated', hfailures'⟩ := whole.write_keeps reply
  refine ⟨?_, ?_, ?_, ?_, (h.unlimited.write reply).2, fun stream => ?_⟩
  · rw [hsettings, hsettings', h.settings]
  · rw [hjournal, hjournal', h.journal]
  · rw [hevaluated, hevaluated', h.evaluated]
  · rw [hfailures, hfailures', h.failures]
  -- the output of the reply gets the pieces, the other one nothing
  · rw [sink_writeEach, h.unlimited.content_write, Reply.on]
    split
    next =>
      rw [← hpieces]
      exact ((h.sink stream).writeEach pieces).1
    next =>
      rw [utf8_empty, List.append_nil]
      exact h.sink stream

/-- **One answer** keeps the session with limits what the other one is, cut at the limits. -/
theorem Truncates.run (h : Truncates limit cut whole) (division : Division) (input : String) :
    Truncates limit (cut.runDivided division input).2 (whole.run input).2 := by
  have hwritten := (h.logged input).writeEach (division.join_pieces cut.settings input)
  have hreply : cut.settings.reply input = whole.settings.reply input := by rw [h.settings]
  rw [run_eq, ← hreply]
  exact hwritten

/-- **Many answers**, by induction on the inputs. -/
theorem Truncates.runEach (h : Truncates limit cut whole) (division : Division)
    (inputs : List String) :
    Truncates limit (cut.runEachDivided division inputs) (whole.runEach inputs) := by
  induction inputs generalizing cut whole with
  | nil => exact h
  | cons input rest ih => exact ih (h.run division input)

/-- An answer with limits fails exactly where its reply does not fit. -/
theorem Truncates.result_run (h : Truncates limit cut whole) (division : Division)
    (input : String) :
    let reply := cut.settings.reply input
    (cut.runDivided division input).1 =
      if (utf8 reply.text).length ≤
          limit reply.stream - ((cut.logged input).sink reply.stream).content.length
        then .ok (whole.settings.outcome input).isOk
      else .error .full := by
  intro reply
  -- the pieces fit if the whole reply does
  -- the pieces fit if the whole reply does
  have hfits := (((h.logged input).sink reply.stream).writeEach
    (division.pieces cut.settings input)).2
  have houtcome : cut.settings.outcome input = whole.settings.outcome input := by rw [h.settings]
  rw [division.join_pieces] at hfits
  rw [runDivided, writeEach_fst, hfits, houtcome]
  simp only [decide_eq_true_eq, reply]

/-! ## §3 Lines of a text -/

/-- All expressions are answered, one after another. -/
def Answers (session : Session) : List String → Prop
  | [] => True
  | input :: rest =>
    (∃ accepted, (session.run input).1 = .ok accepted) ∧ (session.run input).2.Answers rest

/-- Either all expressions are answered, or the first failure ends it. -/
theorem runAll_cases (session : Session) (inputs : List String) :
    (session.Answers inputs ∧ session.runAll inputs = (.ok (), session.runEach inputs)) ∨
      ∃ before input after failure, inputs = before ++ input :: after ∧ session.Answers before ∧
        ((session.runEach before).run input).1 = .error failure ∧
        session.runAll inputs = (.error failure, session.runEach (before ++ [input])) := by
  induction inputs generalizing session with
  | nil => exact .inl ⟨trivial, rfl⟩
  | cons input rest ih =>
    cases hrun : session.run input with
    | mk result next =>
      have hnext : (session.run input).2 = next := by rw [hrun]
      cases result with
      -- the first expression is the one that fails
      | error failure =>
        refine .inr ⟨[], input, rest, failure, rfl, trivial, ?_, ?_⟩
        · show (session.run input).1 = _
          rw [hrun]
        · show _ = (_, (session.run input).2)
          rw [runAll, hrun]
      -- the first one is answered, and then the others decide
      | ok accepted =>
        have hall : session.runAll (input :: rest) = next.runAll rest := by rw [runAll, hrun]
        have hanswer : ∃ accepted, (session.run input).1 = .ok accepted := ⟨accepted, by rw [hrun]⟩
        rw [hall]
        subst hnext
        rcases ih (session.run input).2 with
          ⟨hrest, hrestRun⟩ | ⟨before, stop, after, failure, rfl, hbefore, hstop, hrestRun⟩
        · exact .inl ⟨⟨hanswer, hrest⟩, hrestRun⟩
        · exact .inr ⟨input :: before, stop, after, failure, rfl, ⟨hanswer, hbefore⟩, hstop,
            hrestRun⟩

/-! ## §4 Limits -/

/-- **Limits cut the end.** Whatever the limits are, and however replies are divided into pieces,
after any expressions both outputs hold the beginning of what they would hold without limits, and as
many expressions and failures are counted. An answer fails where its reply does not fit in what is
left, and otherwise is as it would be without limits. The lines of a text are answered up to the
first failure, which is the result. -/
theorem limits_cut_the_end (settings : Settings) (filter : Filter) (limit : Stream → Nat)
    (division : Division) :
    (∀ inputs : List String,
      let whole := (start settings filter (.empty none) (.empty none)).runEach inputs
      let cut := (start settings filter (.empty (some (limit .out)))
        (.empty (some (limit .err)))).runEachDivided division inputs
      (∀ stream, (cut.sink stream).content = (whole.sink stream).content.take (limit stream)) ∧
        cut.evaluated = whole.evaluated ∧ cut.failures = whole.failures ∧
        ∀ input,
          let reply := settings.reply input
          let left := limit reply.stream - ((cut.logged input).sink reply.stream).content.length
          ∃ accepted, (whole.run input).1 = .ok accepted ∧
            (cut.runDivided division input).1 =
              if (utf8 reply.text).length ≤ left then .ok accepted else .error .full) ∧
    (∀ (session : Session) (input : String),
      session.run input = session.runDivided .whole input) ∧
    ∀ (session : Session) (text : String), ∃ pieces, CutsInto '\n' '\r' text.toList pieces ∧
      let expressions := (pieces.filter (!·.isEmpty)).map String.ofList
      (session.Answers expressions ∧
          session.runLines (utf8 text) = (.ok (), session.runEach expressions)) ∨
        ∃ before input after failure, expressions = before ++ input :: after ∧
          session.Answers before ∧ ((session.runEach before).run input).1 = .error failure ∧
          session.runLines (utf8 text) = (.error failure, session.runEach (before ++ [input])) := by
  refine ⟨fun inputs => ?_, run_eq_runDivided, fun session text => ?_⟩
  -- the two sessions differ in their limits only, from the start on
  · intro whole cut
    have h : Truncates limit cut whole :=
      (truncates_start settings filter limit).runEach division inputs
    have hsettings : cut.settings = settings := h.settings.trans (settings_runEach _ inputs)
    refine ⟨fun stream => (h.sink stream).content, h.evaluated, h.failures, fun input => ?_⟩
    have hresult := h.result_run division input
    rw [hsettings] at hresult
    exact ⟨_, h.unlimited.result_run input, hresult⟩
  -- the lines of a text are its expressions
  · obtain ⟨pieces, hpieces⟩ := exists_cutsInto '\n' '\r' text.toList
    have hrun : session.runLines (utf8 text) =
        session.runAll ((pieces.filter (!·.isEmpty)).map String.ofList) := by
      rw [runLines, lines_utf8 hpieces, runDecoded_map_utf8]
    refine ⟨pieces, hpieces, ?_⟩
    rw [hrun]
    exact session.runAll_cases _

end Session

end AddingMachine
