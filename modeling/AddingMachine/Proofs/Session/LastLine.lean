import AddingMachine.Proofs.CommandLine.Inputs
import AddingMachine.Proofs.Session.Configurations

/-!
# The end of the last line

A line feed behind some bytes makes no difference to how they are answered, unless they are a text
that ends with a carriage return. The return then belongs to the ending that the line feed makes, and
without the line feed it belongs to the last line (`last_line_end`).
-/

namespace AddingMachine

/-! ## §1 The last line -/

/-- The last line is what stands behind the last line feed. -/
theorem exists_last_line {α : Type} (feed : α) (xs : List α) :
    ∃ front line, xs = front ++ line ∧ (front = [] ∨ front.getLast? = some feed) ∧ feed ∉ line := by
  induction xs using List.reverseRecOn with
  | nil => exact ⟨[], [], rfl, .inl rfl, List.not_mem_nil⟩
  | append_singleton xs x ih =>
    -- a line feed at the end leaves an empty last line, and every other element belongs to it
    by_cases hx : x = feed
    · subst hx
      exact ⟨xs ++ [x], [], (List.append_nil _).symm, .inr List.getLast?_concat, List.not_mem_nil⟩
    · obtain ⟨front, line, rfl, hfront, hline⟩ := ih
      refine ⟨front, line ++ [x], List.append_assoc .., hfront, ?_⟩
      simp [hline, Ne.symm hx]

/-- A return at the end is one of the last line. -/
theorem stripReturn_append {front : List UInt8}
    (hfront : front = [] ∨ front.getLast? = some lineFeed) (line : List UInt8) :
    stripReturn (front ++ line) = front ++ stripReturn line := by
  cases line with
  | nil =>
    -- the front ends with a line feed, not with a return
    have hlast : front.getLast? ≠ some carriageReturn := by
      rcases hfront with rfl | hfeed
      · nofun
      · rw [hfeed]
        decide
    rw [List.append_nil, stripReturn_of_ne hlast]
    exact (List.append_nil _).symm
  | cons b rest =>
    have hne : b :: rest ≠ [] := List.cons_ne_nil _ _
    rw [stripReturn, stripReturn, List.getLast?_append_of_ne_nil _ hne]
    split
    next => exact List.dropLast_append_of_ne_nil hne
    next => rfl

/-- Bytes without a line feed are one line. -/
theorem lines_of_notMem {line : List UInt8} (hline : lineFeed ∉ line) :
    lines line = [line].filter (!·.isEmpty) := by
  rw [lines, allLines_of_notMem hline]

/-- A line feed at the end ends the last line, together with a return in front of it. -/
theorem lines_concat_feed (bytes : List UInt8) :
    lines (bytes ++ [lineFeed]) = lines (stripReturn bytes) := by
  obtain ⟨front, line, rfl, hfront, hline⟩ := exists_last_line lineFeed bytes
  have hstripped : lineFeed ∉ stripReturn line := by
    rw [stripReturn]
    split
    next => exact fun hmem => hline (List.mem_of_mem_dropLast hmem)
    next => exact hline
  have hnone : lines [] = [] := rfl
  rw [stripReturn_append hfront, List.append_assoc, lines_append hfront, lines_append hfront,
    lines_feed hline, lines_of_notMem hstripped, hnone, List.append_nil]

/-- A text whose last byte is a carriage return ends with this character. -/
theorem exists_eq_append_return {text : String}
    (h : (utf8 text).getLast? = some carriageReturn) : ∃ more, text = more ++ "\r" := by
  have hlast : text.toList.getLast? = some '\r' := by
    by_contra hne
    rw [utf8_eq] at h
    exact getLast?_utf8Chars_ne hne h
  obtain ⟨init, hinit⟩ := List.getLast?_eq_some_iff.mp hlast
  exact ⟨String.ofList init, String.toList_inj.mp (by simp [hinit])⟩

/-! ## §2 Bytes that are no text -/

/-- What no line feed at the end can mend. -/
theorem BreaksAt.concat_feed {input before bad : List UInt8} (h : BreaksAt input before bad) :
    BreaksAt (input ++ [lineFeed]) before bad := by
  obtain ⟨after, rfl, hafter⟩ := h.rest
  refine ⟨h.complete, h.text, h.noFeed, h.notText, after ++ [lineFeed], by simp, .inr ?_⟩
  rcases hafter with rfl | hhead
  · rfl
  · rw [List.head?_append, hhead]
    rfl

namespace Session

/-- Nothing behind the first line that is no text is looked at. -/
theorem runDecoded_append_notText {bad bad' : List UInt8} (hbad : ∀ text, bad ≠ utf8 text)
    (hbad' : ∀ text, bad' ≠ utf8 text) (session : Session)
    (before later later' : List (List UInt8)) :
    session.runDecoded (before ++ bad :: later) = session.runDecoded (before ++ bad' :: later') := by
  induction before generalizing session with
  | nil =>
    rw [List.nil_append, List.nil_append, runDecoded_notText hbad, runDecoded_notText hbad']
  | cons line rest ih =>
    rw [List.cons_append, List.cons_append, runDecoded, runDecoded]
    -- the lines before are answered alike, up to a failure if there is one
    cases ofUtf8? line with
    | none => rfl
    | some input =>
      dsimp only
      generalize session.run input = answered
      obtain ⟨result, next⟩ := answered
      cases result with
      | ok accepted => exact ih next
      | error failure => rfl

/-- Where a line is no text, a line feed at the end makes no difference. -/
theorem runLines_of_breaksAt {bytes before bad : List UInt8} (h : BreaksAt bytes before bad)
    (session : Session) : session.runLines (bytes ++ [lineFeed]) = session.runLines bytes := by
  obtain ⟨bad', later, hlines, hbad'⟩ := h.lines
  obtain ⟨bad'', later', hlines', hbad''⟩ := h.concat_feed.lines
  rw [runLines, runLines, hlines, hlines']
  exact runDecoded_append_notText hbad'' hbad' session _ _ _

/-! ## §3 Answers alike -/

/-- With a line feed behind them, bytes are answered as without a return at their end. -/
theorem runLines_concat_feed (session : Session) (bytes : List UInt8) :
    session.runLines (bytes ++ [lineFeed]) = session.runLines (stripReturn bytes) := by
  rw [runLines, runLines, lines_concat_feed]

/-- Both are answered with the same result, and leave the same outputs and the same counts. -/
structure AnswersAlike (session : Session) (bytes bytes' : List UInt8) : Prop where
  result : (session.runLines bytes).1 = (session.runLines bytes').1
  out : (session.runLines bytes).2.out.content = (session.runLines bytes').2.out.content
  err : (session.runLines bytes).2.err.content = (session.runLines bytes').2.err.content
  evaluated : (session.runLines bytes).2.evaluated = (session.runLines bytes').2.evaluated
  failures : (session.runLines bytes).2.failures = (session.runLines bytes').2.failures

theorem AnswersAlike.of_eq {session : Session} {bytes bytes' : List UInt8}
    (h : session.runLines bytes' = session.runLines bytes) : session.AnswersAlike bytes bytes' := by
  constructor <;> rw [h]

theorem runEach_append (session : Session) (inputs more : List String) :
    session.runEach (inputs ++ more) = (session.runEach inputs).runEach more :=
  List.foldl_append

/-- Lines that are texts are answered one after another, the earlier ones first. -/
theorem Unlimited.runLines_of_lines {session : Session} (h : session.Unlimited)
    {bytes : List UInt8} {inputs more : List String}
    (hlines : lines bytes = (inputs ++ more).map utf8) :
    session.runLines bytes = (.ok (), (session.runEach inputs).runEach more) := by
  have hall := h.runDecoded_append (inputs ++ more) []
  rwa [List.append_nil, ← hlines, runEach_append] at hall

/-- Behind whole lines, a last line adds itself to what is given, unless it is empty. -/
theorem exists_lines_append {front : List Char}
    (hfront : front = [] ∨ front.getLast? = some '\n') :
    ∃ inputs : List String, ∀ line : String, '\n' ∉ line.toList →
      lines (utf8Chars front ++ utf8 line) = (inputs ++ [line].filter (· ≠ "")).map utf8 := by
  obtain ⟨pieces, hpieces⟩ := exists_cutsInto '\n' '\r' front
  refine ⟨(pieces.filter (!·.isEmpty)).map String.ofList, fun line hline => ?_⟩
  have hcomplete : utf8Chars front = [] ∨ (utf8Chars front).getLast? = some lineFeed := by
    rcases hfront with rfl | hlast
    · exact .inl rfl
    · obtain ⟨init, rfl⟩ := List.getLast?_eq_some_iff.mp hlast
      right
      rw [utf8Chars_append, List.getLast?_append]
      rfl
  have hnoFeed : lineFeed ∉ utf8 line := by
    rw [utf8_eq]
    exact mt (lineFeed_mem_utf8Chars_iff _).mp hline
  -- the last line is one expression, or none if it is empty
  have hlast : lines (utf8 line) = ([line].filter (· ≠ "")).map utf8 := by
    rw [lines_of_notMem hnoFeed]
    by_cases hempty : line = ""
    · simp [hempty]
    · have hne : utf8 line ≠ [] := fun hnil => hempty (utf8_injective (hnil.trans utf8_empty.symm))
      simp [hempty, hne]
  rw [lines_append hcomplete, lines_eq hpieces.utf8Chars, filter_map_utf8Chars, hlast,
    List.map_append]

/-- With JSON, the output tells inputs apart. -/
theorem Unlimited.eq_of_out_run {session : Session} (h : session.Unlimited)
    (hjson : session.settings.json = true) {input input' : String}
    (hout : (session.run input).2.out.content = (session.run input').2.out.content) :
    input = input' := by
  rw [(h.writes_json hjson).out, (h.writes_json hjson).out] at hout
  exact Reply.jsonLine_injective (utf8_injective (List.append_cancel_left hout))

/-- A text that ends with a return is answered otherwise with a line feed behind it. -/
theorem not_answersAlike_return {session : Session} (h : session.Unlimited)
    (hjson : session.settings.json = true) (text : String) :
    ¬ session.AnswersAlike (utf8 (text ++ "\r")) (utf8 (text ++ "\r") ++ [lineFeed]) := by
  obtain ⟨front, last, hchars, hfront, hlast⟩ := exists_last_line '\n' text.toList
  obtain ⟨inputs, hlines⟩ := exists_lines_append hfront
  let line := String.ofList last
  have hline : '\n' ∉ line.toList := by simpa [line] using hlast
  have hreturn : '\n' ∉ (line ++ "\r").toList := by simpa [line] using hlast
  have htext : utf8 text = utf8Chars front ++ utf8 line := by
    rw [utf8_eq, utf8_eq, hchars, utf8Chars_append, String.toList_ofList]
  -- with the line feed, the return belongs to the ending
  have hstripped : stripReturn (utf8 (text ++ "\r")) = utf8 text := by
    have hbyte : utf8 "\r" = [carriageReturn] := by decide +kernel
    rw [utf8_append, hbyte, stripReturn_concat]
  have hwith : session.runLines (utf8 (text ++ "\r") ++ [lineFeed]) =
      (.ok (), (session.runEach inputs).runEach ([line].filter (· ≠ ""))) := by
    rw [runLines_concat_feed, hstripped, htext]
    exact h.runLines_of_lines (hlines line hline)
  -- without it, the return belongs to the last line
  have hwithout : session.runLines (utf8 (text ++ "\r")) =
      (.ok (), (session.runEach inputs).runEach [line ++ "\r"]) := by
    have hkept : [line ++ "\r"].filter (· ≠ "") = [line ++ "\r"] := by simp
    rw [utf8_append, htext, List.append_assoc, ← utf8_append, ← hkept]
    exact h.runLines_of_lines (hlines _ hreturn)
  intro halike
  by_cases hempty : line = ""
  · -- the return alone is a line, and the ending that it belongs to is none
    have hevaluated := halike.evaluated
    have hnone : [line].filter (· ≠ "") = [] := by simp [hempty]
    rw [hwith, hwithout, hnone] at hevaluated
    exact Nat.succ_ne_self _ (((session.runEach inputs).evaluated_run _).symm.trans hevaluated)
  -- otherwise both lines are answered, and JSON tells them apart
  · have hout := halike.out
    have hone : [line].filter (· ≠ "") = [line] := by simp [hempty]
    rw [hwith, hwithout, hone] at hout
    have hjsonNext : (session.runEach inputs).settings.json = true := by
      rw [settings_runEach, hjson]
    have heq := (h.runEach inputs).eq_of_out_run hjsonNext hout
    simpa using congrArg (·.toList.length) heq

/-- Only a text that ends with a return can be answered otherwise. -/
theorem answersAlike_iff (bytes : List UInt8) :
    (∀ session : Session, session.AnswersAlike bytes (bytes ++ [lineFeed])) ↔
      ∀ text, bytes ≠ utf8 (text ++ "\r") := by
  constructor
  · rintro halike text rfl
    let session := start ⟨.value, true⟩ .silent (.empty none) (.empty none)
    have h : session.Unlimited := ⟨rfl, rfl⟩
    exact not_answersAlike_return h rfl text (halike session)
  · intro h session
    -- the bytes are a text that ends otherwise, or have a line that is no text
    rcases exists_text_or_breaksAt bytes with ⟨-, text, rfl⟩ | ⟨-, before, bad, hbreaks⟩
    · have hlast : (utf8 text).getLast? ≠ some carriageReturn := by
        intro hreturn
        obtain ⟨more, rfl⟩ := exists_eq_append_return hreturn
        exact h more rfl
      exact .of_eq (by rw [runLines_concat_feed, stripReturn_of_ne hlast])
    · exact .of_eq (runLines_of_breaksAt hbreaks session)

/-- **The end of the last line.** With a line feed behind them, bytes are answered as they are without
a carriage return at their end. So every session answers them alike with the line feed and without
it, unless they are a text that ends with a carriage return. -/
theorem last_line_end (bytes : List UInt8) :
    (∀ session : Session, session.runLines (bytes ++ [lineFeed]) =
      session.runLines (stripReturn bytes)) ∧
    ((∀ session : Session, session.AnswersAlike bytes (bytes ++ [lineFeed])) ↔
      ∀ text, bytes ≠ utf8 (text ++ "\r")) :=
  ⟨fun session => runLines_concat_feed session bytes, answersAlike_iff bytes⟩

/-- A number with a return behind it is rejected, and with a line feed as well it is answered. -/
theorem not_answersAlike_number_return :
    let session := start ⟨.value, false⟩ .silent (.empty none) (.empty none)
    ¬ session.AnswersAlike (utf8 "1\r") (utf8 "1\r" ++ [lineFeed]) := by
  intro session halike
  have hwithout : (session.runLines (utf8 "1\r")).2.failures = 1 := by decide +kernel
  have hwith : (session.runLines (utf8 "1\r" ++ [lineFeed])).2.failures = 0 := by decide +kernel
  have hfailures := halike.failures
  rw [hwithout, hwith] at hfailures
  cases hfailures

end Session

end AddingMachine
