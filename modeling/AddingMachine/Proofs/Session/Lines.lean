import AddingMachine.Session
import Mathlib.Data.List.Basic

/-!
# Lines

Texts as bytes, bytes as lines, and sessions that answer them line by line.
-/

namespace AddingMachine

/-! ## §1 Texts as bytes

The bytes of a text are those of its characters, one after another. A byte below 128 stands for the
character with that number and occurs in no other one (`mem_utf8EncodeChar_iff`). Bytes are read as a
text exactly when they are the bytes of that text (`ofUtf8?_eq_some_iff`). -/

/-! ### The bytes of characters -/

/-- The bytes of characters in UTF-8. -/
def utf8Chars (chars : List Char) : List UInt8 :=
  chars.flatMap String.utf8EncodeChar

@[simp] theorem utf8Chars_nil : utf8Chars [] = [] :=
  rfl

@[simp] theorem utf8Chars_cons (c : Char) (chars : List Char) :
    utf8Chars (c :: chars) = String.utf8EncodeChar c ++ utf8Chars chars :=
  rfl

@[simp] theorem utf8Chars_append (chars more : List Char) :
    utf8Chars (chars ++ more) = utf8Chars chars ++ utf8Chars more :=
  List.flatMap_append

theorem le_toNat_ofNat {n : Nat} (hle : 128 ≤ n) (hlt : n < 256) :
    128 ≤ (UInt8.ofNat n).toNat := by
  rwa [UInt8.toNat_ofNat', Nat.mod_eq_of_lt hlt]

/-- A character below 128 is one byte, and all bytes of other characters are from 128 on. -/
theorem utf8EncodeChar_cases (c : Char) :
    (c.toNat < 128 ∧ String.utf8EncodeChar c = [UInt8.ofNat c.toNat]) ∨
      (128 ≤ c.toNat ∧ ∀ b ∈ String.utf8EncodeChar c, 128 ≤ b.toNat) := by
  have hnat : c.val.toNat = c.toNat := rfl
  rw [String.utf8EncodeChar.eq_1, hnat]
  generalize c.toNat = v
  split
  -- one byte
  next h => exact .inl ⟨by omega, rfl⟩
  next h =>
    refine .inr ⟨by omega, ?_⟩
    -- a leading byte, and one to three bytes that continue it
    split
    · simp only [List.mem_cons, List.not_mem_nil, or_false]
      rintro b (rfl | rfl) <;> exact le_toNat_ofNat (by omega) (by omega)
    · split
      · simp only [List.mem_cons, List.not_mem_nil, or_false]
        rintro b (rfl | rfl | rfl) <;> exact le_toNat_ofNat (by omega) (by omega)
      · simp only [List.mem_cons, List.not_mem_nil, or_false]
        rintro b (rfl | rfl | rfl | rfl) <;> exact le_toNat_ofNat (by omega) (by omega)

/-- A byte below 128 occurs in one character only, which has its number. -/
theorem mem_utf8EncodeChar_iff {b : UInt8} (hb : b.toNat < 128) (c : Char) :
    b ∈ String.utf8EncodeChar c ↔ c.toNat = b.toNat := by
  rcases utf8EncodeChar_cases c with ⟨hlt, heq⟩ | ⟨hle, hbytes⟩
  · rw [heq, List.mem_singleton, ← UInt8.toNat_inj, UInt8.toNat_ofNat', Nat.mod_eq_of_lt (by omega)]
    exact eq_comm
  · constructor
    · intro hmem
      have := hbytes b hmem
      omega
    · intro heq
      omega

/-- A byte below 128 occurs where its character does. -/
theorem mem_utf8Chars_iff {b : UInt8} {c : Char} (hb : b.toNat < 128) (hc : c.toNat = b.toNat)
    (chars : List Char) : b ∈ utf8Chars chars ↔ c ∈ chars := by
  rw [utf8Chars, List.mem_flatMap]
  constructor
  · intro hmem
    obtain ⟨d, hd, hbyte⟩ := hmem
    rw [mem_utf8EncodeChar_iff hb, ← hc, Char.toNat_inj] at hbyte
    exact hbyte ▸ hd
  · intro hmem
    exact ⟨c, hmem, (mem_utf8EncodeChar_iff hb c).mpr hc⟩

/-! ### The bytes of a text -/

theorem utf8_eq (text : String) : utf8 text = utf8Chars text.toList := by
  rw [utf8, String.toUTF8_eq_toByteArray, ← String.utf8Encode_toList, List.utf8Encode.eq_1,
    List.toList_data_toByteArray]
  rfl

/-- The bytes of a text settle the text. -/
theorem utf8_injective {text text' : String} (h : utf8 text = utf8 text') : text = text' := by
  apply String.toByteArray_inj.mp
  apply ByteArray.ext
  exact Array.toList_inj.mp h

/-- Bytes are read as the text that has them. -/
theorem ofUtf8?_eq_some_iff (bytes : List UInt8) (text : String) :
    ofUtf8? bytes = some text ↔ bytes = utf8 text := by
  rw [ofUtf8?, String.fromUTF8?]
  constructor
  · intro hread
    split at hread
    next hvalid =>
      obtain rfl := Option.some.inj hread
      rfl
    next => cases hread
  · rintro rfl
    have hbytes : (ByteArray.mk (utf8 text).toArray) = text.toByteArray := rfl
    rw [hbytes, dif_pos text.isValidUTF8]
    rfl

/-- Bytes that no text has are read as nothing. -/
theorem ofUtf8?_eq_none_iff (bytes : List UInt8) :
    ofUtf8? bytes = none ↔ ∀ text, bytes ≠ utf8 text := by
  rw [Option.eq_none_iff_forall_ne_some]
  exact forall_congr' fun text => not_congr (ofUtf8?_eq_some_iff bytes text)

/-! ## §2 Cutting into lines

`CutsInto` says how a sequence is cut into lines: at each line feed, to which a carriage return right
before it belongs. There is a way to do it (`exists_cutsInto`), and for bytes it is the only one, that
of `allLines` (`CutsInto.eq_allLines`). Cutting the characters of a text and cutting its bytes give
the same lines (`CutsInto.utf8Chars`). -/

/-! ### Lines -/

/-- How a sequence is cut into lines at each `feed`, before which one `ret` belongs to the ending. -/
inductive CutsInto {α : Type} (feed ret : α) : List α → List (List α) → Prop where
  /-- The last line has no ending, and may be empty. -/
  | last {line : List α} (hline : feed ∉ line) : CutsInto feed ret line [line]
  | feed (line : List α) {rest : List α} {lines : List (List α)} (hline : feed ∉ line)
      (hreturn : line.getLast? ≠ some ret) (hrest : CutsInto feed ret rest lines) :
      CutsInto feed ret (line ++ feed :: rest) (line :: lines)
  | returnFeed (line : List α) {rest : List α} {lines : List (List α)} (hline : feed ∉ line)
      (hrest : CutsInto feed ret rest lines) :
      CutsInto feed ret (line ++ ret :: feed :: rest) (line :: lines)

/-- Every sequence can be cut, at its first line feed and then what is left of it. -/
theorem exists_cutsInto {α : Type} (feed ret : α) (xs : List α) :
    ∃ lines, CutsInto feed ret xs lines := by
  induction h : xs.length using Nat.strongRecOn generalizing xs with
  | ind n ih =>
    by_cases hfeed : feed ∈ xs
    · obtain ⟨line, rest, rfl, hline⟩ := List.eq_append_cons_of_mem hfeed
      have hlt : rest.length < n := by
        rw [← h, List.length_append, List.length_cons]
        omega
      obtain ⟨lines, hrest⟩ := ih _ hlt rest rfl
      -- a carriage return at the end of the line belongs to the ending
      by_cases hreturn : line.getLast? = some ret
      · obtain ⟨init, rfl⟩ := List.getLast?_eq_some_iff.mp hreturn
        have hinit : feed ∉ init := fun hmem => hline (List.mem_append_left _ hmem)
        refine ⟨init :: lines, ?_⟩
        rw [List.append_assoc]
        exact .returnFeed init hinit hrest
      · exact ⟨line :: lines, .feed line hline hreturn hrest⟩
    · exact ⟨[xs], .last hfeed⟩

/-! ### Lines of bytes -/

theorem allLines_of_notMem {bytes : List UInt8} (h : lineFeed ∉ bytes) :
    allLines bytes = [bytes] := by
  rw [allLines, List.splitOn_eq_singleton h]
  rfl

/-- At the first line feed the first line ends, and a carriage return before it is left out. -/
theorem allLines_feed {line : List UInt8} (hline : lineFeed ∉ line) (rest : List UInt8) :
    allLines (line ++ lineFeed :: rest) = stripReturn line :: allLines rest := by
  have hne := List.splitOn_ne_nil lineFeed rest
  simp only [allLines, List.splitOn_append_cons_self_of_not_mem hline]
  rw [List.dropLast_cons_of_ne_nil hne, List.getLast?_cons_of_ne_nil hne]
  rfl

theorem stripReturn_of_ne {line : List UInt8} (h : line.getLast? ≠ some carriageReturn) :
    stripReturn line = line :=
  if_neg h

/-- Of carriage returns at the end one is left out. -/
theorem stripReturn_concat (line : List UInt8) : stripReturn (line ++ [carriageReturn]) = line := by
  simp [stripReturn]

/-- Bytes are cut in one way. -/
theorem CutsInto.eq_allLines {bytes : List UInt8} {lines : List (List UInt8)}
    (h : CutsInto lineFeed carriageReturn bytes lines) : lines = allLines bytes := by
  induction h with
  | last hline => rw [allLines_of_notMem hline]
  | feed line hline hreturn _ ih => rw [allLines_feed hline, stripReturn_of_ne hreturn, ih]
  | @returnFeed line rest lines hline _ ih =>
    have hconcat : lineFeed ∉ line ++ [carriageReturn] := by
      intro hmem
      rcases List.mem_append.mp hmem with hmem | hmem
      · exact hline hmem
      · cases List.mem_singleton.mp hmem
    -- the carriage return is taken to the line first, and then left out
    have hsplit : line ++ carriageReturn :: lineFeed :: rest =
        (line ++ [carriageReturn]) ++ lineFeed :: rest := by
      rw [List.append_assoc]
      rfl
    rw [hsplit, allLines_feed hconcat, stripReturn_concat, ih]

/-! ### Lines of characters -/

/-- The byte of a line feed stands where the character does. -/
theorem lineFeed_mem_utf8Chars_iff (chars : List Char) :
    lineFeed ∈ utf8Chars chars ↔ '\n' ∈ chars :=
  mem_utf8Chars_iff (by decide) rfl chars

/-- If the last character is no carriage return, neither is the last byte. -/
theorem getLast?_utf8Chars_ne {chars : List Char} (h : chars.getLast? ≠ some '\r') :
    (utf8Chars chars).getLast? ≠ some carriageReturn := by
  rcases List.eq_nil_or_concat chars with rfl | ⟨init, c, rfl⟩
  · nofun
  · intro hlast
    rw [List.concat_eq_append] at h hlast
    rw [List.getLast?_concat] at h
    -- the last byte belongs to the last character
    obtain ⟨before, b, hbytes⟩ :=
      (List.eq_nil_or_concat (utf8Chars [c])).resolve_left (by simp [utf8Chars])
    rw [utf8Chars_append, hbytes, List.concat_eq_append, ← List.append_assoc,
      List.getLast?_concat] at hlast
    obtain rfl := Option.some.inj hlast
    have hmem : carriageReturn ∈ utf8Chars [c] := by simp [hbytes]
    have hreturn : carriageReturn.toNat < 128 ∧ '\r'.toNat = carriageReturn.toNat := ⟨by decide, rfl⟩
    rw [mem_utf8Chars_iff hreturn.1 hreturn.2, List.mem_singleton] at hmem
    exact h (congrArg some hmem.symm)

/-- **Lines of a text**: its bytes are cut where its characters are. -/
theorem CutsInto.utf8Chars {chars : List Char} {lines : List (List Char)}
    (h : CutsInto '\n' '\r' chars lines) :
    CutsInto lineFeed carriageReturn (utf8Chars chars) (lines.map AddingMachine.utf8Chars) := by
  induction h with
  | last hline => exact .last (mt (lineFeed_mem_utf8Chars_iff _).mp hline)
  | feed line hline hreturn _ ih =>
    rw [utf8Chars_append]
    exact .feed _ (mt (lineFeed_mem_utf8Chars_iff _).mp hline) (getLast?_utf8Chars_ne hreturn) ih
  | returnFeed line hline _ ih =>
    rw [utf8Chars_append]
    exact .returnFeed _ (mt (lineFeed_mem_utf8Chars_iff _).mp hline) ih

/-! ## §3 Sessions line by line

Answering bytes is answering their lines, one after another, up to the first line that is no text
(`runLines_line_by_line`). So bytes can be given in pieces, as long as no line is divided. -/

/-! ### Lines that hold something -/

/-- However bytes are cut into lines, those that hold something are the expressions. -/
theorem lines_eq {bytes : List UInt8} {pieces : List (List UInt8)}
    (h : CutsInto lineFeed carriageReturn bytes pieces) :
    lines bytes = pieces.filter (!·.isEmpty) := by
  rw [lines, ← h.eq_allLines]

/-- The end of a line is followed by the lines of what is left. -/
theorem lines_feed {line : List UInt8} (hline : lineFeed ∉ line) (rest : List UInt8) :
    lines (line ++ lineFeed :: rest) = [stripReturn line].filter (!·.isEmpty) ++ lines rest := by
  rw [lines, allLines_feed hline, ← List.singleton_append, List.filter_append, lines]

/-- Bytes that end a line, or none, have no part in the lines of what follows. -/
theorem lines_append {bytes : List UInt8} (h : bytes = [] ∨ bytes.getLast? = some lineFeed)
    (more : List UInt8) : lines (bytes ++ more) = lines bytes ++ lines more := by
  induction hlength : bytes.length using Nat.strongRecOn generalizing bytes with
  | ind n ih =>
    rcases h with rfl | hlast
    · rfl
    -- the first line, and then what is left, which ends a line again or is nothing
    · obtain ⟨line, rest, rfl, hline⟩ := List.eq_append_cons_of_mem (List.mem_of_getLast? hlast)
      have hlt : rest.length < n := by
        rw [← hlength, List.length_append, List.length_cons]
        omega
      have hrest : rest = [] ∨ rest.getLast? = some lineFeed := by
        rcases rest.eq_nil_or_concat with rfl | ⟨init, last, rfl⟩
        · exact .inl rfl
        · rw [List.concat_eq_append, ← List.cons_append, ← List.append_assoc,
            List.getLast?_concat] at hlast
          rw [List.concat_eq_append, List.getLast?_concat]
          exact .inr hlast
      rw [List.append_assoc, List.cons_append, lines_feed hline, lines_feed hline,
        ih _ hlt hrest rfl, List.append_assoc]

namespace Session

/-! ### One expression after another -/

/-- The session after some expressions, whatever their replies came to. -/
def runEach (session : Session) (inputs : List String) : Session :=
  inputs.foldl (fun s input => (s.run input).2) session

/-- Both outputs take everything. -/
structure Unlimited (session : Session) : Prop where
  out : session.out.limit = none
  err : session.err.limit = none

theorem hasRoom_of_limit {sink : Sink} (h : sink.limit = none) (bytes : List UInt8) :
    sink.hasRoom bytes = true := by
  rw [Sink.hasRoom, Sink.room, h]
  rfl

variable {session : Session}

/-- Where there are no limits, a reply is written, and there are none afterwards. -/
theorem Unlimited.write (h : session.Unlimited) (reply : Reply) :
    (session.write reply).1 = true ∧ (session.write reply).2.Unlimited := by
  unfold Session.write
  cases reply.stream with
  | out => exact ⟨hasRoom_of_limit h.out _, h.out, h.err⟩
  | err => exact ⟨hasRoom_of_limit h.err _, h.out, h.err⟩

/-- Where both outputs take everything, an expression is answered, and they go on to do so. -/
theorem Unlimited.run (h : session.Unlimited) (input : String) :
    (∃ accepted, (session.run input).1 = .ok accepted) ∧ (session.run input).2.Unlimited := by
  let found := Answer.find session.settings.mode input
  let counted := session.count found.result
  let logged := counted.log (found.events ++ rejectionEvents counted.evaluated found.result)
  have hlogged : logged.Unlimited := ⟨h.out, h.err⟩
  obtain ⟨hfits, hwritten⟩ := hlogged.write (.ofOutcome session.settings.json input found.result)
  refine ⟨⟨found.result.isOk, ?_⟩, hwritten⟩
  show (if (logged.write _).1 then Except.ok found.result.isOk else .error Failure.full) = _
  rw [hfits]
  rfl

theorem Unlimited.runEach (h : session.Unlimited) (inputs : List String) :
    (session.runEach inputs).Unlimited := by
  induction inputs generalizing session with
  | nil => exact h
  | cons input rest ih => exact ih (h.run input).2

/-! ### Lines of bytes -/

/-- A line that is a text is answered as an expression, and then the others are. -/
theorem runDecoded_text {input : String} {accepted : Bool}
    (hrun : (session.run input).1 = .ok accepted) (rest : List (List UInt8)) :
    session.runDecoded (utf8 input :: rest) = (session.run input).2.runDecoded rest := by
  rw [runDecoded, (ofUtf8?_eq_some_iff _ _).mpr rfl]
  dsimp only
  generalize session.run input = answered at hrun ⊢
  obtain ⟨result, next⟩ := answered
  obtain rfl : result = .ok accepted := hrun
  rfl

theorem runDecoded_notText {line : List UInt8} (hline : ∀ text, line ≠ utf8 text)
    (rest : List (List UInt8)) : session.runDecoded (line :: rest) = (.error .notText, session) := by
  rw [runDecoded, (ofUtf8?_eq_none_iff line).mpr hline]

/-- Lines that are texts are answered one by one, and then what follows them. -/
theorem Unlimited.runDecoded_append (h : session.Unlimited) (inputs : List String)
    (more : List (List UInt8)) :
    session.runDecoded (inputs.map utf8 ++ more) = (session.runEach inputs).runDecoded more := by
  induction inputs generalizing session with
  | nil => rfl
  | cons input rest ih =>
    obtain ⟨⟨accepted, hrun⟩, hnext⟩ := h.run input
    rw [List.map_cons, List.cons_append, runDecoded_text hrun, ih hnext]
    rfl

/-- Lines that are texts are answered as these texts. -/
theorem runDecoded_map_utf8 (session : Session) (inputs : List String) :
    session.runDecoded (inputs.map utf8) = session.runAll inputs := by
  induction inputs generalizing session with
  | nil => rfl
  | cons input rest ih =>
    rw [List.map_cons, runDecoded, (ofUtf8?_eq_some_iff _ _).mpr rfl, runAll]
    dsimp only
    generalize session.run input = answered
    obtain ⟨result, next⟩ := answered
    cases result with
    | ok accepted => exact ih next
    | error failure => rfl

/-- Lines are texts, or there is a first one that is none. -/
theorem exists_texts (pieces : List (List UInt8)) :
    (∃ inputs : List String, pieces = inputs.map utf8) ∨
      ∃ (inputs : List String) (bad : List UInt8) (later : List (List UInt8)),
        pieces = inputs.map utf8 ++ bad :: later ∧ ∀ text, bad ≠ utf8 text := by
  induction pieces with
  | nil => exact .inl ⟨[], rfl⟩
  | cons line rest ih =>
    by_cases htext : ∃ text, line = utf8 text
    · obtain ⟨input, rfl⟩ := htext
      -- the first line is a text, and so are all others, or those before a later one
      rcases ih with ⟨inputs, rfl⟩ | ⟨inputs, bad, later, rfl, hbad⟩
      · exact .inl ⟨input :: inputs, rfl⟩
      · exact .inr ⟨input :: inputs, bad, later, rfl, hbad⟩
    · exact .inr ⟨[], line, rest, rfl, fun text hline => htext ⟨text, hline⟩⟩

/-- What follows lines that are all answered begins where they end. -/
theorem Unlimited.runDecoded_append_of_ok (h : session.Unlimited) {before : List (List UInt8)}
    (hbefore : (session.runDecoded before).1 = .ok ()) (more : List (List UInt8)) :
    session.runDecoded (before ++ more) = (session.runDecoded before).2.runDecoded more := by
  rcases exists_texts before with ⟨inputs, rfl⟩ | ⟨inputs, bad, later, rfl, hbad⟩
  · have hall := h.runDecoded_append inputs []
    rw [List.append_nil] at hall
    rw [h.runDecoded_append, hall]
    rfl
  · rw [h.runDecoded_append, runDecoded_notText hbad] at hbefore
    cases hbefore

/-! ### Bytes -/

/-- The lines of a text are texts. -/
theorem filter_map_utf8Chars (pieces : List (List Char)) :
    (pieces.map utf8Chars).filter (!·.isEmpty) =
      ((pieces.filter (!·.isEmpty)).map String.ofList).map utf8 := by
  have hempty : ∀ chars : List Char, (utf8Chars chars).isEmpty = chars.isEmpty := by
    intro chars
    cases chars with
    | nil => rfl
    | cons c rest => simp [List.isEmpty_eq_false_iff]
  rw [List.filter_map, List.map_map]
  simp [Function.comp_def, hempty, utf8_eq]

/-- The lines of a text are cut where its characters are. -/
theorem lines_utf8 {text : String} {pieces : List (List Char)}
    (h : CutsInto '\n' '\r' text.toList pieces) :
    lines (utf8 text) = ((pieces.filter (!·.isEmpty)).map String.ofList).map utf8 := by
  have hcut := h.utf8Chars
  rw [← utf8_eq] at hcut
  rw [lines_eq hcut, filter_map_utf8Chars]

/-- **Bytes are answered line by line.** Where both outputs take everything, bytes are answered as
their lines are, one expression after another: cut at each line feed, without a carriage return right
before it, and without empty lines. The first line that is no text ends it. The lines of a text are
those of its characters. What follows the end of a line is answered as if it came later. -/
theorem runLines_line_by_line (hout : session.out.limit = none) (herr : session.err.limit = none)
    (bytes : List UInt8) :
    (∃ pieces, CutsInto lineFeed carriageReturn bytes pieces) ∧
    (∀ pieces, CutsInto lineFeed carriageReturn bytes pieces →
      (∃ inputs : List String, pieces.filter (!·.isEmpty) = inputs.map utf8 ∧
        session.runLines bytes = (.ok (), session.runEach inputs)) ∨
      ∃ (inputs : List String) (bad : List UInt8) (later : List (List UInt8)),
        pieces.filter (!·.isEmpty) = inputs.map utf8 ++ bad :: later ∧
          (∀ text, bad ≠ utf8 text) ∧
          session.runLines bytes = (.error .notText, session.runEach inputs)) ∧
    (∀ text, bytes = utf8 text → ∃ pieces, CutsInto '\n' '\r' text.toList pieces ∧
      CutsInto lineFeed carriageReturn bytes (pieces.map utf8Chars) ∧
      session.runLines bytes =
        (.ok (), session.runEach ((pieces.filter (!·.isEmpty)).map String.ofList))) ∧
    ∀ before more, bytes = before ++ more → before = [] ∨ before.getLast? = some lineFeed →
      (session.runLines before).1 = .ok () →
      session.runLines bytes = (session.runLines before).2.runLines more := by
  have h : session.Unlimited := ⟨hout, herr⟩
  have htexts : ∀ inputs : List String, lines bytes = inputs.map utf8 →
      session.runLines bytes = (.ok (), session.runEach inputs) := by
    intro inputs hlines
    have hall := h.runDecoded_append inputs []
    rw [List.append_nil, ← hlines] at hall
    exact hall
  refine ⟨exists_cutsInto _ _ _, fun pieces hpieces => ?_, fun text htext => ?_,
    fun before more hbytes hend hbefore => ?_⟩
  -- the lines are texts, or there is a first one that is none
  · rw [← lines_eq hpieces]
    rcases exists_texts (lines bytes) with ⟨inputs, hlines⟩ | ⟨inputs, bad, later, hlines, hbad⟩
    · exact .inl ⟨inputs, hlines, htexts inputs hlines⟩
    · refine .inr ⟨inputs, bad, later, hlines, hbad, ?_⟩
      rw [runLines, hlines, h.runDecoded_append, runDecoded_notText hbad]
  -- the characters are cut, and the bytes with them
  · obtain ⟨pieces, hpieces⟩ := exists_cutsInto '\n' '\r' text.toList
    have hcut := hpieces.utf8Chars
    rw [← utf8_eq, ← htext] at hcut
    refine ⟨pieces, hpieces, hcut, htexts _ ?_⟩
    rw [lines_eq hcut, filter_map_utf8Chars]
  -- the lines of the two parts are those of the whole
  · rw [hbytes, runLines, lines_append hend]
    exact h.runDecoded_append_of_ok hbefore (lines more)

/-- The line behind one that is no text is not answered. -/
theorem runLines_line_by_line_broken :
    let session := start ⟨.value, false⟩ .silent (.empty none) (.empty none)
    session.out.limit = none ∧ session.err.limit = none ∧
      session.runLines ([49, 43, 50, 13, 10, 10, 255, 10, 51] : List UInt8) =
        (.error .notText, session.runEach ["1+2"]) := by
  intro session
  refine ⟨rfl, rfl, ?_⟩
  obtain ⟨-, hlines, -⟩ :=
    @runLines_line_by_line session rfl rfl [49, 43, 50, 13, 10, 10, 255, 10, 51]
  have hcut : CutsInto lineFeed carriageReturn ([49, 43, 50, 13, 10, 10, 255, 10, 51] : List UInt8)
      [[49, 43, 50], [], [255], [51]] :=
    .returnFeed [49, 43, 50] (by decide) <| .feed [] (by decide) (by decide) <|
      .feed [255] (by decide) (by decide) <| .last (by decide)
  have hfirst : utf8 "1+2" = [49, 43, 50] := by decide +kernel
  have hbroken : ∀ text, [255] ≠ utf8 text := (ofUtf8?_eq_none_iff _).mp (by decide +kernel)
  -- the byte 255 occurs in no text, so the third line stops the session
  rcases hlines _ hcut with ⟨inputs, hinputs, -⟩ | ⟨inputs, bad, later, hinputs, hbad, hrun⟩
  · have hmem : [255] ∈ inputs.map utf8 := by simp [← hinputs]
    obtain ⟨text, -, htext⟩ := List.mem_map.mp hmem
    exact absurd htext.symm (hbroken text)
  · have hpieces : inputs.map utf8 ++ bad :: later = [utf8 "1+2", [255], [51]] := by
      rw [← hinputs, hfirst]
      rfl
    rcases inputs with _ | ⟨first, _ | ⟨second, rest⟩⟩
    · exact absurd (List.cons.inj hpieces).1 (hbad _)
    · rw [hrun, utf8_injective (List.cons.inj hpieces).1]
    · exact absurd (List.cons.inj (List.cons.inj hpieces).2).1.symm (hbroken second)

end Session

end AddingMachine
