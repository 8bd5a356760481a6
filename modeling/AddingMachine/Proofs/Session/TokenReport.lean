import AddingMachine.Proofs.Calculation.Lexemes
import AddingMachine.Proofs.Session.Configurations

/-!
# What JSON reports on tokens say

The report on the tokens of a text shows them one by one, by kind and position, and a finite number
as one that is read back as it (`Token.WrittenAs`). A result that is not finite is reported as a
text, but the number of a token is not: where a numeral overflows there is a `null`, and nowhere
else (`hasNull_iff`). No other double is written that way, so even then the tokens can be read back
(`Session.run_reports_tokens`).
-/

namespace AddingMachine

/-! ## §1 Values with a null -/

/-- Somewhere in the value there is a null. -/
inductive JsonValue.HasNull : JsonValue → Prop where
  | null : HasNull .null
  | array {items : List JsonValue} {item : JsonValue} (hmem : item ∈ items) (h : item.HasNull) :
      HasNull (.array items)
  | object {fields : List (String × JsonValue)} {field : String × JsonValue}
      (hmem : field ∈ fields) (h : field.2.HasNull) : HasNull (.object fields)

namespace JsonValue

@[simp] theorem hasNull_null : null.HasNull :=
  .null

@[simp] theorem not_hasNull_number (negative : Bool) (d : Decimal) :
    ¬ (number negative d).HasNull :=
  nofun

@[simp] theorem not_hasNull_string (text : String) : ¬ (string text).HasNull :=
  nofun

@[simp] theorem hasNull_array_iff {items : List JsonValue} :
    (array items).HasNull ↔ ∃ item ∈ items, item.HasNull := by
  constructor
  · intro h
    cases h with
    | array hmem hitem => exact ⟨_, hmem, hitem⟩
  · rintro ⟨item, hmem, hitem⟩
    exact .array hmem hitem

@[simp] theorem hasNull_object_iff {fields : List (String × JsonValue)} :
    (object fields).HasNull ↔ ∃ field ∈ fields, field.2.HasNull := by
  constructor
  · intro h
    cases h with
    | object hmem hfield => exact ⟨_, hmem, hfield⟩
  · rintro ⟨field, hmem, hfield⟩
    exact .object hmem hfield

end JsonValue

/-- What a result is reported as has no null in it. -/
theorem Binary64.ReportedAs.not_hasNull {x : Binary64} {value : JsonValue}
    (h : x.ReportedAs value) : ¬ value.HasNull := by
  cases x with
  | nan =>
    obtain rfl : value = .string "NaN" := h
    exact JsonValue.not_hasNull_string _
  | infinite negative =>
    cases negative with
    | true =>
      obtain rfl : value = .string "-inf" := h
      exact JsonValue.not_hasNull_string _
    | false =>
      obtain rfl : value = .string "inf" := h
      exact JsonValue.not_hasNull_string _
  | finite negative m =>
    -- only finite doubles are numbers
    obtain ⟨d, rfl, -⟩ := h
    exact JsonValue.not_hasNull_number _ _

/-- A report on a value, a tree or a rejection has no null in it. -/
theorem Reports.not_hasNull {text : String} {mode : Mode} {fields : List (String × JsonValue)}
    (h : Reports text mode fields) : ¬ (JsonValue.object fields).HasNull := by
  cases h with
  | value hvalue hresult => simp [hresult.not_hasNull]
  | tree htree hresult => simp [hresult.not_hasNull]
  | rejection hcause => simp

/-! ## §2 Tokens in JSON -/

/-- How a token of a text is written. Its number has no minus sign. -/
inductive Token.WrittenAs : Token → JsonValue → Prop where
  | finite {m : Magnitude} {d : Decimal} (h : d.toBinary64 false = .finite false m) :
      WrittenAs (.number (.finite false m)) (.object [("Number", .number false d)])
  | overflow : WrittenAs (.number (.infinite false)) (.object [("Number", .null)])
  | plus : WrittenAs .plus (.string "Plus")
  | minus : WrittenAs .minus (.string "Minus")
  | endOfInput : WrittenAs .endOfInput (.string "EOF")

/-- How a token would be written if its number were reported as a result is. -/
inductive Token.ReportedAs : Token → JsonValue → Prop where
  | number {x : Binary64} {value : JsonValue} (h : x.ReportedAs value) :
      ReportedAs (.number x) (.object [("Number", value)])
  | plus : ReportedAs .plus (.string "Plus")
  | minus : ReportedAs .minus (.string "Minus")
  | endOfInput : ReportedAs .endOfInput (.string "EOF")

/-- The value has a field for the token, shown in the given way, and one for its position. -/
def LocatedToken.ShownAs (shown : Token → JsonValue → Prop) (located : LocatedToken)
    (value : JsonValue) : Prop :=
  ∃ token, shown located.token token ∧
    value = .object [("token", token), ("position", .number false ⟨located.position, 0⟩)]

/-- The double that is written as a value, where none has a minus sign. -/
def JsonValue.unsigned? : JsonValue → Option Binary64
  | .number negative d => some (d.toBinary64 negative)
  | .null => some (.infinite false)
  | _ => none

def JsonValue.token? : JsonValue → Option Token
  | .object [("Number", value)] => value.unsigned?.map .number
  | .string name => [("Plus", .plus), ("Minus", .minus), ("EOF", .endOfInput)].lookup name
  | _ => none

def JsonValue.locatedToken? : JsonValue → Option LocatedToken
  | .object [("token", token), ("position", position)] => do
    return ⟨← token.token?, ← position.natural?⟩
  | _ => none

namespace Token.WrittenAs

variable {token : Token} {value : JsonValue}

theorem token?_eq (h : token.WrittenAs value) : value.token? = some token := by
  cases h with
  | finite hread => simp [JsonValue.token?, JsonValue.unsigned?, hread]
  -- a null is read back as the infinity
  | overflow => rfl
  | plus => decide +kernel
  | minus => decide +kernel
  | endOfInput => decide +kernel

/-- A null is written for one token only, a number that is infinite. -/
theorem hasNull_iff (h : token.WrittenAs value) :
    value.HasNull ↔ token = .number (.infinite false) := by
  cases h <;> simp

/-- All tokens but one are written as they should be. -/
theorem reportedAs_iff (h : token.WrittenAs value) :
    token.ReportedAs value ↔ token ≠ .number (.infinite false) := by
  cases h with
  | finite hread => exact iff_of_true (.number ⟨_, rfl, hread⟩) (by simp)
  -- a null is not how a result is reported
  | overflow =>
    refine iff_of_false (fun hreported => ?_) (fun hne => hne rfl)
    cases hreported with
    | number hnull => cases hnull
  | plus => exact iff_of_true .plus (by simp)
  | minus => exact iff_of_true .minus (by simp)
  | endOfInput => exact iff_of_true .endOfInput (by simp)

end Token.WrittenAs

/-- What is denoted by a token whose number has no minus sign. -/
theorem Token.writtenAs_of_denotes {token : Token} {value : JsonValue}
    (hplus : ∀ x, token = .number x → x.HasPlusSign) (h : (Answer.tokenJson token).Denotes value) :
    token.WrittenAs value := by
  cases token with
  | number x =>
    obtain ⟨number, hnumber, rfl⟩ := Answer.denotes_tokenJson_number_iff.mp h
    have hx := hplus x rfl
    cases hnumber with
    -- a finite number, which is written as such
    | @number negative m d hread =>
      cases negative with
      | true => exact hx.elim
      | false => exact .finite hread
    -- all others would be a null, but only the infinity can be a numeral
    | null hinfinite =>
      cases x with
      | nan => exact hx.elim
      | infinite negative =>
        cases negative with
        | true => exact hx.elim
        | false => exact .overflow
      | finite negative m => cases hinfinite
  | plus =>
    obtain rfl := Json.denotes_string_iff.mp h
    exact .plus
  | minus =>
    obtain rfl := Json.denotes_string_iff.mp h
    exact .minus
  | endOfInput =>
    obtain rfl := Json.denotes_string_iff.mp h
    exact .endOfInput

/-- What is denoted by a located token, field by field. -/
theorem LocatedToken.shownAs_of_denotes {located : LocatedToken} {value : JsonValue}
    (hplus : ∀ x, located.token = .number x → x.HasPlusSign)
    (h : (Answer.locatedJson located).Denotes value) : located.ShownAs Token.WrittenAs value := by
  obtain ⟨token, htoken, rfl⟩ := Answer.denotes_locatedJson_iff.mp h
  exact ⟨token, Token.writtenAs_of_denotes hplus htoken, rfl⟩

namespace LocatedToken.ShownAs

variable {located : LocatedToken} {value : JsonValue}

theorem locatedToken?_eq (h : located.ShownAs Token.WrittenAs value) :
    value.locatedToken? = some located := by
  obtain ⟨token, htoken, rfl⟩ := h
  simp [JsonValue.locatedToken?, htoken.token?_eq, JsonValue.natural?]

theorem hasNull_iff (h : located.ShownAs Token.WrittenAs value) :
    value.HasNull ↔ located.token = .number (.infinite false) := by
  obtain ⟨token, htoken, rfl⟩ := h
  simp [htoken.hasNull_iff]

theorem reportedAs_iff (h : located.ShownAs Token.WrittenAs value) :
    located.ShownAs Token.ReportedAs value ↔ located.token ≠ .number (.infinite false) := by
  obtain ⟨token, htoken, rfl⟩ := h
  simp [ShownAs, htoken.reportedAs_iff]

end LocatedToken.ShownAs

/-! ## §3 Lists of tokens -/

section Lists

variable {tokens : List LocatedToken} {values : List JsonValue}

theorem forall₂_shownAs_of_denotes
    (hplus : ∀ located ∈ tokens, ∀ x, located.token = .number x → x.HasPlusSign)
    (h : List.Forall₂ Json.Denotes (tokens.map Answer.locatedJson) values) :
    List.Forall₂ (LocatedToken.ShownAs Token.WrittenAs) tokens values := by
  induction tokens generalizing values with
  | nil =>
    cases h
    exact .nil
  | cons located rest ih =>
    obtain ⟨value, others, hvalue, hothers, rfl⟩ := List.forall₂_cons_left_iff.mp h
    exact .cons (LocatedToken.shownAs_of_denotes (hplus located List.mem_cons_self) hvalue)
      (ih (fun other hother => hplus other (List.mem_cons_of_mem _ hother)) hothers)

/-- Tokens are read back, each from its own value. -/
theorem mapM_locatedToken? (h : List.Forall₂ (LocatedToken.ShownAs Token.WrittenAs) tokens values) :
    values.mapM JsonValue.locatedToken? = some tokens := by
  induction h with
  | nil => rfl
  | cons hvalue _ ih => simp [List.mapM_cons, hvalue.locatedToken?_eq, ih]

/-- There is a null among the values if one of the tokens is infinite. -/
theorem exists_hasNull_iff (h : List.Forall₂ (LocatedToken.ShownAs Token.WrittenAs) tokens values) :
    (∃ value ∈ values, value.HasNull) ↔
      ∃ located ∈ tokens, located.token = .number (.infinite false) := by
  induction h with
  | nil => simp
  | cons hvalue _ ih => simp [hvalue.hasNull_iff, ih]

theorem forall₂_reportedAs_iff
    (h : List.Forall₂ (LocatedToken.ShownAs Token.WrittenAs) tokens values) :
    List.Forall₂ (LocatedToken.ShownAs Token.ReportedAs) tokens values ↔
      ¬ ∃ located ∈ tokens, located.token = .number (.infinite false) := by
  induction h with
  | nil => simp
  | cons hvalue _ ih => simp [hvalue.reportedAs_iff, ih]

end Lists

/-! ## §4 Numerals that overflow -/

/-- A numeral of the text stands for a number from which on the nearest double is an infinity. -/
def Overflows (text : String) : Prop :=
  ∃ (layout : Layout text.toList) (numeral : Numeral),
    Lexeme.number numeral ∈ layout.lexemes ∧ Binary64.bound ≤ numeral.toRat

theorem Layout.map_token_tokens {chars : List Char} (layout : Layout chars) :
    layout.tokens.map LocatedToken.token =
      layout.lexemes.map Lexeme.token ++ [.endOfInput] := by
  simp [tokens, laidTokens_eq, map_token_lexemeTokens, lexemes]

/-- The numbers among the tokens are the values of the numerals. -/
theorem Layout.number_mem_iff {chars : List Char} (layout : Layout chars) (x : Binary64) :
    (∃ located ∈ layout.tokens, located.token = .number x) ↔
      ∃ numeral : Numeral, Lexeme.number numeral ∈ layout.lexemes ∧ numeral.value = x := by
  rw [← List.mem_map, map_token_tokens]
  simp only [List.mem_append, List.mem_singleton, reduceCtorEq, or_false, List.mem_map]
  constructor
  · rintro ⟨lexeme, hmem, htoken⟩
    -- a sign has no token of a number
    cases lexeme with
    | number numeral => exact ⟨numeral, hmem, Token.number.inj htoken⟩
    | sign operator =>
      cases operator with
      | add => cases htoken
      | subtract => cases htoken
  · rintro ⟨numeral, hmem, rfl⟩
    exact ⟨.number numeral, hmem, rfl⟩

section Text

variable {text : String} {tokens : List LocatedToken}

/-- No number among the tokens of a text has a minus sign. -/
theorem hasPlusSign_of_tokensOf (h : (tokensOf text).result = .ok tokens) :
    ∀ located ∈ tokens, ∀ x, located.token = .number x → x.HasPlusSign := by
  obtain ⟨layout, rfl⟩ := (tokensOf_eq_ok_iff text tokens).mp h
  intro located hmem x htoken
  obtain ⟨numeral, -, rfl⟩ := (layout.number_mem_iff x).mp ⟨located, hmem, htoken⟩
  exact numeral.hasPlusSign_value

/-- Where a numeral overflows, the number of its token is infinite. -/
theorem overflows_iff (h : (tokensOf text).result = .ok tokens) :
    Overflows text ↔ ∃ located ∈ tokens, located.token = .number (.infinite false) := by
  obtain ⟨layout, rfl⟩ := (tokensOf_eq_ok_iff text tokens).mp h
  rw [layout.number_mem_iff]
  simp only [Numeral.value_eq_infinite_iff]
  constructor
  · rintro ⟨other, hnumeral⟩
    obtain rfl := Subsingleton.elim other layout
    exact hnumeral
  · exact fun hnumeral => ⟨layout, hnumeral⟩

theorem Overflows.exists_tokens (h : Overflows text) :
    ∃ tokens, (tokensOf text).result = .ok tokens := by
  obtain ⟨layout, -⟩ := h
  exact ⟨layout.tokens, (tokensOf_eq_ok_iff text _).mpr ⟨layout, rfl⟩⟩

end Text

/-! ## §5 Reports -/

section Fields

variable {input : String} {entries : List (String × JsonValue)}

/-- The fields of the report on the tokens of a text. -/
theorem exists_values_of_denotes {tokens : List LocatedToken}
    (htokens : (tokensOf input).result = .ok tokens)
    (h : Json.DenotesFields (Reply.fields input (Answer.find .tokens input).result) entries) :
    ∃ values, List.Forall₂ (LocatedToken.ShownAs Token.WrittenAs) tokens values ∧
      entries = [("input", .string input), ("tokens", .array values)] := by
  have hfind : (Answer.find .tokens input).result = .ok (.tokens tokens) := by
    show ((tokensOf input).result.mapError _).map _ = _
    rw [htokens]
    rfl
  rw [hfind] at h
  obtain ⟨values, hvalues, rfl⟩ := Reply.denotesFields_tokens h
  exact ⟨values, forall₂_shownAs_of_denotes (hasPlusSign_of_tokensOf htokens) hvalues, rfl⟩

/-- The only null in a report stands for the number of a numeral that overflows. -/
theorem hasNull_iff {mode : Mode}
    (h : Json.DenotesFields (Reply.fields input (Answer.find mode input).result) entries) :
    (JsonValue.object entries).HasNull ↔ mode = .tokens ∧ Overflows input := by
  by_cases hfound : mode = .tokens ∧ ∃ tokens, (tokensOf input).result = .ok tokens
  · obtain ⟨rfl, tokens, htokens⟩ := hfound
    obtain ⟨values, hvalues, rfl⟩ := exists_values_of_denotes htokens h
    simp [exists_hasNull_iff hvalues, overflows_iff htokens]
  -- all other reports have none
  · have hreports : Reports input mode entries := by
      refine reports_find (fun hmode => ?_) h
      cases htokens : (tokensOf input).result with
      | ok tokens => exact absurd ⟨hmode, tokens, htokens⟩ hfound
      | error e => exact ⟨e, rfl⟩
    refine iff_of_false hreports.not_hasNull fun hoverflow => ?_
    exact hfound ⟨hoverflow.1, hoverflow.2.exists_tokens⟩

end Fields

namespace Session

variable {session : Session} {input : String}

/-- What is written for an input is a line in which its tokens are reported, with their numbers as
results are reported. -/
def ReportsTokens (session : Session) (input : String) (tokens : List LocatedToken) : Prop :=
  ∃ (line : String) (values : List JsonValue),
    (session.run input).2.out.content = session.out.content ++ utf8 (line ++ "\n") ∧
      JsonValue.ofText? line =
        some (.object [("input", .string input), ("tokens", .array values)]) ∧
      List.Forall₂ (LocatedToken.ShownAs Token.ReportedAs) tokens values

/-- With an infinite number among the tokens, what is written does not report them. -/
theorem Unlimited.not_reportsTokens (h : session.Unlimited)
    (hsettings : session.settings = ⟨.tokens, true⟩) {tokens : List LocatedToken}
    (htokens : (tokensOf input).result = .ok tokens)
    (hoverflow : ∃ located ∈ tokens, located.token = .number (.infinite false)) :
    ¬ session.ReportsTokens input tokens := by
  rintro ⟨line, values, hcontent, hread, hreported⟩
  obtain ⟨written, fields, hline, -, hwritten, hfields⟩ :=
    Reply.exists_fields input (session.settings.outcome input)
  have hwrites : session.Writes input (Reply.jsonLine input (session.settings.outcome input)) "" :=
    h.writes_json (by rw [hsettings])
  have hout := hwrites.out
  rw [hcontent, hline] at hout
  -- so the line is the one that is written
  obtain rfl : line = written := by
    simpa [← String.toList_inj] using utf8_injective (List.append_cancel_left hout)
  rw [Settings.outcome, hsettings] at hfields
  obtain ⟨shown, hshown, rfl⟩ := exists_values_of_denotes htokens hfields
  obtain rfl : shown = values := by
    simpa using hwritten.symm.trans hread
  exact (forall₂_reportedAs_iff hshown).mp hreported hoverflow

/-- **Token reports lose no number**, but they do not show them all as results are shown. An input
is answered with one line, which is read as an object. If it is the tokens that are asked for and
found, each of them is shown in its turn, by its kind, its position and its number, and they can be
read back. They are shown as results are unless a numeral of the input overflows, in whose place
there is a null. No other report has a null in it. -/
theorem run_reports_tokens (hjson : session.settings.json = true) :
    ∃ (line : String) (fields : List (String × JsonValue)),
      '\n' ∉ line.toList ∧ JsonValue.ofText? line = some (.object fields) ∧
        (session.out.hasRoom (utf8 (line ++ "\n")) = true →
          (session.run input).2.out.content = session.out.content ++ utf8 (line ++ "\n")) ∧
        ((JsonValue.object fields).HasNull ↔
          session.settings.mode = .tokens ∧ Overflows input) ∧
        (session.settings.mode = .tokens → ∀ tokens, (tokensOf input).result = .ok tokens →
          ∃ values, fields = [("input", .string input), ("tokens", .array values)] ∧
            List.Forall₂ (LocatedToken.ShownAs Token.WrittenAs) tokens values ∧
            values.mapM JsonValue.locatedToken? = some tokens ∧
            (List.Forall₂ (LocatedToken.ShownAs Token.ReportedAs) tokens values ↔
              ¬ Overflows input)) := by
  obtain ⟨line, fields, hline, hone, hread, hfields⟩ :=
    Reply.exists_fields input (Answer.find session.settings.mode input).result
  refine ⟨line, fields, hone, hread, fun hroom => ?_, hasNull_iff hfields, ?_⟩
  · rw [(run_json hjson).1, hline, Sink.content_write, Sink.fitting_of_hasRoom hroom]
  · intro hmode tokens htokens
    rw [hmode] at hfields
    obtain ⟨values, hvalues, rfl⟩ := exists_values_of_denotes htokens hfields
    refine ⟨values, rfl, hvalues, mapM_locatedToken? hvalues, ?_⟩
    rw [forall₂_reportedAs_iff hvalues, overflows_iff htokens]

/-- The tokens of `7-` are reported, although it has no value. -/
theorem run_reports_tokens_minus :
    let session := start ⟨.tokens, true⟩ .silent (.empty none) (.empty none)
    let tokens : List LocatedToken :=
      [⟨.number (Decimal.toBinary64 false ⟨7, 0⟩), 0⟩, ⟨.minus, 1⟩, ⟨.endOfInput, 2⟩]
    session.settings.json = true ∧ session.settings.mode = .tokens ∧
      (tokensOf "7-").result = .ok tokens ∧
      ∃ (line : String) (values : List JsonValue),
        (session.run "7-").2.out.content = utf8 (line ++ "\n") ∧
        JsonValue.ofText? line =
          some (.object [("input", .string "7-"), ("tokens", .array values)]) ∧
        values.mapM JsonValue.locatedToken? = some tokens := by
  intro session tokens
  have htokens : (tokensOf "7-").result = .ok tokens := by
    decide +kernel
  obtain ⟨line, fields, -, hread, hout, -, hall⟩ := @run_reports_tokens session "7-" rfl
  obtain ⟨values, rfl, -, hback, -⟩ := hall rfl tokens htokens
  exact ⟨rfl, rfl, htokens, line, values, hout rfl, hread, hback⟩

/-- The line for the digit one and 309 zeros does not report their number as a result. -/
theorem not_reportsTokens_zeros :
    let session := start ⟨.tokens, true⟩ .silent (.empty none) (.empty none)
    let input := String.ofList ('1' :: List.replicate 309 '0')
    let tokens : List LocatedToken := [⟨.number (.infinite false), 0⟩, ⟨.endOfInput, 310⟩]
    (tokensOf input).result = .ok tokens ∧ ¬ session.ReportsTokens input tokens := by
  intro session input tokens
  have hscanner : Scanner.ofText input = ⟨'1' :: List.replicate 309 '0', 0⟩ := by
    rw [Scanner.ofText, String.toList_ofList]
  have htokens : (tokensOf input).result = .ok tokens := by
    apply tokensOf_of_all_eq
    rw [hscanner]
    decide +kernel
  have hunlimited : session.Unlimited := ⟨rfl, rfl⟩
  exact ⟨htokens,
    hunlimited.not_reportsTokens rfl htokens ⟨_, List.mem_cons_self, rfl⟩⟩

end Session

end AddingMachine
