import AddingMachine.Json
import AddingMachine.Log
import AddingMachine.Proofs.Decimal.Written

/-!
# Texts on one line

Nothing that is written has a control character in it, neither a number nor JSON nor a message.
-/

namespace AddingMachine

/-! ## §1 Texts without control characters

What is written for a number has no control character in it (`Binary64.clean_text`), and neither has
a text that is put together from such texts. -/

/-! ### Clean texts -/

namespace Text

/-- The controls: those before the space, delete, and those behind it. -/
def isControl (c : Char) : Bool :=
  c.toNat < 32 || (127 ≤ c.toNat && c.toNat < 160)

/-- No control character is among the characters. -/
def Clean (chars : List Char) : Prop :=
  ∀ c ∈ chars, isControl c = false

instance (chars : List Char) : Decidable (Clean chars) :=
  List.decidableBAll (fun c => isControl c = false) chars

@[simp] theorem clean_nil : Clean [] :=
  List.forall_mem_nil _

@[simp] theorem clean_cons {c : Char} {chars : List Char} :
    Clean (c :: chars) ↔ isControl c = false ∧ Clean chars :=
  List.forall_mem_cons

@[simp] theorem clean_append {chars more : List Char} :
    Clean (chars ++ more) ↔ Clean chars ∧ Clean more :=
  List.forall_mem_append

/-- Digits are clean: they lie between the controls before the space and those behind delete. -/
theorem clean_digits {chars : List Char} (h : ∀ c ∈ chars, c.isDigit = true) : Clean chars := by
  intro c hc
  have hdigit := h c hc
  simp only [Char.isDigit, Bool.and_eq_true, decide_eq_true_eq, ge_iff_le,
    UInt32.le_iff_toNat_le] at hdigit
  have hleast : 48 ≤ c.toNat := hdigit.1
  have hgreatest : c.toNat ≤ 57 := hdigit.2
  simp only [isControl, Bool.or_eq_false_iff, Bool.and_eq_false_iff, decide_eq_false_iff_not]
  omega

theorem isControl_digitChar : ∀ n < 16, isControl (Nat.digitChar n) = false := by
  decide

/-- A number is clean in every base up to sixteen. -/
theorem clean_toDigits {base : Nat} (hmore : 1 < base) (hle : base ≤ 16) (n : Nat) :
    Clean (Nat.toDigits base n) := by
  induction n using Nat.strongRecOn with
  | ind n ih =>
    rw [Nat.toDigits_eq_if hmore]
    -- by its last digit and those before it
    split
    next hlt => simp [isControl_digitChar n (by omega)]
    next hge =>
      have hrest := ih (n / base) (Nat.div_lt_self (by omega) hmore)
      have hlast : n % base < base := Nat.mod_lt _ (by omega)
      simp [hrest, isControl_digitChar (n % base) (by omega)]

theorem isDigit_of_mem_repr {n : Nat} {c : Char} (h : c ∈ (Nat.repr n).toList) :
    c.isDigit = true := by
  rw [Nat.repr, String.toList_ofList] at h
  exact Nat.isDigit_of_mem_toDigits (by decide) (by decide) h

theorem clean_repr (n : Nat) : Clean (Nat.repr n).toList :=
  clean_digits fun _ hc => isDigit_of_mem_repr hc

theorem Clean.lineFeed_notMem {chars : List Char} (h : Clean chars) : '\n' ∉ chars :=
  fun hmem => absurd (h '\n' hmem) (by decide)

theorem Clean.append {text more : String} (h : Clean text.toList) (hmore : Clean more.toList) :
    Clean (text ++ more).toList := by
  rw [String.toList_append]
  exact clean_append.mpr ⟨h, hmore⟩

theorem Clean.intercalate {separator : String} {texts : List String}
    (hseparator : Clean separator.toList) (h : ∀ text ∈ texts, Clean text.toList) :
    Clean (separator.intercalate texts).toList := by
  induction texts with
  | nil => exact clean_nil
  | cons text rest ih =>
    have hfirst := h text List.mem_cons_self
    have hrest := ih fun other hother => h other (List.mem_cons_of_mem _ hother)
    cases rest with
    | nil => rwa [String.intercalate_singleton]
    | cons other rest =>
      rw [String.intercalate_cons_cons]
      exact (hfirst.append hseparator).append hrest

end Text

/-! ### Numbers -/

open Text (Clean clean_append)

/-- A numeral is clean, and so is its point. -/
theorem Numeral.clean_chars (numeral : Numeral) : Clean numeral.chars := by
  cases numeral with
  | whole digits => exact Text.clean_digits digits.digit
  | decimal digits fraction =>
    have hpoint : Text.isControl '.' = false := by decide
    simp [chars, Text.clean_digits digits.digit, Text.clean_digits fraction.digit, hpoint]

namespace Decimal

/-- A decimal with an exponent is clean: its digits, the sign of the exponent and those digits. -/
theorem clean_scientificChars (plusSign : Bool) (d : Decimal) :
    Clean (d.scientificChars plusSign) := by
  have hdigits : Clean d.digits := Text.clean_digits d.isDigit_digits
  have hfirst : Clean (d.digits.take 1) := fun c hc => hdigits c (List.mem_of_mem_take hc)
  have hfraction : Clean (if (d.digits.drop 1).isEmpty then [] else '.' :: d.digits.drop 1) := by
    split
    · exact Text.clean_nil
    · exact Text.clean_cons.mpr ⟨by decide, fun c hc => hdigits c (List.mem_of_mem_drop hc)⟩
  have hsign : Clean (if d.leadingExponent < 0 then ['-'] else if plusSign then ['+'] else []) := by
    split_ifs <;> decide
  have hletter : Text.isControl 'e' = false := by decide
  have hexponent : Clean (Nat.toDigits 10 d.leadingExponent.natAbs) :=
    Text.clean_toDigits (by decide) (by decide) _
  have hmantissa := clean_append.mpr ⟨hfirst, hfraction⟩
  exact clean_append.mpr ⟨clean_append.mpr ⟨hmantissa, Text.clean_cons.mpr ⟨hletter, hsign⟩⟩,
    hexponent⟩

/-- A decimal is clean, with an exponent or without. -/
theorem clean_chars (style : NumberStyle) (d : Decimal) : Clean (d.chars style) := by
  rw [chars]
  split
  -- without an exponent it is a numeral
  · obtain ⟨numeral, hchars, -⟩ := d.exists_numeral style.pointZero
    rw [hchars]
    exact numeral.clean_chars
  · exact d.clean_scientificChars style.plusSign

end Decimal

namespace Binary64

/-- A double is clean, the three words and the minus sign included. -/
theorem clean_chars (style : NumberStyle) (x : Binary64) : Clean (x.chars style) := by
  have hsign : ∀ negative : Bool, Clean (if negative then ['-'] else []) := by decide
  cases x with
  | nan =>
    have hname : Clean ['N', 'a', 'N'] := by decide
    exact hname
  | infinite negative => exact clean_append.mpr ⟨hsign negative, by decide⟩
  | finite negative m =>
    exact clean_append.mpr ⟨hsign negative, (m.shortest style.tie).clean_chars style⟩

theorem clean_text (style : NumberStyle) (x : Binary64) : Clean (x.text style).toList := by
  rw [text, String.toList_ofList]
  exact x.clean_chars style

end Binary64

/-! ## §2 JSON on one line

Nothing that is written for a JSON value is a control character, so there is no line feed in it
(`Json.lineFeed_notMem_text`). -/

namespace Json

/-! ### Strings and numbers -/

/-- No control character is among the characters. -/
def Visible (chars : List Char) : Prop :=
  ∀ c ∈ chars, 32 ≤ c.toNat

@[simp] theorem visible_nil : Visible [] :=
  List.forall_mem_nil _

@[simp] theorem visible_cons {c : Char} {chars : List Char} :
    Visible (c :: chars) ↔ 32 ≤ c.toNat ∧ Visible chars :=
  List.forall_mem_cons

@[simp] theorem visible_append {chars more : List Char} :
    Visible (chars ++ more) ↔ Visible chars ∧ Visible more :=
  List.forall_mem_append

theorem visible_digitChar : ∀ n < 16, 32 ≤ (Nat.digitChar n).toNat := by
  decide

/-- What is written for a character is visible, even for a control. -/
theorem visible_escaped (c : Char) : Visible (escaped c) := by
  unfold escaped
  -- only the last case keeps the character, and it is none of those that were written in its place
  split_ifs with hmark hback hfeed hline hreturn htab hcontrol
  · simp only [Bool.or_eq_true, decide_eq_true_eq] at hmark
    rcases hmark with rfl | rfl
    · simp
    · simp
  · simp
  · simp
  · simp
  · simp
  · simp
  -- the two digits of a control that has no letter
  · have hhigh := visible_digitChar (c.toNat / 16) (by omega)
    have hlow := visible_digitChar (c.toNat % 16) (by omega)
    simp [hhigh, hlow]
  · simpa using hcontrol

theorem visible_stringChars (text : String) : Visible (stringChars text) := by
  have hchars : Visible (text.toList.flatMap escaped) := by
    intro c hc
    obtain ⟨d, -, hd⟩ := List.mem_flatMap.mp hc
    exact visible_escaped d c hd
  simp [stringChars, hchars]

/-- What is clean is visible: JSON allows more characters than a message. -/
theorem visible_of_clean {chars : List Char} (h : Text.Clean chars) : Visible chars := by
  intro c hc
  have hcontrol := h c hc
  simp only [Text.isControl, Bool.or_eq_false_iff, decide_eq_false_iff_not] at hcontrol
  exact Nat.not_lt.mp hcontrol.1

theorem visible_numberChars (x : Binary64) : Visible (numberChars x) := by
  unfold numberChars
  split
  · exact visible_of_clean (x.clean_chars .json)
  · simp

/-! ### Values -/

mutual

theorem visible_chars : ∀ json : Json, Visible json.chars
  | .string text => visible_stringChars text
  | .number x => visible_numberChars x
  | .natural n => visible_of_clean (Text.clean_toDigits (by decide) (by decide) n)
  | .array [] => by simp [chars]
  | .array (item :: items) => by
    simp [chars, visible_chars item, visible_itemsChars items]
  | .object [] => by simp [chars]
  | .object ((name, item) :: fields) => by
    simp [chars, visible_stringChars, visible_chars item, visible_fieldsChars fields]

theorem visible_itemsChars : ∀ items : List Json, Visible (itemsChars items)
  | [] => visible_nil
  | item :: items => by
    simp [itemsChars, visible_chars item, visible_itemsChars items]

theorem visible_fieldsChars : ∀ fields : List (String × Json), Visible (fieldsChars fields)
  | [] => visible_nil
  | (name, item) :: fields => by
    simp [fieldsChars, visible_stringChars, visible_chars item, visible_fieldsChars fields]

end

/-- **One line**: a written value has no line feed. -/
theorem lineFeed_notMem_text (json : Json) : '\n' ∉ json.text.toList := by
  rw [text, String.toList_ofList]
  intro hmem
  have hvisible := visible_chars json '\n' hmem
  simp at hvisible

end Json

/-! ## §3 Messages

Messages quote the input, and escape what could break a line: no control character is left in the
message of an event (`Event.clean_message`). -/

/-! ### Quoted text -/

namespace Text

/-- What lies in one of the first two ranges is found. -/
theorem Ranges.holds_of_two {first last first' last' n : Nat} (rest : Ranges)
    (h : first ≤ n ∧ n ≤ last ∨ first ≤ n ∧ first' ≤ n ∧ n ≤ last') :
    holds ((first, last) :: (first', last') :: rest) n = true := by
  rw [holds, holds]
  by_cases hlast : n ≤ last
  · simp only [hlast, decide_true, Bool.true_or, ite_eq_right_iff]
    omega
  · have hfirst : ¬ n < first := by omega
    have hfirst' : ¬ n < first' := by omega
    have hlast' : n ≤ last' := by omega
    simp [hfirst, hfirst', hlast']

/-- Controls are in the first two ranges of what has no shape of its own. -/
theorem unprintable_of_isControl {c : Char} (h : isControl c = true) :
    unprintable.holds c.toNat = true := by
  simp only [isControl, Bool.or_eq_true, Bool.and_eq_true, decide_eq_true_eq] at h
  exact Ranges.holds_of_two _ (by omega)

/-- What is quoted for a character is clean, since controls are escaped. -/
theorem clean_escaped {quote : Char} (hquote : isControl quote = false) (c : Char) :
    Clean (escaped quote c) := by
  unfold escaped
  split_ifs with hmark hnull htab hline hreturn hplain
  · simp only [Bool.or_eq_true, decide_eq_true_eq] at hmark
    have hback : isControl '\\' = false := by decide
    rcases hmark with rfl | rfl
    · simp [hquote, hback]
    · simp [hback]
  · decide
  · decide
  · decide
  · decide
  · simp only [clean_cons, clean_nil, and_true]
    -- a control would not have been kept as it is
    by_contra hcontrol
    rw [Bool.not_eq_false] at hcontrol
    simp [isPlain, unprintable_of_isControl hcontrol] at hplain
  -- the code point, in digits between braces
  · have hopen : Clean ['\\', 'u', '\x7b'] := by decide
    have hclose : Clean ['\x7d'] := by decide
    rw [codeEscape, clean_append, clean_append]
    exact ⟨⟨hopen, clean_toDigits (by decide) (by decide) _⟩, hclose⟩

theorem clean_quotedChars {quote : Char} (hquote : isControl quote = false) (text : List Char) :
    Clean (quotedChars quote text) := by
  have htext : Clean (text.flatMap (escaped quote)) := by
    intro c hc
    obtain ⟨d, -, hd⟩ := List.mem_flatMap.mp hc
    exact clean_escaped hquote d c hd
  simp [quotedChars, hquote, htext]

theorem clean_quotedChar (c : Char) : Clean (quotedChar c).toList := by
  rw [quotedChar, String.toList_ofList]
  exact clean_quotedChars (by decide) _

theorem clean_quotedText (text : String) : Clean (quotedText text).toList := by
  rw [quotedText, String.toList_ofList]
  exact clean_quotedChars (by decide) _

end Text

/-! ### Messages -/

theorem LexicalFault.clean_text (fault : LexicalFault) : Clean fault.text.toList := by
  cases fault <;> decide

/-- The message quotes the character, and is clean otherwise. -/
theorem LexicalError.clean_message (e : LexicalError) : Clean e.message.toList := by
  have hstart : Clean "Lexical error at position ".toList := by decide
  have hcolon : Clean ": ".toList := by decide
  have hspace : Clean " ".toList := by decide
  have hplace := (hstart.append (Text.clean_repr e.position)).append hcolon
  exact ((hplace.append e.fault.clean_text).append hspace).append (Text.clean_quotedChar _)

theorem TokenKind.clean_name (kind : TokenKind) : Clean kind.name.toList := by
  cases kind <;> decide

theorem SyntaxError.clean_expectation (kinds : List TokenKind) :
    Clean (expectation kinds).toList := by
  unfold expectation
  split
  · decide
  · exact TokenKind.clean_name _
  · have hstart : Clean "one of ".toList := by decide
    have hcomma : Clean ", ".toList := by decide
    have hnames : ∀ name ∈ kinds.map TokenKind.name, Clean name.toList := by
      intro name hname
      obtain ⟨kind, -, rfl⟩ := List.mem_map.mp hname
      exact kind.clean_name
    exact hstart.append (hcomma.intercalate hnames)

theorem SyntaxError.clean_message (e : SyntaxError) : Clean e.message.toList := by
  have hstart : Clean "Syntax error at position ".toList := by decide
  have hexpected : Clean ": expected ".toList := by decide
  have hfound : Clean ", found ".toList := by decide
  have hplace := (hstart.append (Text.clean_repr e.position)).append hexpected
  exact ((hplace.append (clean_expectation e.expected)).append hfound).append e.found.clean_name

theorem Rejection.clean_message (cause : Rejection) : Clean cause.message.toList := by
  cases cause with
  | lexical e => exact e.clean_message
  | grammatical e => exact e.clean_message

theorem Failure.clean_message (failure : Failure) : Clean failure.message.toList := by
  cases failure <;> decide

theorem Settings.clean_text (settings : Settings) : Clean settings.text.toList := by
  obtain ⟨mode, json⟩ := settings
  cases mode <;> cases json <;> decide

theorem Token.clean_logText (token : Token) : Clean token.logText.toList := by
  cases token with
  | number value =>
    have hstart : Clean "Number(".toList := by decide
    have hend : Clean ")".toList := by decide
    exact (hstart.append (value.clean_text .logged)).append hend
  | plus => decide
  | minus => decide
  | endOfInput => decide

/-- **Messages are clean**: whatever input an event quotes, its message has no control character. -/
theorem Event.clean_message (event : Event) : Clean event.message.toList := by
  have hcalculate : Clean "calculate(".toList := by decide
  cases event with
  | started settings =>
    have hstart : Clean "calc starting, ".toList := by decide
    exact hstart.append settings.clean_text
  | failed failure =>
    have hstart : Clean "I/O failure: ".toList := by decide
    exact hstart.append failure.clean_message
  | rejected number cause =>
    have hstart : Clean "expression #".toList := by decide
    have hrejected : Clean " rejected: ".toList := by decide
    exact ((hstart.append (Text.clean_repr number)).append hrejected).append cause.clean_message
  -- the input is quoted, whatever is in it
  | calculated input value =>
    have hequals : Clean ") = ".toList := by decide
    exact ((hcalculate.append (Text.clean_quotedText input)).append hequals).append
      (value.clean_text .plain)
  | notCalculated input cause =>
    have hfailed : Clean ") failed: ".toList := by decide
    exact ((hcalculate.append (Text.clean_quotedText input)).append hfailed).append
      cause.clean_message
  | scanned token =>
    have hstart : Clean "lexed ".toList := by decide
    have hplace : Clean " at ".toList := by decide
    exact ((hstart.append token.token.clean_logText).append hplace).append
      (Text.clean_repr token.position)
  | misspelled e => exact e.clean_message
  | misplaced e => exact e.clean_message

end AddingMachine
