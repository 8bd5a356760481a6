import AddingMachine.Proofs.Scanner.Layout
import Mathlib.Tactic.SplitIfs

/-!
# What a message tells

Messages of rejections can be told apart, and so can the characters that they quote.
-/

namespace AddingMachine

/-! ## §1 Quoted characters

A quoted character can be read off its quotation, whichever way it is escaped
(`Text.unescape_escaped`). So different characters have different quotations. -/

namespace Text

/-! ### Hexadecimal numbers -/

/-- The value of a lower-case hexadecimal digit. -/
def hexDigitValue (c : Char) : Nat :=
  if c.isDigit then c.toNat - '0'.toNat else c.toNat - 'a'.toNat + 10

/-- The number that is written in hexadecimal digits. -/
def hexValue (digits : List Char) : Nat :=
  digits.foldl (fun value c => 16 * value + hexDigitValue c) 0

theorem hexDigitValue_digitChar : ∀ n < 16, hexDigitValue (Nat.digitChar n) = n := by
  decide

theorem hexValue_concat (digits : List Char) (c : Char) :
    hexValue (digits ++ [c]) = 16 * hexValue digits + hexDigitValue c := by
  simp [hexValue]

/-- A number is read as it is written. -/
theorem hexValue_toDigits (n : Nat) : hexValue (Nat.toDigits 16 n) = n := by
  induction n using Nat.strongRecOn with
  | ind n ih =>
    rw [Nat.toDigits_eq_if (by decide)]
    split
    next hlt => simp [hexValue, hexDigitValue_digitChar n hlt]
    -- the last digit, behind those of the number without it
    next hge =>
      have hrest : hexValue (Nat.toDigits 16 (n / 16)) = n / 16 := by
        apply ih
        omega
      have hlast : hexDigitValue (Nat.digitChar (n % 16)) = n % 16 := by
        apply hexDigitValue_digitChar
        omega
      rw [hexValue_concat, hrest, hlast]
      omega

/-! ### Reading what is escaped -/

/-- What a character stands for behind a backslash. -/
def namedBy (letter : Char) : Char :=
  if letter = '0' then '\x00'
  else if letter = 't' then '\t'
  else if letter = 'n' then '\n'
  else if letter = 'r' then '\r'
  else letter

/-- The character that stands between two quotes: itself, or behind a backslash a letter for it or
its code point in hexadecimal. -/
def unescape : List Char → Char
  | [c] => c
  | ['\\', letter] => namedBy letter
  | text => Char.ofNat (hexValue (text.drop 3).dropLast)

theorem unescape_codeEscape (c : Char) : unescape (codeEscape c) = c := by
  have hread : unescape (codeEscape c) =
      Char.ofNat (hexValue ((Nat.toDigits 16 c.toNat ++ ['\x7d']).dropLast)) := by
    simp [codeEscape, unescape]
  rw [hread, List.dropLast_concat, hexValue_toDigits, Char.ofNat_toNat]

/-- **What is escaped is read back**, between the quotes that a single character stands in. -/
theorem unescape_escaped (c : Char) : unescape (escaped '\x27' c) = c := by
  unfold escaped
  split_ifs with hmark hnull htab hfeed hreturn hplain
  · -- the quote or a backslash, neither of which is the letter of another character
    simp only [Bool.or_eq_true, decide_eq_true_eq] at hmark
    rcases hmark with rfl | rfl
    · rfl
    · rfl
  -- the control characters that have letters
  · rw [hnull]
    rfl
  · rw [htab]
    rfl
  · rw [hfeed]
    rfl
  · rw [hreturn]
    rfl
  · rfl
  · exact unescape_codeEscape c

/-- Different characters are written differently. -/
theorem escaped_inj {c c' : Char} (h : escaped '\x27' c = escaped '\x27' c') : c = c' := by
  rw [← unescape_escaped c, h, unescape_escaped]

end Text

/-! ## §2 Messages are uniquely readable

The message of a rejection settles the rejection. Each part of it ends where a mark follows that is
not in the part: the position at a colon, what is wrong with a character at the quote in front of the
character, and the name of a kind at a comma. What is expected is written in three ways, and commas
stand between kinds as they do in front of what is found (`SyntaxError.expected_found_inj`). -/

/-! ### Positions -/

/-- The position in a message ends at the colon behind it. -/
theorem position_inj {position position' : Nat} {rest rest' : List Char}
    (h : (Nat.repr position).toList ++ ':' :: rest = (Nat.repr position').toList ++ ':' :: rest') :
    position = position' ∧ rest = rest' := by
  have hcolon (n : Nat) : ':' ∉ Nat.toDigits 10 n := by
    intro hmem
    have hdigit : ':'.isDigit = true := Nat.isDigit_of_mem_toDigits (by decide) (by decide) hmem
    cases hdigit
  simp only [Nat.repr, String.toList_ofList] at h
  obtain ⟨hdigits, hrest⟩ := append_mark_inj (hcolon position) (hcolon position') h
  refine ⟨?_, hrest⟩
  -- the digits of a number are read as the number
  calc
    position = Nat.ofDigitChars 10 (Nat.toDigits 10 position) 0 :=
      Nat.ofDigitChars_ten_toDigits.symm
    _ = Nat.ofDigitChars 10 (Nat.toDigits 10 position') 0 := by rw [hdigits]
    _ = position' := Nat.ofDigitChars_ten_toDigits

/-! ### Characters that no token can hold -/

namespace LexicalFault

/-- What is wrong is said in four different ways. -/
theorem text_injective {fault fault' : LexicalFault} (h : fault.text = fault'.text) :
    fault = fault' := by
  revert h
  cases fault <;> cases fault' <;> decide

theorem quote_notMem_text (fault : LexicalFault) : '\x27' ∉ fault.text.toList ++ [' '] := by
  cases fault <;> decide

/-- What is wrong with a character ends at the quote in front of the character. -/
theorem text_quoted_inj {fault fault' : LexicalFault} {c c' : Char}
    (h : fault.text.toList ++ ' ' :: Text.quotedChars '\x27' [c] =
      fault'.text.toList ++ ' ' :: Text.quotedChars '\x27' [c']) : fault = fault' ∧ c = c' := by
  have hquote : (fault.text.toList ++ [' ']) ++ '\x27' :: (Text.escaped '\x27' c ++ ['\x27']) =
      (fault'.text.toList ++ [' ']) ++ '\x27' :: (Text.escaped '\x27' c' ++ ['\x27']) := by
    simpa [Text.quotedChars] using h
  -- the first quote is the one in front of the character
  obtain ⟨htext, hcharacter⟩ :=
    append_mark_inj fault.quote_notMem_text fault'.quote_notMem_text hquote
  have hfault : fault.text = fault'.text := by
    simpa [String.toList_inj] using htext
  have hescaped : Text.escaped '\x27' c = Text.escaped '\x27' c' := by
    simpa using hcharacter
  exact ⟨text_injective hfault, Text.escaped_inj hescaped⟩

end LexicalFault

/-- The message of a lexical error settles it. -/
theorem LexicalError.message_injective {e e' : LexicalError} (h : e.message = e'.message) :
    e = e' := by
  obtain ⟨fault, position, character⟩ := e
  obtain ⟨fault', position', character'⟩ := e'
  -- behind the first words, which are the same, stand the position and the fault
  have hchars : (Nat.repr position).toList ++ ':' :: ' ' ::
        (fault.text.toList ++ ' ' :: Text.quotedChars '\x27' [character]) =
      (Nat.repr position').toList ++ ':' :: ' ' ::
        (fault'.text.toList ++ ' ' :: Text.quotedChars '\x27' [character']) := by
    unfold message at h
    simp only [String.append_assoc, String.append_right_inj] at h
    simpa [Text.quotedChar] using congrArg String.toList h
  obtain ⟨rfl, hbehind⟩ := position_inj hchars
  obtain ⟨rfl, rfl⟩ := LexicalFault.text_quoted_inj (List.cons.inj hbehind).2
  rfl

/-! ### Tokens that are not allowed -/

namespace TokenKind

/-- The kinds of tokens have different names. -/
theorem name_injective {kind kind' : TokenKind} (h : kind.name = kind'.name) : kind = kind' := by
  revert h
  cases kind <;> cases kind' <;> decide

theorem comma_notMem_name (kind : TokenKind) : ',' ∉ kind.name.toList := by
  cases kind <;> decide

theorem name_ne_nothing (kind : TokenKind) : kind.name ≠ "nothing" := by
  cases kind <;> decide

/-- No name begins as it is said what is found. -/
theorem name_append_ne_found (kind : TokenKind) (rest rest' : List Char) :
    kind.name.toList ++ rest ≠ "found ".toList ++ rest' := by
  cases kind <;> simp [name]

end TokenKind

namespace SyntaxError

/-- What stands in front of the first comma. -/
def leading : List TokenKind → String
  | [] => "nothing"
  | [kind] => kind.name
  | kind :: _ :: _ => "one of " ++ kind.name

/-- What stands behind the first comma: the kinds but for the first one, and what is found. -/
def following (found : TokenKind) : List TokenKind → List Char
  | [] => "found ".toList ++ found.name.toList
  | kind :: rest => kind.name.toList ++ ',' :: ' ' :: following found rest

theorem following_nil (found : TokenKind) :
    following found [] = "found ".toList ++ found.name.toList :=
  rfl

variable {found found' : TokenKind} {kinds kinds' : List TokenKind}

/-- Of kinds behind one another, the first one stands in front of the first comma. -/
theorem intercalate_append_found (found kind : TokenKind) (rest : List TokenKind) :
    (", ".intercalate ((kind :: rest).map TokenKind.name)).toList ++
        ", found ".toList ++ found.name.toList =
      kind.name.toList ++ ',' :: ' ' :: following found rest := by
  induction rest generalizing kind with
  | nil => simp [following_nil]
  | cons next rest ih =>
    have hnext := ih next
    simp only [List.map_cons, String.intercalate_cons_cons, String.toList_append,
      List.append_assoc] at hnext ⊢
    rw [hnext]
    rfl

/-- However the expected kinds are written, the first comma stands in front of the second one or, if
there is none, of what is found. -/
theorem expectation_append_found (found : TokenKind) (kinds : List TokenKind) :
    (expectation kinds).toList ++ ", found ".toList ++ found.name.toList =
      (leading kinds).toList ++ ',' :: ' ' :: following found kinds.tail := by
  match kinds with
  | [] => simp [expectation, leading, following_nil]
  | [kind] => simp [expectation, leading, following_nil]
  | kind :: next :: rest =>
    have hkinds := intercalate_append_found found kind (next :: rest)
    simp only [expectation, leading, String.toList_append, List.append_assoc] at hkinds ⊢
    rw [hkinds]
    rfl

/-- In front of the first comma there is none. -/
theorem comma_notMem_leading (kinds : List TokenKind) : ',' ∉ (leading kinds).toList := by
  match kinds with
  | [] => decide
  | [kind] => exact kind.comma_notMem_name
  | kind :: next :: rest => simp [leading, kind.comma_notMem_name]

/-- The kinds behind the first comma, and what is found, are settled. -/
theorem following_inj (h : following found kinds = following found' kinds') :
    found = found' ∧ kinds = kinds' := by
  induction kinds generalizing kinds' with
  | nil =>
    cases kinds' with
    | nil =>
      have hname : found.name = found'.name := by
        simpa [following_nil, String.toList_inj] using h
      exact ⟨TokenKind.name_injective hname, rfl⟩
    -- one list ends where the other names a kind
    | cons kind' rest' => exact absurd h.symm (kind'.name_append_ne_found _ _)
  | cons kind rest ih =>
    cases kinds' with
    | nil => exact absurd h (kind.name_append_ne_found _ _)
    | cons kind' rest' =>
      -- both first names end at their comma
      obtain ⟨hname, hrest⟩ := append_mark_inj kind.comma_notMem_name kind'.comma_notMem_name h
      obtain rfl := TokenKind.name_injective (String.toList_inj.mp hname)
      obtain ⟨rfl, rfl⟩ := ih (List.cons.inj hrest).2
      exact ⟨rfl, rfl⟩

/-- In front of the first comma there is no telling how many kinds are expected, but one kind can be
told from none and from another. -/
theorem eq_of_leading_eq (htail : kinds.tail = kinds'.tail) (h : leading kinds = leading kinds') :
    kinds = kinds' := by
  match kinds, kinds' with
  | [], [] => rfl
  | [], [kind'] => exact absurd h.symm kind'.name_ne_nothing
  | [kind], [] => exact absurd h kind.name_ne_nothing
  | [kind], [kind'] => rw [TokenKind.name_injective h]
  -- with the same words in front, the first names are the same
  | kind :: next :: rest, kind' :: next' :: rest' =>
    have hname : kind.name = kind'.name := (String.append_right_inj "one of ").mp h
    obtain ⟨rfl, rfl⟩ := List.cons.inj htail
    rw [TokenKind.name_injective hname]

/-- **What is expected and what is found** can be told apart, although commas stand between kinds as
well. -/
theorem expected_found_inj
    (h : (expectation kinds).toList ++ ", found ".toList ++ found.name.toList =
      (expectation kinds').toList ++ ", found ".toList ++ found'.name.toList) :
    kinds = kinds' ∧ found = found' := by
  rw [expectation_append_found, expectation_append_found] at h
  -- what stands in front of the first comma, and what stands behind it
  obtain ⟨hleading, hbehind⟩ :=
    append_mark_inj (comma_notMem_leading kinds) (comma_notMem_leading kinds') h
  obtain ⟨hfound, htail⟩ := following_inj (List.cons.inj hbehind).2
  exact ⟨eq_of_leading_eq htail (String.toList_inj.mp hleading), hfound⟩

/-- The message of a syntax error settles it. -/
theorem message_injective {e e' : SyntaxError} (h : e.message = e'.message) : e = e' := by
  obtain ⟨position, expected, found⟩ := e
  obtain ⟨position', expected', found'⟩ := e'
  have hchars : (Nat.repr position).toList ++ ':' :: (" expected ".toList ++
        ((expectation expected).toList ++ ", found ".toList ++ found.name.toList)) =
      (Nat.repr position').toList ++ ':' :: (" expected ".toList ++
        ((expectation expected').toList ++ ", found ".toList ++ found'.name.toList)) := by
    unfold message at h
    simp only [String.append_assoc, String.append_right_inj] at h
    simpa using congrArg String.toList h
  -- the position ends at the colon
  obtain ⟨rfl, hbehind⟩ := position_inj hchars
  obtain ⟨rfl, rfl⟩ := expected_found_inj (List.append_cancel_left hbehind)
  rfl

end SyntaxError

/-! ### Rejections -/

/-- The first words of messages tell the two causes apart. -/
theorem LexicalError.message_ne (e : LexicalError) (e' : SyntaxError) : e.message ≠ e'.message := by
  have hlexical : "Lexical error at position ".toList.head? = some 'L' := by decide
  have hsyntax : "Syntax error at position ".toList.head? = some 'S' := by decide
  intro h
  unfold message SyntaxError.message at h
  have hhead := congrArg (·.toList.head?) h
  simp only [String.append_assoc, String.toList_append, List.head?_append, hlexical, hsyntax,
    Option.some_or] at hhead
  exact absurd (Option.some.inj hhead) (by decide)

namespace Rejection

/-- **Messages are unambiguous.** Rejections have the same message exactly when they are the same:
for the same cause and at the same position, with the same fault in the same character, or with the
same kinds expected, in the same order, and the same kind found. -/
theorem message_eq_message_iff (cause cause' : Rejection) :
    cause.message = cause'.message ↔ cause = cause' := by
  constructor
  · intro h
    cases cause with
    -- two causes that are not of the same sort begin with different words
    | lexical e =>
      cases cause' with
      | lexical e' => rw [LexicalError.message_injective h]
      | grammatical e' => exact absurd h (e.message_ne e')
    | grammatical e =>
      cases cause' with
      | lexical e' => exact absurd h.symm (e'.message_ne e)
      | grammatical e' => rw [SyntaxError.message_injective h]
  · rintro rfl
    rfl

end Rejection

end AddingMachine
