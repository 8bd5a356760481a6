import AddingMachine.Proofs.Calculation.Streaming
import Mathlib.Control.Monad.Basic

/-!
# Lexemes and misspellings

Which texts have tokens, and where the others go wrong.
-/

namespace AddingMachine

/-! ## §1 The lexemes of a text

A text has tokens exactly when it has a layout. The layout is the only one, its lexemes have the
tokens of the text, and each token is at the place where its lexeme begins, so that lexemes and
positions give the text back, but for the kind of its blanks (`tokensOf_layout`). -/

/-! ### Where lexemes stand -/

theorem length_lexemeTokens (position : Nat) (gap : Gap) (laid : Laid) :
    (lexemeTokens position gap laid).length = laid.length := by
  induction laid generalizing position gap with
  | nil => rfl
  | cons item rest ih => simp [lexemeTokens, ih]

/-- The token of a lexeme is at the place behind all that is laid before it. -/
theorem getElem?_lexemeTokens (position : Nat) (gap : Gap) {laid : Laid} {i : Nat}
    (hi : i < laid.length) :
    (lexemeTokens position gap laid)[i]? =
      some ⟨laid[i].1.token, position + (laidChars gap (laid.take i)).length⟩ := by
  induction laid generalizing position gap i with
  | nil => cases hi
  | cons item rest ih =>
    cases i with
    | zero => rfl
    | succ i =>
      simp only [lexemeTokens, List.getElem?_cons_succ, ih _ _ (Nat.lt_of_succ_lt_succ hi)]
      simp [laidChars, Nat.add_assoc]

/-- And there the lexeme stands. -/
theorem chars_prefix_drop (gap : Gap) {laid : Laid} {i : Nat} (hi : i < laid.length) :
    laid[i].1.chars <+: (laidChars gap laid).drop (laidChars gap (laid.take i)).length := by
  -- the lexemes before this one, this one, and those behind it
  have hsplit : laid = laid.take i ++ (laid[i].1, laid[i].2) :: laid.drop (i + 1) := by
    rw [← List.drop_eq_getElem_cons hi, List.take_append_drop]
  have hchars := laidChars_append gap (laid.take i) laid[i].1 laid[i].2 (laid.drop (i + 1))
  rw [← hsplit] at hchars
  rw [hchars, List.drop_left]
  exact List.prefix_append _ _

theorem token_ne_end_of_mem {position : Nat} {gap : Gap} {laid : Laid} {token : LocatedToken}
    (h : token ∈ lexemeTokens position gap laid) : token.token ≠ .endOfInput := by
  induction laid generalizing position gap with
  | nil => cases h
  | cons item rest ih =>
    rcases List.mem_cons.mp h with rfl | hmem
    · exact item.1.token_ne_end
    · exact ih hmem

/-! ### Writing lexemes at their positions -/

/-- Characters with a space for every blank. -/
def spaced (chars : List Char) : List Char :=
  chars.map fun c => if Scanner.isBlank c then ' ' else c

/-- The text from `place` on that has the lexemes at the given positions and ends at the last
position, with spaces for all else. -/
def written (place : Nat) : List Lexeme → List Nat → List Char
  | [], [finish] => List.replicate (finish - place) ' '
  | lexeme :: lexemes, start :: positions =>
    List.replicate (start - place) ' ' ++
      (lexeme.chars ++ written (start + lexeme.chars.length) lexemes positions)
  | _, _ => []

theorem spaced_append (chars chars' : List Char) :
    spaced (chars ++ chars') = spaced chars ++ spaced chars' :=
  List.map_append

/-- With a space for every blank, only the length of a gap is left of it. -/
theorem Gap.spaced_chars (gap : Gap) :
    spaced gap.chars = List.replicate gap.chars.length ' ' := by
  rw [List.eq_replicate_iff]
  refine ⟨List.length_map _, fun c hc => ?_⟩
  obtain ⟨blank, hblank, rfl⟩ := List.mem_map.mp hc
  rw [if_pos (gap.blank blank hblank)]

/-- No character of a lexeme is blank. -/
theorem Lexeme.isBlank_of_mem (lexeme : Lexeme) {c : Char} (hc : c ∈ lexeme.chars) :
    Scanner.isBlank c = false := by
  cases lexeme with
  | number numeral =>
    -- a blank would end the number
    refine Bool.eq_false_iff.mpr fun hblank => ?_
    have hnumber := numeral.continuesNumber_of_mem hc
    rw [continuesNumber_of_isBlank hblank] at hnumber
    cases hnumber
  | sign operator =>
    obtain rfl := List.mem_singleton.mp hc
    cases operator with
    | add => rfl
    | subtract => rfl

theorem Lexeme.spaced_chars (lexeme : Lexeme) : spaced lexeme.chars = lexeme.chars := by
  have hsame : ∀ c ∈ lexeme.chars, (if Scanner.isBlank c then ' ' else c) = id c := by
    intro c hc
    rw [lexeme.isBlank_of_mem hc]
    rfl
  rw [spaced, List.map_congr_left hsame, List.map_id]

/-- Lexemes written at the positions of their tokens are the text again. -/
theorem written_laidTokens (position : Nat) (gap : Gap) (laid : Laid) :
    written position (laid.map Prod.fst) ((laidTokens position gap laid).map LocatedToken.position) =
      spaced (laidChars gap laid) := by
  induction laid generalizing position gap with
  | nil => simp [laidTokens, laidChars, written, gap.spaced_chars]
  | cons item rest ih =>
    -- the gap is filled up with spaces, and writing goes on behind the lexeme
    simp only [laidTokens, List.map_cons, written, ih, laidChars, spaced_append, gap.spaced_chars,
      item.1.spaced_chars, Nat.add_sub_cancel_left]

/-! ### Texts with tokens -/

namespace Layout

variable {chars : List Char}

def lexemes (layout : Layout chars) : List Lexeme :=
  layout.laid.map Prod.fst

/-- The tokens of a layout, the end of the input included. -/
def tokens (layout : Layout chars) : List LocatedToken :=
  laidTokens 0 layout.gap layout.laid

/-- Where the lexeme with the given index begins. -/
def start (layout : Layout chars) (i : Nat) : Nat :=
  (laidChars layout.gap (layout.laid.take i)).length

/-- The tokens of a layout are those of its lexemes, and the end behind the last character. -/
theorem tokens_eq (layout : Layout chars) :
    layout.tokens = lexemeTokens 0 layout.gap layout.laid ++ [⟨.endOfInput, chars.length⟩] := by
  simp [tokens, laidTokens_eq, layout.laidChars_eq]

/-- The last token is the only end. -/
theorem exists_tokens_eq (layout : Layout chars) :
    ∃ before, layout.tokens = before ++ [⟨.endOfInput, chars.length⟩] ∧
      ∀ token ∈ before, token.token ≠ .endOfInput :=
  ⟨_, layout.tokens_eq, fun _ => token_ne_end_of_mem⟩

theorem length_tokens (layout : Layout chars) :
    layout.tokens.length = layout.lexemes.length + 1 := by
  simp [tokens_eq, lexemes, length_lexemeTokens]

theorem getElem?_tokens (layout : Layout chars) {i : Nat} (hi : i < layout.lexemes.length) :
    layout.tokens[i]? = some ⟨layout.lexemes[i].token, layout.start i⟩ := by
  have hlaid : i < layout.laid.length := by simpa [lexemes] using hi
  rw [tokens_eq, List.getElem?_append_left (by rwa [length_lexemeTokens]),
    getElem?_lexemeTokens 0 layout.gap hlaid]
  simp [lexemes, start]

/-- A lexeme stands in the text where it starts. -/
theorem lexeme_prefix_drop (layout : Layout chars) {i : Nat} (hi : i < layout.lexemes.length) :
    layout.lexemes[i].chars <+: chars.drop (layout.start i) := by
  have hlaid : i < layout.laid.length := by simpa [lexemes] using hi
  have hstands := chars_prefix_drop layout.gap hlaid
  rw [layout.laidChars_eq] at hstands
  simpa [lexemes, start] using hstands

/-- The lexemes at the positions of the tokens are the text again. -/
theorem written_tokens (layout : Layout chars) :
    written 0 layout.lexemes (layout.tokens.map LocatedToken.position) = spaced chars := by
  rw [tokens, lexemes, written_laidTokens, layout.laidChars_eq]

end Layout

/-- A text has tokens exactly when it has a layout, and then they are those of the layout. -/
theorem tokensOf_eq_ok_iff (text : String) (tokens : List LocatedToken) :
    (tokensOf text).result = .ok tokens ↔
      ∃ layout : Layout text.toList, tokens = layout.tokens := by
  constructor
  -- tokens that are found come from a layout
  · intro hfound
    obtain ⟨gap, laid, hchars, hapart, htokens⟩ :=
      (Scanner.all_eq_tokens_iff _ _).mp (all_eq_of_tokensOf hfound)
    exact ⟨⟨gap, laid, hapart, hchars.symm⟩, htokens⟩
  -- and a layout is scanned to its tokens
  · intro hlayout
    obtain ⟨⟨gap, laid, hapart, hchars⟩, rfl⟩ := hlayout
    exact tokensOf_of_all_eq
      ((Scanner.all_eq_tokens_iff _ _).mpr ⟨gap, laid, hchars.symm, hapart, rfl⟩)

/-- The tokens of a text stand one behind the other. -/
theorem pairwise_position_of_tokensOf {text : String} {tokens : List LocatedToken}
    (h : (tokensOf text).result = .ok tokens) :
    tokens.Pairwise fun token later => token.position < later.position := by
  have hpairwise := (Scanner.ofText text).pairwise_all
  rw [all_eq_of_tokensOf h, List.pairwise_map] at hpairwise
  exact hpairwise.imp fun hlt => hlt _ rfl

/-- **Tokens are written lexemes**: a text has tokens exactly when it is laid out from lexemes and
gaps, in which numbers do not touch, and it can be laid out in one way only. The tokens are those of
the lexemes, one by one, where these begin in the text, at increasing positions, and then the only
end of the input, behind the last character. Lexemes and positions give the text again, but for the
kind of its blanks. -/
theorem tokensOf_layout (text : String) :
    (∀ tokens, (tokensOf text).result = .ok tokens ↔
      ∃ layout : Layout text.toList, tokens = layout.tokens) ∧
    Subsingleton (Layout text.toList) ∧
    ∀ layout : Layout text.toList,
      layout.tokens.length = layout.lexemes.length + 1 ∧
      (∀ i (hi : i < layout.lexemes.length),
        layout.tokens[i]? = some ⟨layout.lexemes[i].token, layout.start i⟩ ∧
          layout.lexemes[i].chars <+: text.toList.drop (layout.start i)) ∧
      layout.tokens.Pairwise (fun token later => token.position < later.position) ∧
      (∃ before, layout.tokens = before ++ [⟨.endOfInput, text.length⟩] ∧
        ∀ token ∈ before, token.token ≠ .endOfInput) ∧
      written 0 layout.lexemes (layout.tokens.map LocatedToken.position) = spaced text.toList := by
  refine ⟨tokensOf_eq_ok_iff text, inferInstance, fun layout => ?_⟩
  -- the tokens of a layout are those of the text, so what holds of these holds of them
  have hfound := (tokensOf_eq_ok_iff text layout.tokens).mpr ⟨layout, rfl⟩
  have hend := layout.exists_tokens_eq
  rw [String.length_toList] at hend
  exact ⟨layout.length_tokens,
    fun i hi => ⟨layout.getElem?_tokens hi, layout.lexeme_prefix_drop hi⟩,
    pairwise_position_of_tokensOf hfound, hend, layout.written_tokens⟩

/-! ## §2 The first wrong character

A text without tokens is laid out up to a misspelling, and its error names the character at which
this goes wrong. What kind of error it is depends on that character and on the number that ends
before it, if one does, and the same error belongs to every text that begins alike up to there
(`misspelled_exact`). -/

/-! ### Texts up to a misspelling -/

/-- The characters are laid out up to a misspelling, of which the error is given. -/
inductive Misspells : List Char → LexicalError → Prop where
  | behind (gap : Gap) (laid : Laid) (m : Misspelling) (rest : List Char)
      (hends : EndBefore (m.before ++ m.character :: rest) laid) (hstays : m.StaysBefore rest) :
      Misspells (laidChars gap laid ++ (m.before ++ m.character :: rest))
        (m.errorAt ((laidChars gap laid).length + m.before.length))

/-- A text has an error exactly when it is laid out up to a misspelling. -/
theorem tokensOf_eq_error_iff (text : String) (e : LexicalError) :
    (tokensOf text).result = .error e ↔ Misspells text.toList e := by
  constructor
  · intro hfound
    obtain ⟨tokens, more, hall⟩ := exists_all_eq_of_tokensOf hfound
    obtain ⟨gap, laid, rest, hchars, hends, -, hfront⟩ := exists_front hall
    rw [show text.toList = _ from hchars]
    -- the error is the entry at the front, so that a misspelling stands there
    cases hfront with
    | misspelling m rest _ hstays =>
      simp only [Scanner.ofText, Nat.zero_add]
      exact .behind gap laid m rest hends hstays
  · intro hmisspells
    generalize hchars : text.toList = chars at hmisspells
    cases hmisspells with
    | behind gap laid m rest hends hstays =>
      obtain ⟨more, hall⟩ :=
        Scanner.all_laidChars_front hends gap 0 (.misspelling m rest _ hstays)
      rw [← hchars, Nat.zero_add] at hall
      exact tokensOf_of_all_eq_error hall

/-- What follows a misspelling can change, unless the wrong character is a trailing point, behind
which one character at least has to stay. -/
theorem Misspelling.StaysBefore.append_of {m : Misspelling} {rest : List Char}
    (h : m.StaysBefore rest) (k : Nat) (more : List Char)
    (hdot : m.fault = .trailingDot → 0 < k ∧ rest ≠ []) : m.StaysBefore (rest.take k ++ more) := by
  cases m with
  -- the character behind the point stays, and it is no digit
  | trailingDot digits =>
    obtain ⟨hk, hne⟩ := hdot rfl
    obtain ⟨c, rest, rfl⟩ := List.exists_cons_of_ne_nil hne
    cases k with
    | zero => cases hk
    | succ k => exact .cons (h c rfl) _
  | unrecognized => trivial
  | leadingDot => trivial
  | secondDot => trivial

namespace Misspells

variable {chars chars' : List Char} {e : LexicalError}

/-- The error names the character at its position. -/
theorem getElem?_position (h : Misspells chars e) : chars[e.position]? = some e.character := by
  cases h with
  | behind gap laid m rest =>
    rw [← List.append_assoc, List.getElem?_append_right (by simp [Misspelling.errorAt])]
    simp [Misspelling.errorAt]

/-- The characters before the wrong one, and those behind it. -/
theorem exists_misspelling (h : Misspells chars e) :
    ∃ (gap : Gap) (laid : Laid) (m : Misspelling), e = m.errorAt e.position ∧
      chars.take e.position = laidChars gap laid ++ m.before ∧
      EndBefore (m.before ++ m.character :: chars.drop (e.position + 1)) laid ∧
      m.StaysBefore (chars.drop (e.position + 1)) := by
  cases h with
  | behind gap laid m rest hends hstays =>
    -- only the rest has to be cut off in the right place
    have hdrop : (laidChars gap laid ++ (m.before ++ m.character :: rest)).drop
        ((laidChars gap laid).length + m.before.length + 1) = rest := by
      rw [Nat.add_assoc, List.drop_length_add_append, List.drop_length_add_append]
      rfl
    refine ⟨gap, laid, m, rfl, ?_, ?_, ?_⟩
    · rw [Misspelling.errorAt, List.take_length_add_append, List.take_left]
    · rwa [Misspelling.errorAt, hdrop]
    · rwa [Misspelling.errorAt, hdrop]

/-- The error belongs to every text that begins alike: up to the wrong character, and if this is a
trailing point, up to the character behind it. -/
theorem of_common_beginning (h : Misspells chars e) {n : Nat} (hn : e.position < n)
    (hdot : e.fault = .trailingDot → e.position + 1 < n ∧ n ≤ chars.length)
    (hbegins : chars.take n <+: chars') : Misspells chars' e := by
  cases h with
  | behind gap laid m rest hends hstays =>
    obtain ⟨more, rfl⟩ := hbegins
    simp only [Misspelling.errorAt] at hn hdot ⊢
    obtain ⟨k, rfl⟩ := Nat.exists_eq_add_of_lt hn
    -- the characters that stay are those up to the wrong one, and `k` more
    have htake : (laidChars gap laid ++ (m.before ++ m.character :: rest)).take
        ((laidChars gap laid).length + m.before.length + k + 1) ++ more =
          laidChars gap laid ++ (m.before ++ m.character :: (rest.take k ++ more)) := by
      rw [Nat.add_assoc, Nat.add_assoc, List.take_length_add_append, List.take_length_add_append]
      simp
    rw [htake]
    refine .behind gap laid m _ (hends.of_head? ?_) (hstays.append_of k more fun hfault => ?_)
    -- the last lexeme minds the first character only, which stays
    · cases m.before with
      | nil => rfl
      | cons => rfl
    -- where a character has to stay behind the point, there is one
    · obtain ⟨hlt, hle⟩ := hdot hfault
      refine ⟨by omega, ?_⟩
      rintro rfl
      simp at hle
      omega

end Misspells

/-! ### The number before the wrong character -/

/-- The characters are laid out in lexemes of which the last is the number, with no gap behind it. -/
def EndsInNumeral (chars : List Char) (numeral : Numeral) : Prop :=
  ∃ (layout : Layout chars) (before : Laid), layout.laid = before ++ [(.number numeral, .empty)]

/-- There is one number in which characters end. -/
theorem EndsInNumeral.unique {chars : List Char} {numeral numeral' : Numeral}
    (h : EndsInNumeral chars numeral) (h' : EndsInNumeral chars numeral') : numeral = numeral' := by
  obtain ⟨layout, before, hlaid⟩ := h
  obtain ⟨layout', before', hlaid'⟩ := h'
  -- there is only one layout, with one last lexeme
  obtain rfl := Subsingleton.elim layout layout'
  obtain ⟨-, hlast⟩ := List.append_inj' (hlaid.symm.trans hlaid') rfl
  cases hlast
  rfl

/-- A number behind lexemes that do not mind its first digit is the last lexeme. -/
theorem endsInNumeral_laidChars {laid : Laid} {numeral : Numeral} {rest : List Char}
    (h : EndBefore (numeral.chars ++ rest) laid) (gap : Gap) :
    EndsInNumeral (laidChars gap laid ++ numeral.chars) numeral :=
  ⟨⟨gap, laid ++ [(.number numeral, .empty)], h.concat_number.apart,
    laidChars_concat_number gap laid numeral⟩, laid, rfl⟩

/-- Where a point follows, no number ends. -/
theorem not_endsInNumeral_laidChars {laid : Laid} {rest : List Char}
    (h : EndBefore ('.' :: rest) laid) (gap : Gap) (numeral : Numeral) :
    ¬ EndsInNumeral (laidChars gap laid) numeral := by
  rintro ⟨layout, before, hlaid⟩
  -- the number would be the last lexeme, and the point would continue it
  obtain rfl := Subsingleton.elim layout ⟨gap, laid, h.apart, rfl⟩
  obtain rfl : laid = _ := hlaid
  obtain ⟨-, hends⟩ := (EndBefore.concat_iff _ _ _ _).mp h
  exact absurd rfl (hends.ne_dot_cons rest)

namespace Misspelling

/-- The number that a misspelling begins with, and that is right so far. -/
def numeral? : Misspelling → Option Numeral
  | .unrecognized _ _ => none
  | .leadingDot => none
  | .trailingDot digits => some (.whole digits)
  | .secondDot digits fraction => some (.decimal digits fraction)

/-- Before the wrong character stands a number, or nothing. -/
theorem before_cases (m : Misspelling) :
    m.numeral? = none ∧ m.before = [] ∨
      ∃ numeral, m.numeral? = some numeral ∧ m.before = numeral.chars := by
  cases m with
  | unrecognized => exact .inl ⟨rfl, rfl⟩
  | leadingDot => exact .inl ⟨rfl, rfl⟩
  | trailingDot digits => exact .inr ⟨_, rfl, rfl⟩
  | secondDot digits fraction => exact .inr ⟨_, rfl, rfl⟩

variable {m : Misspelling} {laid : Laid} {rest : List Char}

/-- What stands before the wrong character is laid out. -/
theorem nonempty_layout (h : EndBefore (m.before ++ m.character :: rest) laid) (gap : Gap) :
    Nonempty (Layout (laidChars gap laid ++ m.before)) := by
  rcases m.before_cases with ⟨-, hbefore⟩ | ⟨numeral, -, hbefore⟩
  · rw [hbefore, List.append_nil]
    exact ⟨⟨gap, laid, h.apart, rfl⟩⟩
  · rw [hbefore] at h ⊢
    obtain ⟨layout, -⟩ := endsInNumeral_laidChars h gap
    exact ⟨layout⟩

/-- A wrong point stands directly behind the number that the misspelling begins with, or behind
none. -/
theorem endsInNumeral_iff (h : EndBefore (m.before ++ '.' :: rest) laid) (gap : Gap)
    (numeral : Numeral) :
    EndsInNumeral (laidChars gap laid ++ m.before) numeral ↔ m.numeral? = some numeral := by
  rcases m.before_cases with ⟨hnone, hbefore⟩ | ⟨first, hfirst, hbefore⟩
  -- no number: then none ends there, since a point follows
  · rw [hbefore] at h ⊢
    rw [hnone, List.append_nil]
    exact ⟨fun hends => absurd hends (not_endsInNumeral_laidChars h gap numeral),
      fun heq => nomatch heq⟩
  · rw [hbefore] at h ⊢
    rw [hfirst]
    have hends := endsInNumeral_laidChars h gap
    refine ⟨fun hends' => congrArg some (hends.unique hends'), fun heq => ?_⟩
    cases heq
    exact hends

/-- The character is unrecognized if it has no use. -/
theorem fault_eq_unrecognized_iff (m : Misspelling) :
    m.fault = .unrecognizedCharacter ↔ isRecognized m.character = false := by
  cases m with
  | unrecognized c h => exact ⟨fun _ => h, fun _ => rfl⟩
  | leadingDot => exact ⟨fun h => (nomatch h), fun h => (nomatch h)⟩
  | trailingDot => exact ⟨fun h => (nomatch h), fun h => (nomatch h)⟩
  | secondDot => exact ⟨fun h => (nomatch h), fun h => (nomatch h)⟩

theorem character_eq_dot (h : isRecognized m.character = true) : m.character = '.' := by
  cases m with
  | unrecognized c hc => exact absurd h (by simp [character, hc])
  | leadingDot => rfl
  | trailingDot => rfl
  | secondDot => rfl

end Misspelling

/-! ### Exact errors -/

/-- Where a text begins as one with an error, up to the characters that decide, it has this error. -/
theorem tokensOf_of_common_beginning {text text' : String} {e : LexicalError} {n : Nat}
    (h : (tokensOf text).result = .error e) (hn : e.position < n)
    (hdot : e.fault = .trailingDot → e.position + 1 < n ∧ n ≤ text.length)
    (hbegins : text.toList.take n <+: text'.toList) : (tokensOf text').result = .error e := by
  rw [← String.length_toList] at hdot
  rw [tokensOf_eq_error_iff] at h ⊢
  exact h.of_common_beginning hn hdot hbegins

/-- **The first wrong character**: the error of a text names a character of it, before which all is
right. A character without use is unrecognized, and every other one is a point: a leading one behind
no number, a trailing one behind digits if no digit follows, and a second one behind a number with a
point. No text that begins alike has tokens, up to the wrong character or, if this is a trailing
point, up to the one behind it: the same error is found there. -/
theorem misspelled_exact {text : String} {e : LexicalError}
    (h : (tokensOf text).result = .error e) :
    text.toList[e.position]? = some e.character ∧
    (∃ tokens, (tokensOf (String.ofList (text.toList.take e.position))).result = .ok tokens) ∧
    (e.fault = .unrecognizedCharacter ↔ isRecognized e.character = false) ∧
    (isRecognized e.character = true → e.character = '.' ∧
      (e.fault = .leadingDot ↔
        ¬ ∃ numeral, EndsInNumeral (text.toList.take e.position) numeral) ∧
      (e.fault = .trailingDot ↔
        (∃ digits, EndsInNumeral (text.toList.take e.position) (.whole digits)) ∧
          Breaks Char.isDigit (text.toList.drop (e.position + 1))) ∧
      (e.fault = .secondDot ↔
        ∃ digits fraction,
          EndsInNumeral (text.toList.take e.position) (.decimal digits fraction))) ∧
    (e.fault ≠ .trailingDot → ∀ text' : String,
      text.toList.take (e.position + 1) <+: text'.toList → (tokensOf text').result = .error e) ∧
    (e.fault = .trailingDot → e.position + 2 ≤ text.length → ∀ text' : String,
      text.toList.take (e.position + 2) <+: text'.toList → (tokensOf text').result = .error e) := by
  have hmisspells := (tokensOf_eq_error_iff text e).mp h
  obtain ⟨gap, laid, m, he, htake, hends, hstays⟩ := hmisspells.exists_misspelling
  have hfault : e.fault = m.fault := congrArg LexicalError.fault he
  have hcharacter : e.character = m.character := congrArg LexicalError.character he
  refine ⟨hmisspells.getElem?_position, ?before, ?unrecognized, ?point, ?others, ?trailing⟩
  -- the lexemes and the number before the wrong character are a layout
  case before =>
    obtain ⟨layout⟩ := m.nonempty_layout hends gap
    refine ⟨layout.tokens, (tokensOf_eq_ok_iff _ _).mpr ?_⟩
    rw [String.toList_ofList, htake]
    exact ⟨layout, rfl⟩
  case unrecognized =>
    rw [hfault, hcharacter]
    exact m.fault_eq_unrecognized_iff
  -- which point it is shows in the number that ends before it
  case point =>
    intro hrecognized
    rw [hcharacter] at hrecognized
    have hdot := Misspelling.character_eq_dot hrecognized
    refine ⟨hcharacter.trans hdot, ?_⟩
    rw [hdot] at hends
    simp only [hfault, htake, Misspelling.endsInNumeral_iff hends gap]
    cases m with
    | unrecognized c hc => simp [Misspelling.character, hc] at hrecognized
    | leadingDot => simp [Misspelling.fault, Misspelling.numeral?]
    | trailingDot digits =>
      have hbreaks : Breaks Char.isDigit (text.toList.drop (e.position + 1)) := hstays
      simpa [Misspelling.fault, Misspelling.numeral?] using hbreaks
    | secondDot digits fraction => simp [Misspelling.fault, Misspelling.numeral?]
  -- the text may differ right behind the wrong character
  case others =>
    intro hne text' hbegins
    exact tokensOf_of_common_beginning h (Nat.lt_succ_self _) (fun hdot => absurd hdot hne) hbegins
  -- the character behind the point has to be the same
  case trailing =>
    intro _ hlength text' hbegins
    exact tokensOf_of_common_beginning h (by omega) (fun _ => ⟨by omega, hlength⟩) hbegins

/-- Whatever follows the sign, the point behind the last digit is wrong. -/
theorem misspelled_exact_behind_digits :
    (tokensOf "2+1.-").result = .error ⟨.trailingDot, 3, '.'⟩ ∧
      ∀ text' : String, "2+1.-".toList.take 5 <+: text'.toList →
        (tokensOf text').result = .error ⟨.trailingDot, 3, '.'⟩ := by
  have h : (tokensOf "2+1.-").result = .error ⟨.trailingDot, 3, '.'⟩ := by decide +kernel
  obtain ⟨-, -, -, -, -, htrailing⟩ := misspelled_exact h
  exact ⟨h, htrailing rfl (by decide)⟩

end AddingMachine
