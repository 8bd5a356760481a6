import AddingMachine.Proofs.Scanner.Layout

/-!
# Texts with something in front or in between

Scanning behind a layout, and scanning a text into which blanks are inserted.
-/

namespace AddingMachine

/-! ## §1 What follows a layout

A text whose entries begin with tokens begins with a layout of these tokens, and behind it stands
the end of the text, a lexeme or a misspelling, which gives the next entry (`exists_front`). The
other way round, what scanning gives behind a layout is what it gives for the rest of the text alone
(`all_laidChars_append`). -/

/-! ### Lexemes before a rest -/

/-- The tokens of lexemes behind a gap, without the end of the input. -/
def lexemeTokens (position : Nat) (gap : Gap) : Laid → List LocatedToken
  | [] => []
  | (lexeme, next) :: rest =>
    ⟨lexeme.token, position + gap.chars.length⟩ ::
      lexemeTokens (position + gap.chars.length + lexeme.chars.length) next rest

theorem laidTokens_eq (position : Nat) (gap : Gap) (laid : Laid) :
    laidTokens position gap laid = lexemeTokens position gap laid ++
      [⟨.endOfInput, position + (laidChars gap laid).length⟩] := by
  induction laid generalizing position gap with
  | nil => rfl
  | cons item rest ih => simp [laidTokens, lexemeTokens, laidChars, ih, Nat.add_assoc]

/-- What the tokens are depends on the lexemes alone. -/
theorem map_token_lexemeTokens (position : Nat) (gap : Gap) (laid : Laid) :
    (lexemeTokens position gap laid).map LocatedToken.token = laid.map fun item => item.1.token := by
  induction laid generalizing position gap with
  | nil => rfl
  | cons item rest ih => simp [lexemeTokens, ih]

/-- No lexeme is continued by what follows it, which behind the last gap is `rest`. -/
def EndBefore (rest : List Char) : Laid → Prop
  | [] => True
  | (lexeme, gap) :: laid => lexeme.EndsBefore (laidChars gap laid ++ rest) ∧ EndBefore rest laid

/-- Whether a run breaks depends on the first character alone. -/
theorem Breaks.append_of {p : Char → Bool} {chars rest rest' : List Char}
    (h : Breaks p (chars ++ rest)) (hrest : Breaks p rest → Breaks p rest') :
    Breaks p (chars ++ rest') := by
  cases chars with
  | nil => exact hrest h
  | cons c chars => exact h

/-- Whether a lexeme ends depends on the next character alone. -/
theorem Lexeme.EndsBefore.append_of {lexeme : Lexeme} {chars rest rest' : List Char}
    (h : lexeme.EndsBefore (chars ++ rest)) (hrest : lexeme.EndsBefore rest → lexeme.EndsBefore rest') :
    lexeme.EndsBefore (chars ++ rest') := by
  cases lexeme with
  | number numeral => exact Breaks.append_of h hrest
  | sign operator => trivial

/-- What follows may be replaced by what ends no fewer lexemes. -/
theorem EndBefore.of_endsBefore {rest rest' : List Char} {laid : Laid} (h : EndBefore rest laid)
    (hrest : ∀ lexeme : Lexeme, lexeme.EndsBefore rest → lexeme.EndsBefore rest') :
    EndBefore rest' laid := by
  induction laid with
  | nil => trivial
  | cons item laid ih => exact ⟨h.1.append_of (hrest item.1), ih h.2⟩

/-- Lexemes do not mind what follows, if it does not continue a number. -/
theorem EndBefore.of_breaks {rest rest' : List Char} {laid : Laid} (h : EndBefore rest laid)
    (hrest : Breaks continuesNumber rest') : EndBefore rest' laid := by
  refine h.of_endsBefore fun lexeme _ => ?_
  cases lexeme with
  | number numeral => exact hrest
  | sign operator => trivial

/-- Only the first character of what follows can continue a lexeme. -/
theorem EndBefore.of_head? {rest rest' : List Char} {laid : Laid} (h : EndBefore rest laid)
    (hhead : rest'.head? = rest.head?) : EndBefore rest' laid := by
  refine h.of_endsBefore fun lexeme hends => ?_
  cases lexeme with
  | number numeral => exact fun c hc => hends c (hhead ▸ hc)
  | sign operator => trivial

/-- Numbers do not touch exactly when no lexeme is continued up to the end of the text. -/
theorem apart_iff_endBefore (laid : Laid) : Apart laid ↔ EndBefore [] laid := by
  induction laid with
  | nil => exact Iff.rfl
  | cons item laid ih =>
    obtain ⟨lexeme, gap⟩ := item
    simp only [Apart, EndBefore, List.append_nil, ih, lexeme.endsBefore_laidChars_iff]

/-- A lexeme and a gap can be laid behind lexemes that mind neither them nor what follows. -/
theorem EndBefore.concat_iff (rest : List Char) (laid : Laid) (lexeme : Lexeme) (next : Gap) :
    EndBefore rest (laid ++ [(lexeme, next)]) ↔
      EndBefore (lexeme.chars ++ (next.chars ++ rest)) laid ∧
        lexeme.EndsBefore (next.chars ++ rest) := by
  induction laid with
  | nil => exact ⟨fun h => ⟨trivial, h.1⟩, fun h => ⟨h.2, trivial⟩⟩
  | cons item laid ih =>
    simp only [List.cons_append, EndBefore, ih, laidChars_append, laidChars, List.append_assoc,
      and_assoc]

/-- A number can be laid behind lexemes that do not mind its first digit. -/
theorem EndBefore.concat_number {laid : Laid} {numeral : Numeral} {rest : List Char}
    (h : EndBefore (numeral.chars ++ rest) laid) :
    EndBefore [] (laid ++ [(.number numeral, .empty)]) := by
  obtain ⟨c, more, hchars, -⟩ := numeral.exists_cons
  refine (EndBefore.concat_iff [] laid _ _).mpr ⟨h.of_head? ?_, .nil _⟩
  simp [Lexeme.chars, hchars]

theorem laidChars_concat_number (gap : Gap) (laid : Laid) (numeral : Numeral) :
    laidChars gap (laid ++ [(.number numeral, .empty)]) = laidChars gap laid ++ numeral.chars := by
  simp [laidChars_append, laidChars, Lexeme.chars, Gap.empty]

theorem EndBefore.apart {rest : List Char} {laid : Laid} (h : EndBefore rest laid) : Apart laid :=
  (apart_iff_endBefore laid).mpr (h.of_breaks (.nil _))

/-! ### Scanning behind a layout -/

namespace Scanner

/-- A gap before a text has no part in what scanning gives behind it. -/
theorem all_gap_append (gap : Gap) (rest : List Char) (position : Nat) :
    (Scanner.mk (gap.chars ++ rest) position).all =
      (Scanner.mk rest (position + gap.chars.length)).all := by
  -- both skip the same blanks
  have hskip : (Scanner.mk (gap.chars ++ rest) position).skipBlanks =
      (Scanner.mk rest (position + gap.chars.length)).skipBlanks := by
    simp only [skipBlanks, List.takeWhile_append_of_pos gap.blank,
      List.dropWhile_append_of_pos gap.blank, List.length_append, Nat.add_assoc]
  have hnext : (Scanner.mk (gap.chars ++ rest) position).next =
      (Scanner.mk rest (position + gap.chars.length)).next := by
    rw [next, hskip, next]
  rw [all_eq, hskip, hnext, ← all_eq]

/-- Behind a layout the rest of the text is scanned as if it stood alone. -/
theorem all_laidChars_append {laid : Laid} {rest : List Char} (hends : EndBefore rest laid)
    (gap : Gap) (position : Nat) :
    (Scanner.mk (laidChars gap laid ++ rest) position).all =
      (lexemeTokens position gap laid).map .ok ++
        (Scanner.mk rest (position + (laidChars gap laid).length)).all := by
  induction laid generalizing gap position with
  | nil => exact all_gap_append gap rest position
  | cons item laid ih =>
    obtain ⟨lexeme, next⟩ := item
    simp only [laidChars, List.append_assoc]
    -- the first lexeme gives its token, and the others stand before the rest as before
    rw [all_lexeme gap lexeme hends.1, ih hends.2]
    simp [lexemeTokens, Nat.add_assoc]

end Scanner

/-! ### The front of a text -/

/-- The gap before a text that begins with no blank is empty. -/
theorem Gap.chars_eq_nil_of_breaks (gap : Gap) {rest : List Char}
    (h : Breaks Scanner.isBlank (gap.chars ++ rest)) : gap.chars = [] := by
  obtain ⟨chars, hblank⟩ := gap
  cases chars with
  | nil => rfl
  | cons c more =>
    have hc := hblank c List.mem_cons_self
    rw [h c rfl] at hc
    cases hc

/-- What stands at the front of a text that begins with no blank, and the entry that it gives. -/
inductive Front : List Char → Nat → Scanned → Prop where
  | finish (position : Nat) : Front [] position (.ok ⟨.endOfInput, position⟩)
  | lexeme (lexeme : Lexeme) (rest : List Char) (position : Nat) (hends : lexeme.EndsBefore rest) :
      Front (lexeme.chars ++ rest) position (.ok ⟨lexeme.token, position⟩)
  | misspelling (m : Misspelling) (rest : List Char) (position : Nat) (hstays : m.StaysBefore rest) :
      Front (m.before ++ m.character :: rest) position
        (.error (m.errorAt (position + m.before.length)))

namespace Scanner

/-- What stands at the front gives the first entry. -/
theorem all_front {chars : List Char} {position : Nat} {entry : Scanned}
    (h : Front chars position entry) :
    ∃ more, (Scanner.mk chars position).all = entry :: more := by
  cases h with
  | finish => exact ⟨[], all_gap .empty position⟩
  | lexeme lexeme rest _ hends => exact ⟨_, all_lexeme .empty lexeme hends position⟩
  | misspelling m rest _ hstays => exact ⟨_, all_misspelling .empty m hstays position⟩

/-- Behind a layout the next entry is that of the front of the rest. -/
theorem all_laidChars_front {laid : Laid} {rest : List Char} (hends : EndBefore rest laid)
    (gap : Gap) (position : Nat) {entry : Scanned}
    (hfront : Front rest (position + (laidChars gap laid).length) entry) :
    ∃ more, (Scanner.mk (laidChars gap laid ++ rest) position).all =
      (lexemeTokens position gap laid).map .ok ++ entry :: more := by
  obtain ⟨more, hall⟩ := all_front hfront
  exact ⟨more, by rw [all_laidChars_append hends, hall]⟩

end Scanner

/-- Where no blank stands, there is something at the front. -/
theorem exists_front_of_breaks {chars : List Char} (h : Breaks Scanner.isBlank chars)
    (position : Nat) : ∃ entry, Front chars position entry := by
  cases opening chars with
  -- in each opening the gap is empty, since no blank stands first
  | gap gap =>
    rw [← List.append_nil gap.chars] at h
    rw [gap.chars_eq_nil_of_breaks h]
    exact ⟨_, .finish position⟩
  | lexeme gap lexeme rest hends =>
    rw [gap.chars_eq_nil_of_breaks h]
    exact ⟨_, .lexeme lexeme rest position hends⟩
  | misspelling gap m rest hstays =>
    rw [gap.chars_eq_nil_of_breaks h]
    exact ⟨_, .misspelling m rest position hstays⟩

/-- **What follows a layout**: tokens at the beginning of the entries of a text are those of a
layout at the beginning of the text, and the entry behind them is what stands at the front of the
rest. -/
theorem exists_front {s : Scanner} {tokens : List LocatedToken} {entry : Scanned}
    {more : List Scanned} (hall : s.all = tokens.map .ok ++ entry :: more) :
    ∃ gap laid rest, s.rest = laidChars gap laid ++ rest ∧ EndBefore rest laid ∧
      lexemeTokens s.position gap laid = tokens ∧
      Front rest (s.position + (laidChars gap laid).length) entry := by
  induction s using Scanner.induction_on_openings generalizing tokens with
  | gap gap position =>
    rw [Scanner.all_gap] at hall
    -- the end is the only entry
    cases tokens with
    | nil =>
      obtain ⟨rfl, -⟩ := List.cons.inj hall
      exact ⟨gap, [], [], (List.append_nil _).symm, trivial, rfl, .finish _⟩
    | cons token tokens => simp at hall
  | lexeme gap lexeme rest position hends ih =>
    rw [Scanner.all_lexeme gap lexeme hends] at hall
    cases tokens with
    | nil =>
      obtain ⟨rfl, -⟩ := List.cons.inj hall
      exact ⟨gap, [], lexeme.chars ++ rest, rfl, trivial, rfl, .lexeme lexeme rest _ hends⟩
    | cons token tokens =>
      -- the lexeme is laid before the layout of the other tokens
      obtain ⟨htoken, hrest⟩ := List.cons.inj hall
      obtain rfl := Except.ok.inj htoken
      obtain ⟨next, laid, tail, rfl, hlaid, rfl, hfront⟩ := ih hrest
      refine ⟨gap, (lexeme, next) :: laid, tail, by simp [laidChars], ⟨hends, hlaid⟩, rfl, ?_⟩
      simpa [laidChars, Nat.add_assoc] using hfront
  -- an error comes first, so that there are no tokens before it
  | misspelling gap m rest position hstays _ =>
    rw [Scanner.all_misspelling gap m hstays] at hall
    cases tokens with
    | nil =>
      obtain ⟨rfl, -⟩ := List.cons.inj hall
      exact ⟨gap, [], _, rfl, trivial, rfl, .misspelling m rest _ hstays⟩
    | cons token tokens => cases (List.cons.inj hall).1

/-! ## §2 Blanks between the characters of a text

Blanks may be inserted anywhere into a text but between two characters of a number. What is found is
the same then, and what stood behind the blanks is found that many characters further on
(`all_insert`). -/

/-! ### Relocated entries -/

def LocatedToken.relocate (f : Nat → Nat) (token : LocatedToken) : LocatedToken :=
  ⟨token.token, f token.position⟩

def LexicalError.relocate (f : Nat → Nat) (e : LexicalError) : LexicalError :=
  ⟨e.fault, f e.position, e.character⟩

/-- An entry with its position moved by `f`. -/
def relocateEntry (f : Nat → Nat) : Scanned → Scanned
  | .ok token => .ok (token.relocate f)
  | .error e => .error (e.relocate f)

/-- The position after `n` characters have been inserted at `i`. -/
def moved (i n position : Nat) : Nat :=
  if position < i then position else position + n

theorem moved_of_lt {i n position : Nat} (h : position < i) : moved i n position = position :=
  if_pos h

theorem moved_of_le {i n position : Nat} (h : i ≤ position) :
    moved i n position = position + n :=
  if_neg (Nat.not_lt.mpr h)

/-- Scanning goes on behind the wrong character, or before it. -/
theorem Misspelling.exists_resume_eq (m : Misspelling) :
    ∃ passed left : List Char, passed ++ left = [m.character] ∧
      ∀ position rest, m.resume position rest = ⟨left ++ rest, position + passed.length⟩ := by
  cases m with
  | secondDot => exact ⟨[], ['.'], rfl, fun _ _ => rfl⟩
  | unrecognized c h => exact ⟨[c], [], rfl, fun _ _ => rfl⟩
  | leadingDot => exact ⟨['.'], [], rfl, fun _ _ => rfl⟩
  | trailingDot => exact ⟨['.'], [], rfl, fun _ _ => rfl⟩

namespace Scanner

/-- At another position the same is found, with all positions moved alike. -/
theorem all_relocate {f : Nat → Nat} (s : Scanner) (start : Nat)
    (h : ∀ n, f (s.position + n) = start + n) :
    (Scanner.mk s.rest start).all = s.all.map (relocateEntry f) := by
  induction s using induction_on_openings generalizing start with
  | gap gap position =>
    rw [all_gap, all_gap, ← h]
    rfl
  | lexeme gap lexeme rest position hends ih =>
    have hrest : ∀ n, f (position + gap.chars.length + lexeme.chars.length + n) =
        start + gap.chars.length + lexeme.chars.length + n := by
      intro n
      simp only [Nat.add_assoc]
      exact h _
    rw [all_lexeme gap lexeme hends, all_lexeme gap lexeme hends, ih _ hrest, ← h]
    rfl
  -- the error moves with its character, and the rest with where scanning goes on
  | misspelling gap m rest position hstays ih =>
    obtain ⟨passed, left, -, hresume⟩ := m.exists_resume_eq
    rw [hresume] at ih
    have hrest : ∀ n, f (position + gap.chars.length + m.before.length + passed.length + n) =
        start + gap.chars.length + m.before.length + passed.length + n := by
      intro n
      simp only [Nat.add_assoc]
      exact h _
    have herror := h (gap.chars.length + m.before.length)
    simp only [← Nat.add_assoc] at herror
    rw [all_misspelling gap m hstays, all_misspelling gap m hstays, hresume, hresume, ih _ hrest,
      ← herror]
    rfl

end Scanner

/-! ### Where blanks can be inserted -/

/-- The characters before and behind the place are both such as belong to a number. -/
def Joined (before behind : List Char) : Prop :=
  ∃ c ∈ before.getLast?, ∃ d ∈ behind.head?, continuesNumber c = true ∧ continuesNumber d = true

/-- Whether characters are joined depends on the nearest ones alone. -/
theorem Joined.append_left {before behind : List Char} (h : Joined before behind)
    (more : List Char) : Joined (more ++ before) behind := by
  obtain ⟨c, hc, hbehind⟩ := h
  refine ⟨c, ?_, hbehind⟩
  rw [List.getLast?_append, Option.mem_def.mp hc]
  rfl

/-- What follows the nearest characters has no part in it. -/
theorem Joined.append_right {before behind : List Char} (h : Joined before behind)
    (more : List Char) : Joined before (behind ++ more) := by
  obtain ⟨c, hc, d, hd, hjoined⟩ := h
  refine ⟨c, hc, d, ?_, hjoined⟩
  rw [List.head?_append, Option.mem_def.mp hd]
  rfl

/-- A single character, or characters of a number. -/
def Unbroken (piece : List Char) : Prop :=
  piece.length = 1 ∨ ∀ c ∈ piece, continuesNumber c = true

/-- Inside of an unbroken piece all characters are joined. -/
theorem Unbroken.joined {before behind : List Char} (h : Unbroken (before ++ behind))
    (hbefore : before ≠ []) (hbehind : behind ≠ []) : Joined before behind := by
  obtain ⟨d, behind, rfl⟩ := List.exists_cons_of_ne_nil hbehind
  rcases before.eq_nil_or_concat with rfl | ⟨before, c, rfl⟩
  · exact absurd rfl hbefore
  · rcases h with hone | hall
    · simp at hone
      omega
    · exact ⟨c, by simp, d, rfl, hall c (by simp), hall d (by simp)⟩

theorem Lexeme.unbroken (lexeme : Lexeme) : Unbroken lexeme.chars := by
  cases lexeme with
  | number numeral => exact .inr fun c hc => numeral.continuesNumber_of_mem hc
  | sign operator => exact .inl rfl

theorem Numeral.unbroken_dot (numeral : Numeral) : Unbroken (numeral.chars ++ ['.']) := by
  refine .inr fun c hc => ?_
  rcases List.mem_append.mp hc with hnumeral | hdot
  · exact numeral.continuesNumber_of_mem hnumeral
  · obtain rfl := List.mem_singleton.mp hdot
    rfl

/-- Up to the wrong character, and with it, a misspelling is unbroken. -/
theorem Misspelling.unbroken (m : Misspelling) : Unbroken (m.before ++ [m.character]) := by
  cases m with
  | unrecognized => exact .inl rfl
  | leadingDot => exact .inl rfl
  | trailingDot digits => exact (Numeral.whole digits).unbroken_dot
  | secondDot digits fraction => exact (Numeral.decimal digits fraction).unbroken_dot

/-- Where characters are not joined there are only blanks before, or an unbroken piece ends before,
if the text begins with one behind a gap. -/
theorem blank_or_behind {gap : Gap} {piece rest u v : List Char} (hpiece : Unbroken piece)
    (hjoined : ¬ Joined u v) (h : gap.chars ++ (piece ++ rest) = u ++ v) :
    (∃ blanks : Gap, u = blanks.chars) ∨
      ∃ u', u = gap.chars ++ (piece ++ u') ∧ rest = u' ++ v := by
  -- the place is behind the gap, or in it
  rcases List.append_eq_append_iff.mp h with ⟨inner, rfl, hinner⟩ | ⟨behind, hgap, -⟩
  · rcases List.append_eq_append_iff.mp hinner with ⟨u', rfl, hrest⟩ | ⟨tail, rfl, rfl⟩
    · exact .inr ⟨u', rfl, hrest⟩
    · -- the piece would be divided
      by_cases hempty : inner = []
      · exact .inl ⟨gap, by rw [hempty, List.append_nil]⟩
      · by_cases htail : tail = []
        · refine .inr ⟨[], ?_, ?_⟩
          · simp [htail]
          · simp [htail]
        · have hinside := hpiece.joined hempty htail
          exact absurd ((hinside.append_left gap.chars).append_right rest) hjoined
  · refine .inl ⟨⟨u, fun c hc => gap.blank c ?_⟩, rfl⟩
    rw [hgap]
    exact List.mem_append_left _ hc

/-- Blanks belong to no other class, so that they break a run where the rest does. -/
theorem Breaks.gap_append {p : Char → Bool} (hp : ∀ c, Scanner.isBlank c = true → p c = false)
    (gap : Gap) {rest : List Char} (h : Breaks p rest) : Breaks p (gap.chars ++ rest) := by
  obtain ⟨chars, hblank⟩ := gap
  cases chars with
  | nil => exact h
  | cons c chars => exact .cons (hp c (hblank c List.mem_cons_self)) _

/-- A lexeme that ends still ends when blanks are inserted behind it. -/
theorem Lexeme.EndsBefore.insert_gap {lexeme : Lexeme} {u v : List Char}
    (h : lexeme.EndsBefore (u ++ v)) (gap : Gap) : lexeme.EndsBefore (u ++ (gap.chars ++ v)) := by
  cases lexeme with
  | number numeral =>
    exact Breaks.append_of h (Breaks.gap_append (fun _ => continuesNumber_of_isBlank) gap)
  | sign operator => trivial

/-- A misspelling stays one when blanks are inserted behind it. -/
theorem Misspelling.StaysBefore.insert_gap {m : Misspelling} {u v : List Char}
    (h : m.StaysBefore (u ++ v)) (gap : Gap) : m.StaysBefore (u ++ (gap.chars ++ v)) := by
  cases m with
  -- only a trailing point minds what follows, and a blank is no digit
  | trailingDot digits =>
    have hdigit : ∀ c, Scanner.isBlank c = true → c.isDigit = false :=
      fun c hc => (Bool.or_eq_false_iff.mp (continuesNumber_of_isBlank hc)).1
    exact Breaks.append_of h (Breaks.gap_append hdigit gap)
  | unrecognized => trivial
  | leadingDot => trivial
  | secondDot => trivial

/-! ### Scanning a text with more blanks -/

namespace Scanner

/-- Blanks behind blanks move all that is found. -/
theorem all_insert_behind_blanks (blanks gap : Gap) (rest : List Char) (position : Nat) :
    (Scanner.mk (blanks.chars ++ (gap.chars ++ rest)) position).all =
      (Scanner.mk (blanks.chars ++ rest) position).all.map
        (relocateEntry (moved (position + blanks.chars.length) gap.chars.length)) := by
  rw [all_gap_append, all_gap_append, all_gap_append]
  -- both scan the rest, from positions that differ by the length of the gap
  refine all_relocate ⟨rest, position + blanks.chars.length⟩ _ fun n => ?_
  rw [moved_of_le (Nat.le_add_right _ _), Nat.add_right_comm]

section Pieces

variable {gap blanks : Gap} {u v : List Char} {position i n : Nat}

/-- Blanks behind a lexeme matter as little as they do without it. -/
theorem all_insert_behind_lexeme {lexeme : Lexeme} (hends : lexeme.EndsBefore (u ++ v))
    (hi : position + gap.chars.length < i)
    (hbehind : (Scanner.mk (u ++ (blanks.chars ++ v))
        (position + gap.chars.length + lexeme.chars.length)).all =
      (Scanner.mk (u ++ v) (position + gap.chars.length + lexeme.chars.length)).all.map
        (relocateEntry (moved i n))) :
    (Scanner.mk (gap.chars ++ (lexeme.chars ++ (u ++ (blanks.chars ++ v)))) position).all =
      (Scanner.mk (gap.chars ++ (lexeme.chars ++ (u ++ v))) position).all.map
        (relocateEntry (moved i n)) := by
  rw [all_lexeme gap lexeme (hends.insert_gap blanks), all_lexeme gap lexeme hends, hbehind,
    List.map_cons, relocateEntry, LocatedToken.relocate, moved_of_lt hi]

/-- Blanks behind a misspelling matter as little as they do without it. -/
theorem all_insert_behind_misspelling {m : Misspelling} (hstays : m.StaysBefore (u ++ v))
    (hi : position + gap.chars.length + m.before.length < i)
    (hbehind : (m.resume (position + gap.chars.length + m.before.length)
        (u ++ (blanks.chars ++ v))).all =
      (m.resume (position + gap.chars.length + m.before.length) (u ++ v)).all.map
        (relocateEntry (moved i n))) :
    (Scanner.mk (gap.chars ++ (m.before ++ m.character :: (u ++ (blanks.chars ++ v))))
        position).all =
      (Scanner.mk (gap.chars ++ (m.before ++ m.character :: (u ++ v))) position).all.map
        (relocateEntry (moved i n)) := by
  rw [all_misspelling gap m (hstays.insert_gap blanks), all_misspelling gap m hstays, hbehind,
    List.map_cons, relocateEntry, LexicalError.relocate, Misspelling.errorAt, moved_of_lt hi]

end Pieces

/-- **Blanks between characters**: blanks that are inserted where no characters of a number are
joined change nothing but the positions behind them. -/
theorem all_insert {u v : List Char} (hjoined : ¬ Joined u v) (blanks : Gap) (position : Nat) :
    (Scanner.mk (u ++ (blanks.chars ++ v)) position).all =
      (Scanner.mk (u ++ v) position).all.map
        (relocateEntry (moved (position + u.length) blanks.chars.length)) := by
  generalize hs : Scanner.mk (u ++ v) position = s
  -- the text is taken apart in front of the place, which is found in the rest or in the gap
  induction s using induction_on_openings generalizing u position with
  | gap gap position =>
    obtain ⟨hchars, rfl⟩ := Scanner.mk.inj hs
    have hblank : ∀ c ∈ u, isBlank c = true := by
      intro c hc
      refine gap.blank c ?_
      rw [← hchars]
      exact List.mem_append_left _ hc
    rw [← hchars]
    exact all_insert_behind_blanks ⟨u, hblank⟩ blanks v _
  | lexeme gap lexeme rest position hends ih =>
    obtain ⟨hchars, rfl⟩ := Scanner.mk.inj hs
    rcases blank_or_behind lexeme.unbroken hjoined hchars.symm with ⟨before, rfl⟩ | ⟨u', rfl, rfl⟩
    · rw [← hchars]
      exact all_insert_behind_blanks before blanks v _
    -- the place is behind the lexeme: the blanks are inserted into the rest
    · have hjoined' : ¬ Joined u' v :=
        fun h => hjoined ((h.append_left lexeme.chars).append_left gap.chars)
      have hplace : position + (gap.chars ++ (lexeme.chars ++ u')).length =
          position + gap.chars.length + lexeme.chars.length + u'.length := by
        simp only [List.length_append]
        omega
      rw [List.append_assoc, List.append_assoc, hplace]
      refine all_insert_behind_lexeme hends ?_ (ih hjoined' _ rfl)
      have hpos := List.length_pos_iff.mpr lexeme.chars_ne_nil
      omega
  | misspelling gap m rest position hstays ih =>
    obtain ⟨hchars, rfl⟩ := Scanner.mk.inj hs
    have hpiece : gap.chars ++ ((m.before ++ [m.character]) ++ rest) = u ++ v := by
      rw [hchars, List.append_assoc]
      rfl
    rcases blank_or_behind m.unbroken hjoined hpiece with ⟨before, rfl⟩ | ⟨u', rfl, rfl⟩
    · rw [← hchars]
      exact all_insert_behind_blanks before blanks v _
    · obtain ⟨passed, left, hsplit, hresume⟩ := m.exists_resume_eq
      -- what is left of the wrong character stands before the blanks too
      have hjoined' : ¬ Joined (left ++ u') v := by
        intro h
        apply hjoined
        rw [← hsplit]
        have hleft := h.append_left (gap.chars ++ (m.before ++ passed))
        simpa only [List.append_assoc] using hleft
      have hone : passed.length + left.length = 1 := by
        rw [← List.length_append, hsplit]
        rfl
      have hplace : position + (gap.chars ++ (m.before ++ [m.character] ++ u')).length =
          position + gap.chars.length + m.before.length + passed.length + (left ++ u').length := by
        simp only [List.length_append, List.length_singleton]
        omega
      have hchars' : gap.chars ++ (m.before ++ [m.character] ++ u') ++ (blanks.chars ++ v) =
          gap.chars ++ (m.before ++ m.character :: (u' ++ (blanks.chars ++ v))) := by
        simp
      rw [hchars', hplace]
      refine all_insert_behind_misspelling hstays ?_ ?_
      · rw [List.length_append]
        omega
      · have hbehind := ih hjoined' _ (by rw [hresume, List.append_assoc])
        rwa [List.append_assoc, ← hresume] at hbehind

end Scanner

end AddingMachine
