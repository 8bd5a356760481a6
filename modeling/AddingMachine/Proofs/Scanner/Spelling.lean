import AddingMachine.Proofs.Grammar

/-!
# One step of scanning

How a text can begin, and what a scanner gives in each of these cases.
-/

namespace AddingMachine

/-! ## §1 How a text begins

A text begins with a gap, and then it ends, or a lexeme follows that cannot be continued, or a
misspelling. `opening` says that these are all the cases, so whoever knows what a scanner gives in
each of them knows a step of scanning. -/

/-! ### Gaps and numerals -/

/-- Spaces and tabs, or nothing. -/
@[ext]
structure Gap where
  chars : List Char
  blank : ∀ c ∈ chars, Scanner.isBlank c = true

def Gap.empty : Gap :=
  ⟨[], fun _ h => nomatch h⟩

/-- Digits, and at least one. -/
@[ext]
structure Digits where
  chars : List Char
  ne_nil : chars ≠ []
  digit : ∀ c ∈ chars, c.isDigit = true

/-- A written number: digits, and perhaps a point and more digits. -/
inductive Numeral where
  | whole (digits : Digits)
  | decimal (digits fraction : Digits)

namespace Numeral

def chars : Numeral → List Char
  | .whole digits => digits.chars
  | .decimal digits fraction => digits.chars ++ '.' :: fraction.chars

/-- The double nearest to the number that is written. -/
def value : Numeral → Binary64
  | .whole digits => (Decimal.ofDigits digits.chars []).toBinary64 false
  | .decimal digits fraction => (Decimal.ofDigits digits.chars fraction.chars).toBinary64 false

end Numeral

/-! ### Runs of characters -/

/-- The text does not go on with a character of the class. -/
def Breaks (p : Char → Bool) (rest : List Char) : Prop :=
  ∀ c ∈ rest.head?, p c = false

section Runs

variable {p : Char → Bool} {run rest : List Char}

/-- A run that breaks off is what is taken of its class. -/
theorem takeWhile_run (hrun : ∀ c ∈ run, p c = true) (hrest : Breaks p rest) :
    (run ++ rest).takeWhile p = run := by
  rw [List.takeWhile_append_of_pos hrun]
  cases rest with
  | nil => simp
  | cons c rest =>
    -- the first character behind the run is not of the class
    simp [hrest c rfl]

theorem dropWhile_run (hrun : ∀ c ∈ run, p c = true) (hrest : Breaks p rest) :
    (run ++ rest).dropWhile p = rest := by
  rw [List.dropWhile_append_of_pos hrun]
  cases rest with
  | nil => rfl
  | cons c rest => simp [hrest c rfl]

/-- Every text begins with a run of a class, if an empty one, that is as long as can be. -/
theorem exists_run (p : Char → Bool) (chars : List Char) :
    ∃ run rest, chars = run ++ rest ∧ (∀ c ∈ run, p c = true) ∧ Breaks p rest := by
  refine ⟨chars.takeWhile p, chars.dropWhile p, List.takeWhile_append_dropWhile.symm, ?_, ?_⟩
  · exact fun c hc => List.all_eq_true.mp List.all_takeWhile c hc
  · intro c hc
    have hnot := List.head?_dropWhile_not p chars
    rw [Option.mem_def.mp hc] at hnot
    simpa using hnot

end Runs

/-! ### Lexemes and misspellings -/

/-- Whether a character behind a number would belong to it, rightly or wrongly. -/
def continuesNumber (c : Char) : Bool :=
  c.isDigit || c = '.'

/-- The text of a token. -/
inductive Lexeme where
  | number (numeral : Numeral)
  | sign (operator : Operator)

namespace Lexeme

def chars : Lexeme → List Char
  | .number numeral => numeral.chars
  | .sign operator => [operator.symbol]

def token : Lexeme → Token
  | .number numeral => .number numeral.value
  | .sign operator => operator.token

/-- The text that follows cannot belong to the lexeme: behind a number stands neither a digit nor a
point. -/
def EndsBefore : Lexeme → List Char → Prop
  | .number _, rest => Breaks continuesNumber rest
  | .sign _, _ => True

end Lexeme

/-- Whether a character has a use in the language. -/
def isRecognized (c : Char) : Bool :=
  c.isDigit || c = '.' || c = '+' || c = '-' || Scanner.isBlank c

/-- What can stand in the place of a lexeme and is none. -/
inductive Misspelling where
  /-- A character without use. -/
  | unrecognized (c : Char) (h : isRecognized c = false)
  /-- A point with no digits before it. -/
  | leadingDot
  /-- Digits and a point, but no digits behind it. -/
  | trailingDot (digits : Digits)
  /-- Digits, a point and digits, and a point again. -/
  | secondDot (digits fraction : Digits)

namespace Misspelling

/-- The characters before the wrong one. -/
def before : Misspelling → List Char
  | .unrecognized _ _ => []
  | .leadingDot => []
  | .trailingDot digits => digits.chars
  | .secondDot digits fraction => digits.chars ++ '.' :: fraction.chars

def character : Misspelling → Char
  | .unrecognized c _ => c
  | _ => '.'

def fault : Misspelling → LexicalFault
  | .unrecognized _ _ => .unrecognizedCharacter
  | .leadingDot => .leadingDot
  | .trailingDot _ => .trailingDot
  | .secondDot _ _ => .secondDot

/-- The error of a misspelling whose wrong character is at the position. -/
def errorAt (m : Misspelling) (position : Nat) : LexicalError :=
  ⟨m.fault, position, m.character⟩

/-- The text that follows leaves it a misspelling: behind a trailing point stands no digit. -/
def StaysBefore : Misspelling → List Char → Prop
  | .trailingDot _, rest => Breaks Char.isDigit rest
  | _, _ => True

/-- Where scanning goes on: behind the wrong character, but a second point is not passed. -/
def resume (m : Misspelling) (position : Nat) (rest : List Char) : Scanner :=
  match m with
  | .secondDot _ _ => ⟨'.' :: rest, position⟩
  | _ => ⟨rest, position + 1⟩

end Misspelling

/-- The ways in which a text can begin. -/
inductive Opening : List Char → Prop where
  | gap (gap : Gap) : Opening gap.chars
  /-- Behind a gap stands a lexeme, which cannot be continued. -/
  | lexeme (gap : Gap) (lexeme : Lexeme) (rest : List Char) (hends : lexeme.EndsBefore rest) :
      Opening (gap.chars ++ (lexeme.chars ++ rest))
  | misspelling (gap : Gap) (m : Misspelling) (rest : List Char) (hstays : m.StaysBefore rest) :
      Opening (gap.chars ++ (m.before ++ m.character :: rest))

/-! ### There are no other openings -/

theorem Digits.exists_cons (digits : Digits) :
    ∃ c more, digits.chars = c :: more ∧ c.isDigit = true := by
  obtain ⟨chars, hne, hdigit⟩ := digits
  cases chars with
  | nil => exact absurd rfl hne
  | cons c more => exact ⟨c, more, rfl, hdigit c List.mem_cons_self⟩

/-- A numeral begins with a digit. -/
theorem Numeral.exists_cons (numeral : Numeral) :
    ∃ c more, numeral.chars = c :: more ∧ c.isDigit = true := by
  cases numeral with
  | whole digits => exact digits.exists_cons
  | decimal digits fraction =>
    obtain ⟨c, more, hchars, hdigit⟩ := digits.exists_cons
    exact ⟨c, more ++ '.' :: fraction.chars, by simp [chars, hchars], hdigit⟩

theorem Breaks.nil (p : Char → Bool) : Breaks p [] :=
  fun _ hc => nomatch hc

theorem Breaks.cons {p : Char → Bool} {c : Char} (h : p c = false) (rest : List Char) :
    Breaks p (c :: rest) := by
  intro d hd
  obtain rfl : c = d := Option.some.inj hd
  exact h

/-- Where a number ends, its digits end. -/
theorem Breaks.isDigit {rest : List Char} (h : Breaks continuesNumber rest) :
    Breaks Char.isDigit rest :=
  fun c hc => (Bool.or_eq_false_iff.mp (h c hc)).1

/-- Where a number ends, there is no point. -/
theorem Breaks.ne_dot_cons {rest : List Char} (h : Breaks continuesNumber rest)
    (more : List Char) : rest ≠ '.' :: more := by
  intro hrest
  subst hrest
  have hdot := h '.' rfl
  simp [continuesNumber] at hdot

/-- Where digits end, a number ends, or there is a point. -/
theorem Breaks.digit_or_dot {rest : List Char} (h : Breaks Char.isDigit rest) :
    Breaks continuesNumber rest ∨ ∃ more, rest = '.' :: more := by
  cases rest with
  | nil => exact .inl (.nil _)
  | cons c more =>
    by_cases hc : c = '.'
    · exact .inr ⟨more, by rw [hc]⟩
    · exact .inl (.cons (by simp [continuesNumber, h c rfl, hc]) more)

/-- Every text that begins with digits, as many as there are, has an opening. -/
theorem opening_digits (gap : Gap) (digits : Digits) {rest : List Char}
    (hrest : Breaks Char.isDigit rest) : Opening (gap.chars ++ (digits.chars ++ rest)) := by
  rcases hrest.digit_or_dot with hends | ⟨more, rfl⟩
  · exact .lexeme gap (.number (.whole digits)) rest hends
  · -- what stands behind the point decides
    obtain ⟨run, tail, rfl, hrun, htail⟩ := exists_run Char.isDigit more
    by_cases hempty : run = []
    -- no digits behind it: the point is the last character of a misspelling
    · subst hempty
      exact .misspelling gap (.trailingDot digits) tail htail
    · rcases htail.digit_or_dot with hends | ⟨last, rfl⟩
      -- a fraction, behind which the number ends
      · have h := Opening.lexeme gap (.number (.decimal digits ⟨run, hempty, hrun⟩)) tail hends
        simpa [Lexeme.chars, Numeral.chars] using h
      -- a fraction and a point again
      · have h := Opening.misspelling gap (.secondDot digits ⟨run, hempty, hrun⟩) last trivial
        simpa [Misspelling.before, Misspelling.character] using h

/-- A character that is neither a digit nor blank is a sign or a point, or has no use. -/
theorem isRecognized_cases {c : Char} (hdigit : ¬ c.isDigit = true)
    (hblank : Scanner.isBlank c = false) :
    c = '+' ∨ c = '-' ∨ c = '.' ∨ isRecognized c = false := by
  simp only [isRecognized, hdigit, hblank]
  by_cases hplus : c = '+'
  · exact .inl hplus
  · by_cases hminus : c = '-'
    · exact .inr (.inl hminus)
    · simp [hplus, hminus, Decidable.em]

/-- **Every text has an opening.** -/
theorem opening (chars : List Char) : Opening chars := by
  obtain ⟨blanks, rest, rfl, hblank, hrest⟩ := exists_run Scanner.isBlank chars
  let gap : Gap := ⟨blanks, hblank⟩
  -- the gap is as long as can be, so a character behind it is not blank
  cases rest with
  | nil =>
    rw [List.append_nil]
    exact .gap gap
  | cons c rest =>
    by_cases hdigit : c.isDigit = true
    · -- all digits are taken, so that no more of them follow
      obtain ⟨run, tail, hsplit, hrun, htail⟩ := exists_run Char.isDigit (c :: rest)
      have hne : run ≠ [] := by
        rintro rfl
        obtain rfl : c :: rest = tail := hsplit
        exact absurd hdigit (by simp [htail c rfl])
      rw [hsplit]
      exact opening_digits gap ⟨run, hne, hrun⟩ htail
    · rcases isRecognized_cases hdigit (hrest c rfl) with rfl | rfl | rfl | hc
      · exact .lexeme gap (.sign .add) rest trivial
      · exact .lexeme gap (.sign .subtract) rest trivial
      · exact .misspelling gap .leadingDot rest trivial
      · exact .misspelling gap (.unrecognized c hc) rest trivial

/-! ## §2 A step of scanning

What a scanner gives, and where it stands then, for each opening of the text before it: behind a gap
the end (`next_gap`), the token of a lexeme (`next_lexeme`) or the error of a misspelling
(`next_misspelling`). -/

namespace Scanner

/-! ### Behind a gap -/

/-- A gap is passed, and the position goes on by its length. -/
theorem skipBlanks_gap (gap : Gap) {rest : List Char} (hrest : Breaks isBlank rest)
    (position : Nat) :
    (Scanner.mk (gap.chars ++ rest) position).skipBlanks =
      ⟨rest, position + gap.chars.length⟩ := by
  simp [skipBlanks, takeWhile_run gap.blank hrest, dropWhile_run gap.blank hrest]

theorem isBlank_of_isDigit {c : Char} (h : c.isDigit = true) : isBlank c = false := by
  unfold isBlank
  have hspace : c ≠ ' ' := by
    rintro rfl
    simp at h
  have htab : c ≠ '\t' := by
    rintro rfl
    simp at h
  simp [hspace, htab]

theorem breaks_digits (digits : Digits) (rest : List Char) :
    Breaks isBlank (digits.chars ++ rest) := by
  obtain ⟨c, more, hchars, hdigit⟩ := digits.exists_cons
  rw [hchars]
  exact .cons (isBlank_of_isDigit hdigit) _

/-- A gap ends at a lexeme: a number begins with a digit, and a sign is not blank. -/
theorem breaks_lexeme (lexeme : Lexeme) (rest : List Char) :
    Breaks isBlank (lexeme.chars ++ rest) := by
  cases lexeme with
  | number numeral =>
    obtain ⟨c, more, hchars, hdigit⟩ := numeral.exists_cons
    simp only [Lexeme.chars, hchars]
    exact .cons (isBlank_of_isDigit hdigit) _
  | sign operator =>
    cases operator with
    | add => exact .cons rfl rest
    | subtract => exact .cons rfl rest

/-- A gap ends at a misspelling. The wrong character can stand first in it, and then it is a point
or has no use. -/
theorem breaks_misspelling (m : Misspelling) (rest : List Char) :
    Breaks isBlank (m.before ++ m.character :: rest) := by
  cases m with
  | unrecognized c h =>
    refine .cons ?_ rest
    simp only [isRecognized, Bool.or_eq_false_iff] at h
    exact h.2
  | leadingDot => exact .cons rfl rest
  | trailingDot digits => exact breaks_digits digits _
  | secondDot digits fraction =>
    simp only [Misspelling.before, List.append_assoc]
    exact breaks_digits digits _

/-! ### Numbers -/

/-- At a digit a number is read. -/
theorem nextToken_digits (digits : Digits) (rest : List Char) (position : Nat) :
    (Scanner.mk (digits.chars ++ rest) position).nextToken =
      (Scanner.mk (digits.chars ++ rest) position).nextNumber := by
  obtain ⟨c, more, hchars, hdigit⟩ := digits.exists_cons
  simp [nextToken, hchars, hdigit]

/-- Digits without a point are a number. -/
theorem nextNumber_whole (digits : Digits) {rest : List Char}
    (hends : Breaks continuesNumber rest) (position : Nat) :
    (Scanner.mk (digits.chars ++ rest) position).nextNumber =
      number position digits.chars [] ⟨rest, position + digits.chars.length⟩ := by
  simp only [nextNumber, takeWhile_run digits.digit hends.isDigit,
    dropWhile_run digits.digit hends.isDigit]
  -- the digits are followed by a point in the first case only, which the end of the number excludes
  split
  next more => exact absurd rfl (hends.ne_dot_cons more)
  next => rfl

/-- Digits and a point leave a number to its fraction. -/
theorem nextNumber_dot (digits : Digits) (rest : List Char) (position : Nat) :
    (Scanner.mk (digits.chars ++ '.' :: rest) position).nextNumber =
      nextFraction position (position + digits.chars.length) digits.chars rest := by
  have hdot : Breaks Char.isDigit ('.' :: rest) := .cons rfl rest
  simp only [nextNumber, takeWhile_run digits.digit hdot, dropWhile_run digits.digit hdot]

/-- Digits behind the point complete the number. -/
theorem nextFraction_digits (start dot : Nat) (whole : List Char) (fraction : Digits)
    {rest : List Char} (hends : Breaks continuesNumber rest) :
    nextFraction start dot whole (fraction.chars ++ rest) =
      number start whole fraction.chars ⟨rest, dot + 1 + fraction.chars.length⟩ := by
  simp only [nextFraction, takeWhile_run fraction.digit hends.isDigit,
    dropWhile_run fraction.digit hends.isDigit, List.isEmpty_iff, fraction.ne_nil, if_false]
  split
  next more => exact absurd rfl (hends.ne_dot_cons more)
  next => rfl

/-- A point behind the fraction is an error at that point. -/
theorem nextFraction_secondDot (start dot : Nat) (whole : List Char) (fraction : Digits)
    (rest : List Char) :
    nextFraction start dot whole (fraction.chars ++ '.' :: rest) =
      failAt .secondDot (dot + 1 + fraction.chars.length) '.'
        ⟨'.' :: rest, dot + 1 + fraction.chars.length⟩ := by
  have hdot : Breaks Char.isDigit ('.' :: rest) := .cons rfl rest
  simp only [nextFraction, takeWhile_run fraction.digit hdot, dropWhile_run fraction.digit hdot,
    List.isEmpty_iff, fraction.ne_nil, if_false]

/-- Without digits behind the point, the point is the error. -/
theorem nextFraction_trailingDot (start dot : Nat) (whole : List Char) {rest : List Char}
    (hrest : Breaks Char.isDigit rest) :
    nextFraction start dot whole rest = failAt .trailingDot dot '.' ⟨rest, dot + 1⟩ := by
  -- the run of digits is empty
  have htake : rest.takeWhile Char.isDigit = [] := takeWhile_run (List.forall_mem_nil _) hrest
  have hdrop : rest.dropWhile Char.isDigit = rest := dropWhile_run (List.forall_mem_nil _) hrest
  simp only [nextFraction, htake, hdrop]
  rfl

/-! ### The three openings -/

/-- Behind a gap the text ends, as often as it is asked. -/
theorem next_gap (gap : Gap) (position : Nat) :
    (Scanner.mk gap.chars position).next =
      (.ok ⟨.endOfInput, position + gap.chars.length⟩,
        ⟨[], position + gap.chars.length⟩) := by
  have hskip := skipBlanks_gap gap (.nil _) position
  rw [List.append_nil] at hskip
  rw [next, hskip]
  rfl

/-- A lexeme that cannot be continued gives its token, and is passed. -/
theorem next_lexeme (gap : Gap) (lexeme : Lexeme) {rest : List Char}
    (hends : lexeme.EndsBefore rest) (position : Nat) :
    (Scanner.mk (gap.chars ++ (lexeme.chars ++ rest)) position).next =
      (.ok ⟨lexeme.token, position + gap.chars.length⟩,
        ⟨rest, position + gap.chars.length + lexeme.chars.length⟩) := by
  rw [next, skipBlanks_gap gap (breaks_lexeme lexeme rest)]
  cases lexeme with
  | number numeral =>
    cases numeral with
    -- the number is read to its end, since what follows does not continue it
    | whole digits =>
      simp only [Lexeme.chars, Numeral.chars]
      rw [nextToken_digits, nextNumber_whole digits hends]
      rfl
    | decimal digits fraction =>
      simp only [Lexeme.chars, Numeral.chars, List.append_assoc, List.cons_append]
      -- the point has been passed, and then the fraction
      rw [nextToken_digits, nextNumber_dot, nextFraction_digits _ _ _ fraction hends]
      simp [number, Lexeme.token, Numeral.value]
      omega
  | sign operator =>
    cases operator with
    | add => rfl
    | subtract => rfl

/-- A misspelling gives its error at the wrong character. -/
theorem next_misspelling (gap : Gap) (m : Misspelling) {rest : List Char}
    (hstays : m.StaysBefore rest) (position : Nat) :
    (Scanner.mk (gap.chars ++ (m.before ++ m.character :: rest)) position).next =
      (.error (m.errorAt (position + gap.chars.length + m.before.length)),
        m.resume (position + gap.chars.length + m.before.length) rest) := by
  rw [next, skipBlanks_gap gap (breaks_misspelling m rest)]
  cases m with
  | unrecognized c h =>
    -- none of the branches for characters of use is taken
    simp only [isRecognized, Bool.or_eq_false_iff, decide_eq_false_iff_not] at h
    obtain ⟨⟨⟨⟨hdigit, hdot⟩, hplus⟩, hminus⟩, -⟩ := h
    simp [nextToken, failAt, Misspelling.before, Misspelling.character, Misspelling.fault,
      Misspelling.errorAt, Misspelling.resume, hdigit, hdot, hplus, hminus]
  | leadingDot => rfl
  -- the digits are read, and behind the point none is found
  | trailingDot digits =>
    simp only [Misspelling.before, Misspelling.character]
    rw [nextToken_digits, nextNumber_dot, nextFraction_trailingDot _ _ _ hstays]
    rfl
  | secondDot digits fraction =>
    simp only [Misspelling.before, Misspelling.character, List.append_assoc, List.cons_append]
    -- the second point is not passed
    rw [nextToken_digits, nextNumber_dot, nextFraction_secondDot]
    simp [failAt, Misspelling.errorAt, Misspelling.fault, Misspelling.character,
      Misspelling.resume]
    omega

end Scanner

end AddingMachine
