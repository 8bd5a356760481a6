import AddingMachine.Proofs.Scanner.Relocation

/-!
# Scanning past errors

A scanner can be asked again after an error, and after the end. Whatever it has given before, it has
passed the characters before its position and no others, and its next step is the first one that a
new scanner makes on the rest. No step passes nothing while there is something left, so that after as
many steps as there are characters only the end is found (`scans_on`).
-/

namespace AddingMachine

namespace Scanner

/-! ## §1 One step -/

/-- What a step gives, and where the scanner stands then. In all cases a gap is passed first. -/
inductive Step (s : Scanner) : Scanned → Scanner → Prop where
  | finish (gap : Gap) (hrest : s.rest = gap.chars) :
      Step s (.ok ⟨.endOfInput, s.position + gap.chars.length⟩) ⟨[], s.position + gap.chars.length⟩
  | lexeme (gap : Gap) (lexeme : Lexeme) (rest : List Char) (hends : lexeme.EndsBefore rest)
      (hrest : s.rest = gap.chars ++ (lexeme.chars ++ rest)) :
      Step s (.ok ⟨lexeme.token, s.position + gap.chars.length⟩)
        ⟨rest, s.position + gap.chars.length + lexeme.chars.length⟩
  | misspelling (gap : Gap) (m : Misspelling) (rest : List Char)
      (hrest : s.rest = gap.chars ++ (m.before ++ m.character :: rest)) :
      Step s (.error (m.errorAt (s.position + gap.chars.length + m.before.length)))
        (m.resume (s.position + gap.chars.length + m.before.length) rest)

/-- What the next step gives is one of the three. -/
theorem step_next (s : Scanner) : s.Step s.next.1 s.next.2 := by
  obtain ⟨chars, position⟩ := s
  cases opening chars with
  | gap gap =>
    rw [next_gap]
    exact .finish gap rfl
  | lexeme gap lexeme rest hends =>
    rw [next_lexeme gap lexeme hends]
    exact .lexeme gap lexeme rest hends rfl
  | misspelling gap m rest hstays =>
    rw [next_misspelling gap m hstays]
    exact .misspelling gap m rest rfl

/-- The scanner has passed the characters before its position, and no others. -/
structure StandsIn (s : Scanner) (chars : List Char) : Prop where
  position_le : s.position ≤ chars.length
  rest_eq : s.rest = chars.drop s.position

/-- A scanner stands in a text if what it has passed makes up the text with what is left. -/
theorem standsIn_iff {s : Scanner} {chars : List Char} :
    s.StandsIn chars ↔ ∃ passed, chars = passed ++ s.rest ∧ s.position = passed.length := by
  constructor
  · rintro ⟨hle, hrest⟩
    refine ⟨chars.take s.position, ?_, (List.length_take_of_le hle).symm⟩
    rw [hrest, List.take_append_drop]
  · rintro ⟨passed, rfl, hposition⟩
    refine ⟨?_, ?_⟩
    · rw [hposition, List.length_append]
      exact Nat.le_add_right _ _
    · rw [hposition, List.drop_left]

namespace Step

variable {s t : Scanner} {entry : Scanned} {chars : List Char}

/-- What a step passes are the characters by which the position moves on. -/
theorem exists_passed (h : s.Step entry t) :
    ∃ passed, s.rest = passed ++ t.rest ∧ t.position = s.position + passed.length ∧
      (s.rest ≠ [] → passed ≠ []) := by
  cases h with
  | finish gap hrest =>
    refine ⟨gap.chars, by rw [hrest, List.append_nil], rfl, fun hne => ?_⟩
    rwa [← hrest]
  | lexeme gap lexeme rest hends hrest =>
    refine ⟨gap.chars ++ lexeme.chars, by rw [hrest, List.append_assoc], ?_, fun _ => ?_⟩
    · rw [List.length_append, Nat.add_assoc]
    · simp
  -- what is passed ends before or behind the wrong character
  | misspelling gap m rest hrest =>
    obtain ⟨passed, left, hsplit, hresume⟩ := m.exists_resume_eq
    have hlt := length_resume_lt gap m rest (s.position + gap.chars.length + m.before.length)
    rw [← hrest, hresume] at hlt
    have hall : s.rest = gap.chars ++ (m.before ++ passed) ++ (left ++ rest) := by
      rw [hrest, ← List.singleton_append, ← hsplit]
      simp only [List.append_assoc]
    rw [hresume]
    refine ⟨_, hall, ?_, fun _ hnone => ?_⟩
    · simp only [List.length_append, Nat.add_assoc]
    · -- nothing would be missing from the rest
      rw [hall, hnone] at hlt
      exact Nat.lt_irrefl _ hlt

/-- A step does not leave the text. -/
theorem standsIn (h : s.Step entry t) (hs : s.StandsIn chars) : t.StandsIn chars := by
  obtain ⟨before, rfl, hposition⟩ := standsIn_iff.mp hs
  obtain ⟨passed, hrest, hmoved, -⟩ := h.exists_passed
  refine standsIn_iff.mpr ⟨before ++ passed, ?_, ?_⟩
  · rw [hrest, List.append_assoc]
  · rw [hmoved, hposition, List.length_append]

/-- While something is left, a step moves on. -/
theorem position_lt (h : s.Step entry t) (hne : s.rest ≠ []) : s.position < t.position := by
  obtain ⟨passed, -, hmoved, hpassed⟩ := h.exists_passed
  have hpos := List.length_pos_iff.mpr (hpassed hne)
  omega

/-- A step leaves less, if anything was left. -/
theorem length_rest_le (h : s.Step entry t) : t.rest.length ≤ s.rest.length - 1 := by
  obtain ⟨passed, hrest, -, hpassed⟩ := h.exists_passed
  by_cases hne : s.rest = []
  · -- nothing is left of nothing
    rw [hne] at hrest
    rw [(List.append_eq_nil_iff.mp hrest.symm).2]
    exact Nat.zero_le _
  · have hpos := List.length_pos_iff.mpr (hpassed hne)
    rw [hrest, List.length_append]
    omega

/-- Where nothing is left, the end is found. -/
theorem eq_finish (h : s.Step entry t) (hs : s.StandsIn chars) (hrest : s.rest = []) :
    entry = .ok ⟨.endOfInput, chars.length⟩ := by
  obtain ⟨before, rfl, hposition⟩ := standsIn_iff.mp hs
  cases h with
  | finish gap hgap =>
    rw [hrest] at hgap
    rw [hrest, List.append_nil, ← hgap, hposition]
    rfl
  | lexeme gap lexeme rest hends hlexeme => simp [hrest] at hlexeme
  | misspelling gap m rest hmisspelling => simp [hrest] at hmisspelling

/-- An error names the character at its position. -/
theorem getElem?_position {e : LexicalError} (h : s.Step (.error e) t) (hs : s.StandsIn chars) :
    chars[e.position]? = some e.character := by
  obtain ⟨before, rfl, hposition⟩ := standsIn_iff.mp hs
  cases h with
  | misspelling gap m rest hrest =>
    -- its position counts all that stands before it
    have hlength : s.position + gap.chars.length + m.before.length =
        (before ++ (gap.chars ++ m.before)).length := by
      simp only [hposition, List.length_append, Nat.add_assoc]
    have hchars : before ++ s.rest =
        before ++ (gap.chars ++ m.before) ++ m.character :: rest := by
      simp only [hrest, List.append_assoc]
    rw [hchars, Misspelling.errorAt, hlength, List.getElem?_append_right (Nat.le_refl _),
      Nat.sub_self]
    rfl

/-- A token is the end of the text, or it is the token of the lexeme that begins at its position and
is passed. -/
theorem lexeme_or_finish {token : LocatedToken} (h : s.Step (.ok token) t)
    (hs : s.StandsIn chars) :
    token = ⟨.endOfInput, chars.length⟩ ∨
      ∃ lexeme : Lexeme, token.token = lexeme.token ∧
        chars.drop token.position = lexeme.chars ++ t.rest ∧ lexeme.EndsBefore t.rest := by
  obtain ⟨before, rfl, hposition⟩ := standsIn_iff.mp hs
  cases h with
  | finish gap hrest =>
    left
    -- behind the gap there is nothing left of the text
    rw [hrest, hposition, List.length_append]
  | lexeme gap lexeme rest hends hrest =>
    refine .inr ⟨lexeme, rfl, ?_, hends⟩
    rw [hrest, hposition, ← List.length_append, ← List.append_assoc, List.drop_left]

end Step

/-! ## §2 Many steps -/

/-- The scanner after some more steps. -/
def after (s : Scanner) : Nat → Scanner
  | 0 => s
  | n + 1 => s.next.2.after n

theorem standsIn_ofText (text : String) : (ofText text).StandsIn text.toList :=
  ⟨Nat.zero_le _, rfl⟩

/-- After any number of steps the scanner stands in the same text, by induction on them. -/
theorem StandsIn.after {s : Scanner} {chars : List Char} (h : s.StandsIn chars) (n : Nat) :
    (s.after n).StandsIn chars := by
  induction n generalizing s with
  | zero => exact h
  | succ n ih => exact ih (s.step_next.standsIn h)

/-- Each step takes a character, while there is one. -/
theorem length_rest_after_le (s : Scanner) (n : Nat) :
    (s.after n).rest.length ≤ s.rest.length - n := by
  induction n generalizing s with
  | zero => exact Nat.le_refl _
  | succ n ih =>
    have hstep := s.step_next.length_rest_le
    have hrest := ih s.next.2
    rw [after]
    omega

/-- The next step is the first one of a new scanner on the rest, whose positions begin at zero. -/
theorem next_eq_relocate (s : Scanner) :
    s.next.1 = relocateEntry (s.position + ·) (ofText (String.ofList s.rest)).next.1 := by
  have hall := (ofText (String.ofList s.rest)).all_relocate (f := (s.position + ·)) s.position
    fun n => congrArg (s.position + ·) (Nat.zero_add n)
  have hrest : Scanner.mk (ofText (String.ofList s.rest)).rest s.position = s := by
    rw [ofText, String.toList_ofList]
  rw [hrest] at hall
  -- the first entries of the two are their next steps
  have hhead := congrArg List.head? hall
  rw [head?_all, List.head?_map, head?_all] at hhead
  exact Option.some.inj hhead

/-- **Scanning goes on**, whatever has been found before. After any number of steps the scanner has
passed the characters before its position, and no others. The next step gives what a new scanner
finds first in the rest, moved to where the rest begins, and it passes at least one character if there
is one left. An error names the character at its position, and a token begins where its lexeme does.
After as many steps as there are characters, only the end is found. -/
theorem scans_on (text : String) (n : Nat) :
    let s := (ofText text).after n
    (s.position ≤ text.length ∧ s.rest = text.toList.drop s.position) ∧
    s.next.1 = relocateEntry (s.position + ·) (ofText (String.ofList s.rest)).next.1 ∧
    (s.rest ≠ [] → s.position < s.next.2.position) ∧
    (∀ e, s.next.1 = .error e → text.toList[e.position]? = some e.character) ∧
    (∀ token, s.next.1 = .ok token → token = ⟨.endOfInput, text.length⟩ ∨
      ∃ lexeme : Lexeme, token.token = lexeme.token ∧
        text.toList.drop token.position = lexeme.chars ++ s.next.2.rest ∧
        lexeme.EndsBefore s.next.2.rest) ∧
    (text.length ≤ n → s.next.1 = .ok ⟨.endOfInput, text.length⟩) := by
  intro s
  have hs : s.StandsIn text.toList := (standsIn_ofText text).after n
  have hstep := s.step_next
  refine ⟨⟨hs.position_le, hs.rest_eq⟩, s.next_eq_relocate, hstep.position_lt, fun e he => ?_,
    fun token htoken => ?_, fun hn => ?_⟩
  · rw [he] at hstep
    exact hstep.getElem?_position hs
  · rw [htoken] at hstep
    exact hstep.lexeme_or_finish hs
  · -- each of the steps has passed a character, until none was left
    have hlength : s.rest.length ≤ text.length - n := (ofText text).length_rest_after_le n
    exact hstep.eq_finish hs (List.length_eq_zero_iff.mp (by omega))

end Scanner

end AddingMachine
