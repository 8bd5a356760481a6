import AddingMachine.Proofs.Scanner.Spelling
import AddingMachine.Reader

/-!
# Entries and layouts

What scanning gives for a whole text, for which texts these are tokens alone, and that such texts can be
divided into lexemes and gaps in one way only.
-/

namespace AddingMachine

/-! ## §1 All entries of a text

Scanning a text to its end is an induction on its openings (`induction_on_openings`). The last entry
is the only end of the input and stands behind the last character (`exists_all_eq`), a token stands
before everything that is found later (`pairwise_all`), and stepping through a text gives its
entries one by one (`steps_eq_take`). -/

@[simp] theorem Lexeme.chars_ne_nil (lexeme : Lexeme) : lexeme.chars ≠ [] := by
  cases lexeme with
  | number numeral =>
    obtain ⟨c, more, hchars, -⟩ := numeral.exists_cons
    simp [chars, hchars]
  | sign operator => simp [chars]

@[simp] theorem Lexeme.token_ne_end (lexeme : Lexeme) : lexeme.token ≠ .endOfInput := by
  cases lexeme with
  | number numeral => exact nofun
  | sign operator =>
    cases operator with
    | add => exact nofun
    | subtract => exact nofun

namespace Scanner

/-! ### Openings one after another -/

/-- The entries by the next step: it gives the last one if only blanks are left. -/
theorem all_eq (s : Scanner) :
    s.all = if s.skipBlanks.rest = [] then [s.next.1] else s.next.1 :: s.next.2.all := by
  rw [all]
  split
  · rfl
  · rfl

/-- The first entry is what the next step gives. -/
theorem head?_all (s : Scanner) : s.all.head? = some s.next.1 := by
  rw [all_eq]
  split
  · rfl
  · rfl

/-- The end is the last entry. -/
theorem all_gap (gap : Gap) (position : Nat) :
    (Scanner.mk gap.chars position).all = [.ok ⟨.endOfInput, position + gap.chars.length⟩] := by
  have hskip : (Scanner.mk gap.chars position).skipBlanks.rest = [] := by
    have h := skipBlanks_gap gap (.nil _) position
    rw [List.append_nil] at h
    rw [h]
  rw [all_eq, if_pos hskip, next_gap]

/-- A lexeme gives one entry, and the rest the others. -/
theorem all_lexeme (gap : Gap) (lexeme : Lexeme) {rest : List Char}
    (hends : lexeme.EndsBefore rest) (position : Nat) :
    (Scanner.mk (gap.chars ++ (lexeme.chars ++ rest)) position).all =
      .ok ⟨lexeme.token, position + gap.chars.length⟩ ::
        (Scanner.mk rest (position + gap.chars.length + lexeme.chars.length)).all := by
  have hskip := skipBlanks_gap gap (breaks_lexeme lexeme rest) position
  rw [all_eq, if_neg (by simp [hskip, lexeme.chars_ne_nil]), next_lexeme gap lexeme hends]

/-- A misspelling gives one entry, and what is scanned from where it is left the others. -/
theorem all_misspelling (gap : Gap) (m : Misspelling) {rest : List Char}
    (hstays : m.StaysBefore rest) (position : Nat) :
    (Scanner.mk (gap.chars ++ (m.before ++ m.character :: rest)) position).all =
      .error (m.errorAt (position + gap.chars.length + m.before.length)) ::
        (m.resume (position + gap.chars.length + m.before.length) rest).all := by
  have hskip := skipBlanks_gap gap (breaks_misspelling m rest) position
  rw [all_eq, if_neg (by simp [hskip]), next_misspelling gap m hstays]

/-- Where scanning goes on behind a misspelling, less text is left. -/
theorem length_resume_lt (gap : Gap) (m : Misspelling) (rest : List Char) (position : Nat) :
    (m.resume position rest).rest.length <
      (gap.chars ++ (m.before ++ m.character :: rest)).length := by
  cases m with
  | secondDot digits fraction =>
    -- the second point is left, but all before it is passed
    simp [Misspelling.resume, Misspelling.before]
    omega
  | unrecognized => simp [Misspelling.resume]; omega
  | leadingDot => simp [Misspelling.resume]; omega
  | trailingDot => simp [Misspelling.resume]; omega

/-- What holds of a scanner before a gap, and is passed on to the front of a lexeme and of a
misspelling, holds of every scanner. -/
theorem induction_on_openings {motive : Scanner → Prop}
    (gap : ∀ (gap : Gap) (position : Nat), motive ⟨gap.chars, position⟩)
    (lexeme : ∀ (gap : Gap) (lexeme : Lexeme) (rest : List Char) (position : Nat),
      lexeme.EndsBefore rest →
      motive ⟨rest, position + gap.chars.length + lexeme.chars.length⟩ →
      motive ⟨gap.chars ++ (lexeme.chars ++ rest), position⟩)
    (misspelling : ∀ (gap : Gap) (m : Misspelling) (rest : List Char) (position : Nat),
      m.StaysBefore rest →
      motive (m.resume (position + gap.chars.length + m.before.length) rest) →
      motive ⟨gap.chars ++ (m.before ++ m.character :: rest), position⟩)
    (s : Scanner) : motive s := by
  -- behind a lexeme or a misspelling less text is left
  induction h : s.rest.length using Nat.strongRecOn generalizing s with
  | _ n ih =>
    obtain ⟨chars, position⟩ := s
    cases opening chars with
    | gap g => exact gap g position
    | lexeme g l rest hends =>
      refine lexeme g l rest position hends (ih _ ?_ _ rfl)
      have hpos := List.length_pos_iff.mpr l.chars_ne_nil
      simp only [← h, List.length_append]
      omega
    -- even where the wrong character is left, something before it is passed
    | misspelling g m rest hstays =>
      exact misspelling g m rest position hstays
        (ih _ (h ▸ length_resume_lt g m rest _) _ rfl)

/-! ### The last entry -/

/-- Where scanning goes on behind a misspelling, the end of the text is as far as it was. -/
theorem resume_end (m : Misspelling) (position : Nat) (rest : List Char) :
    (m.resume position rest).position + (m.resume position rest).rest.length =
      position + 1 + rest.length := by
  cases m with
  | secondDot digits fraction =>
    simp only [Misspelling.resume, List.length_cons]
    omega
  | unrecognized => rfl
  | leadingDot => rfl
  | trailingDot => rfl

/-- The entries of a text are tokens and errors, and then the end behind the last character. -/
theorem exists_all_eq (s : Scanner) :
    ∃ entries, s.all = entries ++ [.ok ⟨.endOfInput, s.position + s.rest.length⟩] ∧
      ∀ token, .ok token ∈ entries → token.token ≠ .endOfInput := by
  induction s using induction_on_openings with
  | gap gap position => exact ⟨[], all_gap gap position, fun _ h => nomatch h⟩
  | lexeme gap lexeme rest position hends ih =>
    obtain ⟨entries, hall, hentries⟩ := ih
    refine ⟨.ok ⟨lexeme.token, position + gap.chars.length⟩ :: entries, ?_, ?_⟩
    · rw [all_lexeme gap lexeme hends, hall]
      simp [Nat.add_assoc]
    · intro token htoken
      rcases List.mem_cons.mp htoken with heq | hmem
      · obtain rfl := Except.ok.inj heq
        exact lexeme.token_ne_end
      · exact hentries token hmem
  -- errors are no tokens, so that nothing is asked of them
  | misspelling gap m rest position hstays ih =>
    obtain ⟨entries, hall, hentries⟩ := ih
    let e := m.errorAt (position + gap.chars.length + m.before.length)
    refine ⟨.error e :: entries, ?_, ?_⟩
    · -- wherever scanning goes on, the text ends at the same place
      have hend : position + gap.chars.length + m.before.length + 1 + rest.length =
          position + (gap.chars ++ (m.before ++ m.character :: rest)).length := by
        simp only [List.length_append, List.length_cons]
        omega
      rw [all_misspelling gap m hstays, hall, resume_end, hend]
      rfl
    · intro token htoken
      rcases List.mem_cons.mp htoken with heq | hmem
      · cases heq
      · exact hentries token hmem

/-- Nothing follows the end. -/
theorem eq_nil_of_end {s : Scanner} {before more : List Scanned} {token : LocatedToken}
    (hall : s.all = before ++ .ok token :: more) (htoken : token.token = .endOfInput) :
    more = [] ∧ token.position = s.position + s.rest.length := by
  obtain ⟨entries, hlast, hentries⟩ := s.exists_all_eq
  rw [hlast] at hall
  rcases more.eq_nil_or_concat with rfl | ⟨init, last, rfl⟩
  -- with nothing behind it, it is the last entry
  · obtain ⟨-, heq⟩ := List.append_inj' hall rfl
    obtain rfl := Except.ok.inj (List.cons.inj heq).1
    exact ⟨rfl, rfl⟩
  · -- the end would be among the entries before the last
    rw [List.concat_eq_append, ← List.cons_append, ← List.append_assoc] at hall
    obtain ⟨hinit, -⟩ := List.append_inj' hall rfl
    exact absurd htoken (hentries token (by simp [hinit]))

/-- Every entry but the last takes a character at least. -/
theorem length_all_le (s : Scanner) : s.all.length ≤ s.rest.length + 1 := by
  induction s using induction_on_openings with
  | gap gap position =>
    rw [all_gap]
    exact Nat.le_add_left _ _
  -- each lexeme has a character for its entry
  | lexeme gap lexeme rest position hends ih =>
    have hpos := List.length_pos_iff.mpr lexeme.chars_ne_nil
    rw [all_lexeme gap lexeme hends]
    simp only [List.length_cons, List.length_append] at ih ⊢
    omega
  | misspelling gap m rest position hstays ih =>
    have hlt := length_resume_lt gap m rest (position + gap.chars.length + m.before.length)
    rw [all_misspelling gap m hstays, List.length_cons]
    exact Nat.succ_le_succ (Nat.le_trans ih hlt)

/-! ### Positions and steps -/

/-- Where a token or an error is. -/
def entryPosition : Scanned → Nat
  | .ok token => token.position
  | .error e => e.position

/-- Scanning goes on no earlier than at the wrong character. -/
theorem resume_position_le (m : Misspelling) (position : Nat) (rest : List Char) :
    position ≤ (m.resume position rest).position := by
  cases m <;> simp [Misspelling.resume]

/-- Nothing is found before the position of the scanner. -/
theorem le_entryPosition (s : Scanner) : ∀ entry ∈ s.all, s.position ≤ entryPosition entry := by
  induction s using induction_on_openings with
  | gap gap position =>
    rw [all_gap]
    intro entry hentry
    obtain rfl := List.mem_singleton.mp hentry
    exact Nat.le_add_right _ _
  | lexeme gap lexeme rest position hends ih =>
    rw [all_lexeme gap lexeme hends]
    intro entry hentry
    rcases List.mem_cons.mp hentry with rfl | hmem
    · exact Nat.le_add_right _ _
    -- the rest begins behind this one, and its entries no earlier
    · have hle := ih entry hmem
      simp only at hle ⊢
      omega
  | misspelling gap m rest position hstays ih =>
    rw [all_misspelling gap m hstays]
    intro entry hentry
    have hresume := resume_position_le m (position + gap.chars.length + m.before.length) rest
    rcases List.mem_cons.mp hentry with rfl | hmem
    · simp only [entryPosition, Misspelling.errorAt]
      omega
    · have hle := ih entry hmem
      simp only at hle ⊢
      omega

/-- A token stands before every entry that follows it. -/
theorem pairwise_all (s : Scanner) :
    s.all.Pairwise fun entry later =>
      ∀ token, entry = .ok token → token.position < entryPosition later := by
  induction s using induction_on_openings with
  | gap gap position =>
    rw [all_gap]
    exact List.pairwise_singleton _ _
  | lexeme gap lexeme rest position hends ih =>
    rw [all_lexeme gap lexeme hends]
    refine List.pairwise_cons.mpr ⟨?_, ih⟩
    -- the lexeme is passed, and has a character at least
    intro later hlater token htoken
    obtain rfl := Except.ok.inj htoken
    have hle := le_entryPosition _ later hlater
    have hpos := List.length_pos_iff.mpr lexeme.chars_ne_nil
    simp only at hle ⊢
    omega
  | misspelling gap m rest position hstays ih =>
    rw [all_misspelling gap m hstays]
    -- only tokens are compared with what follows
    exact List.pairwise_cons.mpr ⟨fun _ _ _ h => (nomatch h), ih⟩

/-- The first steps give the first entries. -/
theorem steps_eq_take (s : Scanner) {n : Nat} (hn : n ≤ s.all.length) :
    s.steps n = s.all.take n := by
  induction n generalizing s with
  | zero => rfl
  | succ n ih =>
    rw [all_eq] at hn ⊢
    split at hn
    next hblank =>
      -- the end is the last entry, so there is no other step
      obtain rfl : n = 0 := by simpa using hn
      rw [if_pos hblank]
      rfl
    next hblank =>
      rw [if_neg hblank, List.take_succ_cons, ← ih _ (by simpa using hn)]
      rfl

end Scanner

/-! ## §2 Texts as layouts

A layout is a gap and then lexemes, each with a gap behind it, where two numbers do not touch. The
entries of a text are all tokens exactly when the text is written by a layout, and then they are the
tokens of its lexemes, at the places where these begin (`all_eq_tokens_iff`). -/

/-! ### Layouts -/

/-- Lexemes and the gaps behind them. -/
abbrev Laid := List (Lexeme × Gap)

/-- The characters of lexemes behind a gap. -/
def laidChars (gap : Gap) : Laid → List Char
  | [] => gap.chars
  | (lexeme, next) :: rest => gap.chars ++ (lexeme.chars ++ laidChars next rest)

/-- The tokens of lexemes behind a gap, which is at the given position. -/
def laidTokens (position : Nat) (gap : Gap) : Laid → List LocatedToken
  | [] => [⟨.endOfInput, position + gap.chars.length⟩]
  | (lexeme, next) :: rest =>
    ⟨lexeme.token, position + gap.chars.length⟩ ::
      laidTokens (position + gap.chars.length + lexeme.chars.length) next rest

theorem laidChars_append (gap : Gap) (laid : Laid) (lexeme : Lexeme) (next : Gap) (rest : Laid) :
    laidChars gap (laid ++ (lexeme, next) :: rest) =
      laidChars gap laid ++ (lexeme.chars ++ laidChars next rest) := by
  induction laid generalizing gap with
  | nil => rfl
  | cons item laid ih => simp [laidChars, ih]

/-- A number, behind which no sign can be missed. -/
def Lexeme.IsNumber : Lexeme → Prop
  | .number _ => True
  | .sign _ => False

/-- Between neighbouring numbers there is a gap that is not empty. -/
def Apart : Laid → Prop
  | [] => True
  | (lexeme, gap) :: rest =>
    (lexeme.IsNumber → gap.chars = [] → ∀ neighbour ∈ rest.head?, ¬ neighbour.1.IsNumber) ∧
      Apart rest

/-! ### Lexemes that end -/

theorem continuesNumber_of_isBlank {c : Char} (h : Scanner.isBlank c = true) :
    continuesNumber c = false := by
  simp only [Scanner.isBlank, Bool.or_eq_true, decide_eq_true_eq] at h
  rcases h with rfl | rfl
  · rfl
  · rfl

theorem Digits.continuesNumber_of_mem (digits : Digits) {c : Char} (hc : c ∈ digits.chars) :
    continuesNumber c = true := by
  rw [continuesNumber, digits.digit c hc]
  rfl

/-- All characters of a numeral belong to a number. -/
theorem Numeral.continuesNumber_of_mem (numeral : Numeral) {c : Char} (hc : c ∈ numeral.chars) :
    continuesNumber c = true := by
  cases numeral with
  | whole digits => exact digits.continuesNumber_of_mem hc
  | decimal digits fraction =>
    rcases List.mem_append.mp hc with hwhole | hrest
    · exact digits.continuesNumber_of_mem hwhole
    · rcases List.mem_cons.mp hrest with rfl | hfraction
      · rfl
      · exact fraction.continuesNumber_of_mem hfraction

theorem Gap.breaks {gap : Gap} (hgap : gap.chars ≠ []) (rest : List Char) :
    Breaks continuesNumber (gap.chars ++ rest) := by
  obtain ⟨chars, hblank⟩ := gap
  cases chars with
  | nil => exact absurd rfl hgap
  | cons c more => exact .cons (continuesNumber_of_isBlank (hblank c List.mem_cons_self)) _

/-- A number does not end where another one begins. -/
theorem Lexeme.IsNumber.not_breaks {lexeme : Lexeme} (h : lexeme.IsNumber) (rest : List Char) :
    ¬ Breaks continuesNumber (lexeme.chars ++ rest) := by
  cases lexeme with
  | number numeral =>
    obtain ⟨c, more, hchars, hdigit⟩ := numeral.exists_cons
    intro hbreaks
    simp only [Lexeme.chars, hchars] at hbreaks
    have hc := hbreaks c rfl
    simp [continuesNumber, hdigit] at hc
  | sign operator => exact h.elim

/-- A number ends before a gap and what is laid behind it unless another number touches it. -/
theorem breaks_laidChars_iff (gap : Gap) (laid : Laid) :
    Breaks continuesNumber (laidChars gap laid) ↔
      (gap.chars = [] → ∀ neighbour ∈ laid.head?, ¬ neighbour.1.IsNumber) := by
  by_cases hgap : gap.chars = []
  · -- the number touches what comes next
    cases laid with
    | nil =>
      simp only [laidChars, hgap]
      exact ⟨fun _ _ _ h => (nomatch h), fun _ _ h => (nomatch h)⟩
    | cons item rest =>
      obtain ⟨lexeme, next⟩ := item
      simp only [laidChars, hgap, List.nil_append, List.head?_cons, Option.mem_def,
        Option.some.injEq, forall_eq', true_imp_iff]
      cases lexeme with
      | number numeral =>
        have hnumber : (Lexeme.number numeral).IsNumber := trivial
        exact ⟨fun h => absurd h (hnumber.not_breaks _), fun h => absurd hnumber h⟩
      -- a sign ends a number, so that both sides hold
      | sign operator =>
        refine ⟨fun _ => id, fun _ => ?_⟩
        cases operator with
        | add => exact .cons rfl _
        | subtract => exact .cons rfl _
  · -- the number ends before the gap
    refine ⟨fun _ h => absurd h hgap, fun _ => ?_⟩
    cases laid with
    | nil =>
      have h := Gap.breaks hgap []
      rwa [List.append_nil] at h
    | cons item rest => exact Gap.breaks hgap _

/-- A lexeme ends before what is laid behind it exactly when numbers do not touch. -/
theorem Lexeme.endsBefore_laidChars_iff (lexeme : Lexeme) (gap : Gap) (laid : Laid) :
    lexeme.EndsBefore (laidChars gap laid) ↔
      (lexeme.IsNumber → gap.chars = [] → ∀ neighbour ∈ laid.head?, ¬ neighbour.1.IsNumber) := by
  cases lexeme with
  | number numeral =>
    exact (breaks_laidChars_iff gap laid).trans ⟨fun h _ => h, fun h => h trivial⟩
  | sign operator => exact ⟨fun _ h => h.elim, fun _ => trivial⟩

/-! ### Scanning a layout -/

namespace Scanner

/-- What is laid is found again. -/
theorem all_laidChars {laid : Laid} (hapart : Apart laid) (gap : Gap) (position : Nat) :
    (Scanner.mk (laidChars gap laid) position).all =
      (laidTokens position gap laid).map .ok := by
  induction laid generalizing gap position with
  | nil => exact all_gap gap position
  | cons item rest ih =>
    obtain ⟨lexeme, next⟩ := item
    -- numbers that do not touch cannot be continued
    have hends := (lexeme.endsBefore_laidChars_iff next rest).mpr hapart.1
    rw [laidChars, all_lexeme gap lexeme hends, ih hapart.2]
    rfl

/-- **Texts of tokens are layouts**: the entries of a text are tokens, all of them, exactly when
the text is laid out from lexemes and gaps, and then they are the tokens of these lexemes. -/
theorem all_eq_tokens_iff (s : Scanner) (tokens : List LocatedToken) :
    s.all = tokens.map .ok ↔ ∃ gap laid, s.rest = laidChars gap laid ∧ Apart laid ∧
      tokens = laidTokens s.position gap laid := by
  constructor
  · intro hall
    induction s using induction_on_openings generalizing tokens with
    | gap gap position =>
      refine ⟨gap, [], rfl, trivial, ?_⟩
      rw [all_gap] at hall
      -- the end is the only token
      exact (List.map_inj_right fun _ _ => Except.ok.inj).mp hall.symm
    -- the other tokens are those of a layout of the rest, and the lexeme is laid before it
    | lexeme gap lexeme rest position hends ih =>
      rw [all_lexeme gap lexeme hends] at hall
      obtain ⟨token, tokens, rfl, htoken, htokens⟩ := List.map_eq_cons_iff.mp hall.symm
      obtain ⟨next, laid, hrest, hapart, rfl⟩ := ih tokens htokens.symm
      obtain rfl := Except.ok.inj htoken
      obtain rfl : rest = laidChars next laid := hrest
      exact ⟨gap, (lexeme, next) :: laid, rfl,
        ⟨(lexeme.endsBefore_laidChars_iff next laid).mp hends, hapart⟩, rfl⟩
    | misspelling gap m rest position hstays =>
      -- an error is no token
      rw [all_misspelling gap m hstays] at hall
      obtain ⟨token, tokens, rfl, htoken, htokens⟩ := List.map_eq_cons_iff.mp hall.symm
      cases htoken
  · intro hlaid
    obtain ⟨gap, laid, hrest, hapart, rfl⟩ := hlaid
    obtain ⟨chars, position⟩ := s
    obtain rfl : chars = laidChars gap laid := hrest
    exact all_laidChars hapart gap position

end Scanner

/-! ## §3 A text has one layout

The characters of a text settle how it is divided into gaps and lexemes: a gap takes all blanks that
there are, and a number all digits, with one point among them, since neither a digit nor a point may
follow it. Layouts that write the same characters are the same (`laidChars_injective`). -/

/-! ### Where the pieces end -/

section Pieces

variable {rest rest' : List Char}

/-- A run ends where the text does not go on with its class. -/
theorem run_append_inj {p : Char → Bool} {run run' : List Char}
    (hrun : ∀ c ∈ run, p c = true) (hrun' : ∀ c ∈ run', p c = true)
    (hrest : Breaks p rest) (hrest' : Breaks p rest') (h : run ++ rest = run' ++ rest') :
    run = run' ∧ rest = rest' := by
  have htake := congrArg (List.takeWhile p) h
  have hdrop := congrArg (List.dropWhile p) h
  rw [takeWhile_run hrun hrest, takeWhile_run hrun' hrest'] at htake
  rw [dropWhile_run hrun hrest, dropWhile_run hrun' hrest'] at hdrop
  exact ⟨htake, hdrop⟩

/-- What a mark is not in ends at the first mark behind it. -/
theorem append_mark_inj {mark : Char} {front front' : List Char} (hfront : mark ∉ front)
    (hfront' : mark ∉ front') (h : front ++ mark :: rest = front' ++ mark :: rest') :
    front = front' ∧ rest = rest' := by
  -- other characters than the mark are the class of the run
  have hrun {front : List Char} (hfront : mark ∉ front) : ∀ c ∈ front, (c != mark) = true := by
    intro c hc
    rw [bne_iff_ne]
    rintro rfl
    exact hfront hc
  have hbreaks (rest : List Char) : Breaks (· != mark) (mark :: rest) := by
    simp [Breaks]
  obtain ⟨heq, hrest⟩ := run_append_inj (hrun hfront) (hrun hfront') (hbreaks _) (hbreaks _) h
  exact ⟨heq, (List.cons.inj hrest).2⟩

/-- Two gaps before the same text end at the same place, if no blank follows either. -/
theorem Gap.append_inj {gap gap' : Gap} (hrest : Breaks Scanner.isBlank rest)
    (hrest' : Breaks Scanner.isBlank rest') (h : gap.chars ++ rest = gap'.chars ++ rest') :
    gap = gap' ∧ rest = rest' := by
  obtain ⟨hgap, htail⟩ := run_append_inj gap.blank gap'.blank hrest hrest' h
  exact ⟨Gap.ext hgap, htail⟩

/-- Two runs of digits end at the same place, if no digit follows either. -/
theorem Digits.append_inj {digits digits' : Digits} (hrest : Breaks Char.isDigit rest)
    (hrest' : Breaks Char.isDigit rest') (h : digits.chars ++ rest = digits'.chars ++ rest') :
    digits = digits' ∧ rest = rest' := by
  obtain ⟨hdigits, htail⟩ := run_append_inj digits.digit digits'.digit hrest hrest' h
  exact ⟨Digits.ext hdigits, htail⟩

theorem breaks_dot (rest : List Char) : Breaks Char.isDigit ('.' :: rest) :=
  .cons rfl rest

/-- Two numerals end at the same place, if neither is continued. -/
theorem Numeral.append_inj {numeral numeral' : Numeral} (hends : Breaks continuesNumber rest)
    (hends' : Breaks continuesNumber rest') (h : numeral.chars ++ rest = numeral'.chars ++ rest') :
    numeral = numeral' ∧ rest = rest' := by
  cases numeral with
  | whole digits =>
    cases numeral' with
    | whole digits' =>
      obtain ⟨rfl, htail⟩ := Digits.append_inj hends.isDigit hends'.isDigit h
      exact ⟨rfl, htail⟩
    | decimal digits' fraction' =>
      -- behind the digits of a whole number there would be a point
      simp only [chars, List.append_assoc, List.cons_append] at h
      obtain ⟨-, htail⟩ := Digits.append_inj hends.isDigit (breaks_dot _) h
      exact absurd htail (hends.ne_dot_cons _)
  | decimal digits fraction =>
    cases numeral' with
    | whole digits' =>
      simp only [chars, List.append_assoc, List.cons_append] at h
      obtain ⟨-, htail⟩ := Digits.append_inj (breaks_dot _) hends'.isDigit h
      exact absurd htail.symm (hends'.ne_dot_cons _)
    -- with a point in both, the digits before it are the same, and then those behind it
    | decimal digits' fraction' =>
      simp only [chars, List.append_assoc, List.cons_append] at h
      obtain ⟨rfl, hdot⟩ := Digits.append_inj (breaks_dot _) (breaks_dot _) h
      obtain ⟨rfl, htail⟩ :=
        Digits.append_inj hends.isDigit hends'.isDigit (List.cons.inj hdot).2
      exact ⟨rfl, htail⟩

theorem Operator.symbol_injective {operator operator' : Operator}
    (h : operator.symbol = operator'.symbol) : operator = operator' := by
  cases operator with
  | add =>
    cases operator' with
    | add => rfl
    | subtract => cases h
  | subtract =>
    cases operator' with
    | add => cases h
    | subtract => rfl

theorem Operator.isDigit_symbol (operator : Operator) : operator.symbol.isDigit = false := by
  cases operator with
  | add => rfl
  | subtract => rfl

/-- A number does not begin as a sign does. -/
theorem Numeral.append_ne_sign (numeral : Numeral) (operator : Operator) :
    numeral.chars ++ rest ≠ operator.symbol :: rest' := by
  obtain ⟨c, more, hchars, hdigit⟩ := numeral.exists_cons
  intro h
  rw [hchars, List.cons_append] at h
  obtain ⟨rfl, -⟩ := List.cons.inj h
  simp [operator.isDigit_symbol] at hdigit

/-- Two lexemes end at the same place, if neither is continued. -/
theorem Lexeme.append_inj {lexeme lexeme' : Lexeme} (hends : lexeme.EndsBefore rest)
    (hends' : lexeme'.EndsBefore rest') (h : lexeme.chars ++ rest = lexeme'.chars ++ rest') :
    lexeme = lexeme' ∧ rest = rest' := by
  cases lexeme with
  | number numeral =>
    cases lexeme' with
    | number numeral' =>
      obtain ⟨rfl, htail⟩ := Numeral.append_inj hends hends' h
      exact ⟨rfl, htail⟩
    | sign operator' => exact absurd h (numeral.append_ne_sign operator')
  | sign operator =>
    cases lexeme' with
    | number numeral' => exact absurd h.symm (numeral'.append_ne_sign operator)
    -- a sign is one character, whatever follows
    | sign operator' =>
      obtain ⟨hsymbol, htail⟩ := List.cons.inj h
      rw [Operator.symbol_injective hsymbol]
      exact ⟨rfl, htail⟩

end Pieces

/-! ### Layouts of the same characters -/

/-- What is laid behind the first gap. -/
def charsBehindGap : Laid → List Char
  | [] => []
  | (lexeme, next) :: rest => lexeme.chars ++ laidChars next rest

theorem laidChars_eq_append (gap : Gap) (laid : Laid) :
    laidChars gap laid = gap.chars ++ charsBehindGap laid := by
  cases laid with
  | nil => exact (List.append_nil _).symm
  | cons item rest => rfl

/-- The first gap takes all blanks, since a lexeme follows it or nothing. -/
theorem breaks_charsBehindGap (laid : Laid) : Breaks Scanner.isBlank (charsBehindGap laid) := by
  cases laid with
  | nil => exact .nil _
  | cons item rest => exact Scanner.breaks_lexeme item.1 _

/-- **A text has one layout**: gaps and lexemes that write the same characters are the same. -/
theorem laidChars_injective {gap gap' : Gap} {laid laid' : Laid} (hapart : Apart laid)
    (hapart' : Apart laid') (h : laidChars gap laid = laidChars gap' laid') :
    gap = gap' ∧ laid = laid' := by
  induction laid generalizing gap gap' laid' with
  | nil =>
    rw [laidChars_eq_append, laidChars_eq_append] at h
    obtain ⟨rfl, hbehind⟩ :=
      Gap.append_inj (breaks_charsBehindGap []) (breaks_charsBehindGap laid') h
    cases laid' with
    | nil => exact ⟨rfl, rfl⟩
    -- a gap alone is not followed by a lexeme
    | cons item' rest' => simp [charsBehindGap] at hbehind
  | cons item rest ih =>
    rw [laidChars_eq_append, laidChars_eq_append] at h
    obtain ⟨rfl, hbehind⟩ :=
      Gap.append_inj (breaks_charsBehindGap (item :: rest)) (breaks_charsBehindGap laid') h
    cases laid' with
    | nil => simp [charsBehindGap] at hbehind
    | cons item' rest' =>
      obtain ⟨lexeme, next⟩ := item
      obtain ⟨lexeme', next'⟩ := item'
      -- both lexemes end before what is laid behind them
      obtain ⟨rfl, htail⟩ := Lexeme.append_inj
        ((lexeme.endsBefore_laidChars_iff next rest).mpr hapart.1)
        ((lexeme'.endsBefore_laidChars_iff next' rest').mpr hapart'.1) hbehind
      obtain ⟨rfl, rfl⟩ := ih hapart.2 hapart'.2 htail
      exact ⟨rfl, rfl⟩

/-- A way to write characters as lexemes with gaps. -/
structure Layout (chars : List Char) where
  gap : Gap
  laid : Laid
  apart : Apart laid
  laidChars_eq : laidChars gap laid = chars

instance (chars : List Char) : Subsingleton (Layout chars) where
  allEq layout layout' := by
    obtain ⟨gap, laid, hapart, hchars⟩ := layout
    obtain ⟨gap', laid', hapart', hchars'⟩ := layout'
    obtain ⟨rfl, rfl⟩ := laidChars_injective hapart hapart' (hchars.trans hchars'.symm)
    rfl

end AddingMachine
