import AddingMachine.Proofs.Json.Reading

/-!
# JSON that is written is read

What is written for a JSON value is read as what that value denotes (`Json.exists_ofText?`): a
string as itself, a finite number as one that has it as its nearest double, and arrays and objects
item by item. The steps that reading may take are counted by the characters that it has before it.
-/

namespace AddingMachine

namespace JsonValue

/-! ## §1 Marks -/

variable {chars more rest : List Char} {value : JsonValue}

theorem skipBlanks_cons {c : Char} (h : isBlank c = false) (rest : List Char) :
    skipBlanks (c :: rest) = c :: rest :=
  List.dropWhile_cons_of_neg (by simp [h])

theorem behind?_mark {mark : Char} (h : isBlank mark = false) (rest : List Char) :
    behind? mark (mark :: rest) = some rest := by
  rw [behind?, skipBlanks_cons h]
  exact if_pos rfl

theorem behind?_of_ne {c mark : Char} (h : isBlank c = false) (hne : c ≠ mark) (rest : List Char) :
    behind? mark (c :: rest) = none := by
  rw [behind?, skipBlanks_cons h]
  exact if_neg hne

/-- No value begins with the end of an array. -/
theorem behind?_of_readValue {steps : Nat} {text : List Char} {result : JsonValue × List Char}
    (h : readValue steps text = some result) : behind? ']' text = none := by
  cases steps with
  | zero => cases h
  | succ steps =>
    rw [behind?]
    cases htext : skipBlanks text with
    | nil => rfl
    | cons c rest =>
      by_cases hc : c = ']'
      -- no value is read from a bracket
      · subst hc
        rw [readValue, htext] at h
        cases h
      · exact if_neg hc

/-- At a digit or a minus sign, a number is read. -/
theorem readValue_number {c : Char} (h : c = '-' ∨ c.isDigit = true) (steps : Nat)
    (rest : List Char) : readValue (steps + 1) (c :: rest) = readNumber (c :: rest) := by
  have hne : ∀ d : Char, (d = '-' ∨ d.isDigit = true) = False → c ≠ d := by
    rintro d hd rfl
    exact hd ▸ h
  have hblank : isBlank c = false := by
    simp [isBlank, hne]
  rw [readValue, skipBlanks_cons hblank]
  simp [hne, h]

/-! ## §2 Values -/

/-- The characters are read as a value, wherever they stand and something else follows. -/
def ReadsAs (chars : List Char) (value : JsonValue) : Prop :=
  ∀ (steps : Nat) (rest : List Char), chars.length ≤ steps → Breaks extendsNumber rest →
    readValue steps (chars ++ rest) = some (value, rest)

/-- Before the end of an array, the characters are read as its items behind the first one. -/
def ReadsAsItems (chars : List Char) (values : List JsonValue) : Prop :=
  ∀ (steps : Nat) (rest : List Char), chars.length < steps →
    readItems steps (chars ++ ']' :: rest) = some (values, rest)

/-- Before the end of an object, the characters are read as its fields behind the first one. -/
def ReadsAsFields (chars : List Char) (fields : List (String × JsonValue)) : Prop :=
  ∀ (steps : Nat) (rest : List Char), chars.length < steps →
    readFields steps (chars ++ '\x7d' :: rest) = some (fields, rest)

/-- A text that is not empty is read with one step at least. -/
theorem readsAs_of_succ (hne : chars ≠ [])
    (h : ∀ (steps : Nat) (rest : List Char), chars.length ≤ steps + 1 → Breaks extendsNumber rest →
      readValue (steps + 1) (chars ++ rest) = some (value, rest)) : ReadsAs chars value := by
  intro steps rest hsteps hrest
  cases steps with
  | zero => exact absurd (List.eq_nil_of_length_eq_zero (Nat.le_zero.mp hsteps)) hne
  | succ steps => exact h steps rest hsteps hrest

theorem readsAsItems_of_succ {values : List JsonValue}
    (h : ∀ (steps : Nat) (rest : List Char), chars.length ≤ steps →
      readItems (steps + 1) (chars ++ ']' :: rest) = some (values, rest)) :
    ReadsAsItems chars values := by
  intro steps rest hsteps
  cases steps with
  | zero => cases hsteps
  | succ steps => exact h steps rest (Nat.le_of_lt_succ hsteps)

theorem readsAsFields_of_succ {fields : List (String × JsonValue)}
    (h : ∀ (steps : Nat) (rest : List Char), chars.length ≤ steps →
      readFields (steps + 1) (chars ++ '\x7d' :: rest) = some (fields, rest)) :
    ReadsAsFields chars fields := by
  intro steps rest hsteps
  cases steps with
  | zero => cases hsteps
  | succ steps => exact h steps rest (Nat.le_of_lt_succ hsteps)

theorem readsAs_string (text : String) : ReadsAs (Json.stringChars text) (.string text) := by
  apply readsAs_of_succ (by simp [Json.stringChars])
  intro steps rest hsteps hrest
  have hlength := length_le_flatMap_escaped text.toList
  simp only [Json.stringChars, List.length_cons, List.length_append] at hsteps
  have hread := readString_flatMap text.toList rest (show text.toList.length < steps by omega)
  simp [Json.stringChars, readValue, skipBlanks_cons, isBlank, hread]

theorem readsAs_null : ReadsAs ['n', 'u', 'l', 'l'] .null := by
  apply readsAs_of_succ (List.cons_ne_nil _ _)
  intro steps rest hsteps hrest
  rfl

/-- A decimal begins with a digit. -/
theorem exists_cons_of_readDecimal {text : List Char} {result : Decimal × List Char}
    (h : readDecimal text = some result) : ∃ c more, text = c :: more ∧ c.isDigit = true := by
  cases text with
  | nil => cases h
  | cons c more =>
    by_cases hc : c.isDigit = true
    · exact ⟨c, more, rfl, hc⟩
    · simp [readDecimal, readDigits, hc] at h

/-- What is read as a decimal is read as a number, with a minus sign and without. -/
theorem readsAs_number {d : Decimal} (negative : Bool)
    (h : ∀ rest, Breaks extendsNumber rest → readDecimal (chars ++ rest) = some (d, rest)) :
    ReadsAs ((if negative then ['-'] else []) ++ chars) (.number negative d) := by
  -- read with nothing behind it, the text shows that it begins with a digit
  obtain ⟨c, more, hchars, hc⟩ := exists_cons_of_readDecimal (h [] (.nil _))
  rw [List.append_nil] at hchars
  subst hchars
  have hne : c ≠ '-' := by
    rintro rfl
    cases hc
  apply readsAs_of_succ (by simp)
  intro steps rest hsteps hrest
  have hread := h rest hrest
  cases negative with
  -- the minus sign comes first, and the decimal behind it
  | true =>
    show readValue (steps + 1) ('-' :: (c :: more ++ rest)) = _
    rw [readValue_number (.inl rfl), readNumber, hread]
    rfl
  -- the decimal begins with its digit, which is no minus sign
  | false =>
    show readValue (steps + 1) (c :: (more ++ rest)) = _
    rw [readValue_number (.inr hc), readNumber, ← List.cons_append, hread]
    · rfl
    · exact fun _ heq => hne (List.cons.inj heq).1

/-! ## §3 Arrays and objects -/

variable {item : Json} {items : List Json} {values : List JsonValue} {name : String}
  {fields : List (String × Json)} {entries : List (String × JsonValue)}

/-- Behind an item stands a comma or a bracket, so a number that is an item ends there. -/
theorem breaks_itemsChars (items : List Json) (rest : List Char) :
    Breaks extendsNumber (Json.itemsChars items ++ ']' :: rest) := by
  cases items with
  | nil => exact .cons rfl rest
  | cons item items => exact .cons rfl _

theorem breaks_fieldsChars (fields : List (String × Json)) (rest : List Char) :
    Breaks extendsNumber (Json.fieldsChars fields ++ '\x7d' :: rest) := by
  cases fields with
  | nil => exact .cons rfl rest
  | cons field fields => exact .cons rfl _

theorem readsAs_array_nil : ReadsAs (Json.array []).chars (.array []) := by
  apply readsAs_of_succ (List.cons_ne_nil _ _)
  intro steps rest hsteps hrest
  rfl

theorem readsAs_array (hitem : ReadsAs item.chars value)
    (hitems : ReadsAsItems (Json.itemsChars items) values) :
    ReadsAs (Json.array (item :: items)).chars (.array (value :: values)) := by
  apply readsAs_of_succ (by simp [Json.chars])
  intro steps rest hsteps hrest
  simp only [Json.chars, List.length_append, List.length_cons, List.length_nil] at hsteps
  have hread := hitem steps (Json.itemsChars items ++ ']' :: rest) (by omega)
    (breaks_itemsChars items rest)
  have hothers := hitems steps rest (by omega)
  -- the reader looks for the end of an empty array first
  have hopen := behind?_of_readValue hread
  simp [Json.chars, readValue, skipBlanks_cons, isBlank, hread, hothers, hopen]

theorem readsAsItems_nil : ReadsAsItems (Json.itemsChars []) [] := by
  apply readsAsItems_of_succ
  intro steps rest hsteps
  rfl

theorem readsAsItems_cons (hitem : ReadsAs item.chars value)
    (hitems : ReadsAsItems (Json.itemsChars items) values) :
    ReadsAsItems (Json.itemsChars (item :: items)) (value :: values) := by
  apply readsAsItems_of_succ
  intro steps rest hsteps
  simp only [Json.itemsChars, List.length_append, List.length_cons] at hsteps
  -- the item takes no more steps than it has characters, which leaves enough for the others
  have hread := hitem steps (Json.itemsChars items ++ ']' :: rest) (by omega)
    (breaks_itemsChars items rest)
  have hothers := hitems steps rest (by omega)
  simp [Json.itemsChars, readItems, behind?_mark, behind?_of_ne, isBlank, hread, hothers]

/-- A name, a colon and a value are read as a field. -/
theorem readField_chars {steps : Nat} (hvalue : ReadsAs item.chars value)
    (hsteps : (Json.stringChars name).length + item.chars.length < steps)
    (hrest : Breaks extendsNumber rest) :
    readField steps (Json.stringChars name ++ ':' :: (item.chars ++ rest)) =
      some ((name, value), rest) := by
  -- each character of the name takes a step, and the bound counts them all
  have hlength := length_le_flatMap_escaped name.toList
  cases steps with
  | zero => cases hsteps
  | succ steps =>
    simp only [Json.stringChars, List.length_append, List.length_cons, List.length_nil] at hsteps
    have hname := readString_flatMap name.toList (':' :: (item.chars ++ rest))
      (show name.toList.length < steps by omega)
    have hread := hvalue steps rest (by omega) hrest
    simp [Json.stringChars, readField, behind?_mark, isBlank, hname, hread]

theorem readsAs_object_nil : ReadsAs (Json.object []).chars (.object []) := by
  apply readsAs_of_succ (List.cons_ne_nil _ _)
  intro steps rest hsteps hrest
  rfl

theorem readsAs_object (hvalue : ReadsAs item.chars value)
    (hfields : ReadsAsFields (Json.fieldsChars fields) entries) :
    ReadsAs (Json.object ((name, item) :: fields)).chars (.object ((name, value) :: entries)) := by
  apply readsAs_of_succ (by simp [Json.chars])
  intro steps rest hsteps hrest
  simp only [Json.chars, List.length_append, List.length_cons, List.length_nil] at hsteps
  have hfield : readField steps (Json.stringChars name ++ ':' ::
      (item.chars ++ (Json.fieldsChars fields ++ '\x7d' :: rest))) = _ :=
    readField_chars hvalue (by omega) (breaks_fieldsChars fields rest)
  have hothers := hfields steps rest (by omega)
  -- a name begins with a quotation mark, so this is not the end of an empty object
  have hopen : behind? '\x7d' (Json.stringChars name ++ ':' ::
      (item.chars ++ (Json.fieldsChars fields ++ '\x7d' :: rest))) = none :=
    behind?_of_ne rfl (by decide) _
  simp [Json.chars, readValue, skipBlanks_cons, isBlank, hopen, hfield, hothers]

theorem readsAsFields_nil : ReadsAsFields (Json.fieldsChars []) [] := by
  apply readsAsFields_of_succ
  intro steps rest hsteps
  rfl

theorem readsAsFields_cons (hvalue : ReadsAs item.chars value)
    (hfields : ReadsAsFields (Json.fieldsChars fields) entries) :
    ReadsAsFields (Json.fieldsChars ((name, item) :: fields)) ((name, value) :: entries) := by
  apply readsAsFields_of_succ
  intro steps rest hsteps
  simp only [Json.fieldsChars, List.length_append, List.length_cons] at hsteps
  have hfield : readField steps (Json.stringChars name ++ ':' ::
      (item.chars ++ (Json.fieldsChars fields ++ '\x7d' :: rest))) = _ :=
    readField_chars hvalue (by omega) (breaks_fieldsChars fields rest)
  have hothers := hfields steps rest (by omega)
  simp [Json.fieldsChars, readFields, behind?_mark, behind?_of_ne, isBlank, hfield, hothers]

end JsonValue

/-! ## §4 What is denoted -/

namespace Json

/-- What a written value is read as: a finite number as one that has it as its nearest double, with
the same sign, and other numbers as `null`. -/
inductive Denotes : Json → JsonValue → Prop where
  | string (text : String) : Denotes (.string text) (.string text)
  | number {negative : Bool} {m : Magnitude} {d : Decimal}
      (h : d.toBinary64 negative = .finite negative m) :
      Denotes (.number (.finite negative m)) (.number negative d)
  | null {x : Binary64} (h : x.isFinite = false) : Denotes (.number x) .null
  | natural (n : Nat) : Denotes (.natural n) (.number false ⟨n, 0⟩)
  | array {items : List Json} {values : List JsonValue} (h : List.Forall₂ Denotes items values) :
      Denotes (.array items) (.array values)
  | object {fields : List (String × Json)} {values : List JsonValue}
      (h : List.Forall₂ Denotes (fields.map Prod.snd) values) :
      Denotes (.object fields) (.object ((fields.map Prod.fst).zip values))

/-- Fields are read with their names, value by value. -/
def DenotesFields (fields : List (String × Json)) (entries : List (String × JsonValue)) : Prop :=
  ∃ values, List.Forall₂ Denotes (fields.map Prod.snd) values ∧
    entries = (fields.map Prod.fst).zip values

section Inversion

variable {value : JsonValue} {entries : List (String × JsonValue)}

@[simp] theorem denotes_string_iff {text : String} :
    (string text).Denotes value ↔ value = .string text := by
  constructor
  · intro h
    cases h
    rfl
  · rintro rfl
    exact .string text

@[simp] theorem denotes_natural_iff {n : Nat} :
    (natural n).Denotes value ↔ value = .number false ⟨n, 0⟩ := by
  constructor
  · intro h
    cases h
    rfl
  · rintro rfl
    exact .natural n

/-- A finite double denotes any decimal that is read as it. -/
@[simp] theorem denotes_finite_iff {negative : Bool} {m : Magnitude} :
    (number (.finite negative m)).Denotes value ↔
      ∃ d : Decimal, value = .number negative d ∧ d.toBinary64 negative = .finite negative m := by
  constructor
  · intro h
    cases h with
    | number hread => exact ⟨_, rfl, hread⟩
    | null hinfinite => cases hinfinite
  · rintro ⟨d, rfl, hread⟩
    exact .number hread

@[simp] theorem denotes_array_iff {items : List Json} :
    (array items).Denotes value ↔ ∃ values, List.Forall₂ Denotes items values ∧ value = .array values := by
  constructor
  · intro h
    cases h with
    | array hvalues => exact ⟨_, hvalues, rfl⟩
  · rintro ⟨values, hvalues, rfl⟩
    exact .array hvalues

@[simp] theorem denotes_object_iff {fields : List (String × Json)} :
    (object fields).Denotes value ↔
      ∃ entries, DenotesFields fields entries ∧ value = .object entries := by
  constructor
  · intro h
    cases h with
    | object hvalues => exact ⟨_, ⟨_, hvalues, rfl⟩, rfl⟩
  · rintro ⟨entries, ⟨values, hvalues, rfl⟩, rfl⟩
    exact .object hvalues

@[simp] theorem denotesFields_nil_iff : DenotesFields [] entries ↔ entries = [] := by
  simp [DenotesFields]

theorem DenotesFields.cons {json : Json} {fields : List (String × Json)} (name : String)
    (hvalue : json.Denotes value) (hfields : DenotesFields fields entries) :
    DenotesFields ((name, json) :: fields) ((name, value) :: entries) := by
  obtain ⟨values, hvalues, rfl⟩ := hfields
  exact ⟨value :: values, .cons hvalue hvalues, rfl⟩

@[simp] theorem denotesFields_cons_iff {name : String} {json : Json}
    {fields : List (String × Json)} :
    DenotesFields ((name, json) :: fields) entries ↔
      ∃ value others, json.Denotes value ∧ DenotesFields fields others ∧
        entries = (name, value) :: others := by
  constructor
  · rintro ⟨values, hvalues, rfl⟩
    obtain ⟨value, others, hvalue, hothers, rfl⟩ := List.forall₂_cons_left_iff.mp hvalues
    exact ⟨value, _, hvalue, ⟨others, hothers, rfl⟩, rfl⟩
  · rintro ⟨value, others, hvalue, hothers, rfl⟩
    exact hothers.cons name hvalue

end Inversion

/-! ## §5 Whole texts -/

/-- A number is read as what it denotes. -/
theorem exists_readsAs_number (x : Binary64) :
    ∃ value, (number x).Denotes value ∧ JsonValue.ReadsAs (number x).chars value := by
  cases x with
  | nan => exact ⟨.null, .null rfl, JsonValue.readsAs_null⟩
  | infinite negative => exact ⟨.null, .null rfl, JsonValue.readsAs_null⟩
  -- the shortest decimal is written, which has the double as its nearest one
  | finite negative m =>
    obtain ⟨numeral, exponent, hchars, hzero, hrat⟩ :=
      (m.shortest .even).exists_jsonChars (m.shortest_zero_or .even)
    let d : Decimal :=
      ⟨numeral.toDecimal.coefficient, exponent.getD 0 + numeral.toDecimal.exponent⟩
    refine ⟨.number negative d, .number ?_, JsonValue.readsAs_number negative fun rest hrest => ?_⟩
    · exact (Decimal.toBinary64_congr negative hrat).trans (m.toBinary64_shortest negative .even)
    · show JsonValue.readDecimal ((m.shortest .even).chars .json ++ rest) = _
      rw [hchars, List.append_assoc, JsonValue.readDecimal_chars hzero
        (JsonValue.breaks_exponentChars exponent hrest)
        (JsonValue.readExponent_chars exponent hrest)]

theorem readsAs_natural (n : Nat) :
    JsonValue.ReadsAs (natural n).chars (.number false ⟨n, 0⟩) := by
  let d : Decimal := ⟨n, 0⟩
  show JsonValue.ReadsAs ((if false then ['-'] else []) ++ d.digits) (.number false d)
  refine JsonValue.readsAs_number false fun rest hrest => ?_
  have hread := JsonValue.readDecimal_chars d.allDigits_noLeadingZero
    (JsonValue.breaks_of_extendsNumber hrest) (JsonValue.readExponent_breaks hrest)
  simpa [Numeral.toDecimal, Decimal.ofDigits, Numeral.chars, Decimal.allDigits,
    d.ofDigitChars_digits, d] using hread

-- the induction follows `chars`: one theorem for values, one for the items behind the first one, and
-- one for the fields there
mutual

/-- A value is read as what it denotes. -/
theorem exists_readsAs : ∀ json : Json,
    ∃ value, json.Denotes value ∧ JsonValue.ReadsAs json.chars value
  | .string text => ⟨.string text, .string text, JsonValue.readsAs_string text⟩
  | .number x => exists_readsAs_number x
  | .natural n => ⟨_, .natural n, readsAs_natural n⟩
  | .array [] => ⟨_, .array .nil, JsonValue.readsAs_array_nil⟩
  | .array (item :: items) => by
    -- the first one stands without a comma, and is read as any value is
    obtain ⟨value, hvalue, hread⟩ := exists_readsAs item
    obtain ⟨values, hvalues, hreads⟩ := exists_readsAsItems items
    exact ⟨_, .array (.cons hvalue hvalues), JsonValue.readsAs_array hread hreads⟩
  | .object [] => ⟨_, .object .nil, JsonValue.readsAs_object_nil⟩
  | .object ((name, item) :: fields) => by
    obtain ⟨value, hvalue, hread⟩ := exists_readsAs item
    obtain ⟨entries, hentries, hreads⟩ := exists_readsAsFields fields
    have hobject := denotes_object_iff.mpr ⟨_, hentries.cons name hvalue, rfl⟩
    exact ⟨_, hobject, JsonValue.readsAs_object hread hreads⟩

theorem exists_readsAsItems : ∀ items : List Json, ∃ values,
    List.Forall₂ Denotes items values ∧ JsonValue.ReadsAsItems (itemsChars items) values
  | [] => ⟨[], .nil, JsonValue.readsAsItems_nil⟩
  | item :: items => by
    obtain ⟨value, hvalue, hread⟩ := exists_readsAs item
    obtain ⟨values, hvalues, hreads⟩ := exists_readsAsItems items
    exact ⟨_, .cons hvalue hvalues, JsonValue.readsAsItems_cons hread hreads⟩

theorem exists_readsAsFields : ∀ fields : List (String × Json), ∃ entries,
    DenotesFields fields entries ∧ JsonValue.ReadsAsFields (fieldsChars fields) entries
  | [] => ⟨[], denotesFields_nil_iff.mpr rfl, JsonValue.readsAsFields_nil⟩
  | (name, item) :: fields => by
    obtain ⟨value, hvalue, hread⟩ := exists_readsAs item
    obtain ⟨entries, hentries, hreads⟩ := exists_readsAsFields fields
    exact ⟨_, hentries.cons name hvalue, JsonValue.readsAsFields_cons hread hreads⟩

end

/-- **What is written is read**: as what the written value denotes. -/
theorem exists_ofText? (json : Json) :
    ∃ value, JsonValue.ofText? json.text = some value ∧ json.Denotes value := by
  obtain ⟨value, hvalue, hread⟩ := exists_readsAs json
  refine ⟨value, ?_, hvalue⟩
  have hall := hread json.chars.length [] (Nat.le_refl _) (.nil _)
  rw [List.append_nil] at hall
  rw [JsonValue.ofText?, text, String.toList_ofList, String.length_ofList, hall]
  rfl

end Json

end AddingMachine
