import AddingMachine.Proofs.Calculation.Sum
import AddingMachine.Proofs.Expression
import AddingMachine.Proofs.Session.Configurations

/-!
# Totals and results

The running totals of a sum, and what results are written.
-/

namespace AddingMachine

/-! ## §1 Running totals

The numbers of a sum are added and subtracted one after another. No operator makes negative zero of
another total, and with finite numbers none makes NaN, or leaves an infinity that has been reached.
Whole numbers are added and subtracted as such, as long as no number and no total is beyond
`2 ^ 53` (`WholeSum.total_written`). -/

open Binary64 (negativeZero ofInt)

-- powers of natural numbers are the ones that rounding is defined with
attribute [local instance (2000)] instPowNat

/-! ### One operation -/

namespace Operator

variable (operator : Operator) {x y : Binary64}

/-- No operation on another total makes negative zero. -/
theorem apply_ne_negativeZero (hx : x ≠ negativeZero) : operator.apply x y ≠ negativeZero := by
  intro h
  -- a sum is negative zero only if both numbers are
  cases operator with
  | add => exact hx ((Binary64.add_eq_negativeZero_iff x y).mp h).1
  | subtract => exact hx ((Binary64.add_eq_negativeZero_iff x y.neg).mp h).1

/-- No operation with a finite number makes NaN of another total. -/
theorem apply_ne_nan (hx : x ≠ .nan) (hy : y.isFinite = true) : operator.apply x y ≠ .nan := by
  cases operator with
  | add => exact Binary64.add_ne_nan hx hy
  | subtract => exact Binary64.add_ne_nan hx (y.isFinite_neg.trans hy)

/-- No operation with a finite number leaves an infinity. -/
theorem apply_infinite (negative : Bool) (hy : y.isFinite = true) :
    operator.apply (.infinite negative) y = .infinite negative := by
  cases operator with
  | add => exact Binary64.infinite_add negative hy
  | subtract => exact Binary64.infinite_add negative (y.isFinite_neg.trans hy)

/-- The operation on exact whole numbers. -/
def applyInt : Operator → Int → Int → Int
  | .add => fun a b => a + b
  | .subtract => fun a b => a - b

/-- Operations on whole numbers are exact, as long as these are not beyond `2 ^ 53`. -/
theorem apply_ofInt {a b : Int} (ha : a.natAbs ≤ 2 ^ (53 : Nat)) (hb : b.natAbs ≤ 2 ^ (53 : Nat)) :
    operator.apply (ofInt a) (ofInt b) = ofInt (operator.applyInt a b) := by
  cases operator with
  | add =>
    show (ofInt a).add (ofInt b) = ofInt (a + b)
    exact Binary64.add_ofInt ha hb
  | subtract =>
    show (ofInt a).sub (ofInt b) = ofInt (a - b)
    exact Binary64.sub_ofInt ha hb

end Operator

/-! ### Any number of operations -/

section Operations

variable {start : Binary64} {operations : List (Operator × Binary64)}

/-- Any number of operations make negative zero of negative zero only. -/
theorem applyAll_ne_negativeZero (hstart : start ≠ negativeZero) :
    applyAll start operations ≠ negativeZero :=
  List.foldlRecOn (motive := (· ≠ negativeZero)) operations _ hstart fun _ htotal operation _ =>
    operation.1.apply_ne_negativeZero htotal

/-- With finite numbers they make NaN of NaN only. -/
theorem applyAll_ne_nan (hstart : start ≠ .nan)
    (hfinite : ∀ operation ∈ operations, operation.2.isFinite = true) :
    applyAll start operations ≠ .nan :=
  List.foldlRecOn (motive := (· ≠ Binary64.nan)) operations _ hstart fun _ htotal operation hmem =>
    operation.1.apply_ne_nan htotal (hfinite operation hmem)

/-- With finite numbers they leave no infinity. -/
theorem applyAll_infinite (negative : Bool)
    (hfinite : ∀ operation ∈ operations, operation.2.isFinite = true) :
    applyAll (.infinite negative) operations = .infinite negative := by
  induction operations with
  | nil => rfl
  | cons operation rest ih =>
    obtain ⟨hfirst, hrest⟩ := List.forall_mem_cons.mp hfinite
    have hstep := operation.1.apply_infinite negative hfirst
    rw [applyAll, List.foldl_cons, hstep]
    exact ih hrest

end Operations

/-- Any number of operations on exact whole numbers. -/
def applyAllInt (start : Int) (operations : List (Operator × Int)) : Int :=
  operations.foldl (fun total operation => operation.1.applyInt total operation.2) start

/-- A map that keeps every operation on the numbers of `p` keeps any number of them, as long as
all totals are in `p`. -/
theorem applyAll_map (f : Int → Binary64) (p : Int → Prop)
    (hoperator : ∀ (operator : Operator) (a b : Int), p a → p b →
      operator.apply (f a) (f b) = f (operator.applyInt a b))
    {start : Int} {operations : List (Operator × Int)}
    (hnumbers : ∀ operation ∈ operations, p operation.2)
    (htotals : ∀ n, p (applyAllInt start (operations.take n))) :
    applyAll (f start) (operations.map fun operation => (operation.1, f operation.2)) =
      f (applyAllInt start operations) := by
  induction operations generalizing start with
  | nil => rfl
  | cons operation rest ih =>
    obtain ⟨hfirst, hrest⟩ := List.forall_mem_cons.mp hnumbers
    have hstep := hoperator operation.1 start operation.2 (htotals 0) hfirst
    -- the totals of the rest are those after the first operation
    have htail := ih hrest fun n => htotals (n + 1)
    rw [applyAll] at htail
    rw [List.map_cons, applyAll, List.foldl_cons, hstep, htail, applyAllInt, applyAllInt,
      List.foldl_cons]

/-! ### The totals of a sum -/

namespace WrittenSum

variable (sum : WrittenSum)

/-- The total after the first `n` operations. -/
def total (n : Nat) : Binary64 :=
  runningTotal sum.first.numeral.value
    ((sum.rest.take n).map fun item => (item.1, item.2.numeral.value))

/-- Every number is finite. -/
def AllFinite : Prop :=
  sum.first.numeral.value.isFinite = true ∧
    ∀ item ∈ sum.rest, item.2.numeral.value.isFinite = true

/-- No total is NaN, and a total that is infinite stays as it is. -/
structure Steady : Prop where
  ne_nan : ∀ n, sum.total n ≠ .nan
  infinite : ∀ negative m n, m ≤ n →
    sum.total m = .infinite negative → sum.total n = .infinite negative

/-- The total after some operations is what these come to. -/
theorem total_eq_applyAll (n : Nat) : sum.total n = applyAll sum.first.numeral.value
    ((sum.rest.take n).map fun item => (item.1, item.2.numeral.value)) :=
  (applyAll_eq_runningTotal _ _).symm

theorem total_length : sum.total sum.rest.length = sum.value := by
  rw [total, List.take_length, value]

/-- No total is negative zero. -/
theorem total_ne_negativeZero (n : Nat) : sum.total n ≠ negativeZero := by
  rw [total_eq_applyAll]
  apply applyAll_ne_negativeZero
  -- what is written as a number has no minus sign
  intro h
  have hplus := sum.first.numeral.hasPlusSign_value
  rw [h] at hplus
  exact hplus

variable {sum}

/-- No operation of the sum has an infinite number. -/
theorem AllFinite.operations (h : sum.AllFinite) {items : List (Operator × Operand)}
    (hitems : items ⊆ sum.rest) :
    ∀ operation ∈ items.map fun item => (item.1, item.2.numeral.value),
      operation.2.isFinite = true := by
  intro operation hoperation
  obtain ⟨item, hitem, rfl⟩ := List.mem_map.mp hoperation
  exact h.2 item (hitems hitem)

/-- With finite numbers, no total is NaN. -/
theorem AllFinite.total_ne_nan (h : sum.AllFinite) (n : Nat) : sum.total n ≠ .nan := by
  rw [total_eq_applyAll]
  apply applyAll_ne_nan _ (h.operations (List.take_subset n _))
  intro hnan
  have hfirst := h.1
  rw [hnan] at hfirst
  cases hfirst

/-- With finite numbers, a total that is infinite stays as it is. -/
theorem AllFinite.total_infinite (h : sum.AllFinite) {negative : Bool} {m n : Nat} (hmn : m ≤ n)
    (hm : sum.total m = .infinite negative) : sum.total n = .infinite negative := by
  obtain ⟨more, rfl⟩ := Nat.exists_eq_add_of_le hmn
  have hmore : (sum.rest.drop m).take more ⊆ sum.rest :=
    List.Subset.trans (List.take_subset more _) (List.drop_subset m _)
  -- the operations behind the first `m` begin with the infinity
  rw [total_eq_applyAll, List.take_add, List.map_append, applyAll, List.foldl_append]
  rw [total_eq_applyAll, applyAll] at hm
  rw [hm]
  exact applyAll_infinite negative (h.operations hmore)

theorem AllFinite.steady (h : sum.AllFinite) : sum.Steady :=
  ⟨h.total_ne_nan, fun _ _ _ => h.total_infinite⟩

end WrittenSum

/-! ### Sums of whole numbers -/

/-- Digits and the gaps around them. -/
structure WholeOperand where
  before : Gap
  digits : Digits
  after : Gap

namespace WholeOperand

def operand (whole : WholeOperand) : Operand :=
  ⟨whole.before, .whole whole.digits, whole.after⟩

/-- The whole number that the digits are. -/
def number (whole : WholeOperand) : Int :=
  Nat.ofDigitChars 10 whole.digits.chars 0

theorem value_operand (whole : WholeOperand) : whole.operand.numeral.value = ofInt whole.number := by
  have hdecimal : Decimal.ofDigits whole.digits.chars [] =
      ⟨Nat.ofDigitChars 10 (whole.digits.chars ++ []) 0, .ofNat 0⟩ := rfl
  rw [operand, Numeral.value, hdecimal, Decimal.toBinary64]
  dsimp only
  rw [List.append_nil, Nat.pow_zero, Nat.mul_one, ofInt, number, Int.natAbs_natCast,
    decide_eq_false (Int.not_lt.mpr (Int.natCast_nonneg _))]

end WholeOperand

/-- An operand without a point is one of digits. -/
theorem Operand.exists_whole {operand : Operand} (h : '.' ∉ operand.chars) :
    ∃ whole : WholeOperand, whole.operand = operand := by
  obtain ⟨before, numeral, after⟩ := operand
  cases numeral with
  | whole digits => exact ⟨⟨before, digits, after⟩, rfl⟩
  | decimal digits fraction =>
    apply absurd _ h
    simp [chars, Numeral.chars]

/-- A sum of numbers without points. -/
structure WholeSum where
  first : WholeOperand
  rest : List (Operator × WholeOperand)

namespace WholeSum

variable (sum : WholeSum)

/-- The sum as it is written. -/
def written : WrittenSum :=
  ⟨sum.first.operand, sum.rest.map fun item => (item.1, item.2.operand)⟩

/-- The exact total after the first `n` operations. -/
def total (n : Nat) : Int :=
  applyAllInt sum.first.number ((sum.rest.take n).map fun item => (item.1, item.2.number))

/-- The exact value. -/
def value : Int :=
  sum.total sum.rest.length

/-- Neither a number nor a total is farther from zero than the bound. -/
structure Within (bound : Nat) : Prop where
  first : sum.first.number.natAbs ≤ bound
  rest : ∀ item ∈ sum.rest, item.2.number.natAbs ≤ bound
  total : ∀ n ≤ sum.rest.length, (sum.total n).natAbs ≤ bound

/-- A sum without points is a sum of whole numbers. -/
theorem exists_written_eq {sum : WrittenSum} (h : '.' ∉ sum.chars) :
    ∃ whole : WholeSum, whole.written = sum := by
  obtain ⟨first, rest⟩ := sum
  rw [WrittenSum.chars, List.mem_append, not_or] at h
  obtain ⟨hfirst, hrest⟩ := h
  obtain ⟨wholeFirst, rfl⟩ := Operand.exists_whole hfirst
  -- no operand of the sum has a point
  have hwhole : rest ∈ Set.range (List.map fun item : Operator × WholeOperand =>
      (item.1, item.2.operand)) := by
    rw [Set.range_list_map]
    intro item hitem
    have hitem : '.' ∉ item.2.chars := fun hpoint =>
      hrest (List.mem_flatMap_of_mem hitem (List.mem_cons_of_mem _ hpoint))
    obtain ⟨whole, hoperand⟩ := Operand.exists_whole hitem
    exact ⟨(item.1, whole), congrArg (Prod.mk item.1) hoperand⟩
  obtain ⟨wholeRest, rfl⟩ := hwhole
  exact ⟨⟨wholeFirst, wholeRest⟩, rfl⟩

variable {sum}

/-- **Totals of whole numbers** within `2 ^ 53` are exact. -/
theorem total_written (h : sum.Within (2 ^ (53 : Nat))) {n : Nat} (hn : n ≤ sum.rest.length) :
    sum.written.total n = ofInt (sum.total n) := by
  have hnumbers : ∀ operation ∈ (sum.rest.take n).map fun item => (item.1, item.2.number),
      operation.2.natAbs ≤ 2 ^ (53 : Nat) := by
    intro operation hoperation
    obtain ⟨item, hitem, rfl⟩ := List.mem_map.mp hoperation
    exact h.rest item (List.mem_of_mem_take hitem)
  -- the first totals of a part are those of the whole
  have htotals : ∀ k, (applyAllInt sum.first.number
      (((sum.rest.take n).map fun item => (item.1, item.2.number)).take k)).natAbs ≤
        2 ^ (53 : Nat) := by
    intro k
    rw [← List.map_take, List.take_take]
    exact h.total (min k n) ((min_le_right k n).trans hn)
  rw [total, ← applyAll_map ofInt _ (fun operator _ _ => operator.apply_ofInt) hnumbers htotals]
  simp only [WrittenSum.total_eq_applyAll, written, ← List.map_take, List.map_map, Function.comp_def,
    WholeOperand.value_operand]

end WholeSum

/-! ## §2 What results can be

A text with a value is written as a sum, and its value is the last of the running totals of the sum.
So it is never negative zero, and `-0` is never written as a result
(`results_never_negative_zero`). Of a sum of whole numbers whose totals are within `2 ^ 53` the exact
value is found, and its digits are written (`whole_sums_exact`). -/

variable {text : String} {v : Binary64}

/-! ### Results that are written -/

section Outcome

variable {settings : Settings}

theorem Settings.outcome_of_value (hmode : settings.mode = .value)
    (hvalue : (valueOf text).result = .ok v) : settings.outcome text = .ok (.value v) := by
  rw [outcome, hmode]
  exact congrArg (Except.map Answer.value) hvalue

theorem Settings.outcome_of_tree {e : Expression} (hmode : settings.mode = .tree)
    (htree : (treeOf text).result = .ok e) : settings.outcome text = .ok (.tree e) := by
  rw [outcome, hmode]
  exact congrArg (Except.map Answer.tree) htree

end Outcome

/-- The text of a value is written, and the expression accepted. -/
theorem Session.Unlimited.writes_value {session : Session} (h : session.Unlimited)
    (hsettings : session.settings = ⟨.value, false⟩) (hvalue : (valueOf text).result = .ok v) :
    (session.run text).1 = .ok true ∧ session.Writes text (v.text .plain ++ "\n") "" := by
  have houtcome := Settings.outcome_of_value (congrArg Settings.mode hsettings) hvalue
  refine ⟨?_, h.writes_answer (congrArg Settings.json hsettings) houtcome⟩
  rw [h.result_run, houtcome]
  rfl

/-! ### Results of written sums -/

namespace WrittenSum

variable {sum : WrittenSum}

/-- A text that is written as a sum has its tree and its value. -/
theorem results (hchars : text.toList = sum.chars) :
    (treeOf text).result = .ok sum.chain.tree ∧
      (valueOf text).result = .ok (sum.total sum.rest.length) := by
  obtain ⟨htree, hvalue⟩ := results_of_outcome ((outcome_ok_iff text _).mpr ⟨sum, hchars, rfl⟩)
  rw [total_length]
  exact ⟨htree, hvalue⟩

theorem exists_of_value (h : (valueOf text).result = .ok v) :
    ∃ sum : WrittenSum, text.toList = sum.chars := by
  obtain ⟨answer, houtcome, -, hvalue⟩ := exists_outcome_ofText text
  rw [hvalue] at h
  cases answer with
  | error cause => cases h
  | ok chain =>
    obtain ⟨sum, hchars, -⟩ := (outcome_ok_iff text chain).mp houtcome
    exact ⟨sum, hchars⟩

end WrittenSum

/-! ### Negative zero -/

/-- Negative zero is the one double that is written as `-0`. -/
theorem Binary64.text_eq_negativeZero_iff (x : Binary64) :
    x.text .plain = "-0" ↔ x = negativeZero := by
  have htext : negativeZero.text .plain = "-0" := by decide +kernel
  rw [← htext]
  exact ⟨text_inj, congrArg _⟩

/-- **No result is negative zero**, and none is written as `-0`, neither alone nor behind a tree.
However the text is written as a sum, the result is the last of its totals. If all numbers are
finite, none of the totals is NaN, and once one is infinite, all that follow are the same. -/
theorem results_never_negative_zero (h : (valueOf text).result = .ok v) :
    (v ≠ negativeZero ∧ v.text .plain ≠ "-0") ∧
    (∀ session : Session, session.Unlimited →
      (session.settings = ⟨.value, false⟩ → session.Writes text (v.text .plain ++ "\n") "") ∧
      (session.settings = ⟨.tree, false⟩ → ∃ e, (treeOf text).result = .ok e ∧
        session.Writes text (e.text ++ " = " ++ v.text .plain ++ "\n") "")) ∧
    (∃ sum : WrittenSum, text.toList = sum.chars) ∧
    ∀ sum : WrittenSum, text.toList = sum.chars →
      v = sum.total sum.rest.length ∧ (∀ n, sum.total n ≠ negativeZero) ∧
        (sum.AllFinite → sum.Steady) := by
  obtain ⟨written, hwritten⟩ := WrittenSum.exists_of_value h
  have htotal : ∀ sum : WrittenSum, text.toList = sum.chars → v = sum.total sum.rest.length :=
    fun sum hchars => Except.ok.inj (h.symm.trans (WrittenSum.results hchars).2)
  have hzero : v ≠ negativeZero := by
    rw [htotal written hwritten]
    exact written.total_ne_negativeZero _
  refine ⟨⟨hzero, mt v.text_eq_negativeZero_iff.mp hzero⟩, fun session hsession => ⟨?_, ?_⟩,
    ⟨written, hwritten⟩, fun sum hchars => ⟨htotal sum hchars, sum.total_ne_negativeZero,
      WrittenSum.AllFinite.steady⟩⟩
  -- the value alone
  · exact fun hsettings => (hsession.writes_value hsettings h).2
  -- the value behind the tree, which has it
  · intro hsettings
    obtain ⟨htree, hvalue⟩ := WrittenSum.results hwritten
    have hsame : written.chain.tree.value = v := by
      rw [htotal written hwritten, WrittenSum.total_length]
      exact written.chain.value_tree
    have houtcome := Settings.outcome_of_tree (congrArg Settings.mode hsettings) htree
    refine ⟨_, htree, ?_⟩
    rw [← hsame]
    exact hsession.writes_answer (congrArg Settings.json hsettings) houtcome

/-- What is taken from an infinite total leaves it infinite. -/
theorem results_never_negative_zero_overflow :
    ∃ sum : WrittenSum, sum.AllFinite ∧ sum.total 1 = .infinite false ∧
      (valueOf (String.ofList sum.chars)).result = .ok (.infinite false) := by
  -- 1 and 308 zeros, which is added once and then taken away
  let power : Operand :=
    ⟨.empty, .whole ⟨'1' :: List.replicate 308 '0', nofun, List.all_eq_true.mp (by decide +kernel)⟩,
      .empty⟩
  let sum : WrittenSum := ⟨power, [(.add, power), (.subtract, power)]⟩
  have hpower : power.numeral.value.isFinite = true := by decide +kernel
  have hfinite : sum.AllFinite := ⟨hpower, by simp [sum, hpower]⟩
  have hfirst : sum.total 1 = .infinite false := by decide +kernel
  have hvalue : (valueOf (String.ofList sum.chars)).result = .ok (sum.total 2) :=
    (WrittenSum.results String.toList_ofList).2
  obtain ⟨-, -, -, htotals⟩ := results_never_negative_zero hvalue
  obtain ⟨-, -, hsteady⟩ := htotals sum String.toList_ofList
  rw [(hsteady hfinite).infinite false 1 2 (by decide) hfirst] at hvalue
  exact ⟨sum, hfinite, hfirst, hvalue⟩

/-! ### Whole numbers -/

/-- **Sums of whole numbers are exact.** A text with a value and without a point is written as a sum
of whole numbers. Where neither the numbers nor the totals of such a sum are beyond `2 ^ 53`, its
value is the whole number that it makes, and the digits of that are written, behind a minus sign if
it is negative. -/
theorem whole_sums_exact (text : String) :
    (∀ v, (valueOf text).result = .ok v → '.' ∉ text.toList →
      ∃ sum : WholeSum, text.toList = sum.written.chars) ∧
    ∀ sum : WholeSum, text.toList = sum.written.chars → sum.Within (2 ^ (53 : Nat)) →
      (∃ m : Magnitude, (valueOf text).result = .ok (.finite (sum.value < 0) m) ∧
        m.toRat (sum.value < 0) = sum.value) ∧
      ∀ session : Session, session.Unlimited → session.settings = ⟨.value, false⟩ →
        (session.run text).1 = .ok true ∧ session.Writes text (toString sum.value ++ "\n") "" := by
  refine ⟨fun v hvalue hpoint => ?_, fun sum hchars hwithin => ?_⟩
  -- no number of the sum has a point, since the text has none
  · obtain ⟨sum, hchars⟩ := WrittenSum.exists_of_value hvalue
    rw [hchars] at hpoint
    obtain ⟨whole, rfl⟩ := WholeSum.exists_written_eq hpoint
    exact ⟨whole, hchars⟩
  -- the last total is the exact value, and it is written in digits
  · have hvalue := (WrittenSum.results hchars).2
    have hlength : sum.written.rest.length = sum.rest.length := List.length_map ..
    rw [hlength, WholeSum.total_written hwithin le_rfl] at hvalue
    have hbound : sum.value.natAbs ≤ 2 ^ (53 : Nat) := hwithin.total _ le_rfl
    obtain ⟨m, hm, hunits⟩ := Binary64.exists_ofInt_eq hbound
    refine ⟨⟨m, ?_, Binary64.toRat_of_units hunits⟩, fun session hsession hsettings => ?_⟩
    · rw [← hm]
      exact hvalue
    · rw [← Binary64.text_ofInt hbound]
      exact hsession.writes_value hsettings hvalue

/-- The last whole number below zero up to which all are exact, with a leading zero on the way. -/
theorem whole_sums_exact_edge :
    (∃ m : Magnitude, (valueOf "0 - 9007199254740991 - 01").result = .ok (.finite true m) ∧
      m.toRat true = -9007199254740992) ∧
    (Session.start ⟨.value, false⟩ .silent (.empty none) (.empty none)).Writes
      "0 - 9007199254740991 - 01" "-9007199254740992\n" "" := by
  let zero : Digits := ⟨['0'], nofun, List.all_eq_true.mp rfl⟩
  let large : Digits := ⟨"9007199254740991".toList, by decide, List.all_eq_true.mp (by decide)⟩
  let one : Digits := ⟨['0', '1'], nofun, List.all_eq_true.mp rfl⟩
  let sum : WholeSum := ⟨⟨.empty, zero, .space⟩,
    [(.subtract, ⟨.space, large, .space⟩), (.subtract, ⟨.space, one, .empty⟩)]⟩
  have hchars : "0 - 9007199254740991 - 01".toList = sum.written.chars := by decide
  -- the last total is `-2 ^ 53`, the bound itself
  have hvalue : sum.value = -9007199254740992 := by decide
  have hwithin : sum.Within (2 ^ (53 : Nat)) := ⟨by decide, by decide, by decide⟩
  obtain ⟨hresult, hwrites⟩ := (whole_sums_exact _).2 sum hchars hwithin
  rw [hvalue] at hresult hwrites
  obtain ⟨-, hwritten⟩ := hwrites (.start ⟨.value, false⟩ .silent (.empty none) (.empty none))
    ⟨rfl, rfl⟩ rfl
  exact ⟨mod_cast hresult, hwritten⟩

end AddingMachine
