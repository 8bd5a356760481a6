import AddingMachine.Log
import Mathlib.Data.List.Basic
import Mathlib.Data.List.Forall2
import Mathlib.Data.List.Induction
import Mathlib.Data.Option.Basic

/-!
# Filters of a log

What changes when the entry for all targets is set.
-/

namespace AddingMachine

/-! ## §1 Which entry rules

The entry for all targets has the shortest scope there is, so it rules the targets for which there
is no other entry. Setting it replaces the threshold for these targets, and no other threshold
(`Filter.threshold_set_everywhere`). -/

/-! ### The strongest entry -/

namespace FilterEntry

/-- Whether an entry is for certain targets only. -/
def isOwn (entry : FilterEntry) : Bool :=
  entry.scope ≠ .everywhere

@[simp] theorem isOwn_eq_true_iff {entry : FilterEntry} :
    entry.isOwn = true ↔ entry.scope ≠ .everywhere :=
  decide_eq_true_iff

@[simp] theorem isOwn_eq_false_iff {entry : FilterEntry} :
    entry.isOwn = false ↔ entry.scope = .everywhere :=
  decide_eq_false_iff_not.trans not_not

end FilterEntry

namespace Filter

/-- The entry that rules among these, all of which are for the same target. -/
def strongest? (entries : List FilterEntry) : Option FilterEntry :=
  entries.foldl stronger none

/-- One more entry is set against the one that rules so far. -/
theorem strongest?_concat (entries : List FilterEntry) (entry : FilterEntry) :
    strongest? (entries ++ [entry]) = stronger (strongest? entries) entry := by
  simp [strongest?]

/-- The entry that rules is one of them. -/
theorem mem_of_strongest? {entries : List FilterEntry} {entry : FilterEntry}
    (h : strongest? entries = some entry) : entry ∈ entries := by
  induction entries using List.reverseRecOn with
  | nil => cases h
  | append_singleton entries last ih =>
    rw [List.mem_append, List.mem_singleton]
    rw [strongest?_concat] at h
    cases hbest : strongest? entries with
    | none =>
      rw [hbest] at h
      exact .inr (Option.some.inj h).symm
    | some best =>
      -- the entry that has ruled so far, or the last one
      rw [hbest, stronger] at h
      split at h
      next => exact .inl (ih (hbest.trans h))
      next => exact .inr (Option.some.inj h).symm

/-- Among entries of which one is for all targets, this one rules if there is no other. -/
theorem strongest?_eq {common : FilterEntry} (hcommon : common.scope = .everywhere)
    {entries : List FilterEntry}
    (hown : ∀ entry ∈ entries, entry = common ∨ entry.isOwn = true ∧ 0 < entry.scope.length) :
    strongest? entries = (strongest? (entries.filter (·.isOwn))).or
      (if common ∈ entries then some common else none) := by
  have hlength : common.scope.length = 0 := by
    rw [hcommon]
    rfl
  have hnotOwn : common.isOwn = false := FilterEntry.isOwn_eq_false_iff.mpr hcommon
  -- from the end: the last entry is set against the one that rules so far
  induction entries using List.reverseRecOn with
  | nil => rfl
  | append_singleton entries last ih =>
    obtain ⟨hbefore, hlast⟩ := List.forall_mem_append.mp hown
    rw [List.forall_mem_singleton] at hlast
    rw [strongest?_concat, ih hbefore, List.filter_append]
    rcases hlast with rfl | ⟨hlast, hpos⟩
    · have hnone : [last].filter (·.isOwn) = [] := by simp [hnotOwn]
      rw [hnone, List.append_nil]
      cases hbest : strongest? (entries.filter (·.isOwn)) with
      | none => by_cases hmem : last ∈ entries <;> simp [hmem, stronger]
      | some best =>
        -- the entry that is added last is weaker than all entries of their own
        obtain ⟨hmem, hisOwn⟩ := List.mem_filter.mp (mem_of_strongest? hbest)
        have hbest : 0 < best.scope.length := by
          rcases hbefore best hmem with rfl | hpos
          · simp [hnotOwn] at hisOwn
          · exact hpos.2
        simp [stronger, hlength, hbest]
    -- an entry of its own is set against the ruling one, and is stronger than the common one
    · have hself : [last].filter (·.isOwn) = [last] := by simp [hlast]
      rw [hself, strongest?_concat]
      cases strongest? (entries.filter (·.isOwn)) with
      | none => by_cases hmem : common ∈ entries <;> simp [hmem, stronger, hlength]
      | some best =>
        rw [Option.some_or, stronger]
        split <;> rfl

/-! ### Setting the entry for all targets -/

section Set

variable {filter : Filter} {threshold : Threshold}

theorem set_everywhere_of_mem (h : ∃ entry ∈ filter.entries, entry.scope = .everywhere) :
    (filter.set ⟨.everywhere, threshold⟩).entries = filter.entries.map fun old =>
      if old.scope = .everywhere then ⟨.everywhere, threshold⟩ else old := by
  rw [set, if_pos (by simpa using h)]

theorem set_everywhere_of_not_mem (h : ¬ ∃ entry ∈ filter.entries, entry.scope = .everywhere) :
    (filter.set ⟨.everywhere, threshold⟩).entries =
      filter.entries ++ [⟨.everywhere, threshold⟩] := by
  rw [set, if_neg (by simpa using h)]

/-- Entries of their own are left, and the entry for all targets is the one that is set. -/
theorem mem_set_everywhere_iff {entry : FilterEntry} :
    entry ∈ (filter.set ⟨.everywhere, threshold⟩).entries ↔
      entry = ⟨.everywhere, threshold⟩ ∨ entry ∈ filter.entries ∧ entry.isOwn = true := by
  by_cases h : ∃ old ∈ filter.entries, old.scope = .everywhere
  -- the old entry is replaced in its place
  · rw [set_everywhere_of_mem h, List.mem_map]
    constructor
    · rintro ⟨old, hmem, rfl⟩
      split
      next => exact .inl rfl
      next hne => exact .inr ⟨hmem, FilterEntry.isOwn_eq_true_iff.mpr hne⟩
    · rintro (rfl | ⟨hmem, hown⟩)
      · obtain ⟨old, hmem, hold⟩ := h
        exact ⟨old, hmem, if_pos hold⟩
      · exact ⟨entry, hmem, if_neg (FilterEntry.isOwn_eq_true_iff.mp hown)⟩
  -- without one, none of the entries is for all targets
  · rw [set_everywhere_of_not_mem h, List.mem_append, List.mem_singleton, or_comm]
    refine or_congr_right (iff_self_and.mpr fun hmem => ?_)
    exact FilterEntry.isOwn_eq_true_iff.mpr fun hold => h ⟨entry, hmem, hold⟩

/-- The entries for certain targets stay as they are. -/
theorem filter_isOwn_set_everywhere :
    (filter.set ⟨.everywhere, threshold⟩).entries.filter (·.isOwn) =
      filter.entries.filter (·.isOwn) := by
  by_cases h : ∃ old ∈ filter.entries, old.scope = .everywhere
  · rw [set_everywhere_of_mem h]
    induction filter.entries with
    | nil => rfl
    | cons old rest ih =>
      by_cases hold : old.scope = .everywhere <;> simp [hold, ih]
  · rw [set_everywhere_of_not_mem h, List.filter_append]
    exact List.append_nil _

/-- What an entry for certain targets says of a target, if there is one for it. -/
def own? (filter : Filter) (target : Target) : Option Threshold :=
  (strongest? ((filter.entries.filter (·.isOwn)).filter (·.scope.covers target))).map
    FilterEntry.threshold

/-- **The entry for all targets** decides where no other entry does, if there is none for targets
whose names begin with nothing. -/
theorem threshold_set_everywhere (hnamed : ∀ entry ∈ filter.entries, entry.scope ≠ .within "")
    (target : Target) :
    (filter.set ⟨.everywhere, threshold⟩).threshold target =
      (filter.own? target).getD threshold := by
  let common : FilterEntry := ⟨.everywhere, threshold⟩
  let covering := (filter.set common).entries.filter (·.scope.covers target)
  have hmem : common ∈ covering :=
    List.mem_filter.mpr ⟨mem_set_everywhere_iff.mpr (.inl rfl), rfl⟩
  -- all other entries that cover the target are longer, since none is for the empty name
  have hown : ∀ entry ∈ covering, entry = common ∨ entry.isOwn = true ∧ 0 < entry.scope.length := by
    intro entry hentry
    refine (mem_set_everywhere_iff.mp (List.mem_filter.mp hentry).1).imp_right ?_
    rintro ⟨hentry, hisOwn⟩
    refine ⟨hisOwn, ?_⟩
    cases hscope : entry.scope with
    | everywhere => exact absurd hscope (FilterEntry.isOwn_eq_true_iff.mp hisOwn)
    | within start =>
      have hne : start ≠ "" := by
        rintro rfl
        exact hnamed entry hentry hscope
      exact Nat.pos_of_ne_zero (mt String.length_eq_zero_iff.mp hne)
  have hrule : strongest? covering = _ := strongest?_eq rfl hown
  rw [if_pos hmem, List.filter_comm, filter_isOwn_set_everywhere] at hrule
  show (strongest? covering).bind FilterEntry.threshold = _
  rw [hrule, own?]
  cases strongest? ((filter.entries.filter (·.isOwn)).filter (·.scope.covers target)) <;> rfl

/-- An event is admitted by the entry for its target, or else by the threshold that is set. -/
theorem admits_set_everywhere (hnamed : ∀ entry ∈ filter.entries, entry.scope ≠ .within "")
    (hphrase : filter.phrase = []) (event : Event) :
    (filter.set ⟨.everywhere, threshold⟩).admits event =
      ((filter.own? event.target).getD threshold).admits event.level := by
  have hset : (filter.set ⟨.everywhere, threshold⟩).phrase = [] := hphrase
  simp [admits, threshold_set_everywhere hnamed, hset]

end Set

end Filter

/-- Where a level is asked for, it is the threshold that is set for all targets. -/
theorem WrittenFilter.filterFor_some (written : WrittenFilter) (level : Level) :
    written.filterFor (some level) = written.filter.set ⟨.everywhere, some level⟩ := by
  have hmem : ⟨.everywhere, some level⟩ ∈ (written.filter.set ⟨.everywhere, some level⟩).entries :=
    Filter.mem_set_everywhere_iff.mpr (.inl rfl)
  unfold filterFor
  dsimp only
  rw [if_neg]
  rw [List.isEmpty_iff]
  exact List.ne_nil_of_mem hmem

/-! ## §2 Wider filters

A filter is wider than another one if it has the same scopes in the same order, and no threshold of
it is stricter. Which entry rules a target is decided by scopes alone, so it is the same entry in
both, and the wider filter admits whatever the other one does (`Filter.Within.admits`). Setting a
scope to a wider threshold makes a wider filter, whatever other entries there are
(`Filter.set_within`). -/

/-! ### Thresholds -/

/-- What is important enough for a threshold is so for the wider one. -/
def Threshold.Within (threshold wider : Threshold) : Prop :=
  ∀ level, threshold.admits level = true → wider.admits level = true

theorem Threshold.within_of_rank_le {least least' : Level} (h : least.rank ≤ least'.rank) :
    Threshold.Within (some least) (some least') := by
  intro level hadmits
  simp only [admits, decide_eq_true_eq] at hadmits ⊢
  exact Nat.le_trans hadmits h

/-! ### Entries -/

/-- An entry and a wider one for the same scope. -/
structure FilterEntry.Within (entry wider : FilterEntry) : Prop where
  scope : entry.scope = wider.scope
  threshold : entry.threshold.Within wider.threshold

theorem FilterEntry.Within.refl (entry : FilterEntry) : entry.Within entry :=
  ⟨rfl, fun _ hadmits => hadmits⟩

namespace Filter

variable {filter wider : Filter}

/-- Of two entries the one rules that rules of the wider ones, since scopes decide. -/
theorem stronger_within {best best' : Option FilterEntry}
    (hbest : Option.Rel FilterEntry.Within best best') {entry entry' : FilterEntry}
    (hentry : entry.Within entry') :
    Option.Rel FilterEntry.Within (stronger best entry) (stronger best' entry') := by
  cases hbest with
  | none => exact .some hentry
  | some hold =>
    simp only [stronger, hentry.scope, hold.scope]
    split
    · exact .some hold
    · exact .some hentry

/-! ### Filters -/

/-- A filter and a wider one: the entries are wider one by one, and messages have to contain the
same. -/
structure Within (filter wider : Filter) : Prop where
  entries : List.Forall₂ FilterEntry.Within filter.entries wider.entries
  phrase : filter.phrase = wider.phrase

/-- In both filters a target is ruled by the same entry, or by none. -/
theorem Within.ruling? (h : filter.Within wider) (target : Target) :
    Option.Rel FilterEntry.Within (filter.ruling? target) (wider.ruling? target) := by
  have hcovers : Relator.LiftFun FilterEntry.Within (· ↔ ·) (·.scope.covers target = true)
      (·.scope.covers target = true) := by
    intro entry entry' hentry
    show entry.scope.covers target = true ↔ entry'.scope.covers target = true
    rw [hentry.scope]
  have hcovering := List.rel_filter hcovers h.entries
  -- the entries are set against each other from the first one on, in both filters alike
  apply List.rel_foldl
  · intro best best' hbest entry entry' hentry
    exact stronger_within hbest hentry
  · exact .none
  · exact hcovering

/-- The threshold of a target is wider in the wider filter. -/
theorem Within.threshold (h : filter.Within wider) (target : Target) :
    (filter.threshold target).Within (wider.threshold target) := by
  unfold Filter.threshold
  have hruling := h.ruling? target
  generalize filter.ruling? target = ruling, wider.ruling? target = ruling' at hruling ⊢
  cases hruling with
  | none => exact fun _ hadmits => hadmits
  | some hentry => exact hentry.threshold

/-- **A wider filter admits more**, or the same: it hides no event that the other one admits. -/
theorem Within.admits (h : filter.Within wider) {event : Event}
    (hadmits : filter.admits event = true) : wider.admits event = true := by
  rw [Filter.admits, Bool.and_eq_true] at hadmits ⊢
  obtain ⟨hlevel, hphrase⟩ := hadmits
  rw [h.phrase] at hphrase
  exact ⟨h.threshold event.target event.level hlevel, hphrase⟩

/-! ### Setting a threshold -/

/-- Where a scope is set to a wider threshold, the filter is wider. -/
theorem set_within (filter : Filter) (scope : Scope) {threshold threshold' : Threshold}
    (h : threshold.Within threshold') :
    (filter.set ⟨scope, threshold⟩).Within (filter.set ⟨scope, threshold'⟩) := by
  have hset : FilterEntry.Within ⟨scope, threshold⟩ ⟨scope, threshold'⟩ := ⟨rfl, h⟩
  have hsame (entries : List FilterEntry) : List.Forall₂ FilterEntry.Within entries entries :=
    List.forall₂_same.mpr fun entry _ => .refl entry
  refine ⟨?_, rfl⟩
  unfold set
  dsimp only
  split
  · -- the entry takes the place of the one that there is
    rw [List.forall₂_map_left_iff, List.forall₂_map_right_iff, List.forall₂_same]
    intro old _
    split
    · exact hset
    · exact .refl old
  -- there is none, and the entry is added
  · exact List.rel_append (hsame filter.entries) (.cons hset .nil)

end Filter

end AddingMachine
