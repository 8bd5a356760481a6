import AddingMachine.CommandLine
import Mathlib.Data.List.Count
import Mathlib.Data.List.Induction
import Mathlib.Data.List.Perm.Basic
import Mathlib.Data.List.TakeWhile

/-!
# Flags as they are written

Flags are written one by one or, where they have letters, in groups (`Spelling`). A request can be
written with its flags in any order and its expressions behind them, and nothing else is read as the
request (`arguments_decode`).
-/

namespace AddingMachine

/-! ## §1 The spelling of an argument -/

namespace Flag

/-- The name that a flag has behind two dashes. -/
def longName : Flag → String
  | .json => "json"
  | .tokens => "tokens"
  | .tree => "ast"
  | .verbose => "verbose"
  | .help => "help"
  | .version => "version"

/-- The letter of a flag, for those that have one. -/
def letter? : Flag → Option Char
  | .verbose => some 'v'
  | .help => some 'h'
  | .version => some 'V'
  | .json => none
  | .tokens => none
  | .tree => none

theorem ofLongName?_eq_some_iff (name : List Char) (flag : Flag) :
    ofLongName? name = some flag ↔ String.ofList name = flag.longName := by
  unfold ofLongName?
  split <;> cases flag <;> simp_all [longName]

theorem ofLetter?_eq_some_iff (c : Char) (flag : Flag) :
    ofLetter? c = some flag ↔ flag.letter? = some c := by
  unfold ofLetter?
  split <;> cases flag <;> simp_all [letter?, eq_comm]

theorem mapM_ofLetter?_eq_some_iff (letters : List Char) (found : List Flag) :
    letters.mapM ofLetter? = some found ↔
      List.Forall₂ (fun c flag => flag.letter? = some c) letters found := by
  induction letters generalizing found with
  | nil => simp [eq_comm]
  | cons c rest ih =>
    simp only [List.mapM_cons, Option.bind_eq_bind, Option.bind_eq_some_iff, Option.pure_def,
      Option.some.injEq, ofLetter?_eq_some_iff, ih, List.forall₂_cons_left_iff, exists_and_left,
      @eq_comm _ found]

/-- No name has a sign of equality in it, so a value can be told from the name. -/
theorem equals_notMem_longName (flag : Flag) : '=' ∉ flag.longName.toList := by
  cases flag <;> decide

end Flag

/-- How arguments are spelled that are not read as expressions. -/
inductive Spelling : String → Argument → Prop where
  | endOfFlags : Spelling "--" .endOfFlags
  | named (flag : Flag) : Spelling ("--" ++ flag.longName) (.flags [flag])
  /-- A flag is given a value, which may be empty. -/
  | valued (flag : Flag) (value : String) :
      Spelling ("--" ++ flag.longName ++ "=" ++ value) (.valued flag)
  /-- A dash and the letters of one flag or more. -/
  | letters {letters : List Char} {found : List Flag} (hne : letters ≠ [])
      (hletters : List.Forall₂ (fun c flag => flag.letter? = some c) letters found) :
      Spelling (String.ofList ('-' :: letters)) (.flags found)

namespace Argument

/-- The name of a flag ends at the first sign of equality. -/
theorem takeWhile_name {name : List Char} (hname : '=' ∉ name) (value : List Char) :
    (name ++ '=' :: value).takeWhile (· != '=') = name ∧ name.takeWhile (· != '=') = name := by
  have hall : ∀ c ∈ name, (c != '=') = true := by
    intro c hc
    rw [bne_iff_ne]
    rintro rfl
    exact hname hc
  refine ⟨?_, List.takeWhile_eq_self_iff.mpr hall⟩
  rw [List.takeWhile_append_of_pos hall, List.takeWhile_cons_of_neg (by decide), List.append_nil]

/-- With a value behind it, a name is that of a flag, or the argument is an expression. -/
theorem ofLong_valued {name : List Char} (hname : '=' ∉ name) (value : List Char) :
    ofLong (name ++ '=' :: value) = match Flag.ofLongName? name with
      | none => .expression
      | some flag => .valued flag := by
  rw [ofLong, (takeWhile_name hname value).1]
  cases Flag.ofLongName? name <;> simp

/-- Without one, the argument is the flag itself. -/
theorem ofLong_name {name : List Char} (hname : '=' ∉ name) :
    ofLong name = match Flag.ofLongName? name with
      | none => .expression
      | some flag => .flags [flag] := by
  rw [ofLong, (takeWhile_name hname []).2]
  cases Flag.ofLongName? name <;> simp [hname]

theorem classify_dashes {argument : String} {body : List Char} (hne : body ≠ [])
    (h : argument.toList = '-' :: '-' :: body) : classify argument = ofLong body := by
  unfold classify
  rw [h]
  cases body with
  | nil => exact absurd rfl hne
  | cons c rest => rfl

/-- One dash stands before letters, and all of them have to be letters of flags. -/
theorem classify_dash {argument : String} {letter : Char} {letters : List Char}
    (hne : letter ≠ '-') (h : argument.toList = '-' :: letter :: letters) :
    classify argument = match (letter :: letters).mapM Flag.ofLetter? with
      | some found => .flags found
      | none => .expression := by
  unfold classify
  rw [h]
  split
  -- two dashes are another case
  next heq => exact absurd (List.cons.inj (List.cons.inj heq).2).1 hne
  next heq => exact absurd (List.cons.inj (List.cons.inj heq).2).1 hne
  next heq =>
    obtain ⟨rfl, rfl⟩ := List.cons.inj (List.cons.inj heq).2
    rfl
  next hnone => exact absurd rfl (hnone letter letters)

/-- What is spelled in one of the ways is read as such. -/
theorem classify_of_spelling {argument : String} {kind : Argument} (h : Spelling argument kind) :
    classify argument = kind := by
  cases h with
  | endOfFlags => decide
  | named flag => cases flag <;> decide
  | valued flag value =>
    have hbody : ("--" ++ flag.longName ++ "=" ++ value).toList =
        '-' :: '-' :: (flag.longName.toList ++ '=' :: value.toList) := by
      simp
    have hflag : Flag.ofLongName? flag.longName.toList = some flag := by
      rw [Flag.ofLongName?_eq_some_iff, String.ofList_toList]
    rw [classify_dashes (by simp) hbody, ofLong_valued flag.equals_notMem_longName, hflag]
  | @letters letters found hne hletters =>
    obtain ⟨letter, rest, rfl⟩ := List.exists_cons_of_ne_nil hne
    obtain ⟨flag, more, hflag, -, rfl⟩ := List.forall₂_cons_left_iff.mp hletters
    -- no flag has a dash for its letter
    have hdash : letter ≠ '-' := by
      rintro rfl
      cases flag <;> cases hflag
    rw [classify_dash hdash String.toList_ofList,
      (Flag.mapM_ofLetter?_eq_some_iff _ _).mpr hletters]

/-- A name that is read as a flag is spelled as one, with a value or without. -/
theorem spelling_ofLong {body : List Char} {kind : Argument} (hkind : kind ≠ .expression)
    (h : ofLong body = kind) : Spelling (String.ofList ('-' :: '-' :: body)) kind := by
  have hdashes : String.ofList ('-' :: '-' :: body) = "--" ++ String.ofList body :=
    String.toList_inj.mp (by simp)
  rw [hdashes]
  -- the name ends at the first sign of equality, if there is one
  by_cases hequals : '=' ∈ body
  · obtain ⟨name, value, rfl, hname⟩ := List.eq_append_cons_of_mem hequals
    rw [ofLong_valued hname] at h
    split at h
    next => exact absurd h.symm hkind
    next flag hflag =>
      have hvalue : "--" ++ String.ofList (name ++ '=' :: value) =
          "--" ++ flag.longName ++ "=" ++ String.ofList value := by
        rw [← (Flag.ofLongName?_eq_some_iff _ _).mp hflag]
        exact String.toList_inj.mp (by simp)
      rw [hvalue, ← h]
      exact .valued flag _
  · rw [ofLong_name hequals] at h
    split at h
    next => exact absurd h.symm hkind
    next flag hflag =>
      rw [← h, (Flag.ofLongName?_eq_some_iff _ _).mp hflag]
      exact .named flag

/-- What is not read as an expression is spelled in one of these ways. -/
theorem spelling_of_classify {argument : String} {kind : Argument} (h : classify argument = kind)
    (hkind : kind ≠ .expression) : Spelling argument kind := by
  have hargument : String.ofList argument.toList = argument := String.ofList_toList
  unfold classify at h
  rw [← hargument]
  split at h
  -- the mark behind the flags
  next hdashes =>
    rw [hdashes, ← h]
    exact .endOfFlags
  -- a name behind two dashes
  next body hne hdashes =>
    rw [hdashes]
    exact spelling_ofLong hkind h
  -- letters behind one dash
  next letter letters hne hdash =>
    split at h
    next found hfound =>
      rw [hdash, ← h]
      exact .letters (List.cons_ne_nil _ _) ((Flag.mapM_ofLetter?_eq_some_iff _ _).mp hfound)
    next => exact absurd h.symm hkind
  next => exact absurd h.symm hkind

/-- An argument that is not read as an expression, in front of all expressions. -/
def LooksLikeFlags (argument : String) : Prop :=
  ∃ kind, Spelling argument kind

/-- All other arguments are expressions. -/
theorem classify_eq_expression_iff (argument : String) :
    classify argument = .expression ↔ ¬ LooksLikeFlags argument := by
  constructor
  · rintro h ⟨kind, hspelling⟩
    obtain rfl := (classify_of_spelling hspelling).symm.trans h
    cases hspelling
  · intro h
    by_contra hkind
    exact h ⟨_, spelling_of_classify rfl hkind⟩

end Argument

/-! ## §2 Flags put together -/

/-- Flags that can be read one after another: none of them twice, but for `verbose`, and neither
`help` nor `version`. -/
structure Together (flags : List Flag) : Prop where
  once : ∀ flag, flag ≠ .verbose → flags.count flag ≤ 1
  help : .help ∉ flags
  version : .version ∉ flags

/-- One more flag can be given if it is not there yet, or is `verbose`. -/
theorem together_concat_iff (flags : List Flag) (flag : Flag) :
    Together (flags ++ [flag]) ↔ Together flags ∧
      flag ≠ .help ∧ flag ≠ .version ∧ (flag ∈ flags → flag = .verbose) := by
  have hcount (other : Flag) :
      (flags ++ [flag]).count other = flags.count other + if other = flag then 1 else 0 := by
    rw [List.count_append, List.count_singleton, beq_eq_decide]
    simp [eq_comm]
  constructor
  · rintro ⟨honce, hhelp, hversion⟩
    rw [List.mem_append, List.mem_singleton, not_or] at hhelp hversion
    have hflags : ∀ other, other ≠ .verbose → flags.count other ≤ 1 := by
      intro other hother
      have := honce other hother
      rw [hcount] at this
      omega
    refine ⟨⟨hflags, hhelp.1, hversion.1⟩, Ne.symm hhelp.2, Ne.symm hversion.2, fun hmem => ?_⟩
    -- a flag that is there already would be there twice
    by_contra hne
    have hpos := List.count_pos_iff.mpr hmem
    have htwice := honce flag hne
    rw [hcount, if_pos rfl] at htwice
    omega
  · rintro ⟨⟨honce, hhelp, hversion⟩, hhelp', hversion', hnew⟩
    refine ⟨fun other hother => ?_, by simp [hhelp, hhelp'.symm], by simp [hversion, hversion'.symm]⟩
    rw [hcount]
    split
    next heq =>
      have hzero : flags.count other = 0 :=
        List.count_eq_zero.mpr fun hmem => hother (heq.trans (hnew (heq ▸ hmem)))
      omega
    next => exact honce other hother

/-- The order of flags does not matter. -/
theorem Together.perm {flags flags' : List Flag} (hperm : flags.Perm flags') (h : Together flags) :
    Together flags' :=
  ⟨fun flag hflag => hperm.count_eq flag ▸ h.once flag hflag, mt hperm.mem_iff.mpr h.help,
    mt hperm.mem_iff.mpr h.version⟩

namespace Flags

/-- What some flags come to. -/
def gathered (flags : List Flag) : Flags :=
  ⟨decide (.json ∈ flags), decide (.tokens ∈ flags), decide (.tree ∈ flags),
    min (flags.count .verbose) 255⟩

theorem gathered_perm {flags flags' : List Flag} (hperm : flags.Perm flags') :
    gathered flags' = gathered flags := by
  simp only [gathered, hperm.mem_iff, hperm.count_eq]

/-- One more flag is accepted if it is not there yet, or is `verbose`. -/
theorem add_gathered_eq_ok_iff (flags : List Flag) (flag : Flag) (more : Flags) :
    (gathered flags).add flag = .ok more ↔
      (flag ≠ .help ∧ flag ≠ .version ∧ (flag ∈ flags → flag = .verbose)) ∧
        more = gathered (flags ++ [flag]) := by
  cases flag with
  | json => by_cases hmem : .json ∈ flags <;> simp [add, gathered, hmem, eq_comm]
  | tokens => by_cases hmem : .tokens ∈ flags <;> simp [add, gathered, hmem, eq_comm]
  | tree => by_cases hmem : .tree ∈ flags <;> simp [add, gathered, hmem, eq_comm]
  | verbose =>
    -- the count of `verbose` stops at 255, whether it is cut before or after
    have hmin (n : Nat) : min (min n 255 + 1) 255 = min (n + 1) 255 := by omega
    simp [add, gathered, hmin, eq_comm]
  | help => simp [add]
  | version => simp [add]

/-- **Flags are gathered** if they can stand together, and only then. -/
theorem foldlM_add_eq_ok_iff (flags : List Flag) (more : Flags) :
    flags.foldlM add none = .ok more ↔ Together flags ∧ more = gathered flags := by
  -- from the end: what is gathered in front of the last flag is what it is added to
  induction flags using List.reverseRecOn generalizing more with
  | nil =>
    have hnone : Together [] := ⟨fun _ _ => Nat.zero_le _, nofun, nofun⟩
    simp [hnone, gathered, none, pure, Except.pure, eq_comm]
  | append_singleton flags flag ih =>
    have hlast : (flags ++ [flag]).foldlM add none = .ok more ↔
        ∃ given, flags.foldlM add none = .ok given ∧ given.add flag = .ok more := by
      simp only [List.foldlM_append, List.foldlM_cons, List.foldlM_nil, bind_pure]
      cases flags.foldlM add none with
      | error refusal => simp [bind, Except.bind]
      | ok given => simp [bind, Except.bind]
    constructor
    · intro h
      obtain ⟨given, hgiven, hadd⟩ := hlast.mp h
      obtain ⟨htogether, rfl⟩ := (ih given).mp hgiven
      obtain ⟨hflag, hmore⟩ := (add_gathered_eq_ok_iff flags flag more).mp hadd
      exact ⟨(together_concat_iff flags flag).mpr ⟨htogether, hflag⟩, hmore⟩
    · rintro ⟨htogether, hmore⟩
      obtain ⟨hflags, hflag⟩ := (together_concat_iff flags flag).mp htogether
      exact hlast.mpr ⟨_, (ih _).mpr ⟨hflags, rfl⟩,
        (add_gathered_eq_ok_iff flags flag more).mpr ⟨hflag, hmore⟩⟩

end Flags

/-! ## §3 The flags of settings -/

/-- The flags that ask for settings. -/
def Settings.flags (settings : Settings) : List Flag :=
  (match settings.mode with
    | .value => []
    | .tokens => [.tokens]
    | .tree => [.tree]) ++ if settings.json then [.json] else []

/-- Flags are those of some settings and `n` times `verbose`, in any order, if each of them is there
as often as these settings need it. -/
theorem perm_flags_iff (flags : List Flag) (settings : Settings) (n : Nat) :
    flags.Perm (settings.flags ++ List.replicate n .verbose) ↔
      flags.count .json = (if settings.json then 1 else 0) ∧
      flags.count .tokens = (if settings.mode = .tokens then 1 else 0) ∧
      flags.count .tree = (if settings.mode = .tree then 1 else 0) ∧
      flags.count .verbose = n ∧ flags.count .help = 0 ∧ flags.count .version = 0 := by
  have hcount (flag : Flag) : (settings.flags ++ List.replicate n Flag.verbose).count flag =
      match flag with
      | .json => if settings.json then 1 else 0
      | .tokens => if settings.mode = Mode.tokens then 1 else 0
      | .tree => if settings.mode = Mode.tree then 1 else 0
      | .verbose => n
      | .help => 0
      | .version => 0 := by
    obtain ⟨mode, json⟩ := settings
    cases flag <;> cases mode <;> cases json <;> simp [Settings.flags, List.count_replicate]
  -- lists are permutations of each other if every flag counts the same in both
  simp only [List.perm_iff_count, hcount]
  constructor
  · intro h
    exact ⟨h .json, h .tokens, h .tree, h .verbose, h .help, h .version⟩
  · rintro ⟨hjson, htokens, htree, hverbose, hhelp, hversion⟩ flag
    cases flag <;> assumption

namespace Flags

/-- Flags ask for settings and a verbosity if they are the flags of these settings and `verbose` as
often as the verbosity counts, in any order. -/
theorem request_gathered_eq_ok_iff (flags : List Flag) (expressions : List String)
    (asked : Request) :
    (Together flags ∧ (gathered flags).request expressions = .ok asked) ↔
      ∃ n, flags.Perm (asked.settings.flags ++ List.replicate n .verbose) ∧
        asked.verbosity = min n 255 ∧ asked.expressions = expressions := by
  constructor
  · rintro ⟨⟨honce, hhelp, hversion⟩, hrequest⟩
    -- flags other than `verbose` are there once or not at all
    have hcount (flag : Flag) (hflag : flag ≠ .verbose) :
        flags.count flag = if flag ∈ flags then 1 else 0 := by
      split
      next hmem => exact Nat.le_antisymm (honce flag hflag) (List.count_pos_iff.mpr hmem)
      next hmem => exact List.count_eq_zero.mpr hmem
    rw [request] at hrequest
    -- both modes are refused together
    by_cases hboth : Flag.tokens ∈ flags ∧ Flag.tree ∈ flags
    · simp [gathered, hboth] at hrequest
    · rw [if_neg (by simpa [gathered] using hboth)] at hrequest
      obtain rfl := Except.ok.inj hrequest
      refine ⟨flags.count .verbose, (perm_flags_iff flags _ _).mpr ?_, rfl, rfl⟩
      rw [hcount .json nofun, hcount .tokens nofun, hcount .tree nofun]
      by_cases htokens : Flag.tokens ∈ flags <;> by_cases htree : Flag.tree ∈ flags <;>
        simp_all [gathered]
  -- how often each flag is there is settled by the settings
  · rintro ⟨n, hperm, hverbosity, rfl⟩
    obtain ⟨hjson, htokens, htree, rfl, hhelp, hversion⟩ := (perm_flags_iff flags _ _).mp hperm
    have hmem (flag : Flag) : flag ∈ flags ↔ 0 < flags.count flag := List.count_pos_iff.symm
    obtain ⟨⟨mode, json⟩, verbosity, expressions⟩ := asked
    obtain rfl := hverbosity
    refine ⟨⟨fun flag hflag => ?_, List.count_eq_zero.mp hhelp, List.count_eq_zero.mp hversion⟩, ?_⟩
    · cases flag <;> cases mode <;> simp_all <;> split <;> omega
    · cases mode <;> cases json <;> simp [request, gathered, hmem, hjson, htokens, htree]

end Flags

/-! ## §4 Flags and the expressions behind them -/

/-- Words that are spelled with these flags, one after another. -/
inductive SpelledWith : List String → List Flag → Prop where
  | nil : SpelledWith [] []
  | cons {word : String} {words : List String} {found flags : List Flag}
      (hfirst : Spelling word (.flags found)) (hrest : SpelledWith words flags) :
      SpelledWith (word :: words) (found ++ flags)

/-- Expressions of which the first does not look like flags. -/
def OpensPlainly (expressions : List String) : Prop :=
  ∀ e ∈ expressions.head?, ¬ Argument.LooksLikeFlags e

/-- Arguments that hold flags and, behind them, expressions. -/
inductive Arranged (flags : List Flag) (expressions : List String) : List String → Prop where
  | marked {words : List String} (hwords : SpelledWith words flags) :
      Arranged flags expressions (words ++ "--" :: expressions)
  /-- The mark between flags and expressions can be left out. -/
  | unmarked {words : List String} (hwords : SpelledWith words flags)
      (hplain : OpensPlainly expressions) : Arranged flags expressions (words ++ expressions)

theorem Arranged.cons {argument : String} {arguments expressions : List String}
    {found flags : List Flag} (hargument : Spelling argument (.flags found))
    (h : Arranged flags expressions arguments) :
    Arranged (found ++ flags) expressions (argument :: arguments) := by
  cases h with
  | marked hwords => exact .marked (.cons hargument hwords)
  | unmarked hwords hplain => exact .unmarked (.cons hargument hwords) hplain

/-- The order of the words changes the order of the flags. -/
theorem SpelledWith.perm {words words' : List String} {flags : List Flag}
    (hperm : words.Perm words') (h : SpelledWith words flags) :
    ∃ flags', SpelledWith words' flags' ∧ flags.Perm flags' := by
  induction hperm generalizing flags with
  | nil => exact ⟨flags, h, .refl _⟩
  | cons word hperm ih =>
    cases h with
    | cons hfirst hrest =>
      obtain ⟨flags', hrest', hflags⟩ := ih hrest
      exact ⟨_, .cons hfirst hrest', hflags.append_left _⟩
  | swap first second words =>
    cases h with
    | @cons _ _ found₂ _ hsecond hrest =>
      cases hrest with
      | @cons _ _ found₁ flags hfirst hrest =>
        -- the flags of two neighbours change places
        refine ⟨_, .cons hfirst (.cons hsecond hrest), ?_⟩
        rw [← List.append_assoc, ← List.append_assoc]
        exact List.perm_append_comm.append_right _
  | trans hperm hperm' ih ih' =>
    obtain ⟨flags', h', hflags⟩ := ih h
    obtain ⟨flags'', h'', hflags'⟩ := ih' h'
    exact ⟨flags'', h'', hflags.trans hflags'⟩

namespace Request

theorem readAfter_flags {argument : String} {found : List Flag}
    (h : Argument.classify argument = .flags found) (given : Flags) (rest : List String) :
    readAfter given (argument :: rest) =
      found.foldlM Flags.add given >>= fun more => readAfter more rest := by
  rw [readAfter, h]
  dsimp only
  cases found.foldlM Flags.add given <;> rfl

/-- Words of flags are read first, then what is behind them. -/
theorem readAfter_words {words : List String} {flags : List Flag} (h : SpelledWith words flags)
    (given : Flags) (rest : List String) :
    readAfter given (words ++ rest) =
      flags.foldlM Flags.add given >>= fun more => readAfter more rest := by
  induction h generalizing given with
  | nil => rfl
  | @cons argument words found flags hfirst hrest ih =>
    have hwords : (fun more => readAfter more (words ++ rest)) =
        fun more => flags.foldlM Flags.add more >>= fun last => readAfter last rest := funext ih
    -- the flags of the first word are added, and then those of the others
    rw [List.cons_append, readAfter_flags (Argument.classify_of_spelling hfirst), hwords,
      List.foldlM_append, bind_assoc]

/-- Words of flags are accepted with what is behind them when the flags can be given together and the
rest is accepted after them. -/
theorem ofArguments_words_eq_ok_iff {words : List String} {flags : List Flag}
    (h : SpelledWith words flags) (rest : List String) (asked : Request) :
    ofArguments (words ++ rest) = .ok asked ↔
      ∃ given, flags.foldlM Flags.add .none = .ok given ∧ readAfter given rest = .ok asked := by
  rw [ofArguments, readAfter_words h]
  cases flags.foldlM Flags.add .none with
  | error refusal => exact iff_of_false nofun nofun
  | ok given =>
    constructor
    · intro hread
      exact ⟨given, rfl, hread⟩
    · rintro ⟨_, ⟨⟩, hread⟩
      exact hread

/-- Where no flags are first, the arguments hold expressions, which may be marked. -/
theorem readAfter_expressions {expressions : List String} (given : Flags) :
    readAfter given ("--" :: expressions) = given.request expressions ∧
      (OpensPlainly expressions → readAfter given expressions = given.request expressions) := by
  constructor
  · rw [readAfter, Argument.classify_of_spelling .endOfFlags]
  · intro hplain
    cases expressions with
    | nil => rfl
    | cons e rest =>
      have he := (Argument.classify_eq_expression_iff e).mpr (hplain e rfl)
      rw [readAfter, he]

/-- Arguments are accepted if they are some flags with expressions behind them, and these flags are
accepted one after another. -/
theorem readAfter_eq_ok_iff (given : Flags) (arguments : List String) (asked : Request) :
    readAfter given arguments = .ok asked ↔
      ∃ flags expressions more, Arranged flags expressions arguments ∧
        flags.foldlM Flags.add given = .ok more ∧ more.request expressions = .ok asked := by
  constructor
  · intro h
    -- the flags that are given grow by those of each word
    induction arguments generalizing given with
    | nil => exact ⟨[], [], given, .unmarked .nil nofun, rfl, h⟩
    | cons argument rest ih =>
      rw [readAfter] at h
      split at h
      next hend =>
        obtain rfl : argument = "--" := by
          cases Argument.spelling_of_classify hend nofun
          rfl
        exact ⟨[], rest, given, .marked .nil, rfl, h⟩
      -- the first expression begins them all
      next hexpression =>
        have hplain : OpensPlainly (argument :: rest) := by
          rintro e ⟨⟩
          exact (Argument.classify_eq_expression_iff argument).mp hexpression
        exact ⟨[], argument :: rest, given, .unmarked .nil hplain, rfl, h⟩
      -- a value for a flag is refused
      next => cases h
      -- the flags of this word are added to those that are given
      next found hfound =>
        split at h
        next more hmore =>
          obtain ⟨flags, expressions, last, harranged, hflags, hrequest⟩ := ih more h
          refine ⟨found ++ flags, expressions, last,
            harranged.cons (Argument.spelling_of_classify hfound nofun), ?_, hrequest⟩
          rw [List.foldlM_append, hmore]
          exact hflags
        next => cases h
  · rintro ⟨flags, expressions, more, harranged, hflags, hrequest⟩
    cases harranged with
    | marked hwords =>
      rw [readAfter_words hwords, hflags]
      exact (readAfter_expressions more).1.trans hrequest
    | unmarked hwords hplain =>
      rw [readAfter_words hwords, hflags]
      exact ((readAfter_expressions more).2 hplain).trans hrequest

/-- Flags in another order come to the same. -/
theorem ofArguments_perm {words words' rest : List String} {flags : List Flag} {asked : Request}
    (hwords : SpelledWith words flags) (hperm : words.Perm words')
    (hread : ofArguments (words ++ rest) = .ok asked) : ofArguments (words' ++ rest) = .ok asked := by
  obtain ⟨flags', hwords', hflags⟩ := hwords.perm hperm
  obtain ⟨given, hadd, hrest⟩ := (ofArguments_words_eq_ok_iff hwords rest asked).mp hread
  obtain ⟨htogether, rfl⟩ := (Flags.foldlM_add_eq_ok_iff flags given).mp hadd
  -- what is behind the words is read after the same flags
  have hadd' : flags'.foldlM Flags.add .none = .ok (Flags.gathered flags) :=
    (Flags.foldlM_add_eq_ok_iff flags' _).mpr
      ⟨htogether.perm hflags, (Flags.gathered_perm hflags).symm⟩
  exact (ofArguments_words_eq_ok_iff hwords' rest asked).mpr ⟨_, hadd', hrest⟩

end Request

/-- **Arguments decode** to the request that is written in them. A request is written in arguments
that hold the flags of its settings and some `verbose`, in any order, one by one or in groups, and
its expressions behind them; no other arguments are accepted. The order of the words of flags does
not matter. -/
theorem arguments_decode :
    (∀ (arguments : List String) (asked : Request),
      Request.ofArguments arguments = .ok asked ↔
        ∃ n flags, flags.Perm (asked.settings.flags ++ List.replicate n .verbose) ∧
          asked.verbosity = min n 255 ∧ Arranged flags asked.expressions arguments) ∧
      ∀ (words words' rest : List String) (flags : List Flag) (asked : Request),
        SpelledWith words flags → words.Perm words' →
          Request.ofArguments (words ++ rest) = .ok asked →
            Request.ofArguments (words' ++ rest) = .ok asked := by
  refine ⟨fun arguments asked => ?_, fun words words' rest flags asked hwords hperm hread =>
    Request.ofArguments_perm hwords hperm hread⟩
  rw [Request.ofArguments, Request.readAfter_eq_ok_iff]
  constructor
  -- arguments that are accepted are some flags and expressions, which ask for the request
  · rintro ⟨flags, expressions, more, harranged, hflags, hrequest⟩
    obtain ⟨htogether, rfl⟩ := (Flags.foldlM_add_eq_ok_iff flags more).mp hflags
    obtain ⟨n, hperm, hverbosity, rfl⟩ :=
      (Flags.request_gathered_eq_ok_iff flags expressions asked).mp ⟨htogether, hrequest⟩
    exact ⟨n, flags, hperm, hverbosity, harranged⟩
  -- flags of the request in any order are gathered to the same
  · rintro ⟨n, flags, hperm, hverbosity, harranged⟩
    obtain ⟨htogether, hrequest⟩ := (Flags.request_gathered_eq_ok_iff flags asked.expressions
      asked).mpr ⟨n, hperm, hverbosity, rfl⟩
    exact ⟨flags, asked.expressions, _, harranged,
      (Flags.foldlM_add_eq_ok_iff flags _).mpr ⟨htogether, rfl⟩, hrequest⟩

/-- What looks like a flag is an expression behind the first expression. -/
example : Request.ofArguments ["-v", "--ast", "-vv", "--json", "-5", "--", "-v"] =
    .ok ⟨⟨.tree, true⟩, 3, ["-5", "--", "-v"]⟩ := by decide

end AddingMachine
