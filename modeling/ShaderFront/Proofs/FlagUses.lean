import ShaderFront.Command.Flags
import Mathlib.Data.List.Basic

/-!
# What the arguments ask for

Arguments that are accepted are uses of flags, then perhaps two dashes, then the input
files. Each use gives a value to one flag, and of several values for one flag the last
one counts.
-/

namespace ShaderFront

/-- A value that is given to a flag. -/
structure FlagUse where
  /-- The arguments that say so. -/
  words : List Bytes
  /-- The flag. -/
  flag : Flag
  /-- Its value; a switch that stands alone has the value of `true`. -/
  value : Bytes

/-- The two ways to start a flag. -/
def IsDashes (t : Bytes) : Prop :=
  t = utf8 "-" ∨ t = utf8 "--"

/-- Is this neither a flag nor the end of the flags? A dash alone is not. -/
def IsNoFlag (t : Bytes) : Prop :=
  t = utf8 "-" ∨ ¬ utf8 "-" <+: t

/-- The ways to give a value to a flag. -/
inductive FlagUse.Spelled : FlagUse → Prop
  /-- The value follows an equals sign. -/
  | joined {dashes : Bytes} (flag : Flag) (value : Bytes) (h : IsDashes dashes) :
    Spelled ⟨[dashes ++ (utf8 flag.name ++ equalsSign :: value)], flag, value⟩
  /-- The value of the output file is the next argument. -/
  | next {dashes : Bytes} (value : Bytes) (h : IsDashes dashes) :
    Spelled ⟨[dashes ++ utf8 Flag.output.name, value], .output, value⟩
  /-- A switch stands alone. -/
  | alone {dashes : Bytes} (flag : Flag) (h : IsDashes dashes) (hflag : flag ≠ .output) :
    Spelled ⟨[dashes ++ utf8 flag.name], flag, utf8 "true"⟩

/-- The last value that is given to a flag. -/
def lastValue? (uses : List FlagUse) (flag : Flag) : Option Bytes :=
  (uses.reverse.find? fun u => u.flag = flag).map FlagUse.value

/-- Is a switch on? -/
def Settings.isOn (s : Settings) : Flag → Bool
  | .allMembers => s.options.allMembers
  | .manyArguments => s.options.manyArguments
  | .assignRight => s.options.assignRight
  | .tree => s.tree
  | .tokens => s.tokens
  | .verbose => s.verbose
  | .version => s.version
  | .output => false

/-- The settings that arguments ask for, on top of those at the start. -/
structure Settings.Asked (start s : Settings) (arguments : List Bytes) (uses : List FlagUse) :
    Prop where
  /-- Each use of a flag is spelled in one of the ways there are. -/
  spelled : ∀ u ∈ uses, u.Spelled
  /-- The input files follow the flags, with two dashes between them or a first file that
  is no flag. -/
  split : ∃ stop, arguments = uses.flatMap FlagUse.words ++ stop ++ s.inputs ∧
    (stop = [utf8 "--"] ∨ stop = [] ∧ ∀ first ∈ s.inputs.head?, IsNoFlag first)
  /-- The output file is the last that is given. -/
  output : s.output = (lastValue? uses .output).getD start.output
  /-- A switch is as its last value says. -/
  switches : ∀ flag, flag ≠ .output →
    ((lastValue? uses flag).map truthValue?).getD (some (start.isOn flag)) = some (s.isOn flag)

theorem lastValue?_cons (u : FlagUse) (uses : List FlagUse) (flag : Flag) :
    lastValue? (u :: uses) flag =
      (lastValue? uses flag).or (if u.flag = flag then some u.value else none) := by
  unfold lastValue?
  rw [List.reverse_cons, List.find?_append, Option.map_or]
  by_cases h : u.flag = flag <;> simp [h]

theorem Settings.isOn_turn (s : Settings) {used : Flag} (hused : used ≠ .output) (on : Bool)
    (flag : Flag) : (s.turn used on).isOn flag = if used = flag then on else s.isOn flag := by
  cases used with
  | output => exact absurd rfl hused
  | _ => cases flag <;> rfl

theorem Settings.isOn_with_output (s : Settings) (path : Bytes) (flag : Flag) :
    { s with output := path }.isOn flag = s.isOn flag := by
  cases flag <;> rfl

theorem Settings.output_turn (s : Settings) (flag : Flag) (on : Bool) :
    (s.turn flag on).output = s.output := by
  cases flag <;> rfl

theorem Settings.inputs_turn (s : Settings) (flag : Flag) (on : Bool) :
    (s.turn flag on).inputs = s.inputs := by
  cases flag <;> rfl

/-! ## The form of an argument -/

/-- What a flag with a name and perhaps a value looks like after its dashes. -/
def flagText (name : Bytes) : Option Bytes → Bytes
  | none => name
  | some value => name ++ equalsSign :: value

theorem flagForm_spec (t : Bytes) :
    flagForm t = .malformed ∨ ∃ name value, flagForm t = .flag name value ∧
      t = flagText name value := by
  cases t with
  | nil => exact .inl rfl
  | cons b rest =>
    rw [flagForm]
    split_ifs
    · exact .inl rfl
    · refine .inr ?_
      have hrest := List.takeWhile_append_dropWhile (p := (· ≠ equalsSign)) (l := rest)
      cases hdrop : rest.dropWhile (· ≠ equalsSign) with
      | nil =>
        refine ⟨_, none, rfl, ?_⟩
        rw [hdrop, List.append_nil] at hrest
        rw [flagText, hrest]
      | cons sign value =>
        have hsign : sign = equalsSign := by
          have hhead := List.head?_dropWhile_not (· ≠ equalsSign) rest
          rw [hdrop] at hhead
          simpa using hhead
        refine ⟨_, some value, rfl, ?_⟩
        rw [hdrop, hsign] at hrest
        rw [flagText, List.cons_append, hrest]

/-- What the form of an argument says about it. -/
theorem argumentForm_spec (argument : Bytes) :
    match argumentForm argument with
    | .input => IsNoFlag argument
    | .stop => argument = utf8 "--"
    | .malformed => True
    | .flag name value => ∃ dashes, IsDashes dashes ∧ argument = dashes ++ flagText name value := by
  have hdash : utf8 "-" = [dash] := rfl
  match argument with
  | [] => exact .inr (by decide)
  | [a] =>
    by_cases ha : a = dash
    · exact .inl (by rw [ha, hdash])
    · exact .inr (by simpa [hdash] using Ne.symm ha)
  | a :: b :: rest =>
    rw [argumentForm]
    by_cases ha : a = dash
    · rw [if_neg (not_not_intro ha), ha]
      by_cases hb : b = dash
      · rw [if_neg (not_not_intro hb), hb]
        by_cases hrest : rest.isEmpty
        · rw [if_pos hrest, List.isEmpty_iff.mp hrest]
          rfl
        · rw [if_neg hrest]
          rcases flagForm_spec rest with hform | ⟨name, value, hform, htext⟩
          · rw [hform]
            trivial
          · rw [hform]
            exact ⟨utf8 "--", .inr rfl, by rw [htext]; rfl⟩
      · rw [if_pos hb]
        rcases flagForm_spec (b :: rest) with hform | ⟨name, value, hform, htext⟩
        · rw [hform]
          trivial
        · rw [hform]
          exact ⟨utf8 "-", .inl rfl, by rw [htext]; rfl⟩
    · rw [if_pos ha]
      exact .inr (by simpa [hdash] using Ne.symm ha)

theorem exists_dashes_of_flag {argument name : Bytes} {value : Option Bytes} {flag : Flag}
    (hform : argumentForm argument = .flag name value) (hname : Flag.ofName? name = some flag) :
    ∃ dashes, IsDashes dashes ∧ argument = dashes ++ flagText (utf8 flag.name) value := by
  have hspelled : utf8 flag.name = name := by simpa using List.find?_some hname
  have hspec := argumentForm_spec argument
  rw [hform] at hspec
  rw [hspelled]
  exact hspec

/-! ## Reading the arguments -/

theorem Settings.Asked.of_inputs (start : Settings) (stop inputs : List Bytes)
    (h : stop = [utf8 "--"] ∨ stop = [] ∧ ∀ first ∈ inputs.head?, IsNoFlag first) :
    start.Asked { start with inputs := inputs } (stop ++ inputs) [] where
  spelled := by simp
  split := ⟨stop, rfl, h⟩
  output := rfl
  switches := fun _ _ => rfl

/-- A use of a flag before the others counts where no later one gives a value. -/
theorem Settings.Asked.cons {start next s : Settings} {rest : List Bytes} {uses : List FlagUse}
    {u : FlagUse} (h : next.Asked s rest uses) (hu : u.Spelled)
    (houtput : next.output = if u.flag = .output then u.value else start.output)
    (hswitches : ∀ flag, flag ≠ .output →
      some (next.isOn flag) = if u.flag = flag then truthValue? u.value
        else some (start.isOn flag)) :
    start.Asked s (u.words ++ rest) (u :: uses) where
  spelled := by
    rw [List.forall_mem_cons]
    exact ⟨hu, h.spelled⟩
  split := by
    obtain ⟨stop, hrest, hstop⟩ := h.split
    exact ⟨stop, by simp [hrest], hstop⟩
  output := by
    rw [h.output, lastValue?_cons, houtput]
    cases lastValue? uses .output <;> split_ifs <;> rfl
  switches := by
    intro flag hflag
    rw [← h.switches flag hflag, hswitches flag hflag, lastValue?_cons]
    cases lastValue? uses flag <;> split_ifs <;> rfl

theorem Settings.Asked.output_use {start s : Settings} {rest words : List Bytes} {path : Bytes}
    {uses : List FlagUse} (h : { start with output := path }.Asked s rest uses)
    (hspelled : FlagUse.Spelled ⟨words, .output, path⟩) :
    start.Asked s (words ++ rest) (⟨words, .output, path⟩ :: uses) := by
  refine h.cons hspelled rfl fun flag hflag => ?_
  rw [isOn_with_output, if_neg hflag.symm]

theorem Settings.Asked.switch_use {start s : Settings} {rest words : List Bytes} {used : Flag}
    {value : Bytes} {on : Bool} {uses : List FlagUse} (h : (start.turn used on).Asked s rest uses)
    (hspelled : FlagUse.Spelled ⟨words, used, value⟩) (hused : used ≠ .output)
    (hvalue : truthValue? value = some on) :
    start.Asked s (words ++ rest) (⟨words, used, value⟩ :: uses) := by
  refine h.cons hspelled ?_ fun flag _ => ?_
  · rw [output_turn, if_neg hused]
  · rw [isOn_turn start hused, hvalue, apply_ite some]

/-- Arguments that are accepted are uses of flags and then the input files, and the
settings are what the uses say. -/
theorem Settings.exists_asked {start s : Settings} {arguments : List Bytes}
    (h : start.read arguments = .ok s) (hinputs : start.inputs = []) :
    ∃ uses, start.Asked s arguments uses := by
  fun_induction Settings.read start arguments with
  | case1 start =>
    cases h
    have hsame : { s with inputs := [] } = s := by rw [← hinputs]
    exact ⟨[], hsame ▸ Asked.of_inputs s [] [] (.inr ⟨rfl, by simp⟩)⟩
  | case2 start argument rest hform =>
    have hfirst := argumentForm_spec argument
    rw [hform] at hfirst
    cases h
    exact ⟨[], Asked.of_inputs start [] _ (.inr ⟨rfl, by simpa using hfirst⟩)⟩
  | case3 start argument rest hform =>
    have hstop := argumentForm_spec argument
    rw [hform] at hstop
    cases h
    exact ⟨[], hstop ▸ Asked.of_inputs start [utf8 "--"] rest (.inl rfl)⟩
  | case4 | case5 | case6 | case9 | case12 => cases h
  | case7 start argument rest name hname path hform ih =>
    obtain ⟨uses, huses⟩ := ih h hinputs
    obtain ⟨dashes, hdashes, rfl⟩ := exists_dashes_of_flag hform hname
    exact ⟨_, huses.output_use (.joined .output path hdashes)⟩
  | case8 start argument name hname path rest hform ih =>
    obtain ⟨uses, huses⟩ := ih h hinputs
    obtain ⟨dashes, hdashes, rfl⟩ := exists_dashes_of_flag hform hname
    exact ⟨_, huses.output_use (.next path hdashes)⟩
  | case10 start argument rest name value hform flag hflag hname hvalue ih =>
    rw [inputs_turn] at ih
    obtain ⟨uses, huses⟩ := ih h hinputs
    cases Option.map_eq_none_iff.mp hvalue
    obtain ⟨dashes, hdashes, rfl⟩ := exists_dashes_of_flag hform hname
    exact ⟨_, huses.switch_use (.alone flag hdashes hflag) hflag (by decide)⟩
  | case11 start argument rest name value hform flag hflag hname on hvalue ih =>
    rw [inputs_turn] at ih
    obtain ⟨uses, huses⟩ := ih h hinputs
    obtain ⟨text, rfl, hon⟩ := Option.map_eq_some_iff.mp hvalue
    obtain ⟨dashes, hdashes, rfl⟩ := exists_dashes_of_flag hform hname
    exact ⟨_, huses.switch_use (.joined flag text hdashes) hflag hon⟩

end ShaderFront
