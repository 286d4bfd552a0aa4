import Mathlib.Data.Nat.Find
import Shortcodes.Proofs.Signature.Resolution

/-!
# Binding by position

What binding by position can come to is one of four outcomes (`ByPosition`): keys are refused, and
then too many words, and then the first input that must have a value and is given none or the empty
one; else every input takes the word at its place, an empty one too, and takes its fallback where
there is no word. Binding comes to exactly that outcome, and where it succeeds the fallbacks may as
well be given as words (`bind_eq_iff_byPosition`). Nothing is asked of the order in which required,
defaulted and other inputs are declared.
-/

namespace Shortcodes

namespace Signature

/-! ### The inputs in turn -/

/-- The inputs with the words at their places, and with their fallbacks where there is none. -/
def valuesInOrder (inputs : List Input) (words : List Text) : List (Text × Text) :=
  inputs.mapIdx fun i input => (input.name, words[i]?.getD input.fallback)

theorem valuesInOrder_eq (inputs : List Input) (words : List Text) :
    valuesInOrder inputs words = valuesOfRow (givenInOrder inputs words) := by
  apply List.ext_getElem?
  intro i
  rw [valuesInOrder, valuesOfRow, givenInOrder, List.getElem?_mapIdx, List.getElem?_map,
    List.getElem?_mapIdx, Option.map_map]
  rfl

/-- The first input whose word is missing or empty, although it must have a value, is reported. -/
theorem resolveInOrder_of_unmet {shortcode : Text} {inputs : List Input} {words : List Text}
    {i : Nat} {input : Input} (place : inputs[i]? = some input) (unmet : input.Unmet words[i]?)
    (before : ∀ j < i, ∀ other, inputs[j]? = some other → ¬ other.Unmet words[j]?) :
    resolveInOrder shortcode inputs words = .error (.missingInput shortcode input.name) := by
  rw [resolveInOrder_eq_row, resolveRow_of_unmet (getElem?_givenInOrder.2 ⟨place, rfl⟩) unmet]
  rintro j hj ⟨other, given⟩ hp
  obtain ⟨hother, rfl⟩ := getElem?_givenInOrder.1 hp
  exact before j hj other hother

/-- Where no input is left without the value that it must have, all get their values. -/
theorem resolveInOrder_of_met {inputs : List Input} {words : List Text}
    (met : ∀ (i : Nat) (input : Input), inputs[i]? = some input → ¬ input.Unmet words[i]?)
    (shortcode : Text) :
    resolveInOrder shortcode inputs words = .ok (valuesInOrder inputs words) := by
  rw [resolveInOrder_eq_row, valuesInOrder_eq, resolveRow_of_met]
  rintro ⟨input, given⟩ hp
  obtain ⟨i, hi⟩ := List.mem_iff_getElem?.1 hp
  obtain ⟨place, rfl⟩ := getElem?_givenInOrder.1 hi
  exact met i input place

/-! ### The outcomes -/

variable {s : Signature} {given : Given}

/-- The outcomes of binding by position, each with the condition under which it comes about. -/
inductive ByPosition (s : Signature) (given : Given) : Except Failure Arguments → Prop
  | keys (keyed : given.keyed ≠ []) :
      ByPosition s given (.error (.unknownKeys s.name (given.keyed.map (·.1)) []))
  | surplus (keyed : given.keyed = []) (count : s.inputs.length < given.positional.length) :
      ByPosition s given
        (.error (.tooManyWords s.name given.positional.length s.inputs.length))
  | missing {i : Nat} {input : Input} (keyed : given.keyed = [])
      (count : given.positional.length ≤ s.inputs.length) (place : s.inputs[i]? = some input)
      (unmet : input.Unmet given.positional[i]?)
      (before : ∀ j < i, ∀ other, s.inputs[j]? = some other →
        ¬ other.Unmet given.positional[j]?) :
      ByPosition s given (.error (.missingInput s.name input.name))
  | bound (keyed : given.keyed = []) (count : given.positional.length ≤ s.inputs.length)
      (met : ∀ (i : Nat) (input : Input), s.inputs[i]? = some input →
        ¬ input.Unmet given.positional[i]?) :
      ByPosition s given (.ok ⟨valuesInOrder s.inputs given.positional, []⟩)

theorem exists_byPosition (s : Signature) (given : Given) :
    ∃ outcome, ByPosition s given outcome := by
  by_cases keyed : given.keyed = []
  · by_cases count : given.positional.length ≤ s.inputs.length
    · by_cases hunmet : ∃ (i : Nat) (input : Input), s.inputs[i]? = some input ∧
          input.Unmet given.positional[i]?
      · -- the first of the places that are left without a value
        classical
        obtain ⟨input, place, unmet⟩ := Nat.find_spec hunmet
        exact ⟨_, .missing keyed count place unmet fun j hj other hother hunmet' =>
          Nat.find_min hunmet hj ⟨other, hother, hunmet'⟩⟩
      · exact ⟨_, .bound keyed count fun i input hinput hunmet' =>
          hunmet ⟨i, input, hinput, hunmet'⟩⟩
    · exact ⟨_, .surplus keyed (Nat.lt_of_not_le count)⟩
  · exact ⟨_, .keys keyed⟩

theorem bind_of_byPosition (hs : s.binding = .positional) {outcome : Except Failure Arguments}
    (h : ByPosition s given outcome) : s.bind given = outcome := by
  rw [bind, hs]
  show s.bindPositional given = outcome
  rw [bindPositional]
  cases h with
  | keys keyed => rw [if_pos keyed]
  | surplus keyed count => rw [if_neg (not_not_intro keyed), if_pos count]
  | missing keyed count place unmet before =>
    rw [if_neg (not_not_intro keyed), if_neg (Nat.not_lt_of_le count),
      resolveInOrder_of_unmet place unmet before]
    rfl
  | bound keyed count met =>
    rw [if_neg (not_not_intro keyed), if_neg (Nat.not_lt_of_le count), resolveInOrder_of_met met]
    rfl

/-! ### Fallbacks given as words -/

/-- The words with the fallbacks of the inputs for which there are none behind them. -/
def withFallbacks (inputs : List Input) (words : List Text) : List Text :=
  words ++ (inputs.drop words.length).map Input.fallback

theorem length_withFallbacks {inputs : List Input} {words : List Text}
    (h : words.length ≤ inputs.length) : (withFallbacks inputs words).length = inputs.length := by
  rw [withFallbacks, List.length_append, List.length_map, List.length_drop]
  omega

theorem getElem?_withFallbacks {inputs : List Input} {i : Nat} {input : Input}
    (place : inputs[i]? = some input) (words : List Text) :
    (withFallbacks inputs words)[i]? = some (words[i]?.getD input.fallback) := by
  rw [withFallbacks]
  by_cases hi : i < words.length
  · rw [List.getElem?_append_left hi, List.getElem?_eq_getElem hi, Option.getD_some]
  · -- behind the words, the place of a fallback is that of its input
    have hle : words.length ≤ i := Nat.le_of_not_lt hi
    rw [List.getElem?_append_right hle, List.getElem?_map, List.getElem?_drop,
      Nat.add_sub_cancel' hle, place, List.getElem?_eq_none hle]
    rfl

theorem valuesInOrder_withFallbacks (inputs : List Input) (words : List Text) :
    valuesInOrder inputs (withFallbacks inputs words) = valuesInOrder inputs words := by
  apply List.ext_getElem?
  intro i
  rw [valuesInOrder, valuesInOrder, List.getElem?_mapIdx, List.getElem?_mapIdx]
  cases place : inputs[i]? with
  | none => rfl
  | some input => simp only [Option.map_some, getElem?_withFallbacks place, Option.getD_some]

/-- Binding by position comes to the outcome whose condition holds, and to no other. Where it
succeeds, it comes to the same if the fallbacks of the inputs without a word are given as words. -/
theorem bind_eq_iff_byPosition (s : Signature) (hs : s.binding = .positional) (given : Given) :
    (∀ outcome, s.bind given = outcome ↔ ByPosition s given outcome) ∧
      ∀ bound, s.bind given = .ok bound →
        s.bind { given with positional := withFallbacks s.inputs given.positional } =
          .ok bound := by
  have hiff : ∀ outcome, s.bind given = outcome ↔ ByPosition s given outcome := by
    refine fun outcome => ⟨fun h => ?_, bind_of_byPosition hs⟩
    -- there is an outcome, and binding comes to it, so that there is only one
    obtain ⟨outcome', houtcome⟩ := exists_byPosition s given
    rwa [← h, bind_of_byPosition hs houtcome]
  refine ⟨hiff, fun bound hbound => ?_⟩
  apply bind_of_byPosition hs
  cases (hiff _).1 hbound with
  | bound keyed count met =>
    rw [← valuesInOrder_withFallbacks]
    refine .bound keyed (Nat.le_of_eq (length_withFallbacks count)) fun i input place => ?_
    rw [getElem?_withFallbacks place]
    exact Input.not_unmet_getD (met i input place)

/-- An empty word is a value where none has to be given, and not where one has to; and a default
may be given as a word. -/
theorem bind_eq_iff_byPosition_example :
    let s : Signature :=
      ⟨⟨['v'], [{ name := ['a'], required := true }, { name := ['b'] },
        { name := ['c'], default := some ['d'] }], .positional⟩, by decide⟩
    let bound : Arguments := ⟨[(['a'], ['x']), (['b'], []), (['c'], ['d'])], []⟩
    s.bind ⟨[['x'], []], []⟩ = .ok bound ∧ s.bind ⟨[['x'], [], ['d']], []⟩ = .ok bound ∧
      s.bind ⟨[[], ['y']], []⟩ = .error (.missingInput ['v'] ['a']) := by
  intro s bound
  have hbound : s.bind ⟨[['x'], []], []⟩ = .ok bound := by decide
  obtain ⟨-, hfallbacks⟩ := bind_eq_iff_byPosition s rfl ⟨[['x'], []], []⟩
  obtain ⟨houtcome, -⟩ := bind_eq_iff_byPosition s rfl ⟨[[], ['y']], []⟩
  have hunmet : Input.Unmet { name := ['a'], required := true } (some []) := ⟨rfl, by simp⟩
  have hcount : [[], ['y']].length ≤ s.inputs.length := by decide
  have hplace : s.inputs[0]? = some { name := ['a'], required := true } := rfl
  refine ⟨hbound, hfallbacks bound hbound, (houtcome _).2 ?_⟩
  exact .missing rfl hcount hplace hunmet fun j hj => absurd hj (Nat.not_lt_zero j)

end Signature

end Shortcodes
