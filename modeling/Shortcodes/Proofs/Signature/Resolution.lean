import Mathlib.Data.List.Nodup
import Shortcodes.Proofs.Outcome
import Shortcodes.Signature.Arguments

/-!
# Resolving inputs in a row

Binding by position, binding by key and filling resolve the inputs in the order of their
declaration, each with what it is given; they differ only in where that comes from
(`resolveInOrder_eq_row`, `resolveByKey_eq_row`, `resolveFrom_eq_row`). What can come of it is said
once, for a row of inputs with what they are given: the first one that must have a value, and that
is given none or the empty one, is reported (`resolveRow_of_unmet`); if there is none such, each
input takes what it is given, or its fallback (`resolveRow_eq_ok_iff`).
-/

namespace Shortcodes

/-! ### One input -/

/-- An input must have a value, and all that it is given is empty. -/
def Input.Unmet (input : Input) (given : Option Text) : Prop :=
  input.required = true ∧ ∀ value ∈ given, value = []

theorem Input.resolve_of_unmet {input : Input} {given : Option Text} (h : input.Unmet given)
    (shortcode : Text) :
    input.resolve shortcode given = .error (.missingInput shortcode input.name) := by
  obtain ⟨hrequired, hempty⟩ := h
  cases given with
  | none => simp [resolve, hrequired]
  | some value => simp [resolve, hrequired, hempty value rfl]

theorem Input.resolve_of_not_unmet {input : Input} {given : Option Text} (h : ¬ input.Unmet given)
    (shortcode : Text) : input.resolve shortcode given = .ok (given.getD input.fallback) := by
  by_cases hrequired : input.required = true
  · cases given with
    | none => exact absurd ⟨hrequired, by simp⟩ h
    | some value =>
      have hvalue : value ≠ [] := fun hempty => h ⟨hrequired, by simpa using hempty⟩
      simp [resolve, hvalue]
  · cases given with
    | none => simp [resolve, hrequired]
    | some value => simp [resolve, hrequired]

/-- The fallback of an input may be given to it. -/
theorem Input.not_unmet_getD {input : Input} {given : Option Text} (h : ¬ input.Unmet given) :
    ¬ input.Unmet (some (given.getD input.fallback)) := by
  rintro ⟨hrequired, hempty⟩
  apply h
  refine ⟨hrequired, fun value hvalue => ?_⟩
  rw [hvalue] at hempty
  exact hempty value rfl

/-- A value that is not empty suits any input. -/
theorem Input.not_unmet_some {value : Text} (h : value ≠ []) (input : Input) :
    ¬ input.Unmet (some value) :=
  fun hunmet => h (hunmet.2 value rfl)

/-! ### Values by name -/

/-- A name that stands once has its value. -/
theorem Arguments.get?_of_mem {a : Arguments} (hnames : (a.values.map (·.1)).Nodup)
    {name value : Text} (h : (name, value) ∈ a.values) : a.get? name = some value := by
  rw [get?]
  cases hfind : a.values.find? (·.1 = name) with
  | none => exact absurd (List.find?_eq_none.1 hfind _ h) (by simp)
  | some p =>
    have hname := List.find?_some hfind
    rw [decide_eq_true_eq] at hname
    rw [List.inj_on_of_nodup_map hnames (List.mem_of_find?_eq_some hfind) h hname]
    rfl

namespace Signature

variable {shortcode : Text} {row : List (Input × Option Text)}

/-! ### A row of inputs -/

/-- Resolves each input with what it is given. -/
def resolveRow (shortcode : Text) :
    List (Input × Option Text) → Except Failure (List (Text × Text))
  | [] => .ok []
  | (input, given) :: row => do
    let value ← input.resolve shortcode given
    let rest ← resolveRow shortcode row
    return (input.name, value) :: rest

/-- What each input is given, under its name; the fallback where that is nothing. -/
def valuesOfRow (row : List (Input × Option Text)) : List (Text × Text) :=
  row.map fun p => (p.1.name, p.2.getD p.1.fallback)

/-- The first input that is left without the value that it must have is reported. -/
theorem resolveRow_of_unmet {i : Nat} {input : Input} {given : Option Text}
    (place : row[i]? = some (input, given)) (unmet : input.Unmet given)
    (before : ∀ j < i, ∀ p, row[j]? = some p → ¬ p.1.Unmet p.2) :
    resolveRow shortcode row = .error (.missingInput shortcode input.name) := by
  induction row generalizing i with
  | nil => cases place
  | cons first row ih =>
    rw [resolveRow]
    cases i with
    | zero =>
      obtain rfl : first = (input, given) := Option.some.inj place
      rw [Input.resolve_of_unmet unmet]
      rfl
    | succ i =>
      -- the first input has its value, and behind it each place counts one less
      have hfirst : ¬ first.1.Unmet first.2 := before 0 (Nat.succ_pos i) first rfl
      have hrest : resolveRow shortcode row = .error (.missingInput shortcode input.name) :=
        ih place fun j hj => before (j + 1) (Nat.succ_lt_succ hj)
      rw [Input.resolve_of_not_unmet hfirst, hrest]
      rfl

/-- Where no input is left without the value that it must have, all get their values. -/
theorem resolveRow_of_met (met : ∀ p ∈ row, ¬ p.1.Unmet p.2) :
    resolveRow shortcode row = .ok (valuesOfRow row) := by
  induction row with
  | nil => rfl
  | cons first row ih =>
    obtain ⟨hfirst, hrow⟩ := List.forall_mem_cons.1 met
    rw [resolveRow, Input.resolve_of_not_unmet hfirst, ih hrow]
    rfl

/-- Either all inputs of a row get their values, or there is a first one that does not. -/
theorem met_or_exists_unmet (row : List (Input × Option Text)) :
    (∀ p ∈ row, ¬ p.1.Unmet p.2) ∨ ∃ (i : Nat) (input : Input) (given : Option Text),
      row[i]? = some (input, given) ∧ input.Unmet given ∧
        ∀ j < i, ∀ p, row[j]? = some p → ¬ p.1.Unmet p.2 := by
  induction row with
  | nil => exact .inl (by simp)
  | cons first row ih =>
    by_cases hfirst : first.1.Unmet first.2
    · exact .inr ⟨0, first.1, first.2, rfl, hfirst, fun j hj => absurd hj (Nat.not_lt_zero j)⟩
    · obtain hmet | ⟨i, input, given, place, unmet, before⟩ := ih
      · exact .inl (List.forall_mem_cons.2 ⟨hfirst, hmet⟩)
      · refine .inr ⟨i + 1, input, given, place, unmet, fun j hj p hp => ?_⟩
        cases j with
        | zero =>
          obtain rfl : first = p := Option.some.inj hp
          exact hfirst
        | succ j => exact before j (Nat.lt_of_succ_lt_succ hj) p hp

theorem resolveRow_eq_ok_iff {values : List (Text × Text)} :
    resolveRow shortcode row = .ok values ↔
      (∀ p ∈ row, ¬ p.1.Unmet p.2) ∧ values = valuesOfRow row := by
  constructor
  · intro h
    obtain hmet | ⟨i, input, given, place, unmet, before⟩ := met_or_exists_unmet row
    · rw [resolveRow_of_met hmet] at h
      exact ⟨hmet, (Except.ok.inj h).symm⟩
    · rw [resolveRow_of_unmet place unmet before] at h
      cases h
  · rintro ⟨hmet, rfl⟩
    exact resolveRow_of_met hmet

/-- The names of the values are those of the inputs. -/
theorem names_valuesOfRow (row : List (Input × Option Text)) :
    (valuesOfRow row).map (·.1) = (row.map (·.1)).map (·.name) := by
  rw [valuesOfRow, List.map_map, List.map_map]
  rfl

/-- The value of an input stands under its name, where the names differ. -/
theorem get?_valuesOfRow (hnames : ((row.map (·.1)).map (·.name)).Nodup) {input : Input}
    {given : Option Text} (h : (input, given) ∈ row) (extra : List (Text × Text)) :
    Arguments.get? ⟨valuesOfRow row, extra⟩ input.name = some (given.getD input.fallback) := by
  rw [← names_valuesOfRow] at hnames
  exact Arguments.get?_of_mem hnames (List.mem_map_of_mem h)

/-! ### What the inputs are given -/

/-- The inputs with the words at their places. -/
def givenInOrder (inputs : List Input) (words : List Text) : List (Input × Option Text) :=
  inputs.mapIdx fun i input => (input, words[i]?)

/-- The inputs with the values of the pairs that are taken for them in turn. -/
def givenByKey : List Input → List (Text × Text) → List (Input × Option Text)
  | [], _ => []
  | input :: inputs, pairs =>
    (input, (takeKey input.name pairs).1) :: givenByKey inputs (takeKey input.name pairs).2

/-- The inputs with the values that arguments have for their names. -/
def givenFrom (args : Arguments) (inputs : List Input) : List (Input × Option Text) :=
  inputs.map fun input => (input, args.get? input.name)

theorem getElem?_givenInOrder {inputs : List Input} {words : List Text} {i : Nat} {input : Input}
    {given : Option Text} : (givenInOrder inputs words)[i]? = some (input, given) ↔
      inputs[i]? = some input ∧ words[i]? = given := by
  rw [givenInOrder, List.getElem?_mapIdx, Option.map_eq_some_iff]
  constructor
  · rintro ⟨input', place, hpair⟩
    cases hpair
    exact ⟨place, rfl⟩
  · rintro ⟨place, rfl⟩
    exact ⟨input, place, rfl⟩

theorem givenInOrder_cons (input : Input) (inputs : List Input) (words : List Text) :
    givenInOrder (input :: inputs) words =
      (input, words[0]?) :: givenInOrder inputs words.tail := by
  rw [givenInOrder, List.mapIdx_cons, givenInOrder]
  simp only [List.getElem?_tail]

theorem resolveInOrder_eq_row (shortcode : Text) (inputs : List Input) (words : List Text) :
    resolveInOrder shortcode inputs words = resolveRow shortcode (givenInOrder inputs words) := by
  induction inputs generalizing words with
  | nil => rfl
  | cons input inputs ih =>
    rw [resolveInOrder, List.head?_eq_getElem?, ih, givenInOrder_cons, resolveRow]

theorem resolveByKey_eq_row (shortcode : Text) (inputs : List Input)
    (pairs : List (Text × Text)) :
    resolveByKey shortcode inputs pairs = resolveRow shortcode (givenByKey inputs pairs) := by
  induction inputs generalizing pairs with
  | nil => rfl
  | cons input inputs ih =>
    rw [resolveByKey, givenByKey, resolveRow]
    simp only [ih]

theorem resolveFrom_eq_row (shortcode : Text) (args : Arguments) (inputs : List Input) :
    resolveFrom shortcode args inputs = resolveRow shortcode (givenFrom args inputs) := by
  induction inputs with
  | nil => rfl
  | cons input inputs ih =>
    rw [resolveFrom, ih]
    rfl

theorem map_fst_givenInOrder (inputs : List Input) (words : List Text) :
    (givenInOrder inputs words).map (·.1) = inputs := by
  induction inputs generalizing words with
  | nil => rfl
  | cons input inputs ih => rw [givenInOrder_cons, List.map_cons, ih]

theorem map_fst_givenByKey (inputs : List Input) (pairs : List (Text × Text)) :
    (givenByKey inputs pairs).map (·.1) = inputs := by
  induction inputs generalizing pairs with
  | nil => rfl
  | cons input inputs ih => rw [givenByKey, List.map_cons, ih]

end Signature

end Shortcodes
