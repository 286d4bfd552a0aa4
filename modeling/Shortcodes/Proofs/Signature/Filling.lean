import Shortcodes.Proofs.Signature.Keyword
import Shortcodes.Shortcode.Html

/-!
# Filling

Filling gives every input a value by its name, from arguments in which names may be missing,
unknown, repeated or in any order. It comes to one of two outcomes (`Filling`): the first input
that must have a value and has none, or an empty one, is reported, or else each input has its
value or its fallback. What filling leaves as it is are the complete arguments (`Complete`,
`fill_eq_self_iff`), and both binding and filling give such ones, so that filling is a closure and
keeps what was bound (`fill_closes`). An HTML shortcode that converts bound arguments renders just
these.
-/

namespace Shortcodes

/-- What conversion makes of arguments that are filled already. -/
def HtmlShortcode.renderFilled (s : HtmlShortcode) (args : Arguments) (context : Context) :
    Except Failure Text := do
  let markup ← (s.template.render args context).mapError (.rendering s.name <| .template ·)
  (Html.mark markup s.marker).mapError (.rendering s.name <| .root ·)

theorem HtmlShortcode.convert_eq (s : HtmlShortcode) (args : Arguments) (context : Context) :
    s.convert args context = (do
      let filled ← (s.signature.fill args).mapError (missingAsRendering s.name)
      s.renderFilled filled context) := by
  rfl

theorem HtmlShortcode.bind_eq_ok_iff {s : HtmlShortcode} {given : Given} {bound : Arguments} :
    s.bind given = .ok bound ↔ s.signature.bind given = .ok bound := by
  rw [bind, Except.mapError_eq_ok_iff]

namespace Signature

variable {s : Signature} {args : Arguments} {row : List (Input × Option Text)}

/-! ### Complete arguments -/

/-- One value for each input, in order, and each one that the input may take. -/
structure Complete (s : Signature) (args : Arguments) : Prop where
  names : args.values.map (·.1) = s.inputs.map (·.name)
  met : ∀ input ∈ s.inputs, ¬ input.Unmet (args.get? input.name)

theorem Complete.nodup_names (h : s.Complete args) : (args.values.map (·.1)).Nodup :=
  h.names ▸ s.nodup_names

theorem Complete.get?_eq (h : s.Complete args) {input : Input} (hi : input ∈ s.inputs) :
    args.get? input.name = some (args.getOrEmpty input.name) := by
  have hname : input.name ∈ args.values.map (·.1) := h.names ▸ List.mem_map_of_mem hi
  obtain ⟨⟨_, value⟩, hvalue, rfl⟩ := List.mem_map.1 hname
  have hget := Arguments.get?_of_mem h.nodup_names hvalue
  rw [Arguments.getOrEmpty, hget]
  rfl

/-- The values are those of the inputs' names. -/
theorem Complete.values_eq (h : s.Complete args) :
    args.values = s.inputs.map fun input => (input.name, args.getOrEmpty input.name) := by
  have hself : ∀ p ∈ args.values, p = (p.1, args.getOrEmpty p.1) := by
    intro p hp
    rw [Arguments.getOrEmpty, Arguments.get?_of_mem h.nodup_names hp]
    rfl
  calc args.values = args.values.map fun p => (p.1, args.getOrEmpty p.1) := by
        conv_lhs => rw [← List.map_id args.values]
        exact List.map_congr_left hself
    _ = (args.values.map (·.1)).map fun name => (name, args.getOrEmpty name) := by
        rw [List.map_map]
        rfl
    _ = (s.inputs.map (·.name)).map fun name => (name, args.getOrEmpty name) := by rw [h.names]
    _ = s.inputs.map fun input => (input.name, args.getOrEmpty input.name) := by
        rw [List.map_map]
        rfl

/-- A required input has a value. -/
theorem Complete.ne_nil (h : s.Complete args) {input : Input} (hi : input ∈ s.inputs)
    (hrequired : input.required = true) : args.getOrEmpty input.name ≠ [] := by
  intro hempty
  apply h.met input hi
  refine ⟨hrequired, fun value hvalue => ?_⟩
  rw [h.get?_eq hi, hempty] at hvalue
  exact (Option.some.inj hvalue).symm

/-- What resolving a row of all inputs gives is complete. -/
theorem complete_of_row (hrow : row.map (·.1) = s.inputs) (hmet : ∀ p ∈ row, ¬ p.1.Unmet p.2)
    (extra : List (Text × Text)) : s.Complete ⟨valuesOfRow row, extra⟩ := by
  have hnames : ((row.map (·.1)).map (·.name)).Nodup := hrow ▸ s.nodup_names
  constructor
  · rw [names_valuesOfRow, hrow]
  · intro input hi
    rw [← hrow] at hi
    obtain ⟨⟨_, given⟩, hgiven, rfl⟩ := List.mem_map.1 hi
    rw [get?_valuesOfRow hnames hgiven]
    exact Input.not_unmet_getD (hmet _ hgiven)

theorem complete_of_bind {given : Given} {bound : Arguments} (h : s.bind given = .ok bound) :
    s.Complete bound := by
  -- by position or by key, what was bound is a row of the inputs, resolved
  obtain ⟨row, hrow, hresolve⟩ : ∃ row : List (Input × Option Text), row.map (·.1) = s.inputs ∧
      resolveRow s.name row = .ok bound.values := by
    cases hs : s.binding with
    | positional =>
      have hresolve := resolveInOrder_of_bind hs h
      rw [resolveInOrder_eq_row] at hresolve
      exact ⟨_, map_fst_givenInOrder s.inputs _, hresolve⟩
    | keyword policy =>
      have hresolve := resolveByKey_of_bind hs h
      rw [resolveByKey_eq_row] at hresolve
      exact ⟨_, map_fst_givenByKey s.inputs _, hresolve⟩
  obtain ⟨hmet, hvalues⟩ := resolveRow_eq_ok_iff.1 hresolve
  obtain ⟨values, extra⟩ := bound
  subst hvalues
  exact complete_of_row hrow hmet extra

/-! ### The outcomes of filling -/

/-- The outcomes of filling, each with the condition under which it comes about. -/
inductive Filling (s : Signature) (args : Arguments) : Except Failure Arguments → Prop
  | missing {i : Nat} {input : Input} (place : s.inputs[i]? = some input)
      (unmet : input.Unmet (args.get? input.name))
      (before : ∀ j < i, ∀ other, s.inputs[j]? = some other →
        ¬ other.Unmet (args.get? other.name)) :
      Filling s args (.error (.missingInput s.name input.name))
  | filled (met : ∀ input ∈ s.inputs, ¬ input.Unmet (args.get? input.name)) :
      Filling s args (.ok ⟨s.inputs.map fun input =>
        (input.name, (args.get? input.name).getD input.fallback), args.extra⟩)

theorem fill_eq_row (s : Signature) (args : Arguments) : s.fill args =
    (resolveRow s.name (givenFrom args s.inputs)).map fun values => ⟨values, args.extra⟩ := by
  rw [fill, resolveFrom_eq_row]

theorem getElem?_givenFrom {inputs : List Input} {i : Nat} {input : Input} {given : Option Text} :
    (givenFrom args inputs)[i]? = some (input, given) ↔
      inputs[i]? = some input ∧ args.get? input.name = given := by
  rw [givenFrom, List.getElem?_map, Option.map_eq_some_iff]
  constructor
  · rintro ⟨input', place, hpair⟩
    cases hpair
    exact ⟨place, rfl⟩
  · rintro ⟨place, rfl⟩
    exact ⟨input, place, rfl⟩

theorem fill_of_met (h : ∀ input ∈ s.inputs, ¬ input.Unmet (args.get? input.name)) :
    s.fill args = .ok ⟨valuesOfRow (givenFrom args s.inputs), args.extra⟩ := by
  have hmet : ∀ p ∈ givenFrom args s.inputs, ¬ p.1.Unmet p.2 := by
    intro p hp
    obtain ⟨input, hi, rfl⟩ := List.mem_map.1 hp
    exact h input hi
  rw [fill_eq_row, resolveRow_of_met hmet]
  rfl

theorem fill_of_filling {outcome : Except Failure Arguments} (h : Filling s args outcome) :
    s.fill args = outcome := by
  cases h with
  | missing place unmet before =>
    rw [fill_eq_row, resolveRow_of_unmet (getElem?_givenFrom.2 ⟨place, rfl⟩) unmet]
    · rfl
    · rintro j hj ⟨other, given⟩ hp
      obtain ⟨hother, rfl⟩ := getElem?_givenFrom.1 hp
      exact before j hj other hother
  | filled met =>
    rw [fill_of_met met, valuesOfRow, givenFrom, List.map_map]
    rfl

theorem exists_filling (s : Signature) (args : Arguments) : ∃ outcome, Filling s args outcome := by
  obtain hmet | ⟨i, input, given, place, unmet, before⟩ :=
    met_or_exists_unmet (givenFrom args s.inputs)
  · refine ⟨_, .filled fun input hi => ?_⟩
    exact hmet (input, args.get? input.name) (List.mem_map_of_mem hi)
  · obtain ⟨hplace, rfl⟩ := getElem?_givenFrom.1 place
    refine ⟨_, .missing hplace unmet fun j hj other hother => ?_⟩
    exact before j hj _ (getElem?_givenFrom.2 ⟨hother, rfl⟩)

/-! ### Filling again -/

theorem fill_of_complete (h : s.Complete args) : s.fill args = .ok args := by
  -- no fallback is used, since every input has a value
  have hvalues : valuesOfRow (givenFrom args s.inputs) = args.values := by
    rw [h.values_eq, valuesOfRow, givenFrom, List.map_map]
    refine List.map_congr_left fun input hi => ?_
    rw [Function.comp_apply, h.get?_eq hi]
    rfl
  rw [fill_of_met h.met, hvalues]

theorem complete_of_fill {filled : Arguments} (h : s.fill args = .ok filled) :
    s.Complete filled := by
  rw [fill_eq_row] at h
  obtain ⟨values, hresolve, rfl⟩ := Except.map_eq_ok_iff.1 h
  obtain ⟨hmet, rfl⟩ := resolveRow_eq_ok_iff.1 hresolve
  refine complete_of_row ?_ hmet args.extra
  rw [givenFrom, List.map_map]
  exact List.map_id s.inputs

/-- Filling leaves exactly complete arguments as they are. -/
theorem fill_eq_self_iff : s.fill args = .ok args ↔ s.Complete args :=
  ⟨complete_of_fill, fill_of_complete⟩

/-- Filling keeps what was bound and what was filled, and it fails exactly if an input that must
have a value has none. What an HTML shortcode converts of bound arguments are these arguments. -/
theorem fill_closes (s : Signature) :
    (∀ given bound, s.bind given = .ok bound → s.fill bound = .ok bound) ∧
      (∀ args outcome, s.fill args = outcome ↔ Filling s args outcome) ∧
      (∀ args filled, s.fill args = .ok filled → s.fill filled = .ok filled) ∧
      ∀ (shortcode : HtmlShortcode) (given : Given) (bound : Arguments),
        shortcode.signature = s → shortcode.bind given = .ok bound →
          ∀ context, shortcode.convert bound context = shortcode.renderFilled bound context := by
  refine ⟨fun given bound h => ?_, fun args outcome => ⟨fun h => ?_, fill_of_filling⟩,
    fun args filled h => ?_, ?_⟩
  · exact fill_of_complete (complete_of_bind h)
  · -- there is an outcome, and filling comes to it, so that there is only one
    obtain ⟨outcome', houtcome⟩ := exists_filling s args
    rwa [← h, fill_of_filling houtcome]
  · exact fill_of_complete (complete_of_fill h)
  · rintro shortcode given bound rfl h context
    have hbound := complete_of_bind (HtmlShortcode.bind_eq_ok_iff.1 h)
    rw [HtmlShortcode.convert_eq, fill_of_complete hbound]
    rfl

/-- The first of several values of a name counts, an empty value is one where none has to be given,
and names that are not declared are left out; what was bound is converted as it is. -/
theorem fill_closes_repeated :
    let s : Signature :=
      ⟨⟨['v'], [{ name := ['a'], required := true }, { name := ['b'], default := some ['d'] }],
        .keyword { rejectUnknown := false }⟩, by decide⟩
    let shortcode : HtmlShortcode := ⟨s, .format "<b></b>".toList, ['m'], [none, none]⟩
    let given : Given := ⟨[], [(['y'], ['3']), (['b'], []), (['a'], ['1'])]⟩
    let args : Arguments :=
      ⟨[(['x'], ['9']), (['b'], []), (['a'], ['1']), (['a'], ['2'])], [(['y'], ['3'])]⟩
    let filled : Arguments := ⟨[(['a'], ['1']), (['b'], [])], [(['y'], ['3'])]⟩
    s.bind given = .ok filled ∧ s.fill args = .ok filled ∧ s.fill filled = .ok filled ∧
      s.fill ⟨[(['b'], ['1'])], []⟩ = .error (.missingInput ['v'] ['a']) ∧
      shortcode.convert filled .empty = shortcode.renderFilled filled .empty := by
  intro s shortcode given args filled
  have hbound : s.bind given = .ok filled := by decide
  have hfilled : s.fill args = .ok filled := by decide
  obtain ⟨-, houtcome, hagain, hconvert⟩ := fill_closes s
  refine ⟨hbound, hfilled, hagain args filled hfilled, (houtcome _ _).2 ?_,
    hconvert shortcode given filled rfl (HtmlShortcode.bind_eq_ok_iff.2 hbound) .empty⟩
  have hplace : s.inputs[0]? = some { name := ['a'], required := true } := rfl
  have hunmet : Input.Unmet { name := ['a'], required := true }
      (Arguments.get? ⟨[(['b'], ['1'])], []⟩ ['a']) := ⟨rfl, by decide⟩
  exact .missing hplace hunmet fun j hj => absurd hj (Nat.not_lt_zero j)

end Signature

end Shortcodes
