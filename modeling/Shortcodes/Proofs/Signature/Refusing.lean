import Shortcodes.Proofs.Signature.ByPosition
import Shortcodes.Proofs.Signature.Keyword
import Shortcodes.Proofs.Signature.Taking

/-!
# What binding refuses

Whether what a tag gives suits a signature is settled before any input is looked at: it is refused
as a whole (`Refuses`) or accepted (`Accepts`). What is accepted is given to the inputs one by one
(`givenTo`), and then the first of them that must have a value and has none, or an empty one, is all
that binding can fail at (`bind_eq_error_iff`).
-/

namespace Shortcodes.Signature

variable {s : Signature} {given : Given}

/-! ### The first input without a value -/

/-- The input must have a value and has none or an empty one, and is the first such in the row. -/
def FirstUnmet (row : List (Input × Option Text)) (input : Input) : Prop :=
  ∃ (i : Nat) (given : Option Text), row[i]? = some (input, given) ∧ input.Unmet given ∧
    ∀ j < i, ∀ p, row[j]? = some p → ¬ p.1.Unmet p.2

theorem resolveRow_eq_error_iff {shortcode : Text} {row : List (Input × Option Text)}
    {e : Failure} : resolveRow shortcode row = .error e ↔
      ∃ input, FirstUnmet row input ∧ e = .missingInput shortcode input.name := by
  constructor
  · intro h
    obtain hmet | ⟨i, input, given, place, unmet, before⟩ := met_or_exists_unmet row
    · rw [resolveRow_of_met hmet] at h
      cases h
    · rw [resolveRow_of_unmet place unmet before] at h
      cases h
      exact ⟨input, ⟨i, given, place, unmet, before⟩, rfl⟩
  · rintro ⟨input, ⟨i, given, place, unmet, before⟩, rfl⟩
    exact resolveRow_of_unmet place unmet before

/-! ### Refused as a whole -/

/-- What a tag gives is of no use to the signature, and why: keys for one by position, more words
than it has inputs, words for one by key, or keys that it does not declare and does not tolerate. -/
inductive Refuses (s : Signature) (given : Given) : Failure → Prop
  | keys (binding : s.binding = .positional) (keyed : given.keyed ≠ []) :
      Refuses s given (.unknownKeys s.name (given.keyed.map (·.1)) [])
  | surplus (binding : s.binding = .positional) (keyed : given.keyed = [])
      (count : s.inputs.length < given.positional.length) :
      Refuses s given (.tooManyWords s.name given.positional.length s.inputs.length)
  | words {policy : KeywordPolicy} (binding : s.binding = .keyword policy)
      (words : given.positional ≠ []) :
      Refuses s given (.tooManyWords s.name given.positional.length 0)
  | undeclared {policy : KeywordPolicy} (binding : s.binding = .keyword policy)
      (words : given.positional = []) (strict : policy.rejectUnknown = true)
      (undeclared : s.undeclared given ≠ []) :
      Refuses s given
        (.unknownKeys s.name ((s.undeclared given).map (·.1)) (s.inputs.map (·.name)))

/-- What a tag gives suits the signature, whatever its values are. -/
def Accepts (s : Signature) (given : Given) : Prop :=
  match s.binding with
  | .positional => given.keyed = [] ∧ given.positional.length ≤ s.inputs.length
  | .keyword policy => given.positional = [] ∧
      (policy.rejectUnknown = true → ∀ p ∈ given.keyed, p.1 ∈ s.inputs.map (·.name))

/-- Each input with what it is given: the word at its place, or the value of its name. -/
def givenTo (s : Signature) (given : Given) : List (Input × Option Text) :=
  match s.binding with
  | .positional => givenInOrder s.inputs given.positional
  | .keyword _ => s.inputs.map fun input => (input, (valuesOf input.name given.keyed).head?)

theorem accepts_positional (hs : s.binding = .positional) : s.Accepts given ↔
    given.keyed = [] ∧ given.positional.length ≤ s.inputs.length := by
  rw [Accepts, hs]

theorem undeclared_eq_nil_iff :
    s.undeclared given = [] ↔ ∀ p ∈ given.keyed, p.1 ∈ s.inputs.map (·.name) := by
  rw [undeclared, List.filter_eq_nil_iff]
  refine forall₂_congr fun p _ => ?_
  rw [← declares_iff, Bool.not_eq_true', Bool.not_eq_false]

theorem accepts_keyword {policy : KeywordPolicy} (hs : s.binding = .keyword policy) :
    s.Accepts given ↔
      given.positional = [] ∧ (policy.rejectUnknown = true → s.undeclared given = []) := by
  rw [Accepts, hs, undeclared_eq_nil_iff]

theorem exists_refuses_or_accepts (s : Signature) (given : Given) :
    (∃ e, s.Refuses given e) ∨ s.Accepts given := by
  cases hs : s.binding with
  | positional =>
    rw [accepts_positional hs]
    by_cases keyed : given.keyed = []
    · by_cases count : given.positional.length ≤ s.inputs.length
      · exact .inr ⟨keyed, count⟩
      · exact .inl ⟨_, .surplus hs keyed (Nat.lt_of_not_le count)⟩
    · exact .inl ⟨_, .keys hs keyed⟩
  | keyword policy =>
    rw [accepts_keyword hs]
    by_cases words : given.positional = []
    · by_cases strict : policy.rejectUnknown = true ∧ s.undeclared given ≠ []
      · exact .inl ⟨_, .undeclared hs words strict.1 strict.2⟩
      · exact .inr ⟨words, fun h => not_not.1 fun hne => strict ⟨h, hne⟩⟩
    · exact .inl ⟨_, .words hs words⟩

theorem bind_of_refuses {e : Failure} (h : s.Refuses given e) : s.bind given = .error e := by
  cases h with
  | keys binding keyed => exact bind_of_byPosition binding (.keys keyed)
  | surplus binding keyed count => exact bind_of_byPosition binding (.surplus keyed count)
  | words binding words => rw [bind_keyword binding, if_pos words]
  | undeclared binding words strict undeclared =>
    rw [bind_keyword binding, if_neg (not_not_intro words), if_pos]
    simp [strict, undeclared]

/-- What is accepted is resolved in a row. -/
theorem exists_bind_eq_row (hkeys : (given.keyed.map (·.1)).Nodup) (h : s.Accepts given) :
    ∃ extra, s.bind given =
      (resolveRow s.name (s.givenTo given)).map fun values => ⟨values, extra⟩ := by
  cases hs : s.binding with
  | positional =>
    obtain ⟨keyed, count⟩ := (accepts_positional hs).1 h
    refine ⟨[], ?_⟩
    rw [givenTo, bind, hs]
    show s.bindPositional given = _
    rw [bindPositional, if_neg (not_not_intro keyed), if_neg (Nat.not_lt_of_le count),
      resolveInOrder_eq_row]
  | keyword policy =>
    obtain ⟨words, hdeclared⟩ := (accepts_keyword hs).1 h
    have hstrict : (policy.rejectUnknown && decide (s.undeclared given ≠ [])) = false := by
      cases hreject : policy.rejectUnknown with
      | false => rfl
      | true => simp [hdeclared hreject]
    -- the undeclared keys are not those of any input
    have hown : ∀ input ∈ s.inputs,
        valuesOf input.name (s.declaredPart given).keyed = valuesOf input.name given.keyed := by
      intro input hi
      exact valuesOf_filter fun _ => declares_iff.2 (List.mem_map_of_mem hi)
    have hrow : givenByKey s.inputs (s.declaredPart given).keyed =
        s.inputs.map fun input => (input, (valuesOf input.name given.keyed).head?) := by
      rw [givenByKey_of_short s.nodup_names]
      · exact List.map_congr_left fun input hi => by rw [hown input hi]
      · intro input hi
        rw [hown input hi]
        exact length_valuesOf_le_one hkeys input.name
    refine ⟨s.undeclared given, ?_⟩
    rw [bind_keyword hs, if_neg (not_not_intro words), hstrict, if_neg Bool.false_ne_true,
      resolveByKey_eq_row, hrow, givenTo, hs]

/-- Binding fails as a whole or at the first input that lacks its value. -/
theorem bind_eq_error_iff (hkeys : (given.keyed.map (·.1)).Nodup) {e : Failure} :
    s.bind given = .error e ↔ s.Refuses given e ∨ s.Accepts given ∧
      ∃ input, FirstUnmet (s.givenTo given) input ∧ e = .missingInput s.name input.name := by
  constructor
  · intro h
    rcases exists_refuses_or_accepts s given with ⟨e', hrefuses⟩ | haccepts
    · rw [bind_of_refuses hrefuses] at h
      cases h
      exact .inl hrefuses
    · obtain ⟨extra, hbind⟩ := exists_bind_eq_row hkeys haccepts
      rw [hbind, Except.map_eq_error_iff] at h
      exact .inr ⟨haccepts, resolveRow_eq_error_iff.1 h⟩
  · rintro (hrefuses | ⟨haccepts, hunmet⟩)
    · exact bind_of_refuses hrefuses
    · obtain ⟨extra, hbind⟩ := exists_bind_eq_row hkeys haccepts
      rw [hbind, Except.map_eq_error_iff]
      exact resolveRow_eq_error_iff.2 hunmet

end Shortcodes.Signature
