import Shortcodes.Proofs.Signature.Positional
import Shortcodes.Proofs.Signature.Taking

/-!
# Binding by key

Words are refused, and then undeclared keys where the policy says so; the declared part of what is
given is resolved, and the rest is set aside (`bind_keyword`). Pairs with different keys bind each
input to the value of its key, whatever their order (`resolveByKey_eq`), and what binding gives to
an input is always the value of a pair or its fallback (`mem_or_eq_fallback_of_resolveByKey`).
-/

namespace Shortcodes.Signature

/-! ### Resolving -/

/-- Pairs with different keys give each input the value of its key. -/
theorem resolveByKey_eq {shortcode : Text} {value : Input → Text} {inputs : List Input}
    {pairs : List (Text × Text)} (hn : (inputs.map (·.name)).Nodup)
    (hp : (pairs.map (·.1)).Nodup)
    (hv : ∀ input ∈ inputs, (input.name, value input) ∈ pairs ∨
      (input.name ∉ pairs.map (·.1) ∧ value input = input.fallback))
    (hr : ∀ input ∈ inputs, input.required = true → input.fallback = []) :
    resolveByKey shortcode inputs pairs = resolved shortcode value inputs := by
  have hgiven : givenByKey inputs pairs =
      inputs.map fun input => (input, (valuesOf input.name pairs).head?) :=
    givenByKey_of_short hn fun input _ => length_valuesOf_le_one hp input.name
  rw [resolveByKey_eq_row, resolveRow_eq_resolved, map_fst_givenByKey]
  · intro p hmem
    rw [hgiven] at hmem
    obtain ⟨input, hi, rfl⟩ := List.mem_map.1 hmem
    obtain hpair | ⟨hnew, hfall⟩ := hv input hi
    · exact .inl (by rw [valuesOf_of_mem hp hpair]; rfl)
    · exact .inr ⟨by rw [valuesOf_eq_nil_iff.2 hnew]; rfl, hfall⟩
  · intro p hmem
    rw [hgiven] at hmem
    obtain ⟨input, hi, rfl⟩ := List.mem_map.1 hmem
    exact hr input hi

/-- What binding by key gives to an input was in a pair of its name or is its fallback. -/
theorem mem_or_eq_fallback_of_resolveByKey {shortcode : Text} {inputs : List Input}
    {pairs values : List (Text × Text)} (h : resolveByKey shortcode inputs pairs = .ok values)
    {p : Text × Text} (hp : p ∈ values) :
    p ∈ pairs ∨ ∃ input ∈ inputs, p = (input.name, input.fallback) := by
  rw [resolveByKey_eq_row, resolveRow_eq_ok_iff] at h
  obtain ⟨-, rfl⟩ := h
  obtain ⟨⟨input, given⟩, hrow, rfl⟩ := List.mem_map.1 hp
  cases given with
  | some value => exact .inl (mem_of_mem_givenByKey hrow)
  | none =>
    have hi : input ∈ inputs := by
      rw [← map_fst_givenByKey inputs pairs]
      exact List.mem_map_of_mem hrow
    exact .inr ⟨input, hi, rfl⟩

/-! ### Tags by key -/

/-- Whether a name can stand in front of an equals sign and be read as it is. -/
structure IsKey (name : Text) : Prop where
  ne_nil : name ≠ []
  notBlank : ∀ c ∈ name, isBlank c = false
  plain : ∀ c ∈ name, c ≠ '\'' ∧ c ≠ '"' ∧ c ≠ '\\' ∧ c ≠ '='
  notCloser : Text.has Word.closer name = false

theorem IsKey.form {name : Text} (h : IsKey name) (value : Text) :
    Word.Form (name ++ '=' :: Word.written value) (.keyed name value) :=
  Word.form_keyed h.ne_nil
    (fun c hc => ⟨(h.plain c hc).1, (h.plain c hc).2.1, (h.plain c hc).2.2.1⟩) h.notBlank
    (fun hm => (h.plain _ hm).2.2.2 rfl) (Text.has_eq_false_iff.1 h.notCloser) value

variable {s : Signature} {args : Arguments}

/-- The inputs whose pairs the canonical tag has. -/
def keptInputs (s : Signature) (omission : Omission) (args : Arguments) : List Input :=
  s.inputs.filter fun input => !omits omission input (args.getOrEmpty input.name)

theorem keywordWords_eq (s : Signature) (omission : Omission) (args : Arguments) :
    s.keywordWords omission args = (s.keptInputs omission args).map fun input =>
      input.name ++ '=' :: Word.written (args.getOrEmpty input.name) := by
  rw [keywordWords, keptInputs]
  induction s.inputs with
  | nil => rfl
  | cons input inputs ih =>
    rw [List.filterMap_cons, List.filter_cons, ih]
    cases h : omits omission input (args.getOrEmpty input.name) <;> simp [h]

/-- Inputs are told apart by their names. -/
theorem eq_of_name_eq (s : Signature) {i j : Input} (hi : i ∈ s.inputs) (hj : j ∈ s.inputs)
    (h : i.name = j.name) : i = j :=
  List.inj_on_of_nodup_map s.nodup_names hi hj h

theorem declares_iff {key : Text} : s.declares key = true ↔ key ∈ s.inputs.map (·.name) := by
  simp [declares]

/-- What is given without the pairs of undeclared keys. -/
def declaredPart (s : Signature) (given : Given) : Given :=
  { given with keyed := given.keyed.filter fun p => s.declares p.1 }

/-- The pairs of undeclared keys. -/
def undeclared (s : Signature) (given : Given) : List (Text × Text) :=
  given.keyed.filter fun p => !s.declares p.1

/-- Words are refused, then undeclared keys if the policy says so, and the other keys are resolved
while the undeclared ones are set aside. -/
theorem bind_keyword {policy : KeywordPolicy} (hs : s.binding = .keyword policy)
    (given : Given) : s.bind given =
      if given.positional ≠ [] then .error (.tooManyWords s.name given.positional.length 0)
      else if policy.rejectUnknown && s.undeclared given ≠ [] then
        .error (.unknownKeys s.name ((s.undeclared given).map (·.1)) (s.inputs.map (·.name)))
      else (resolveByKey s.name s.inputs (s.declaredPart given).keyed).map
        fun values => ⟨values, s.undeclared given⟩ := by
  rw [bind, hs]
  rfl

/-- Declared keys alone are bound without anything left over. -/
theorem bind_eq_of_declared {policy : KeywordPolicy} (hs : s.binding = .keyword policy)
    {pairs : List (Text × Text)} (h : ∀ p ∈ pairs, s.declares p.1 = true) :
    s.bind ⟨[], pairs⟩ = (resolveByKey s.name s.inputs pairs).map fun values => ⟨values, []⟩ := by
  have hall : s.declaredPart ⟨[], pairs⟩ = ⟨[], pairs⟩ := by
    rw [declaredPart, List.filter_eq_self.2 h]
  have hnone : s.undeclared ⟨[], pairs⟩ = [] :=
    List.filter_eq_nil_iff.2 fun p hp => by simp [h p hp]
  rw [bind_keyword hs, hall, hnone]
  simp

/-- What binding by key succeeds with are the resolved declared pairs. -/
theorem resolveByKey_of_bind {policy : KeywordPolicy} (hs : s.binding = .keyword policy)
    {given : Given} {bound : Arguments} (h : s.bind given = .ok bound) :
    resolveByKey s.name s.inputs (s.declaredPart given).keyed = .ok bound.values := by
  rw [bind_keyword hs] at h
  split at h
  · cases h
  · split at h
    · cases h
    · obtain ⟨values, hr, rfl⟩ := Except.map_eq_ok_iff.1 h
      exact hr

/-- The pairs that the canonical tag has. -/
def keptPairs (s : Signature) (omission : Omission) (args : Arguments) : List (Text × Text) :=
  (s.keptInputs omission args).map fun input => (input.name, args.getOrEmpty input.name)

theorem keys_keptPairs (s : Signature) (omission : Omission) (args : Arguments) :
    (s.keptPairs omission args).map (·.1) = (s.keptInputs omission args).map (·.name) := by
  rw [keptPairs, List.map_map]
  rfl

theorem nodup_keys_keptPairs (s : Signature) (omission : Omission) (args : Arguments) :
    ((s.keptPairs omission args).map (·.1)).Nodup := by
  rw [keys_keptPairs]
  exact s.nodup_names.sublist ((List.filter_sublist).map _)

/-- A tag by key gives the pairs that were not left out. -/
theorem exists_read?_keptPairs {policy : KeywordPolicy} (hs : s.binding = .keyword policy)
    (hkeys : ∀ input ∈ s.inputs, IsKey input.name) (args : Arguments) (tail : Text) :
    ∃ tag, Tag.read? (s.canonical args ++ tail) = some (tag, tail) ∧
      tag.source = s.canonical args ∧ tag.name = s.name ∧
      tag.given = .ok ⟨[], s.keptPairs policy.omission args⟩ := by
  have hforms : List.Forall₂ Word.Form (s.canonicalWords args)
      ((s.keptPairs policy.omission args).map fun p => .keyed p.1 p.2) := by
    rw [canonicalWords, hs]
    simp only [keywordWords_eq, keptPairs, List.map_map]
    rw [List.forall₂_map_left_iff, List.forall₂_map_right_iff, List.forall₂_same]
    exact fun input hi => (hkeys input (List.mem_of_mem_filter hi)).form _
  rw [← Given.ofWords_of_nodup (s.nodup_keys_keptPairs policy.omission args)]
  exact exists_read?_canonical hforms tail

/-- What binding the canonical tag gives to an input: its value, or its fallback in place of a
pair that was left out. -/
def restored (omission : Omission) (args : Arguments) (input : Input) : Text :=
  if omits omission input (args.getOrEmpty input.name) then input.fallback
  else args.getOrEmpty input.name

theorem bind_keptPairs {policy : KeywordPolicy} (hs : s.binding = .keyword policy)
    (args : Arguments) :
    s.bind ⟨[], s.keptPairs policy.omission args⟩ =
      (resolved s.name (restored policy.omission args) s.inputs).map
        fun values => ⟨values, []⟩ := by
  have hmem : ∀ input ∈ s.keptInputs policy.omission args, input ∈ s.inputs :=
    fun input hi => List.mem_of_mem_filter hi
  have hdeclared : ∀ p ∈ s.keptPairs policy.omission args, s.declares p.1 = true := by
    intro p hp
    obtain ⟨input, hi, rfl⟩ := List.mem_map.1 hp
    exact declares_iff.2 (List.mem_map_of_mem (hmem input hi))
  rw [bind_eq_of_declared hs hdeclared,
    resolveByKey_eq s.nodup_names (s.nodup_keys_keptPairs policy.omission args)]
  · intro input hi
    rw [keys_keptPairs, restored]
    split
    · next ho =>
      refine .inr ⟨fun hm => ?_, rfl⟩
      obtain ⟨i, hik, he⟩ := List.mem_map.1 hm
      obtain rfl := s.eq_of_name_eq (hmem i hik) hi he
      simp [keptInputs, ho] at hik
    · next ho =>
      exact .inl (List.mem_map.2 ⟨input, by simp [keptInputs, hi, ho], rfl⟩)
  · exact fun input hi hq => s.fallback_eq_nil hi hq

/-- A tag by key is read to what binds to the restored values. -/
theorem exists_read?_keyword {policy : KeywordPolicy} (hs : s.binding = .keyword policy)
    (hkeys : ∀ input ∈ s.inputs, IsKey input.name) (args : Arguments) (tail : Text) :
    ∃ tag given, Tag.read? (s.canonical args ++ tail) = some (tag, tail) ∧
      tag.source = s.canonical args ∧ tag.name = s.name ∧ tag.given = .ok given ∧
      s.bind given = (resolved s.name (restored policy.omission args) s.inputs).map
        fun values => ⟨values, []⟩ := by
  obtain ⟨tag, hread, hsource, hname, hgiven⟩ := exists_read?_keptPairs hs hkeys args tail
  exact ⟨tag, _, hread, hsource, hname, hgiven, bind_keptPairs hs args⟩

end Shortcodes.Signature
