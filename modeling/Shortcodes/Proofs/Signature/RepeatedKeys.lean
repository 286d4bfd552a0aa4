import Shortcodes.Proofs.Signature.Keyword

/-!
# Keys that are given again

A tag that is read gives each key once. Where a key is given more than once, the value that binding
picks for its input need not depend on the pairs of that key alone: each key that is taken before it
may move the last pair of all, so that the last pairs of the key come to its front one by one. What
may be picked is exactly the first value of the key, or one of its last ones, as many as there are
inputs declared before its own (`exists_bind_iff`). So the pairs of a key settle the value of its
input, whatever stands around them, exactly if all these values that the input may take are the same
(`settles_iff`).
-/

namespace Shortcodes

namespace Signature

variable {key : Text} {pairs : List (Text × Text)} {own own' : List Text}

/-! ### What may be picked -/

/-- The first value of a row, or one of the last `n`; none where the row is empty. -/
def Picks (n : Nat) (own : List Text) (given : Option Text) : Prop :=
  ∃ i, (i = 0 ∨ i < own.length ∧ own.length ≤ i + n) ∧ own[i]? = given

theorem picks_head (n : Nat) (own : List Text) : Picks n own own.head? :=
  ⟨0, .inl rfl, List.head?_eq_getElem?.symm⟩

/-- Where no last value counts, it is the first that is picked. -/
theorem Picks.eq_head {given : Option Text} (h : Picks 0 own given) : given = own.head? := by
  obtain ⟨i, hi, rfl⟩ := h
  obtain rfl : i = 0 := by omega
  exact List.head?_eq_getElem?.symm

theorem Picks.eq_of_length_le_one {n : Nat} {given given' : Option Text} (hown : own.length ≤ 1)
    (h : Picks n own given) (h' : Picks n own given') : given = given' := by
  obtain ⟨i, hi, rfl⟩ := h
  obtain ⟨j, hj, rfl⟩ := h'
  obtain rfl : i = j := by omega
  rfl

/-- Values are picked from a row that has some, and only from such a one. -/
theorem Picks.isSome_eq {n : Nat} {given : Option Text} (h : Picks n own given) :
    given.isSome = !own.isEmpty := by
  obtain ⟨i, hi, rfl⟩ := h
  cases own with
  | nil => simp
  | cons value own =>
    have hlt : i < (value :: own).length := by
      rw [List.length_cons] at hi ⊢
      omega
    rw [List.getElem?_eq_getElem hlt]
    rfl

/-- One value more at the end may be picked if the last value may move. -/
theorem Picks.of_moved {n : Nat} {given : Option Text} (h : Picks n own' given)
    (hmoved : Moved own own') : Picks (n + 1) own given := by
  obtain ⟨i, hi, rfl⟩ := h
  cases hmoved with
  | same => exact ⟨i, by omega, rfl⟩
  | last front middle value =>
    simp only [List.length_append, List.length_cons] at hi
    have hlength : (front ++ (middle ++ [value])).length = front.length + middle.length + 1 := by
      simp only [List.length_append, List.length_cons, List.length_nil]
      omega
    rcases Nat.lt_trichotomy i front.length with hlt | rfl | hgt
    · refine ⟨i, by omega, ?_⟩
      rw [List.getElem?_append_left hlt, List.getElem?_append_left hlt]
    · -- the value that moved was the last
      refine ⟨front.length + middle.length, by omega, ?_⟩
      rw [List.getElem?_append_right (Nat.le_add_right _ _), Nat.add_sub_cancel_left,
        List.getElem?_concat_length, List.getElem?_append_right le_rfl, Nat.sub_self]
      rfl
    · -- behind it, each value has made way by one place
      obtain ⟨j, rfl⟩ : ∃ j, i = front.length + (j + 1) := ⟨i - front.length - 1, by omega⟩
      have hj : j < middle.length := by omega
      refine ⟨front.length + j, by omega, ?_⟩
      rw [List.getElem?_append_right (Nat.le_add_right _ _), Nat.add_sub_cancel_left,
        List.getElem?_append_left hj, List.getElem?_append_right (Nat.le_add_right _ _),
        Nat.add_sub_cancel_left, List.getElem?_cons_succ]

/-- A value that may be picked where one value more at the end counts may also be picked where it
does not, or else once the last value has moved to the front of all. -/
theorem Picks.exists_moved {n : Nat} {given : Option Text} (h : Picks (n + 1) own given) :
    Picks n own given ∨
      ∃ front value, own = front ++ [value] ∧ Picks n (value :: front) given := by
  obtain ⟨i, hi, rfl⟩ := h
  by_cases hcounts : i = 0 ∨ own.length ≤ i + n
  · exact .inl ⟨i, by omega, rfl⟩
  · right
    obtain rfl | ⟨front, value, rfl⟩ := List.eq_nil_or_concat own
    · exact absurd hi.resolve_left (by simp_all)
    rw [List.concat_eq_append, List.length_append, List.length_singleton] at hi hcounts
    rw [List.concat_eq_append]
    refine ⟨front, value, rfl, ?_⟩
    cases n with
    | zero =>
      -- it is the last value itself
      obtain rfl : i = front.length := by omega
      exact ⟨0, .inl rfl, by rw [List.getElem?_concat_length]; rfl⟩
    | succ n =>
      have hlt : i < front.length := by omega
      refine ⟨i + 1, .inr ?_, ?_⟩
      · rw [List.length_cons]
        omega
      · rw [List.getElem?_cons_succ, List.getElem?_append_left hlt]

/-! ### All keys in turn -/

/-- What an input is given by key is picked from its values, and as many last ones count as there
are inputs before it. -/
theorem picks_givenByKey {inputs : List Input} (hn : (inputs.map (·.name)).Nodup) {n : Nat}
    {input : Input} {given : Option Text}
    (place : (givenByKey inputs pairs)[n]? = some (input, given)) :
    Picks n (valuesOf input.name pairs) given := by
  induction inputs generalizing pairs n with
  | nil => cases place
  | cons first inputs ih =>
    rw [givenByKey] at place
    rw [List.map_cons, List.nodup_cons] at hn
    cases n with
    | zero =>
      cases Option.some.inj place
      rw [fst_takeKey]
      exact picks_head 0 _
    | succ n =>
      rw [List.getElem?_cons_succ] at place
      have hmem : input ∈ inputs := by
        rw [← map_fst_givenByKey inputs (takeKey first.name pairs).2]
        exact List.mem_map_of_mem (List.mem_of_getElem? place)
      have hne : first.name ≠ input.name := fun he => hn.1 (he ▸ List.mem_map_of_mem hmem)
      exact (ih hn.2 place).of_moved (moved_takeKey hne pairs)

/-- These pairs are of the inputs. They have these values for one of them and give it what is
picked, and give all others one value. -/
structure Yields (front : List Input) (input : Input) (back : List Input) (own : List Text)
    (given : Option Text) (value : Text) (pairs : List (Text × Text)) : Prop where
  values : valuesOf input.name pairs = own
  keys : pairs.map (·.1) ⊆ (front ++ input :: back).map (·.name)
  gives : givenByKey (front ++ input :: back) pairs = front.map (fun i => (i, some value)) ++
    (input, given) :: back.map fun i => (i, some value)

section Yields

variable {first input : Input} {front back : List Input} {given : Option Text} {value : Text}

/-- The first input is given its first value. The inputs behind have one value each, which taking
the pair of the first does not move. -/
theorem exists_yields_nil (hn : ((input :: back).map (·.name)).Nodup) (own : List Text)
    (value : Text) : ∃ pairs, Yields [] input back own own.head? value pairs := by
  rw [List.map_cons, List.nodup_cons] at hn
  set owned := own.map fun v => (input.name, v) with howned
  set others := back.map fun i => (i.name, value) with hothers
  have hnames : others.map (·.1) = back.map (·.name) := by
    rw [hothers, List.map_map]
    rfl
  have hown : valuesOf input.name (owned ++ others) = own := by
    rw [valuesOf_append, howned, valuesOf_map_self, valuesOf_eq_nil_iff.2 (hnames ▸ hn.1),
      List.append_nil]
  -- no other input has its value moved when the first takes its own
  have hback : ∀ i ∈ back, valuesOf i.name (takeKey input.name (owned ++ others)).2 = [value] := by
    intro i hi
    have hne : input.name ≠ i.name := fun he => hn.1 (he ▸ List.mem_map_of_mem hi)
    have hnone : i.name ∉ owned.map (·.1) := by
      rw [howned, List.map_map, List.mem_map]
      rintro ⟨v, -, he⟩
      exact hne he
    have hone : valuesOf i.name (owned ++ others) = [value] := by
      rw [valuesOf_append, valuesOf_eq_nil_iff.2 hnone, List.nil_append]
      exact valuesOf_of_mem (hnames ▸ hn.2) (List.mem_map_of_mem hi)
    rw [(moved_takeKey hne _).eq_of_length_le_one (by rw [hone]; exact le_rfl), hone]
  refine ⟨owned ++ others, hown, ?_, ?_⟩
  · rw [List.nil_append, List.map_append, hnames, List.map_cons, List.append_subset]
    refine ⟨fun k hk => ?_, List.subset_cons_self _ _⟩
    rw [howned, List.map_map] at hk
    obtain ⟨v, -, rfl⟩ := List.mem_map.1 hk
    exact List.mem_cons_self
  · rw [List.nil_append, givenByKey, fst_takeKey, hown, List.map_nil, List.nil_append,
      givenByKey_of_short hn.2 fun i hi => by rw [hback i hi]; exact le_rfl]
    rw [List.map_congr_left fun i hi => by rw [hback i hi, List.head?_cons]]

/-- A pair of an input more comes last, and nothing moves. -/
theorem Yields.concat {pairs : List (Text × Text)}
    (h : Yields front input back own given value pairs)
    (hfirst : first.name ∉ (front ++ input :: back).map (·.name)) :
    Yields (first :: front) input back own given value (pairs ++ [(first.name, value)]) := by
  have hne : first.name ≠ input.name := fun he => hfirst (by simp [he])
  have hnew : first.name ∉ pairs.map (·.1) := fun hkey => hfirst (h.keys hkey)
  refine ⟨?_, ?_, ?_⟩
  · rw [valuesOf_append, h.values, valuesOf_cons_of_ne hne]
    exact List.append_nil own
  · rw [List.map_append, List.map_singleton, List.cons_append, List.map_cons, List.append_subset]
    exact ⟨List.Subset.trans h.keys (List.subset_cons_self _ _), by simp⟩
  · rw [List.cons_append, givenByKey, takeKey_of_taken (.last hnew), h.gives]
    rfl

/-- A pair of an input more stands where the last value of the other one is to move to. -/
theorem Yields.exists_inner {pairs : List (Text × Text)} {init : List Text} {last : Text}
    (h : Yields front input back (last :: init) given value pairs)
    (hfirst : first.name ∉ (front ++ input :: back).map (·.name)) :
    ∃ pairs, Yields (first :: front) input back (init ++ [last]) given value pairs := by
  have hne : first.name ≠ input.name := fun he => hfirst (by simp [he])
  obtain ⟨hown, hkeys, hgiven⟩ := h
  obtain ⟨before, behind, rfl, hbefore, hbehind⟩ := exists_split_of_valuesOf hown
  have hnew : first.name ∉ before.map (·.1) := by
    intro hkey
    exact hfirst (hkeys (List.map_append ▸ List.mem_append_left _ hkey))
  refine ⟨before ++ (first.name, value) :: (behind ++ [(input.name, last)]), ?_, ?_, ?_⟩
  · rw [valuesOf_append, valuesOf_eq_nil_iff.2 hbefore, List.nil_append,
      valuesOf_cons_of_ne hne, valuesOf_append, hbehind, valuesOf_cons_self]
    rfl
  · refine List.Subset.trans (fun k hk => ?_) (List.cons_subset_cons first.name hkeys)
    simp only [List.map_append, List.map_cons, List.mem_append, List.mem_cons] at hk ⊢
    grind
  · rw [List.cons_append, givenByKey, takeKey_of_taken (.inner hnew), hgiven]
    rfl

/-- Whatever may be picked is picked from some pairs, which give all other inputs one value. -/
theorem exists_yields (hn : ((front ++ input :: back).map (·.name)).Nodup)
    (h : Picks front.length own given) (value : Text) :
    ∃ pairs, Yields front input back own given value pairs := by
  induction front generalizing own with
  | nil =>
    obtain rfl := h.eq_head
    exact exists_yields_nil hn own value
  | cons first front ih =>
    rw [List.cons_append, List.map_cons, List.nodup_cons] at hn
    rcases h.exists_moved with hpicks | ⟨init, last, rfl, hpicks⟩
    · obtain ⟨pairs, hyields⟩ := ih hn.2 hpicks
      exact ⟨_, hyields.concat hn.1⟩
    · obtain ⟨pairs, hyields⟩ := ih hn.2 hpicks
      exact hyields.exists_inner hn.1

end Yields

/-! ### What binding gives -/

variable {s : Signature} {policy : KeywordPolicy} {front back : List Input} {input : Input}

/-- Whatever pairs of other keys stand around these values of an input, binding gives it one
value. -/
def Settles (s : Signature) (input : Input) (own : List Text) : Prop :=
  ∀ given given' : Given, given.positional = [] → given'.positional = [] →
    valuesOf input.name given.keyed = own → valuesOf input.name given'.keyed = own →
      ∀ bound bound', s.bind given = .ok bound → s.bind given' = .ok bound' →
        bound.get? input.name = bound'.get? input.name

theorem nodup_names_givenByKey (s : Signature) (pairs : List (Text × Text)) :
    (((givenByKey s.inputs pairs).map (·.1)).map (·.name)).Nodup := by
  rw [map_fst_givenByKey]
  exact s.nodup_names

/-- What binding gives an input is picked from its values, or its fallback. -/
theorem exists_picks_of_bind (hs : s.binding = .keyword policy)
    (hplace : s.inputs[front.length]? = some input) {given : Given} {bound : Arguments}
    (hbind : s.bind given = .ok bound) :
    ∃ picked, Picks front.length (valuesOf input.name given.keyed) picked ∧ ¬ input.Unmet picked ∧
      bound.get? input.name = some (picked.getD input.fallback) := by
  obtain ⟨values, extra⟩ := bound
  have hresolve := resolveByKey_of_bind hs hbind
  rw [resolveByKey_eq_row, resolveRow_eq_ok_iff] at hresolve
  obtain ⟨hmet, rfl⟩ := hresolve
  have hinput : (givenByKey s.inputs (s.declaredPart given).keyed)[front.length]?.map (·.1) =
      some input := by
    rw [← List.getElem?_map, map_fst_givenByKey, hplace]
  obtain ⟨⟨_, picked⟩, hrow, rfl⟩ := Option.map_eq_some_iff.1 hinput
  have hpicks := picks_givenByKey s.nodup_names hrow
  have hmem := List.mem_of_getElem? hrow
  refine ⟨picked, ?_, hmet _ hmem, get?_valuesOfRow (s.nodup_names_givenByKey _) hmem extra⟩
  -- undeclared pairs are none of the input's
  rwa [declaredPart, valuesOf_filter] at hpicks
  intro value
  exact declares_iff.2 (List.mem_map_of_mem (List.mem_of_getElem? hplace))

/-- Whatever an input may be given is bound from some pairs. -/
theorem Yields.exists_bind (hs : s.binding = .keyword policy)
    (hinputs : s.inputs = front ++ input :: back) {pairs : List (Text × Text)}
    {picked : Option Text} {value : Text} (h : Yields front input back own picked value pairs)
    (hvalue : value ≠ []) (hmet : ¬ input.Unmet picked) :
    ∃ bound, s.bind ⟨[], pairs⟩ = .ok bound ∧
      bound.get? input.name = some (picked.getD input.fallback) := by
  obtain ⟨-, hkeys, hgiven⟩ := h
  rw [← hinputs] at hkeys hgiven
  have hdeclared : ∀ p ∈ pairs, s.declares p.1 = true :=
    fun p hp => declares_iff.2 (hkeys (List.mem_map_of_mem hp))
  have hall : ∀ p ∈ givenByKey s.inputs pairs, ¬ p.1.Unmet p.2 := by
    rw [hgiven]
    intro p hp
    rcases List.mem_append.1 hp with hp | hp
    · obtain ⟨i, -, rfl⟩ := List.mem_map.1 hp
      exact i.not_unmet_some hvalue
    · rcases List.mem_cons.1 hp with rfl | hp
      · exact hmet
      · obtain ⟨i, -, rfl⟩ := List.mem_map.1 hp
        exact i.not_unmet_some hvalue
  refine ⟨⟨valuesOfRow (givenByKey s.inputs pairs), []⟩, ?_,
    get?_valuesOfRow (s.nodup_names_givenByKey pairs) ?_ []⟩
  · rw [bind_eq_of_declared hs hdeclared, resolveByKey_eq_row, resolveRow_of_met hall]
    rfl
  · rw [hgiven]
    exact List.mem_append_right _ List.mem_cons_self

/-- Binding gives an input exactly what may be picked of its values, as long as it may take it; its
fallback where there is none. -/
theorem exists_bind_iff (hs : s.binding = .keyword policy)
    (hinputs : s.inputs = front ++ input :: back) {result : Option Text} :
    (∃ given bound, given.positional = [] ∧ valuesOf input.name given.keyed = own ∧
      s.bind given = .ok bound ∧ bound.get? input.name = result) ↔
    ∃ picked, Picks front.length own picked ∧ ¬ input.Unmet picked ∧
      result = some (picked.getD input.fallback) := by
  constructor
  · rintro ⟨given, bound, -, rfl, hbind, rfl⟩
    exact exists_picks_of_bind hs (by simp [hinputs]) hbind
  · rintro ⟨picked, hpicks, hmet, rfl⟩
    obtain ⟨pairs, hyields⟩ := exists_yields (hinputs ▸ s.nodup_names) hpicks ['v']
    obtain ⟨bound, hbind, hget⟩ := hyields.exists_bind hs hinputs (by decide) hmet
    exact ⟨⟨[], pairs⟩, bound, rfl, hyields.values, hbind, hget⟩

/-- The values of an input settle what binding gives it exactly if those that may be picked, and
that it may take, are all the same: the first one, and as many last ones as there are inputs
declared before it. What is read from a tag settles it always. -/
theorem settles_iff (s : Signature) (policy : KeywordPolicy) (hs : s.binding = .keyword policy)
    (front back : List Input) (input : Input) (hinputs : s.inputs = front ++ input :: back)
    (own : List Text) :
    (s.Settles input own ↔ ∀ picked picked', Picks front.length own picked →
      Picks front.length own picked' → ¬ input.Unmet picked → ¬ input.Unmet picked' →
        picked = picked') ∧
      ∀ words, valuesOf input.name (Given.ofWords words).keyed = own → s.Settles input own := by
  have hiff : s.Settles input own ↔ ∀ picked picked', Picks front.length own picked →
      Picks front.length own picked' → ¬ input.Unmet picked → ¬ input.Unmet picked' →
        picked = picked' := by
    constructor
    · intro h picked picked' hpicks hpicks' hmet hmet'
      obtain ⟨given, bound, hpositional, hown, hbind, hget⟩ :=
        (exists_bind_iff hs hinputs).2 ⟨picked, hpicks, hmet, rfl⟩
      obtain ⟨given', bound', hpositional', hown', hbind', hget'⟩ :=
        (exists_bind_iff hs hinputs).2 ⟨picked', hpicks', hmet', rfl⟩
      have hsame := h given given' hpositional hpositional' hown hown' bound bound' hbind hbind'
      rw [hget, hget', Option.some.injEq] at hsame
      -- either both are values, or there is none to pick
      have hsome : picked.isSome = picked'.isSome := hpicks.isSome_eq.trans hpicks'.isSome_eq.symm
      cases picked with
      | none => exact (Option.isNone_iff_eq_none.1 (Option.isSome_eq_false_iff.1 hsome.symm)).symm
      | some value =>
        obtain ⟨value', rfl⟩ := Option.isSome_iff_exists.1 hsome.symm
        exact congrArg some hsame
    · intro h given given' hpositional hpositional' hown hown' bound bound' hbind hbind'
      obtain ⟨picked, hpicks, hmet, hget⟩ :=
        (exists_bind_iff hs hinputs).1 ⟨given, bound, hpositional, hown, hbind, rfl⟩
      obtain ⟨picked', hpicks', hmet', hget'⟩ :=
        (exists_bind_iff hs hinputs).1 ⟨given', bound', hpositional', hown', hbind', rfl⟩
      rw [hget, hget', h picked picked' hpicks hpicks' hmet hmet']
  refine ⟨hiff, fun words hwords => hiff.2 fun picked picked' hpicks hpicks' _ _ => ?_⟩
  have hlength := length_valuesOf_le_one (Given.nodup_keys_ofWords words) input.name
  rw [hwords] at hlength
  exact hpicks.eq_of_length_le_one hlength hpicks'

/-- Behind one input, a value between the first and the last is never picked; behind two it may
be. -/
theorem settles_iff_between :
    let a : Input := { name := ['a'] }
    let b : Input := { name := ['b'] }
    let k : Input := { name := ['k'] }
    let s : Signature := ⟨⟨['v'], [a, k], .keyword {}⟩, by decide⟩
    let t : Signature := ⟨⟨['v'], [a, b, k], .keyword {}⟩, by decide⟩
    let own : List Text := [['1'], ['2'], ['1']]
    s.Settles k own ∧ ¬ t.Settles k own := by
  intro a b k s t own
  have hoptional : ∀ picked, ¬ k.Unmet picked := fun picked h => absurd h.1 (by decide)
  constructor
  · refine (settles_iff s {} rfl [a] [] k rfl own).1.2 fun picked picked' h h' _ _ => ?_
    have hone : ∀ picked, Picks 1 own picked → picked = some ['1'] := by
      rintro _ ⟨i, hi, rfl⟩
      obtain rfl | rfl : i = 0 ∨ i = 2 := by
        simp only [own, List.length_cons, List.length_nil] at hi
        omega
      · rfl
      · rfl
    rw [hone picked h, hone picked' h']
  · intro h
    have hsame := (settles_iff t {} rfl [a, b] [] k rfl own).1.1 h (some ['1']) (some ['2'])
      ⟨0, .inl rfl, rfl⟩ ⟨1, .inr ⟨by decide, by decide⟩, rfl⟩ (hoptional _) (hoptional _)
    exact absurd hsame (by decide)

/-- Two pairs of a key do not settle the value of its input: a pair in front of them that is taken
first moves the last of them to the front, and one between them does not. -/
theorem not_forall_settles :
    ¬ ∀ (s : Signature) (policy : KeywordPolicy) (input : Input) (own : List Text),
      s.binding = .keyword policy → input ∈ s.inputs → s.Settles input own := by
  intro h
  let k : Input := { name := ['k'] }
  let s : Signature := ⟨⟨['v'], [{ name := ['a'] }, k], .keyword {}⟩, by decide⟩
  have hlast : s.bind ⟨[], [(['a'], ['0']), (['k'], ['1']), (['k'], ['2'])]⟩ =
      .ok ⟨[(['a'], ['0']), (['k'], ['2'])], []⟩ := by decide
  have hfirst : s.bind ⟨[], [(['k'], ['1']), (['a'], ['0']), (['k'], ['2'])]⟩ =
      .ok ⟨[(['a'], ['0']), (['k'], ['1'])], []⟩ := by decide
  have hsame := h s {} k [['1'], ['2']] rfl (by decide) _ _ rfl rfl rfl rfl _ _ hlast hfirst
  exact absurd hsame (by decide)

end Signature

end Shortcodes
