import Shortcodes.Proofs.Signature.Filling
import Shortcodes.Proofs.Signature.KeywordExact

/-!
# Canonical tags say the least

Whatever is given to a signature and binds to some values, the canonical tag of these values does
not give more of it (`canonical_least`). By position, an input for which there is no word gets its
fallback (`getOrEmpty_eq_fallback_of_bind`), so that the values behind the last word are all left
out. By key, a value other than the fallback was given in a pair (`mem_keyed_of_bind`), and no
other values are written.
-/

namespace Shortcodes

/-- No more words, and no pair that is not there as well. -/
structure Given.Within (least given : Given) : Prop where
  positional : least.positional.length ≤ given.positional.length
  keyed : least.keyed ⊆ given.keyed

/-- What is dropped at the end is all that stands behind a place from which on all can be dropped.
-/
theorem length_dropTrailing_le {α : Type} {p : α → Bool} {l : List α} {n : Nat}
    (h : ∀ a ∈ l.drop n, p a = true) : (dropTrailing p l).length ≤ n := by
  -- seen from the end, what stands behind the place comes first, and all of it goes
  have hsplit : l.reverse = (l.drop n).reverse ++ (l.take n).reverse := by
    rw [← List.reverse_append, List.take_append_drop]
  have hdrop : ∀ a ∈ (l.drop n).reverse, p a = true := fun a ha => h a (List.mem_reverse.1 ha)
  rw [dropTrailing, List.length_reverse, hsplit, List.dropWhile_append_of_pos hdrop]
  calc ((l.take n).reverse.dropWhile p).length
      ≤ (l.take n).reverse.length := (List.dropWhile_suffix p).length_le
    _ = (l.take n).length := List.length_reverse
    _ ≤ n := List.length_take_le n l

namespace Signature

variable {s : Signature} {given : Given} {bound args : Arguments}

/-! ### What has to be given -/

/-- An input for which there is no word gets its fallback. -/
theorem getOrEmpty_eq_fallback_of_bind (hs : s.binding = .positional) (h : s.bind given = .ok bound)
    {i : Nat} {input : Input} (place : s.inputs[i]? = some input)
    (hi : given.positional.length ≤ i) : bound.getOrEmpty input.name = input.fallback := by
  have hresolve := resolveInOrder_of_bind hs h
  rw [resolveInOrder_eq_row, resolveRow_eq_ok_iff] at hresolve
  obtain ⟨-, hvalues⟩ := hresolve
  have hmem : (input, none) ∈ givenInOrder s.inputs given.positional :=
    List.mem_of_getElem? (getElem?_givenInOrder.2 ⟨place, List.getElem?_eq_none hi⟩)
  have hnames : (((givenInOrder s.inputs given.positional).map (·.1)).map (·.name)).Nodup := by
    rw [map_fst_givenInOrder]
    exact s.nodup_names
  obtain ⟨values, extra⟩ := bound
  subst hvalues
  rw [Arguments.getOrEmpty, get?_valuesOfRow hnames hmem]
  rfl

/-- A value other than the fallback was given in a pair. -/
theorem mem_keyed_of_bind {policy : KeywordPolicy} (hs : s.binding = .keyword policy)
    (h : s.bind given = .ok bound) {input : Input} (hi : input ∈ s.inputs)
    (hvalue : bound.getOrEmpty input.name ≠ input.fallback) :
    (input.name, bound.getOrEmpty input.name) ∈ given.keyed := by
  have hmem : (input.name, bound.getOrEmpty input.name) ∈ bound.values := by
    rw [(complete_of_bind h).values_eq]
    exact List.mem_map_of_mem hi
  obtain hpair | ⟨other, hother, he⟩ :=
    mem_or_eq_fallback_of_resolveByKey (resolveByKey_of_bind hs h) hmem
  · exact List.mem_of_mem_filter hpair
  · rw [Prod.mk.injEq] at he
    obtain rfl := s.eq_of_name_eq hi hother he.1
    exact absurd he.2 hvalue

/-! ### What is written -/

/-- Signatures whose canonical tags leave out all that binding supplies. -/
inductive Sparing (s : Signature) : Prop
  | positional (binding : s.binding = .positional)
  | keyword {policy : KeywordPolicy} (binding : s.binding = .keyword policy)
      (omission : policy.omission = .defaults) (keys : ∀ input ∈ s.inputs, IsKey input.name)

theorem length_keptValues_le (hs : s.binding = .positional) (h : s.bind given = .ok args) :
    (s.keptValues args).length ≤ given.positional.length := by
  rw [keptValues, List.length_map]
  -- the inputs for which there was no word have their fallbacks, and are dropped
  refine length_dropTrailing_le fun p hp => ?_
  rw [← List.map_drop] at hp
  obtain ⟨input, hinput, rfl⟩ := List.mem_map.1 hp
  obtain ⟨i, place⟩ := List.mem_iff_getElem?.1 hinput
  rw [List.getElem?_drop] at place
  exact decide_eq_true (getOrEmpty_eq_fallback_of_bind hs h place (Nat.le_add_right _ _))

theorem keptPairs_subset {policy : KeywordPolicy} (hs : s.binding = .keyword policy)
    (homission : policy.omission = .defaults) (h : s.bind given = .ok args) :
    s.keptPairs policy.omission args ⊆ given.keyed := by
  intro p hp
  obtain ⟨input, hkept, rfl⟩ := List.mem_map.1 hp
  obtain ⟨hi, hwritten⟩ := List.mem_filter.1 hkept
  refine mem_keyed_of_bind hs h hi ?_
  simpa [homission, omits] using hwritten

/-- Arguments that were bound are what their values are resolved to. -/
theorem resolved_of_bind (h : s.bind given = .ok bound) :
    resolved s.name (fun input => bound.getOrEmpty input.name) s.inputs = .ok bound.values := by
  have hcomplete := complete_of_bind h
  rw [resolved_eq_ok fun input hi => hcomplete.ne_nil hi, ← hcomplete.values_eq]

/-- The canonical tag of values gives no more words than anything that binds to them, and no pair
that is not in it as well, and it binds to them too. -/
theorem canonical_least (hs : s.Sparing) (args : Arguments) :
    ∃ tag least, Tag.scan (s.canonical args) = [⟨tag, 0⟩] ∧ tag.name = s.name ∧
      tag.given = .ok least ∧ ∀ given, s.bind given = .ok args →
        s.bind least = .ok ⟨args.values, []⟩ ∧ least.Within given := by
  cases hs with
  | positional binding =>
    obtain ⟨tag, hread, -, hname, hgiven⟩ := exists_read?_keptValues binding args []
    rw [List.append_nil] at hread
    refine ⟨tag, _, Tag.scan_of_read? hread, hname, hgiven, fun given h => ⟨?_, ?_, ?_⟩⟩
    · rw [bind_keptValues binding, resolved_of_bind h]
      rfl
    · exact length_keptValues_le binding h
    · exact List.nil_subset _
  | @keyword policy binding omission keys =>
    obtain ⟨tag, hread, -, hname, hgiven⟩ := exists_read?_keptPairs binding keys args []
    rw [List.append_nil] at hread
    refine ⟨tag, _, Tag.scan_of_read? hread, hname, hgiven, fun given h => ⟨?_, ?_, ?_⟩⟩
    · -- where defaults are left out, each value is restored
      have hrestored : restored policy.omission args = fun input => args.getOrEmpty input.name :=
        funext fun input => restored_eq (.inl omission)
      rw [bind_keptPairs binding, hrestored, resolved_of_bind h]
      rfl
    · exact Nat.zero_le _
    · exact keptPairs_subset binding omission h

/-- A default and an empty value are left out at the end of a tag by position and anywhere in a tag
by key, although they may be given. -/
theorem canonical_least_defaults :
    let inputs : List Input := [{ name := ['a'], required := true }, { name := ['b'] },
      { name := ['c'], default := some ['d'] }]
    let byPosition : Signature := ⟨⟨['v'], inputs, .positional⟩, by decide⟩
    let byKey : Signature := ⟨⟨['v'], inputs, .keyword {}⟩, by decide⟩
    let args : Arguments := ⟨[(['a'], ['x']), (['b'], []), (['c'], ['d'])], []⟩
    let words : Given := ⟨[['x'], [], ['d']], []⟩
    let pairs : Given := ⟨[], [(['c'], ['d']), (['a'], ['x'])]⟩
    (∃ tag least, Tag.scan "[%v x %]".toList = [⟨tag, 0⟩] ∧ tag.given = .ok least ∧
        byPosition.bind least = .ok args ∧ least.Within words) ∧
      ∃ tag least, Tag.scan "[%v a=x %]".toList = [⟨tag, 0⟩] ∧ tag.given = .ok least ∧
        byKey.bind least = .ok args ∧ least.Within pairs := by
  intro inputs byPosition byKey args words pairs
  have hkeys : ∀ input ∈ byKey.inputs, IsKey input.name := by
    intro input hi
    simp only [byKey, inputs, List.mem_cons, List.not_mem_nil, or_false] at hi
    rcases hi with rfl | rfl | rfl
    all_goals exact ⟨by decide, Text.forall_mem_of_all (by decide),
      Text.forall_mem_of_all (by decide), by decide⟩
  have hposition : byPosition.Sparing := .positional rfl
  have hkey : byKey.Sparing := .keyword rfl rfl hkeys
  have hwords : byPosition.canonical args = "[%v x %]".toList := by decide
  have hpairs : byKey.canonical args = "[%v a=x %]".toList := by decide
  obtain ⟨tag, least, hscan, -, hgiven, hleast⟩ := canonical_least hposition args
  obtain ⟨tag', least', hscan', -, hgiven', hleast'⟩ := canonical_least hkey args
  rw [hwords] at hscan
  rw [hpairs] at hscan'
  exact ⟨⟨tag, least, hscan, hgiven, hleast words (by decide)⟩,
    ⟨tag', least', hscan', hgiven', hleast' pairs (by decide)⟩⟩

end Signature

end Shortcodes
