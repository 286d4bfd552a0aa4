import Shortcodes.Proofs.Signature.Keyword

/-!
# The order of the keys

Binding by key comes to the same whatever the order of the pairs (`bind_perm`). Taking a key out
of the same pairs in another order gives the same value and leaves the same pairs, in whatever order
(`Reordered.takeKey`), so all inputs get the same values (`resolveByKey_eq_of_reordered`). The order
shows only in what is listed as it came: the pairs that a policy keeps and the keys that it refuses.
-/

namespace Shortcodes.Signature

/-! ### The same pairs -/

/-- The same pairs in some other order, each key only once. -/
structure Reordered (pairs pairs' : List (Text × Text)) : Prop where
  perm : pairs.Perm pairs'
  distinct : (pairs.map (·.1)).Nodup

variable {pairs pairs' : List (Text × Text)}

theorem Reordered.filter (h : Reordered pairs pairs') (p : Text × Text → Bool) :
    Reordered (pairs.filter p) (pairs'.filter p) where
  perm := h.perm.filter p
  distinct := h.distinct.sublist (List.filter_sublist.map _)

/-- One pair of a key is all there is of it. -/
theorem Reordered.value_eq (h : Reordered pairs pairs') {key value value' : Text}
    (hvalue : (key, value) ∈ pairs) (hvalue' : (key, value') ∈ pairs') : value = value' := by
  have hpair : (key, value) = (key, value') :=
    List.inj_on_of_nodup_map h.distinct hvalue (h.perm.mem_iff.2 hvalue') rfl
  exact (Prod.ext_iff.1 hpair).2

/-- The same value is taken, and the same pairs are left. -/
theorem Reordered.takeKey (h : Reordered pairs pairs') (key : Text) :
    (takeKey key pairs).1 = (takeKey key pairs').1 ∧
      Reordered (takeKey key pairs).2 (takeKey key pairs').2 := by
  have hkeys : (pairs.map (·.1)).Perm (pairs'.map (·.1)) := h.perm.map _
  by_cases hmem : key ∈ pairs.map (·.1)
  · obtain ⟨value, others, htake, hothers⟩ := perm_takeKey hmem
    obtain ⟨value', others', htake', hothers'⟩ := perm_takeKey (hkeys.mem_iff.1 hmem)
    obtain rfl : value = value' :=
      h.value_eq (hothers.subset List.mem_cons_self) (hothers'.subset List.mem_cons_self)
    -- the last pairs have moved to other places, so that what is left agrees up to its order only
    have hperm : ((key, value) :: others).Perm ((key, value) :: others') :=
      calc List.Perm _ pairs := hothers
        List.Perm _ pairs' := h.perm
        List.Perm _ _ := hothers'.symm
    have hdistinct : (((key, value) :: others).map (·.1)).Nodup :=
      (hothers.map _).nodup_iff.2 h.distinct
    rw [htake, htake']
    exact ⟨rfl, hperm.cons_inv, hdistinct.of_cons⟩
  · have hmem' : key ∉ pairs'.map (·.1) := fun hkey => hmem (hkeys.mem_iff.2 hkey)
    rw [takeKey_of_not_mem hmem, takeKey_of_not_mem hmem']
    exact ⟨rfl, h⟩

/-- The inputs are resolved alike, one after the other. -/
theorem resolveByKey_eq_of_reordered (shortcode : Text) (inputs : List Input)
    (h : Reordered pairs pairs') :
    resolveByKey shortcode inputs pairs = resolveByKey shortcode inputs pairs' := by
  induction inputs generalizing pairs pairs' with
  | nil => rfl
  | cons input inputs ih =>
    obtain ⟨hvalue, hothers⟩ := h.takeKey input.name
    rw [resolveByKey, resolveByKey]
    simp only
    rw [hvalue, ih hothers]

/-! ### The same outcome -/

/-- Outcomes of binding that differ at most in the order of the pairs that were kept, or of the
keys that were refused. -/
inductive Alike : Except Failure Arguments → Except Failure Arguments → Prop
  | bound (values : List (Text × Text)) {extra extra' : List (Text × Text)}
      (perm : extra.Perm extra') : Alike (.ok ⟨values, extra⟩) (.ok ⟨values, extra'⟩)
  | refused (shortcode : Text) {keys keys' : List Text} (allowed : List Text)
      (perm : keys.Perm keys') :
      Alike (.error (.unknownKeys shortcode keys allowed))
        (.error (.unknownKeys shortcode keys' allowed))
  | failed (failure : Failure) : Alike (.error failure) (.error failure)

/-- Whatever the order in which a tag by key has its pairs, binding comes to the same. -/
theorem bind_perm (s : Signature) {policy : KeywordPolicy} (hs : s.binding = .keyword policy)
    {given given' : Given} (hpositional : given.positional = given'.positional)
    (hdistinct : (given.keyed.map (·.1)).Nodup) (hkeyed : given.keyed.Perm given'.keyed) :
    Alike (s.bind given) (s.bind given') := by
  have h : Reordered given.keyed given'.keyed := ⟨hkeyed, hdistinct⟩
  rw [bind, bind, hs]
  show Alike (s.bindKeyword policy given) (s.bindKeyword policy given')
  rw [bindKeyword, bindKeyword, ← hpositional]
  by_cases hwords : given.positional ≠ []
  · rw [if_pos hwords, if_pos hwords]
    exact .failed _
  rw [if_neg hwords, if_neg hwords]
  simp only
  set declared := given.keyed.filter fun p => s.declares p.1
  set declared' := given'.keyed.filter fun p => s.declares p.1
  set extra := given.keyed.filter fun p => !s.declares p.1
  set extra' := given'.keyed.filter fun p => !s.declares p.1
  have hdeclared : Reordered declared declared' := h.filter _
  have hextra : extra.Perm extra' := (h.filter _).perm
  -- the two are refused together, since as many keys are unknown
  have hnil : extra ≠ [] ↔ extra' ≠ [] := by
    rw [← List.length_pos_iff, ← List.length_pos_iff, hextra.length_eq]
  simp only [← hnil]
  split
  · exact .refused _ _ (hextra.map _)
  · rw [resolveByKey_eq_of_reordered s.name s.inputs hdeclared]
    cases resolveByKey s.name s.inputs declared' with
    | error failure => exact .failed failure
    | ok values => exact .bound values hextra

/-- The last pair takes the place of each pair that is used up, and so the pairs are looked through
in different orders; the same values are found. -/
theorem bind_perm_example :
    let s : Signature :=
      ⟨⟨['v'], [{ name := ['a'], required := true }, { name := ['b'] }, { name := ['c'] }],
        .keyword { rejectUnknown := false }⟩, by decide⟩
    let pairs := [(['x'], ['4']), (['c'], ['3']), (['a'], ['1']), (['y'], ['5'])]
    let pairs' := [(['a'], ['1']), (['y'], ['5']), (['c'], ['3']), (['x'], ['4'])]
    let values := [(['a'], ['1']), (['b'], []), (['c'], ['3'])]
    let extra := [(['x'], ['4']), (['y'], ['5'])]
    s.bind ⟨[], pairs⟩ = .ok ⟨values, extra⟩ ∧
      ∃ extra', s.bind ⟨[], pairs'⟩ = .ok ⟨values, extra'⟩ ∧ extra.Perm extra' := by
  intro s pairs pairs' values extra
  have hbound : s.bind ⟨[], pairs⟩ = .ok ⟨values, extra⟩ := by decide
  obtain ⟨outcome, houtcome⟩ : ∃ outcome, s.bind ⟨[], pairs'⟩ = outcome := ⟨_, rfl⟩
  have halike : Alike (s.bind ⟨[], pairs⟩) (s.bind ⟨[], pairs'⟩) :=
    bind_perm s rfl rfl (by decide) (by decide)
  rw [hbound, houtcome] at halike
  refine ⟨hbound, ?_⟩
  cases halike with
  | bound _ perm => exact ⟨_, houtcome, perm⟩

end Shortcodes.Signature
