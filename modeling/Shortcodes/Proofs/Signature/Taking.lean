import Mathlib.Data.List.Perm.Basic
import Shortcodes.Proofs.Signature.Resolution

/-!
# Taking keys

Binding by key takes the first pair of each key in turn and puts the last pair of all into its
place (`Taken`). The value that is taken is the first one of the key (`fst_takeKey`), and the
other pairs are left, in some order (`perm_takeKey`). Of the values of another key the last one
may have moved in front of others (`moved_takeKey`). Where each key has one value at most that
changes nothing, and every input is given the value of its key (`givenByKey_of_short`).
-/

namespace Shortcodes

namespace Signature

/-! ### Taking a key -/

/-- What comes of taking a key out of a row of pairs: it is not there, its first pair is the last of
all, or the last of all moves into the place of its first pair. -/
inductive Taken (key : Text) : List (Text × Text) → Option Text × List (Text × Text) → Prop
  | absent {pairs : List (Text × Text)} (new : key ∉ pairs.map (·.1)) :
      Taken key pairs (none, pairs)
  | last {front : List (Text × Text)} {value : Text} (new : key ∉ front.map (·.1)) :
      Taken key (front ++ [(key, value)]) (some value, front)
  | inner {front middle : List (Text × Text)} {value : Text} {last : Text × Text}
      (new : key ∉ front.map (·.1)) :
      Taken key (front ++ (key, value) :: (middle ++ [last])) (some value, front ++ last :: middle)

theorem findIdx?_of_not_mem {key : Text} {pairs : List (Text × Text)}
    (h : key ∉ pairs.map (·.1)) : pairs.findIdx? (·.1 = key) = none := by
  rw [List.findIdx?_eq_none_iff]
  intro p hp
  exact decide_eq_false fun he => h (he ▸ List.mem_map_of_mem hp)

theorem takeKey_of_not_mem {key : Text} {pairs : List (Text × Text)}
    (h : key ∉ pairs.map (·.1)) : takeKey key pairs = (none, pairs) := by
  rw [takeKey, findIdx?_of_not_mem h]

/-- The first pair of a key is taken, and the last of all pairs is put into its place. -/
theorem takeKey_append_cons {key : Text} {front : List (Text × Text)}
    (h : key ∉ front.map (·.1)) (value : Text) {back : List (Text × Text)} {last : Text × Text}
    (hlast : (front ++ (key, value) :: back).getLast? = some last) :
    takeKey key (front ++ (key, value) :: back) =
      (some value, (front ++ last :: back).dropLast) := by
  have hplace : (front ++ (key, value) :: back).findIdx? (·.1 = key) = some front.length := by
    rw [List.findIdx?_append, findIdx?_of_not_mem h, List.findIdx?_cons]
    simp
  rw [takeKey, hplace]
  simp [hlast]

theorem takeKey_of_taken {key : Text} {pairs : List (Text × Text)}
    {taken : Option Text × List (Text × Text)} (h : Taken key pairs taken) :
    takeKey key pairs = taken := by
  cases h with
  | absent new => exact takeKey_of_not_mem new
  | last new =>
    rw [takeKey_append_cons new _ List.getLast?_concat, List.dropLast_concat]
  | inner new =>
    rw [takeKey_append_cons new]
    · rw [← List.cons_append, ← List.append_assoc, List.dropLast_concat]
    · rw [← List.cons_append, ← List.append_assoc, List.getLast?_concat]

theorem taken_takeKey (key : Text) (pairs : List (Text × Text)) :
    Taken key pairs (takeKey key pairs) := by
  suffices h : ∃ taken, Taken key pairs taken by
    obtain ⟨taken, htaken⟩ := h
    rwa [takeKey_of_taken htaken]
  by_cases hmem : key ∈ pairs.map (·.1)
  · -- the pairs are split at the first one of the key
    obtain ⟨keys, keys', hkeys, hnew⟩ := List.eq_append_cons_of_mem hmem
    obtain ⟨front, rest, rfl, rfl, hrest⟩ := List.map_eq_append_iff.1 hkeys
    obtain ⟨⟨_, value⟩, back, rfl, rfl, -⟩ := List.map_eq_cons_iff.1 hrest
    obtain rfl | ⟨middle, last, rfl⟩ := List.eq_nil_or_concat back
    · exact ⟨_, .last hnew⟩
    · rw [List.concat_eq_append]
      exact ⟨_, .inner hnew⟩
  · exact ⟨_, .absent hmem⟩

/-- Taking a key that is there gives the value of one of its pairs and leaves the other pairs. -/
theorem perm_takeKey {key : Text} {pairs : List (Text × Text)} (h : key ∈ pairs.map (·.1)) :
    ∃ value others, takeKey key pairs = (some value, others) ∧
      ((key, value) :: others).Perm pairs := by
  have hcases := taken_takeKey key pairs
  generalize takeKey key pairs = taken at hcases ⊢
  cases hcases with
  | absent new => exact absurd h new
  | @last front value new =>
    exact ⟨value, front, rfl, (List.perm_append_singleton (key, value) front).symm⟩
  | @inner front middle value last new =>
    refine ⟨value, front ++ last :: middle, rfl, ?_⟩
    calc List.Perm ((key, value) :: (front ++ last :: middle))
          (front ++ (key, value) :: last :: middle) := List.perm_middle.symm
      List.Perm _ (front ++ (key, value) :: (middle ++ [last])) :=
          ((List.perm_append_singleton last middle).symm.cons _).append_left front

/-- What is left was there before. -/
theorem takeKey_subset (key : Text) (pairs : List (Text × Text)) :
    (takeKey key pairs).2 ⊆ pairs := by
  by_cases h : key ∈ pairs.map (·.1)
  · obtain ⟨value, others, htake, hperm⟩ := perm_takeKey h
    rw [htake]
    exact List.Subset.trans (List.subset_cons_self _ _) hperm.subset
  · rw [takeKey_of_not_mem h]
    exact List.Subset.refl _

/-! ### The values of a key -/

/-- The values that pairs have for a key, in order. -/
def valuesOf (key : Text) (pairs : List (Text × Text)) : List Text :=
  (pairs.filter (·.1 = key)).map (·.2)

variable {key other : Text} {pairs : List (Text × Text)} {own own' : List Text}

theorem valuesOf_append (key : Text) (front back : List (Text × Text)) :
    valuesOf key (front ++ back) = valuesOf key front ++ valuesOf key back := by
  rw [valuesOf, List.filter_append, List.map_append]
  rfl

theorem valuesOf_cons_self (key value : Text) (pairs : List (Text × Text)) :
    valuesOf key ((key, value) :: pairs) = value :: valuesOf key pairs := by
  rw [valuesOf, List.filter_cons_of_pos (by simp)]
  rfl

theorem valuesOf_cons_of_ne (h : other ≠ key) (value : Text) (pairs : List (Text × Text)) :
    valuesOf key ((other, value) :: pairs) = valuesOf key pairs := by
  rw [valuesOf, List.filter_cons_of_neg (by simpa using h)]
  rfl

theorem valuesOf_eq_nil_iff : valuesOf key pairs = [] ↔ key ∉ pairs.map (·.1) := by
  rw [valuesOf, List.map_eq_nil_iff, List.filter_eq_nil_iff]
  constructor
  · intro h hkey
    obtain ⟨p, hp, rfl⟩ := List.mem_map.1 hkey
    exact h p hp (decide_eq_true rfl)
  · intro h p hp hkey
    exact h (of_decide_eq_true hkey ▸ List.mem_map_of_mem hp)

theorem mem_valuesOf_iff {value : Text} : value ∈ valuesOf key pairs ↔ (key, value) ∈ pairs := by
  rw [valuesOf, List.mem_map]
  constructor
  · rintro ⟨p, hp, rfl⟩
    obtain ⟨hmem, hkey⟩ := List.mem_filter.1 hp
    rwa [← of_decide_eq_true hkey]
  · intro h
    exact ⟨(key, value), List.mem_filter.2 ⟨h, decide_eq_true rfl⟩, rfl⟩

/-- A key that is given has a first pair. -/
theorem exists_split_of_valuesOf {value : Text} (h : valuesOf key pairs = value :: own) :
    ∃ front back, pairs = front ++ (key, value) :: back ∧ key ∉ front.map (·.1) ∧
      valuesOf key back = own := by
  induction pairs with
  | nil => cases h
  | cons p pairs ih =>
    obtain ⟨k, v⟩ := p
    by_cases hk : k = key
    · subst hk
      rw [valuesOf_cons_self] at h
      obtain ⟨rfl, rfl⟩ := List.cons.inj h
      exact ⟨[], pairs, rfl, List.not_mem_nil, rfl⟩
    · rw [valuesOf_cons_of_ne hk] at h
      obtain ⟨front, back, rfl, hfront, hback⟩ := ih h
      refine ⟨(k, v) :: front, back, rfl, ?_, hback⟩
      rw [List.map_cons, List.mem_cons, not_or]
      exact ⟨Ne.symm hk, hfront⟩

/-- A key that is given once has one value at most. -/
theorem length_valuesOf_le_one (h : (pairs.map (·.1)).Nodup) (key : Text) :
    (valuesOf key pairs).length ≤ 1 := by
  cases hown : valuesOf key pairs with
  | nil => exact Nat.zero_le 1
  | cons value own =>
    obtain ⟨front, back, rfl, -, hback⟩ := exists_split_of_valuesOf hown
    have hnew : key ∉ back.map (·.1) := by
      rw [List.map_append, List.map_cons, List.nodup_append] at h
      exact (List.nodup_cons.1 h.2.1).1
    rw [valuesOf_eq_nil_iff.2 hnew] at hback
    rw [← hback]
    exact Nat.le_refl 1

theorem valuesOf_map_self (key : Text) (own : List Text) :
    valuesOf key (own.map fun value => (key, value)) = own := by
  induction own with
  | nil => rfl
  | cons value own ih => rw [List.map_cons, valuesOf_cons_self, ih]

/-- Where every key has one pair, its value is the only one. -/
theorem valuesOf_of_mem {value : Text} (h : (pairs.map (·.1)).Nodup) (hmem : (key, value) ∈ pairs) :
    valuesOf key pairs = [value] := by
  have hlength := length_valuesOf_le_one h key
  have hvalue := mem_valuesOf_iff.2 hmem
  cases hown : valuesOf key pairs with
  | nil =>
    rw [hown] at hvalue
    cases hvalue
  | cons first own =>
    rw [hown] at hvalue hlength
    obtain rfl : own = [] := by simpa using hlength
    rw [List.mem_singleton.1 hvalue]

/-- Pairs that all stay when those of a key do. -/
theorem valuesOf_filter {p : Text × Text → Bool} (h : ∀ value, p (key, value) = true) :
    valuesOf key (pairs.filter p) = valuesOf key pairs := by
  rw [valuesOf, valuesOf, List.filter_filter]
  congr 1
  refine List.filter_congr fun q _ => ?_
  by_cases hq : q.1 = key
  · obtain ⟨_, value⟩ := q
    subst hq
    rw [h value, Bool.and_true]
  · rw [decide_eq_false hq, Bool.false_and]

/-! ### One key taken -/

/-- The same values, or the last of them has moved in front of others. -/
inductive Moved : List Text → List Text → Prop
  | same (own : List Text) : Moved own own
  | last (front middle : List Text) (value : Text) :
      Moved (front ++ (middle ++ [value])) (front ++ value :: middle)

/-- One value alone does not move. -/
theorem Moved.eq_of_length_le_one (h : Moved own own') (hown : own.length ≤ 1) : own' = own := by
  cases h with
  | same => rfl
  | last front middle value =>
    simp only [List.length_append, List.length_singleton] at hown
    obtain rfl : front = [] := List.length_eq_zero_iff.1 (by omega)
    obtain rfl : middle = [] := List.length_eq_zero_iff.1 (by omega)
    rfl

theorem fst_takeKey (key : Text) (pairs : List (Text × Text)) :
    (takeKey key pairs).1 = (valuesOf key pairs).head? := by
  have hcases := taken_takeKey key pairs
  generalize takeKey key pairs = taken at hcases ⊢
  cases hcases with
  | absent new => rw [valuesOf_eq_nil_iff.2 new, List.head?_nil]
  | last new =>
    rw [valuesOf_append, valuesOf_eq_nil_iff.2 new, List.nil_append, valuesOf_cons_self,
      List.head?_cons]
  | inner new =>
    rw [valuesOf_append, valuesOf_eq_nil_iff.2 new, List.nil_append, valuesOf_cons_self,
      List.head?_cons]

/-- What taking a key does to the values of another one. -/
theorem moved_takeKey (h : key ≠ other) (pairs : List (Text × Text)) :
    Moved (valuesOf other pairs) (valuesOf other (takeKey key pairs).2) := by
  have hcases := taken_takeKey key pairs
  generalize takeKey key pairs = taken at hcases ⊢
  cases hcases with
  | absent new => exact .same _
  | last new =>
    rw [valuesOf_append, valuesOf_cons_of_ne h, ← valuesOf_append, List.append_nil]
    exact .same _
  | @inner front middle _ last new =>
    -- the last pair stands in the middle now, and counts where it is one of the other key
    obtain ⟨k, v⟩ := last
    rw [valuesOf_append, valuesOf_cons_of_ne h, valuesOf_append, valuesOf_append]
    by_cases hk : k = other
    · subst hk
      rw [valuesOf_cons_self, valuesOf_cons_self]
      exact .last _ _ v
    · rw [valuesOf_cons_of_ne hk, valuesOf_cons_of_ne hk]
      show Moved (_ ++ (_ ++ [])) _
      rw [List.append_nil]
      exact .same _

/-! ### All keys in turn -/

/-- What an input is given stands in a pair of its name. -/
theorem mem_of_mem_givenByKey {inputs : List Input} {input : Input} {value : Text}
    (h : (input, some value) ∈ givenByKey inputs pairs) : (input.name, value) ∈ pairs := by
  induction inputs generalizing pairs with
  | nil => cases h
  | cons first inputs ih =>
    rw [givenByKey] at h
    rcases List.mem_cons.1 h with hfirst | h
    · obtain ⟨rfl, hvalue⟩ := Prod.mk.inj hfirst
      rw [fst_takeKey] at hvalue
      exact mem_valuesOf_iff.1 (List.mem_of_mem_head? hvalue.symm)
    · exact takeKey_subset first.name pairs (ih h)

/-- Where each key has one value at most, every input is given that of its own. -/
theorem givenByKey_of_short {inputs : List Input} (hn : (inputs.map (·.name)).Nodup)
    (h : ∀ input ∈ inputs, (valuesOf input.name pairs).length ≤ 1) :
    givenByKey inputs pairs =
      inputs.map fun input => (input, (valuesOf input.name pairs).head?) := by
  induction inputs generalizing pairs with
  | nil => rfl
  | cons first inputs ih =>
    rw [List.map_cons, List.nodup_cons] at hn
    -- no value of the other inputs moves when the first one is taken
    have hsame : ∀ input ∈ inputs,
        valuesOf input.name (takeKey first.name pairs).2 = valuesOf input.name pairs := by
      intro input hi
      have hne : first.name ≠ input.name := fun he => hn.1 (he ▸ List.mem_map_of_mem hi)
      exact (moved_takeKey hne pairs).eq_of_length_le_one (h input (List.mem_cons_of_mem _ hi))
    rw [givenByKey, fst_takeKey, List.map_cons, ih hn.2]
    · rw [List.map_congr_left fun input hi => by rw [hsame input hi]]
    · intro input hi
      rw [hsame input hi]
      exact h input (List.mem_cons_of_mem _ hi)

end Signature

end Shortcodes
