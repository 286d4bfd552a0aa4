import Mathlib.Data.List.Induction
import Mathlib.Data.List.Nodup
import Shortcodes.Tag.Given

/-!
# What words give

Sorting the words of a tag keeps the plain words in order (`positional_ofWords`) and gathers the
keyed words under pairwise different keys (`nodup_keys_ofWords`). Every pair comes from a word
(`exists_word_of_mem_keyed`), and words whose keys differ all count (`ofWords_of_nodup`).
-/

namespace Shortcodes

/-- The value of a plain word. -/
def Word.value? : Word → Option Text
  | .plain value => some value
  | .keyed _ _ => none

namespace Given

/-! ### One pair -/

theorem mem_of_mem_assign {key value : Text} {pairs : List (Text × Text)} {p : Text × Text}
    (h : p ∈ assign key value pairs) : p = (key, value) ∨ p ∈ pairs := by
  induction pairs with
  | nil => exact .inl (by simpa [assign] using h)
  | cons q pairs ih =>
    obtain ⟨k, v⟩ := q
    rw [assign] at h
    split at h
    · next hk =>
      rcases List.mem_cons.1 h with h | h
      · exact .inl (by rw [h, hk])
      · exact .inr (List.mem_cons_of_mem _ h)
    · rcases List.mem_cons.1 h with rfl | h
      · exact .inr List.mem_cons_self
      · exact (ih h).imp_right (List.mem_cons_of_mem _)

/-- A pair with a new key goes to the end. -/
theorem assign_of_not_mem {key : Text} {pairs : List (Text × Text)}
    (h : key ∉ pairs.map (·.1)) (value : Text) :
    assign key value pairs = pairs ++ [(key, value)] := by
  induction pairs with
  | nil => rfl
  | cons q pairs ih =>
    obtain ⟨k, v⟩ := q
    rw [List.map_cons, List.mem_cons, not_or] at h
    rw [assign, if_neg (Ne.symm h.1), ih h.2]
    rfl

/-- A key that is there keeps its place. -/
theorem keys_assign_of_mem {key : Text} {pairs : List (Text × Text)}
    (h : key ∈ pairs.map (·.1)) (value : Text) :
    (assign key value pairs).map (·.1) = pairs.map (·.1) := by
  induction pairs with
  | nil => simp at h
  | cons q pairs ih =>
    obtain ⟨k, v⟩ := q
    rw [assign]
    split
    · rfl
    · next hk =>
      have : key ∈ pairs.map (·.1) := (List.mem_cons.1 h).resolve_left (Ne.symm hk)
      rw [List.map_cons, ih this, List.map_cons]

theorem nodup_keys_assign {pairs : List (Text × Text)} (h : (pairs.map (·.1)).Nodup)
    (key value : Text) : ((assign key value pairs).map (·.1)).Nodup := by
  by_cases hk : key ∈ pairs.map (·.1)
  · rwa [keys_assign_of_mem hk]
  · rw [assign_of_not_mem hk, List.map_append]
    exact List.Nodup.append h (List.nodup_singleton key) (by simpa using hk)

/-! ### All words -/

theorem ofWords_append (words : List Word) (w : Word) :
    ofWords (words ++ [w]) = (ofWords words).add w := by
  rw [ofWords, List.foldl_append]
  rfl

theorem positional_ofWords (words : List Word) :
    (ofWords words).positional = words.filterMap Word.value? := by
  induction words using List.reverseRecOn with
  | nil => rfl
  | append_singleton words w ih =>
    rw [ofWords_append, List.filterMap_append, ← ih]
    cases w <;> simp [add, Word.value?]

theorem nodup_keys_ofWords (words : List Word) : ((ofWords words).keyed.map (·.1)).Nodup := by
  induction words using List.reverseRecOn with
  | nil => simp [ofWords, empty]
  | append_singleton words w ih =>
    rw [ofWords_append]
    cases w with
    | plain value => exact ih
    | keyed key value => exact nodup_keys_assign ih key value

theorem exists_word_of_mem_keyed {words : List Word} {p : Text × Text}
    (h : p ∈ (ofWords words).keyed) : .keyed p.1 p.2 ∈ words := by
  induction words using List.reverseRecOn with
  | nil => simp [ofWords, empty] at h
  | append_singleton words w ih =>
    rw [ofWords_append] at h
    rw [List.mem_append]
    cases w with
    | plain value => exact .inl (ih h)
    | keyed key value =>
      rcases mem_of_mem_assign h with rfl | h
      · exact .inr (by simp)
      · exact .inl (ih h)

theorem ofWords_map_plain (values : List Text) : ofWords (values.map .plain) = ⟨values, []⟩ := by
  induction values using List.reverseRecOn with
  | nil => rfl
  | append_singleton values v ih =>
    rw [List.map_append, List.map_singleton, ofWords_append, ih]
    rfl

/-- Words with different keys all count, in their order. -/
theorem ofWords_of_nodup {pairs : List (Text × Text)} (h : (pairs.map (·.1)).Nodup) :
    ofWords (pairs.map fun p => .keyed p.1 p.2) = ⟨[], pairs⟩ := by
  induction pairs using List.reverseRecOn with
  | nil => rfl
  | append_singleton pairs p ih =>
    rw [List.map_append, List.nodup_append] at h
    have hkey : p.1 ∉ pairs.map (·.1) := fun hm => h.2.2 _ hm _ (by simp) rfl
    rw [List.map_append, List.map_singleton, ofWords_append, ih h.1, add, assign_of_not_mem hkey]

end Given

end Shortcodes
