import Shortcodes.Proofs.Tag.Given
import Shortcodes.Proofs.Word.Drafts

/-!
# Words with repeated keys

Sorted by kind, words give one pair for each key. The pairs stand in the order in which their keys
first come up (`pairwise_keys_ofWords`), and each has the value of the last word with its key
(`mem_keyed_ofWords_iff`). The same is given by a pass over drafts that keeps for each key the place
of its pair (`fileAll_eq`).
-/

namespace Shortcodes

/-- The key of a keyed word. -/
def Word.key? (w : Word) : Option Text := w.pair?.map (·.1)

theorem Word.text_of_pair? {w : Word} {key value : Text} (h : w.pair? = some (key, value)) :
    w.text = key ++ '=' :: value := by
  cases w with
  | plain v => cases h
  | keyed k v =>
    cases h
    rfl

namespace Given

variable {key value : Text} {pairs : List (Text × Text)} {words : List Word} {w : Word}

/-! ### The last value of a key -/

theorem mem_assign_iff (h : (pairs.map (·.1)).Nodup) {p : Text × Text} :
    p ∈ assign key value pairs ↔ p = (key, value) ∨ p ∈ pairs ∧ p.1 ≠ key := by
  induction pairs with
  | nil => simp [assign]
  | cons q pairs ih =>
    obtain ⟨hnew, hrest⟩ := List.nodup_cons.1 h
    rw [assign]
    split
    · next hk =>
      -- no later pair has the key
      have hother : p ∈ pairs → p.1 ≠ key := by
        rintro hp rfl
        exact hnew (List.mem_map.2 ⟨p, hp, hk.symm⟩)
      grind
    · grind

/-- Some word gives the key this value, and no word behind it gives the key another. -/
def Last (key value : Text) (words : List Word) : Prop :=
  ∃ before after, words = before ++ .keyed key value :: after ∧ ∀ v, .keyed key v ∉ after

theorem last_append_singleton : Last key value (words ++ [w]) ↔
    w = .keyed key value ∨ (∀ v, w ≠ .keyed key v) ∧ Last key value words := by
  constructor
  · rintro ⟨before, after, hsplit, hlast⟩
    rcases List.eq_nil_or_concat after with rfl | ⟨after, w', rfl⟩
    · exact .inl (List.cons.inj (List.append_inj' hsplit rfl).2).1
    · rw [List.concat_eq_append, ← List.cons_append, ← List.append_assoc] at hsplit
      obtain ⟨rfl, hw⟩ := List.append_inj' hsplit rfl
      obtain rfl := (List.cons.inj hw).1
      refine .inr ⟨fun v hv => hlast v ?_, before, after, rfl, fun v hv => hlast v ?_⟩
      · simp [hv]
      · simp [hv]
  · rintro (rfl | ⟨hother, before, after, rfl, hlast⟩)
    · exact ⟨words, [], rfl, fun _ => List.not_mem_nil⟩
    · refine ⟨before, after ++ [w], by simp, fun v hv => ?_⟩
      rcases List.mem_append.1 hv with hv | hv
      · exact hlast v hv
      · exact hother v (List.mem_singleton.1 hv).symm

/-- A pair has the value of the last word with its key. -/
theorem mem_keyed_ofWords_iff : (key, value) ∈ (ofWords words).keyed ↔ Last key value words := by
  induction words using List.reverseRecOn with
  | nil => simp [ofWords, empty, Last]
  | append_singleton words w ih =>
    rw [ofWords_append, last_append_singleton]
    cases w with
    | plain v => simpa [add] using ih
    | keyed k v =>
      rw [add, mem_assign_iff (nodup_keys_ofWords words), ih]
      grind

/-! ### The order of keys -/

/-- The keys of the words, each as often as it is given. -/
def keysOf (words : List Word) : List Text := words.filterMap Word.key?

theorem mem_keysOf_iff : key ∈ keysOf words ↔ ∃ value, .keyed key value ∈ words := by
  rw [keysOf, List.mem_filterMap]
  constructor
  · rintro ⟨w, hw, hkey⟩
    cases w with
    | plain v => cases hkey
    | keyed k v =>
      cases hkey
      exact ⟨v, hw⟩
  · rintro ⟨value, hw⟩
    exact ⟨_, hw, rfl⟩

theorem mem_keys_ofWords_iff : key ∈ (ofWords words).keyed.map (·.1) ↔ key ∈ keysOf words := by
  induction words using List.reverseRecOn with
  | nil => rfl
  | append_singleton words w ih =>
    rw [ofWords_append, keysOf, List.filterMap_append, List.mem_append, ← keysOf, ← ih]
    cases w with
    | plain v => simp [add, Word.key?, Word.pair?]
    | keyed k v =>
      by_cases hk : k ∈ (ofWords words).keyed.map (·.1)
      · rw [add, keys_assign_of_mem hk]
        refine ⟨.inl, fun h => h.elim id fun h => ?_⟩
        rwa [List.mem_singleton.1 h]
      · rw [add, assign_of_not_mem hk, List.map_append, List.mem_append]
        rfl

/-- Pairs stand in the order in which their keys are first given. -/
theorem pairwise_keys_ofWords (words : List Word) : ((ofWords words).keyed.map (·.1)).Pairwise
    fun a b => (keysOf words).idxOf a < (keysOf words).idxOf b := by
  induction words using List.reverseRecOn with
  | nil => exact .nil
  | append_singleton words w ih =>
    rw [ofWords_append, keysOf, List.filterMap_append, ← keysOf]
    -- a key that was given before is first given at the same place
    have hsame : ∀ a ∈ (ofWords words).keyed.map (·.1), ∀ later,
        (keysOf words ++ later).idxOf a = (keysOf words).idxOf a := by
      intro a ha later
      exact List.idxOf_append_of_mem (mem_keys_ofWords_iff.1 ha)
    have hkept : ∀ later, ((ofWords words).keyed.map (·.1)).Pairwise fun a b =>
        (keysOf words ++ later).idxOf a < (keysOf words ++ later).idxOf b := by
      intro later
      refine ih.imp_of_mem fun {a b} ha hb hlt => ?_
      rwa [hsame a ha, hsame b hb]
    cases w with
    | plain v => exact hkept _
    | keyed k v =>
      by_cases hk : k ∈ (ofWords words).keyed.map (·.1)
      · rw [add, keys_assign_of_mem hk]
        exact hkept _
      · rw [add, assign_of_not_mem hk, List.map_append, List.map_singleton, List.pairwise_append]
        refine ⟨hkept _, List.pairwise_singleton _ k, fun a ha b hb => ?_⟩
        obtain rfl := List.mem_singleton.1 hb
        rw [hsame a ha, List.idxOf_append_of_notMem (mem_keys_ofWords_iff.not.1 hk)]
        exact Nat.lt_add_right _ (List.idxOf_lt_length_of_mem (mem_keys_ofWords_iff.1 ha))

/-! ### Sorting with the places of keys -/

/-- Where a pass over drafts stands: what they give, and the place of the pair of each key. -/
structure Filing where
  given : Given := .empty
  places : Text → Option Nat := fun _ => none

namespace Filing

/-- Files one draft. The pair of a key that has a place takes the new value. -/
def step (s : Filing) (d : Word.Draft) : Filing :=
  match d.pair? with
  | none => ⟨⟨s.given.positional ++ [d.value], s.given.keyed⟩, s.places⟩
  | some (key, value) =>
    match s.places key with
    | some place =>
      ⟨⟨s.given.positional, s.given.keyed.modify place fun p => (p.1, value)⟩, s.places⟩
    | none =>
      ⟨⟨s.given.positional, s.given.keyed ++ [(key, value)]⟩,
        fun k => if k = key then some s.given.keyed.length else s.places k⟩

/-- The place that is kept for a key is that of its pair. -/
def Keeps (s : Filing) : Prop :=
  ∀ key, s.places key = (s.given.keyed.map (·.1)).idxOf? key

theorem assign_of_idxOf? {place : Nat} (h : (pairs.map (·.1)).idxOf? key = some place)
    (value : Text) : assign key value pairs = pairs.modify place fun p => (p.1, value) := by
  induction pairs generalizing place with
  | nil => cases h
  | cons q pairs ih =>
    obtain ⟨k, v⟩ := q
    rw [List.map_cons, List.idxOf?_cons] at h
    rw [assign]
    by_cases hk : k = key
    · rw [if_pos (beq_iff_eq.2 hk)] at h
      cases h
      rw [if_pos hk]
      rfl
    · rw [if_neg (mt beq_iff_eq.1 hk)] at h
      obtain ⟨place, hplace, rfl⟩ := Option.map_eq_some_iff.1 h
      rw [if_neg hk, ih hplace]
      rfl

theorem idxOf?_append_singleton {keys : List Text} (h : key ∉ keys) (k : Text) :
    (keys ++ [key]).idxOf? k = if k = key then some keys.length else keys.idxOf? k := by
  rw [List.idxOf?, List.findIdx?_append, ← List.idxOf?]
  split
  · next hk =>
    rw [hk, List.idxOf?_eq_none_iff.2 h]
    simp
  · next hk =>
    simp [Ne.symm hk]

/-- Filing a draft adds its word and keeps the places. -/
theorem step_spec {s : Filing} {d : Word.Draft} (hs : s.Keeps)
    (hd : d.value = w.text ∧ d.pair? = w.pair?) :
    (s.step d).Keeps ∧ (s.step d).given = s.given.add w := by
  obtain ⟨hvalue, hpair⟩ := hd
  rw [step, hpair]
  cases w with
  | plain v =>
    refine ⟨hs, ?_⟩
    rw [hvalue]
    rfl
  | keyed key value =>
    have hplace := hs key
    cases hfound : s.places key with
    | some place =>
      -- the keys stay as they are, and with them their places
      rw [hfound] at hplace
      have hmem : key ∈ s.given.keyed.map (·.1) := by
        by_contra hnew
        rw [List.idxOf?_eq_none_iff.2 hnew] at hplace
        cases hplace
      have hassign := assign_of_idxOf? hplace.symm value
      simp only [Word.pair?, hfound, add, hassign, and_true]
      intro k
      rw [← hassign, keys_assign_of_mem hmem]
      exact hs k
    | none =>
      rw [hfound] at hplace
      have hnew := List.idxOf?_eq_none_iff.1 hplace.symm
      simp only [Word.pair?, hfound, add, assign_of_not_mem hnew, and_true]
      intro k
      rw [List.map_append, List.map_singleton, idxOf?_append_singleton hnew, List.length_map,
        ← hs k]

theorem given_foldl_step {drafts : List Word.Draft}
    (h : List.Forall₂ (fun d w => d.value = w.text ∧ d.pair? = w.pair?) drafts words)
    {s : Filing} (hs : s.Keeps) : (drafts.foldl step s).given = words.foldl add s.given := by
  induction h generalizing s with
  | nil => rfl
  | cons hd _ ih =>
    obtain ⟨hkeeps, hgiven⟩ := step_spec hs hd
    rw [List.foldl_cons, List.foldl_cons, ih hkeeps, hgiven]

end Filing

/-- What drafts give, with the places of keys kept. -/
def fileAll (drafts : List Word.Draft) : Given := (drafts.foldl Filing.step {}).given

theorem fileAll_eq {drafts : List Word.Draft}
    (h : List.Forall₂ (fun d w => d.value = w.text ∧ d.pair? = w.pair?) drafts words) :
    fileAll drafts = ofWords words :=
  Filing.given_foldl_step h fun _ => rfl

/-! ### Argument texts -/

/-- An argument text that can be read is laid out as words, and what it gives says all that they do.
The plain words are there in order. The keys are those of the keyed words, none of them empty and
each there once, in the order in which they are first given, and each has the value of the last word
with it. A pass that marks where in a word its first bare equals sign stands, and where the pair of
a key stands, comes to the same, and what it cuts at the mark are the two sides of the sign. -/
theorem ofText_sorts {t : Text} (h : Word.readAll t = .ok words) :
    Word.Laid t words ∧ ofText t = .ok (ofWords words) ∧
      (ofWords words).positional = words.filterMap Word.value? ∧
      (∀ key, key ∈ (ofWords words).keyed.map (·.1) ↔ ∃ value, .keyed key value ∈ words) ∧
      (∀ key ∈ (ofWords words).keyed.map (·.1), key ≠ []) ∧
      ((ofWords words).keyed.map (·.1)).Nodup ∧
      ((ofWords words).keyed.map (·.1)).Pairwise
        (fun a b => (keysOf words).idxOf a < (keysOf words).idxOf b) ∧
      (∀ key value, (key, value) ∈ (ofWords words).keyed ↔ Last key value words) ∧
      ∃ drafts, Word.draftAll t = .ok drafts ∧ fileAll drafts = ofWords words ∧
        List.Forall₂ (fun d w => d.value = w.text ∧ d.pair? = w.pair?) drafts words ∧
        ∀ d ∈ drafts, ∀ key value, d.pair? = some (key, value) → d.value = key ++ '=' :: value := by
  have hlaid := Word.readAll_eq_ok_iff.1 h
  obtain ⟨drafts, hdrafts, hsame⟩ := Word.exists_drafts h
  -- a draft that is cut in two says the same as its word
  have hcut : ∀ d ∈ drafts, ∀ key value, d.pair? = some (key, value) →
      d.value = key ++ '=' :: value := by
    refine ((List.forall₂_and_left _ _).1
      (hsame.imp fun d w hd => ⟨fun key value hpair => ?_, hd⟩)).1
    obtain ⟨hvalue, hw⟩ := hd
    rw [hvalue, Word.text_of_pair? (hw.symm.trans hpair)]
  refine ⟨hlaid, Except.map_eq_ok_iff.2 ⟨words, h, rfl⟩, positional_ofWords words, fun key => ?_,
    fun key hkey => ?_, nodup_keys_ofWords words, pairwise_keys_ofWords words,
    fun _ _ => mem_keyed_ofWords_iff, drafts, hdrafts, fileAll_eq hsame, hsame, hcut⟩
  · rw [mem_keys_ofWords_iff, mem_keysOf_iff]
  · obtain ⟨value, hw⟩ := mem_keysOf_iff.1 (mem_keys_ofWords_iff.1 hkey)
    exact hlaid.key_ne_nil hw

/-- A repeated key, quoted and escaped signs, and characters of several bytes. -/
theorem ofText_sorts_repeated :
    let t := "é=1 'a=b' \\=c=d é='2 ß=' x= é\"=\"=3=".toList
    let words : List Word := [.keyed ['é'] ['1'], .plain "a=b".toList, .keyed "=c".toList ['d'],
      .keyed ['é'] "2 ß=".toList, .keyed ['x'] [], .keyed "é=".toList "3=".toList]
    Word.readAll t = .ok words ∧ ofText t = .ok ⟨["a=b".toList],
      [(['é'], "2 ß=".toList), ("=c".toList, ['d']), (['x'], []), ("é=".toList, "3=".toList)]⟩ ∧
      Last ['é'] "2 ß=".toList words ∧
      ∃ drafts, Word.draftAll t = .ok drafts ∧ fileAll drafts = ofWords words := by
  intro t words
  have hread : Word.readAll t = .ok words := by decide
  obtain ⟨-, hgiven, -, -, -, -, -, hlast, drafts, hdrafts, hfiled, -⟩ := ofText_sorts hread
  exact ⟨hread, hgiven, (hlast _ _).1 (by decide), drafts, hdrafts, hfiled⟩

end Given

end Shortcodes
