import Shortcodes.Proofs.Word.Faults
import Shortcodes.Proofs.Word.Weight

/-!
# Rows of written values

Written values with blanks behind them are read back one word each, whatever blanks they are
(`readAll_written`). A value that is written as it stands becomes a keyed word if its first equals
sign has something before it; every other value becomes a plain word. No value is quoted without
need: what is not left as it stands would not be read back (`bare_of_readAll`), or would end a tag.
-/

namespace Shortcodes.Word

open Atom

/-! ### The word of one value -/

/-- The word that a written value is read to. It has the value's text; and it has a key if the value
is written as it stands and its first equals sign has something before it. -/
structure Shows (value : Text) (word : Word) : Prop where
  text_eq : word.text = value
  pair?_eq_some_iff : ∀ key rest, word.pair? = some (key, rest) ↔
    written value = value ∧ value = key ++ '=' :: rest ∧ key ≠ [] ∧ '=' ∉ key

/-- An equals sign with nothing before it makes no key. -/
theorem ofAtoms_sign (after : List Atom) :
    ofAtoms (.bare '=' :: after) = plain ('=' :: after.filterMap letter?) := by
  simp [ofAtoms]

/-- The key of a value that stands bare is what comes before its first equals sign. -/
theorem pair?_ofAtoms_bare {value key rest : Text} :
    (ofAtoms (value.map .bare)).pair? = some (key, rest) ↔
      value = key ++ '=' :: rest ∧ key ≠ [] ∧ '=' ∉ key := by
  by_cases hsign : '=' ∈ value
  · obtain ⟨before, after, rfl, hbefore⟩ := List.eq_append_cons_of_mem hsign
    have hmem : .bare '=' ∉ before.map Atom.bare := by simpa using hbefore
    rw [List.map_append, List.map_cons]
    -- the first sign separates the key from the value, unless it stands at the front
    by_cases hne : before = []
    · subst hne
      rw [List.map_nil, List.nil_append, ofAtoms_sign]
      constructor
      · intro h
        cases h
      · rintro ⟨h, hkey, habsent⟩
        obtain ⟨d, key, rfl⟩ := List.exists_cons_of_ne_nil hkey
        rw [List.nil_append, List.cons_append, List.cons.injEq] at h
        exact absurd (h.1 ▸ List.mem_cons_self) habsent
    · rw [ofAtoms_append hmem (by rwa [filterMap_map_bare]), filterMap_map_bare,
        filterMap_map_bare, pair?, Option.some.injEq, Prod.mk.injEq]
      constructor
      · rintro ⟨rfl, rfl⟩
        exact ⟨rfl, hne, hbefore⟩
      · rintro ⟨h, -, habsent⟩
        exact Text.append_cons_inj_of_not_mem hbefore habsent h
  · have hmem : .bare '=' ∉ value.map Atom.bare := by simpa using hsign
    rw [ofAtoms_of_not_mem hmem]
    constructor
    · intro h
      cases h
    · rintro ⟨rfl, -, -⟩
      exact absurd (by simp) hsign

/-- A written value spells one row, and that row is its word. -/
theorem exists_row_shows (value : Text) : ∃ row, row ≠ [] ∧ .gap ∉ row ∧
    Spells (written value) row ∧ Shows value (ofAtoms row) := by
  obtain ⟨hb, he⟩ | hg := written_cases value
  · refine ⟨value.map .bare, by simpa using hb.ne_nil, by simp, by rw [he]; exact hb.spells, ?_, ?_⟩
    · rw [text_ofAtoms, filterMap_map_bare]
    · intro key rest
      rw [pair?_ofAtoms_bare, and_iff_right he]
  · obtain ⟨row, hne, hs, hr⟩ := hg.spells
    refine ⟨row, hne, hr.gap_not_mem, hs, ?_, ?_⟩
    · rw [text_ofAtoms, hr.letters]
    · intro key rest
      rw [ofAtoms_of_not_mem (hr.bare_not_mem '=')]
      constructor
      · intro h
        cases h
      · rintro ⟨he, -⟩
        exact absurd he hg.ne

/-! ### Rows -/

/-- Values that are written one behind the other, each with the blanks behind it. Where another
value follows there are blanks. -/
structure Parted (row : List (Text × Text)) : Prop where
  blank : ∀ p ∈ row, ∀ c ∈ p.2, isBlank c = true
  ne_nil : ∀ p ∈ row.dropLast, p.2 ≠ []

theorem Parted.tail {p : Text × Text} {row : List (Text × Text)} (h : Parted (p :: row)) :
    Parted row where
  blank q hq := h.blank q (List.mem_cons_of_mem p hq)
  ne_nil q hq := by
    cases row with
    | nil => cases hq
    | cons p' row =>
      exact h.ne_nil q (List.mem_cons_of_mem p hq)

/-- A row of written values spells the rows of its words with gaps between them. -/
theorem exists_spells_row {row : List (Text × Text)} (h : Parted row) :
    ∃ atoms, Spells (row.flatMap fun p => written p.1 ++ p.2) atoms ∧
      List.Forall₂ (fun p atoms => Shows p.1 (ofAtoms atoms)) row (groups atoms) := by
  induction row with
  | nil => exact ⟨[], spells_nil, .nil⟩
  | cons p row ih =>
    obtain ⟨atoms, hspells, hshows⟩ := ih h.tail
    obtain ⟨first, hne, hgap, hfirst, hword⟩ := exists_row_shows p.1
    have hblanks := spells_blanks (h.blank p List.mem_cons_self)
    refine ⟨first ++ (List.replicate p.2.length .gap ++ atoms), ?_, ?_⟩
    · rw [List.flatMap_cons, ← List.append_assoc first]
      exact (hfirst.append hblanks).append hspells
    · -- only behind the last value there may be no blank
      have hend : p.2.length = 0 → atoms = [] := by
        intro hlength
        cases row with
        | nil =>
          have hnil := hspells.read_eq
          rw [List.flatMap_nil, spells_nil.read_eq] at hnil
          exact (Except.ok.inj hnil).symm
        | cons p' row =>
          exact absurd (List.length_eq_zero_iff.1 hlength) (h.ne_nil p List.mem_cons_self)
      rw [groups_append_gaps hend, groups_row hne hgap]
      exact .cons hword hshows

/-- A value that is read back as it stands, as one word, has nothing in it that reading loses. -/
theorem bare_of_readAll {value : Text} {word : Word} (h : readAll value = .ok [word])
    (htext : word.text = value) (hcloser : ¬ closer <:+: value) : Bare value := by
  have hweight : ([word].map weight).sum = value.length + 1 := by
    rw [List.map_singleton, List.sum_singleton, weight, htext]
  obtain ⟨-, heq⟩ := sum_weight_le h
  obtain ⟨hplain, -, hcount⟩ := heq hweight
  rw [List.length_singleton, Nat.right_eq_add, List.countP_eq_zero] at hcount
  refine ⟨?_, hplain, fun c hc => by simpa using hcount c hc, hcloser⟩
  rintro rfl
  rw [readAll_of_spells spells_nil] at h
  cases h

theorem Bare.written_eq {value : Text} (h : Bare value) : written value = value := by
  have hsingle : '\'' ∉ value := fun hm => (h.plain _ hm).1 rfl
  have hdouble : '"' ∉ value := fun hm => (h.plain _ hm).2.1 rfl
  have hslash : '\\' ∉ value := fun hm => (h.plain _ hm).2.2 rfl
  have hblank : value.any isBlank = false := by
    rw [List.any_eq_false]
    intro c hc
    rw [h.notBlank c hc]
    exact Bool.false_ne_true
  simp [written, h.ne_nil, Text.has_eq_false_iff.2 h.notCloser, hsingle, hdouble, hslash, hblank]

/-- A row of written values is read back to a word for each, in order, whatever blanks stand before,
between and behind them. A word is keyed exactly if its value was written as it stands and its first
equals sign has something before it. No written form ends a tag; and a value is written as it stands
whenever it is read back as one word and does not end a tag. -/
theorem readAll_written :
    (∀ (front : Text) (row : List (Text × Text)), (∀ c ∈ front, isBlank c = true) → Parted row →
      ∃ words, readAll (front ++ row.flatMap fun p => written p.1 ++ p.2) = .ok words ∧
        List.Forall₂ (fun p word => Shows p.1 word) row words) ∧
      (∀ value, ¬ closer <:+: written value) ∧
      ∀ value, written value = value ↔
        (∃ word, readAll value = .ok [word] ∧ word.text = value) ∧ ¬ closer <:+: value := by
  refine ⟨fun front row hfront hrow => ?_, not_closer_written, fun value => ⟨fun h => ?_, ?_⟩⟩
  · obtain ⟨atoms, hspells, hshows⟩ := exists_spells_row hrow
    refine ⟨(groups atoms).map ofAtoms, ?_, List.forall₂_map_right_iff.2 hshows⟩
    rw [readAll_of_spells ((spells_blanks hfront).append hspells), groups_gaps_append]
  · obtain ⟨row, hne, hgap, hspells, hword⟩ := exists_row_shows value
    rw [h] at hspells
    refine ⟨⟨ofAtoms row, ?_, hword.text_eq⟩, h ▸ not_closer_written value⟩
    rw [readAll_of_spells hspells, groups_row hne hgap]
    rfl
  · rintro ⟨⟨word, hread, htext⟩, hcloser⟩
    exact (bare_of_readAll hread htext hcloser).written_eq

/-- A value with a closing mark, one with a key, one that begins with an equals sign, and an empty
one, with different blanks between them. -/
theorem readAll_written_marks :
    let row := [("50%]".toList, ['\u2003', ' ']), ("k=é=".toList, ['\n']), ("=a=b".toList, [' ']),
      ([], [])]
    let words := [plain "50%]".toList, keyed ['k'] ['é', '='], plain "=a=b".toList, plain []]
    Parted row ∧ readAll (['\t'] ++ row.flatMap fun p => written p.1 ++ p.2) = .ok words ∧
      List.Forall₂ (fun p word => Shows p.1 word) row words := by
  intro row words
  have hblank : row.all (fun p => p.2.all isBlank) = true := by decide
  have hrow : Parted row :=
    ⟨fun p hp => List.all_eq_true.1 (List.all_eq_true.1 hblank p hp), by simp [row]⟩
  have hfront : ∀ c ∈ ['\t'], isBlank c = true := Text.forall_mem_of_all (by decide)
  obtain ⟨read, hread, hshows⟩ := readAll_written.1 ['\t'] row hfront hrow
  have hwords : readAll (['\t'] ++ row.flatMap fun p => written p.1 ++ p.2) = .ok words := by decide
  obtain rfl : read = words := Except.ok.inj (hread.symm.trans hwords)
  exact ⟨hrow, hread, hshows⟩

/-- An equals sign further back makes no key where another one stands in front. -/
theorem not_keyed_of_later_sign :
    ¬ ∀ value word, readAll (written value) = .ok [word] →
      ((∃ pair, word.pair? = some pair) ↔
        written value = value ∧ ∃ i, 0 < i ∧ value[i]? = some '=') := by
  intro h
  have hread : readAll (written "=a=b".toList) = .ok [plain "=a=b".toList] := by decide
  obtain ⟨pair, hpair⟩ := (h _ _ hread).2 ⟨by decide, 2, by decide, by decide⟩
  cases hpair

end Shortcodes.Word
