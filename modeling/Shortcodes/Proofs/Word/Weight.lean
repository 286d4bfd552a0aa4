import Mathlib
import Shortcodes.Proofs.Outcome
import Shortcodes.Proofs.Word.Writing

/-!
# What words weigh

A word costs its characters and a blank. Reading never gives more than the text has to pay for, and
words that cost all of it were read from a text that lost nothing: no quotation mark, no backslash,
and no blank but one between two words (`sum_weight_le`). The second part counts the characters of
keys and of joined forms in the same way.
-/

namespace Shortcodes

namespace Word

/-- What a word costs in an argument text: its characters and a blank. -/
def weight (w : Word) : Nat := w.text.length + 1

theorem text_ofAtoms (row : List Atom) : (ofAtoms row).text = row.filterMap Atom.letter? := by
  rw [ofAtoms]
  have hsplit := List.takeWhile_append_dropWhile (p := fun a : Atom => decide (a ≠ .bare '='))
    (l := row)
  split
  · next h =>
    rw [h, List.append_nil] at hsplit
    rw [text, hsplit]
  · next a value h =>
    have ha : a = .bare '=' := by
      have := List.head?_dropWhile_not (fun a : Atom => decide (a ≠ .bare '=')) row
      rw [h] at this
      simpa using this
    rw [h, ha] at hsplit
    have hsign : (Atom.bare '=' :: value).filterMap Atom.letter? =
        '=' :: value.filterMap Atom.letter? := rfl
    conv_rhs => rw [← hsplit, List.filterMap_append, hsign]
    split
    · next hk => rw [text, hk, List.nil_append]
    · rfl

theorem sum_weight_ofAtoms (rows : List (List Atom)) :
    ((rows.map ofAtoms).map weight).sum =
      (rows.flatten.filterMap Atom.letter?).length + rows.length := by
  induction rows with
  | nil => rfl
  | cons row rows ih =>
    rw [List.map_cons, List.map_cons, List.sum_cons, ih, weight, text_ofAtoms, List.flatten_cons,
      List.filterMap_append, List.length_append, List.length_cons]
    omega

theorem filterMap_letter_filter_gap (l : List Atom) :
    (l.filter (· ≠ .gap)).filterMap Atom.letter? = l.filterMap Atom.letter? := by
  rw [List.filterMap_filter]
  refine List.filterMap_congr fun a _ => ?_
  cases a <;> rfl

/-- The words of a text weigh no more than its characters and one. If they weigh as much, no
character was lost. -/
theorem sum_weight_le {t : Text} {words : List Word} (h : readAll t = .ok words) :
    (words.map weight).sum ≤ t.length + 1 ∧ ((words.map weight).sum = t.length + 1 →
      (∀ c ∈ t, Atom.IsPlain c) ∧ words = (groups (t.map Atom.ofPlain)).map ofAtoms ∧
        words.length = t.countP isBlank + 1) := by
  obtain ⟨atoms, hread, rfl⟩ := Except.map_eq_ok_iff.1 h
  obtain ⟨hle, heq⟩ := Atom.shown_le_of_read hread
  have hsum := sum_weight_ofAtoms (groups atoms)
  rw [flatten_groups, filterMap_letter_filter_gap] at hsum
  have hgroups : (groups atoms).length ≤ atoms.count .gap + 1 := by
    cases atoms with
    | nil => simp [groups]
    | cons a atoms =>
      have := length_groups_cons_le a atoms
      have := List.count_le_count_cons (a := Atom.gap) (b := a) (l := atoms)
      omega
  have hshown := Atom.shown_eq atoms
  refine ⟨by omega, fun h => ?_⟩
  obtain ⟨-, hplain, hatoms⟩ := heq (by omega)
  have hcount : atoms.count .gap = t.countP isBlank := by
    rw [hatoms, List.count, List.countP_map]
    refine List.countP_congr fun c _ => ?_
    by_cases hc : isBlank c = true <;> simp [Atom.ofPlain, hc]
  refine ⟨hplain, by rw [hatoms], ?_⟩
  rw [List.length_map]
  omega

/-- Different words among others that weigh no more together are all there is. -/
theorem perm_of_sum_weight_le {few many : List Word} (hn : few.Nodup) (hs : few ⊆ many)
    (h : (many.map weight).sum ≤ (few.map weight).sum) : few.Perm many := by
  obtain ⟨part, hpart, hsub⟩ := List.subperm_of_subset hn hs
  obtain ⟨rest, hmany⟩ := hsub.exists_perm_append
  have hrest : many.Perm (few ++ rest) := hmany.trans (hpart.append_right rest)
  have hsum : (many.map weight).sum = (few.map weight).sum + (rest.map weight).sum := by
    rw [(hrest.map weight).sum_eq, List.map_append, List.sum_append]
  have hnil : rest = [] := by
    cases rest with
    | nil => rfl
    | cons w rest =>
      rw [List.map_cons, List.sum_cons, weight] at hsum
      omega
  rw [hnil, List.append_nil] at hrest
  exact hrest.symm

/-- The length of a word's key. -/
def keyLength : Word → Nat
  | plain _ => 0
  | keyed key _ => key.length

/-- A key ends before the first bare equals sign. -/
theorem keyLength_ofAtoms_le (row : List Atom) :
    (ofAtoms row).keyLength ≤ (row.takeWhile (· ≠ .bare '=')).length := by
  rw [ofAtoms]
  split
  · exact Nat.zero_le _
  · split
    · exact Nat.zero_le _
    · exact List.length_filterMap_le _ _

theorem keyLength_ofAtoms_append_le (name : Text) (after : List Atom) :
    (ofAtoms (name.map .bare ++ .bare '=' :: after)).keyLength ≤ name.length ∧
      ('=' ∈ name →
        (ofAtoms (name.map .bare ++ .bare '=' :: after)).keyLength < name.length) := by
  have hle := keyLength_ofAtoms_le (name.map .bare ++ .bare '=' :: after)
  have htake : ((name.map Atom.bare ++ .bare '=' :: after).takeWhile (· ≠ .bare '=')).length =
      (name.takeWhile (· ≠ '=')).length := by
    clear hle
    induction name with
    | nil => simp
    | cons c name ih =>
      rw [List.map_cons, List.cons_append, List.takeWhile_cons, List.takeWhile_cons]
      by_cases hc : c = '='
      · simp [hc]
      · simpa [hc] using ih
  rw [htake] at hle
  have hstart : name.takeWhile (fun c => decide (c ≠ '=')) <+: name := List.takeWhile_prefix _
  refine ⟨hle.trans hstart.length_le, fun hm => hle.trans_lt ?_⟩
  refine lt_of_le_of_ne hstart.length_le fun hlen => ?_
  have hall := List.takeWhile_eq_self_iff.1 (hstart.eq_of_length hlen) '=' hm
  simp at hall

/-! ### Joined forms -/

theorem countP_join {p : Char → Bool} (hp : p ' ' = true) {forms : List Text} (h : forms ≠ []) :
    (Text.join [' '] forms).countP p + 1 = (forms.map fun form => form.countP p + 1).sum := by
  induction forms with
  | nil => exact absurd rfl h
  | cons form forms ih =>
    cases forms with
    | nil => rfl
    | cons form' forms =>
      have := ih (by simp)
      rw [Text.join, List.countP_append, List.countP_append, List.map_cons, List.sum_cons, ← this]
      · simp [hp]
        omega
      · simp

theorem infix_join {separator form : Text} {forms : List Text} (h : form ∈ forms) :
    form <:+: Text.join separator forms := by
  induction forms with
  | nil => simp at h
  | cons form' forms ih =>
    cases forms with
    | nil =>
      rw [List.mem_singleton.1 h]
      exact List.infix_rfl
    | cons form'' forms =>
      rw [Text.join]
      · rcases List.mem_cons.1 h with rfl | h
        · rw [List.append_assoc]
          exact (List.prefix_append _ _).isInfix
        · exact (ih h).trans (List.suffix_append _ _).isInfix
      · simp

/-- Joined forms of plain characters without blanks are read to the forms. -/
theorem groups_map_ofPlain_join {forms : List Text} (hne : ∀ form ∈ forms, form ≠ [])
    (hplain : ∀ c ∈ Text.join [' '] forms, Atom.IsPlain c)
    (hblank : ∀ form ∈ forms, ∀ c ∈ form, isBlank c = false) :
    groups ((Text.join [' '] forms).map Atom.ofPlain) = forms.map fun form => form.map .bare := by
  have hspells : List.Forall₂ Atom.Spells forms (forms.map fun form => form.map .bare) := by
    rw [List.forall₂_map_right_iff, List.forall₂_same]
    intro form hform
    rw [← map_ofPlain (hblank form hform)]
    exact Atom.spells_map_plain fun c hc => hplain c ((infix_join hform).subset hc)
  have hatoms : spread (forms.map fun form => form.map .bare) =
      (Text.join [' '] forms).map Atom.ofPlain := by
    have hread := (spells_join hspells).read_eq
    rw [(Atom.spells_map_plain hplain).read_eq] at hread
    exact (Except.ok.inj hread).symm
  have hrows : ∀ row ∈ forms.map fun form => form.map Atom.bare, row ≠ [] ∧ .gap ∉ row := by
    intro row hrow
    obtain ⟨form, hform, rfl⟩ := List.mem_map.1 hrow
    exact ⟨by simp [hne form hform], by simp⟩
  rw [← hatoms, groups_spread hrows]

/-- A text in joined forms that is read to words of which different ones weigh as much as the forms:
it is all of them, the words are these and no others, no character was lost and no form has a
blank. -/
theorem plain_of_weights {t : Text} {forms : List Text} {few words : List Word} (hne : forms ≠ [])
    (hpart : t <:+: Text.join [' '] forms) (hwords : readAll t = .ok words) (hnodup : few.Nodup)
    (hsubset : few ⊆ words) (hweights : few.map weight = forms.map fun form => form.length + 1) :
    few.Perm words ∧ words = (groups ((Text.join [' '] forms).map Atom.ofPlain)).map ofAtoms ∧
      (∀ c ∈ Text.join [' '] forms, Atom.IsPlain c) ∧
      ∀ form ∈ forms, ∀ c ∈ form, isBlank c = false := by
  have hlength : (few.map weight).sum = (Text.join [' '] forms).length + 1 := by
    have hcount := countP_join (p := fun _ => true) rfl hne
    simp only [List.countP_true] at hcount
    rw [hcount, hweights]
  obtain ⟨hle, heq⟩ := sum_weight_le hwords
  have hshort := hpart.length_le
  have hperm := perm_of_sum_weight_le hnodup hsubset (by omega)
  have hsum := (hperm.map weight).sum_eq
  obtain rfl : t = Text.join [' '] forms := hpart.eq_of_length (by omega)
  obtain ⟨hplain, hgroups, hcount⟩ := heq (by omega)
  refine ⟨hperm, hgroups, hplain, fun form hform c hc => ?_⟩
  -- there are as many blanks as the joints need
  have hjoin := countP_join (p := isBlank) (by decide) hne
  have hones : (forms.map fun form => form.countP isBlank + 1).sum =
      (forms.map fun form => form.countP isBlank).sum + forms.length := by
    simp [List.sum_map_add]
  have hmany : words.length = forms.length := by
    rw [← hperm.length_eq, ← List.length_map (f := weight), hweights, List.length_map]
  have hzero := List.sum_eq_zero_iff.1
    (show (forms.map fun form => form.countP isBlank).sum = 0 by omega) _
    (List.mem_map_of_mem hform)
  simpa using List.countP_eq_zero.1 hzero c hc

end Word

end Shortcodes
