import Shortcodes.Proofs.Word.Reading
import Shortcodes.Word.Writing

/-!
# Written values

The written form of a value is either the value itself, which is then `Bare`, or it guards every
character of the value (`written_cases`). Either way it never holds the closing mark of a tag,
and no blank stands at its ends. A `Form` of a word is a text with these properties that spells
the word: plain words and keyed words have such forms (`form_writtenPlain`, `form_keyed`), and
forms with blanks between them are read back as their words (`readAll_join`).
-/

namespace Shortcodes.Word

open Atom

/-! ### Guarded rows -/

/-- Rows that show a value with every character of it quoted or escaped. -/
structure GuardedRow (row : List Atom) (value : Text) : Prop where
  guarded : ∀ a ∈ row, a = .opening ∨ ∃ c, a = .guarded c
  letters : row.filterMap letter? = value

theorem guardedRow_map (value : Text) :
    GuardedRow (.opening :: value.map .guarded) value where
  guarded a ha := by
    rcases List.mem_cons.1 ha with rfl | ha
    · exact .inl rfl
    · obtain ⟨c, -, rfl⟩ := List.mem_map.1 ha
      exact .inr ⟨c, rfl⟩
  letters := by
    rw [List.filterMap_cons_none rfl, List.filterMap_map]
    exact List.filterMap_some

theorem GuardedRow.append {r s : List Atom} {u v : Text} (hr : GuardedRow r u)
    (hs : GuardedRow s v) : GuardedRow (r ++ s) (u ++ v) where
  guarded a ha := (List.mem_append.1 ha).elim (hr.guarded a) (hs.guarded a)
  letters := by rw [List.filterMap_append, hr.letters, hs.letters]

theorem GuardedRow.gap_not_mem {row : List Atom} {value : Text} (h : GuardedRow row value) :
    .gap ∉ row := by
  intro hm
  obtain h | ⟨c, h⟩ := h.guarded _ hm <;> cases h

theorem GuardedRow.bare_not_mem {row : List Atom} {value : Text} (h : GuardedRow row value)
    (c : Char) : .bare c ∉ row := by
  intro hm
  obtain h | ⟨d, h⟩ := h.guarded _ hm <;> cases h

/-! ### Quoted forms -/

/-- A backslash is put before the two characters that it guards between double quotes. -/
def escape (c : Char) : Text := if c = '"' ∨ c = '\\' then ['\\', c] else [c]

theorem doubleQuoted_eq (value : Text) :
    doubleQuoted value = '"' :: value.flatMap escape ++ ['"'] := rfl

theorem read_double_append (value : Text) (start offset : Nat) (rest : Text) :
    read (.double start) offset (value.flatMap escape ++ '"' :: rest) =
      (read .outside (offset + Text.byteLength (value.flatMap escape) + 1) rest).map
        (value.map .guarded ++ ·) := by
  induction value generalizing offset with
  | nil =>
    rw [List.flatMap_nil, List.nil_append, Atom.read, List.map_nil, map_nil_append]
    rfl
  | cons c value ih =>
    have hstep : read (.double start) offset
        (escape c ++ (value.flatMap escape ++ '"' :: rest)) =
          before (.guarded c) (read (.double start) (offset + Text.byteLength (escape c))
            (value.flatMap escape ++ '"' :: rest)) := by
      by_cases hc : c = '"' ∨ c = '\\'
      · rw [escape, if_pos hc, List.cons_append, List.singleton_append]
        rcases hc with rfl | rfl
        · rw [Atom.read]; rfl
        · rw [Atom.read]; rfl
      · rw [escape, if_neg hc, List.singleton_append]
        rw [not_or] at hc
        rw [read_double_cons hc.1 fun h => absurd h hc.2]
        rfl
    rw [List.flatMap_cons, List.append_assoc, hstep, ih, before_eq_map, map_append_append,
      Text.byteLength_append, ← Nat.add_assoc]
    rfl

theorem getLast?_doubleQuoted (value : Text) : (doubleQuoted value).getLast? = some '"' := by
  rw [doubleQuoted_eq, List.getLast?_append]
  rfl

theorem getLast?_singleQuoted (value : Text) : (singleQuoted value).getLast? = some '\'' := by
  rw [singleQuoted, List.getLast?_append]
  rfl

theorem spells_doubleQuoted (value : Text) :
    Spells (doubleQuoted value) (.opening :: value.map .guarded) := by
  intro offset rest
  have hlen : offset + Text.byteLength (doubleQuoted value) =
      offset + 1 + Text.byteLength (value.flatMap escape) + 1 := by
    rw [doubleQuoted_eq, Text.byteLength_append, Text.byteLength_cons]
    simp only [Text.byteLength_cons, Text.byteLength_nil, show ('"' : Char).utf8Size = 1 from rfl]
    omega
  rw [hlen, doubleQuoted_eq, List.append_assoc, List.cons_append, List.singleton_append, Atom.read,
    read_double_append, before_eq_map, map_append_append]
  rfl

/-- A value in which closing marks are broken up is spelled whole, each of its characters
guarded. -/
theorem spells_brokenUpTo (fuel : Nat) (value : Text) :
    ∃ row, Spells (brokenUpTo fuel value) row ∧ GuardedRow row value := by
  induction fuel generalizing value with
  | zero => exact ⟨_, spells_doubleQuoted value, guardedRow_map value⟩
  | succ fuel ih =>
    rw [brokenUpTo]
    split
    · next piece rest h =>
      obtain ⟨row, hs, hr⟩ := ih rest
      refine ⟨_, ((spells_doubleQuoted (piece ++ ['%'])).append (spells_escaped ']')).append hs,
        ?_⟩
      have hbracket : GuardedRow [.guarded ']'] [']'] := ⟨by simp, rfl⟩
      have := ((guardedRow_map (piece ++ ['%'])).append hbracket).append hr
      rw [Text.eq_of_cut? h]
      simpa [closer] using this
    · split
      · next h => exact ⟨[], spells_nil, by simp, by rw [h]; rfl⟩
      · exact ⟨_, spells_doubleQuoted value, guardedRow_map value⟩

theorem not_closer_doubleQuoted {value : Text} (h : ¬ closer <:+: value) :
    ¬ closer <:+: doubleQuoted value := by
  have hescape : ∀ t : Text, closer <:+: t.flatMap escape → closer <:+: t := by
    intro t ht
    induction t with
    | nil => exact ht
    | cons c t ih =>
      rw [List.flatMap_cons, closer, Text.infix_pair_append_iff] at ht
      obtain hc | ht | ⟨hc, hb⟩ := ht
      · exfalso
        rw [escape] at hc
        split at hc
        · next he => rcases he with rfl | rfl <;> revert hc <;> decide
        · simpa using hc.length_le
      · exact (ih ht).trans (List.suffix_cons c t).isInfix
      · -- across the joint: what is escaped is not the bracket
        have hlast : c = '%' := by
          rw [escape] at hc
          split at hc <;> simpa using hc
        obtain ⟨d, t, rfl⟩ : ∃ d s, t = d :: s := by
          cases t with
          | nil => simp at hb
          | cons d s => exact ⟨d, s, rfl⟩
        have hhead : d = ']' := by
          rw [List.flatMap_cons, escape] at hb
          split at hb <;> simp_all
        rw [hlast, hhead]
        exact ⟨[], t, rfl⟩
  intro hi
  rw [doubleQuoted_eq, closer, Text.infix_pair_append_iff, List.infix_cons_iff] at hi
  obtain (hi | hi) | hi | ⟨-, hi⟩ := hi
  · simp [List.cons_prefix_cons] at hi
  · exact h (hescape value hi)
  · simpa using hi.length_le
  · simp at hi

theorem not_closer_singleQuoted {value : Text} (h : ¬ closer <:+: value) :
    ¬ closer <:+: singleQuoted value := by
  intro hi
  rw [singleQuoted, closer, Text.infix_pair_append_iff, List.infix_cons_iff] at hi
  obtain (hi | hi) | hi | ⟨-, hi⟩ := hi
  · simp [List.cons_prefix_cons] at hi
  · exact h hi
  · simpa using hi.length_le
  · simp at hi

theorem not_closer_brokenUpTo {fuel : Nat} {value : Text} (h : value.length ≤ fuel) :
    ¬ closer <:+: brokenUpTo fuel value := by
  induction fuel generalizing value with
  | zero =>
    rw [List.length_eq_zero_iff.1 (Nat.le_zero.1 h)]
    decide
  | succ fuel ih =>
    rw [brokenUpTo]
    split
    · next piece rest hc =>
      have hpiece := Text.not_infix_of_cut? (by decide) hc
      have hlen := congrArg List.length (Text.eq_of_cut? hc)
      simp only [List.length_append, closer, List.length_cons, List.length_nil] at hlen
      have hrest : ¬ closer <:+: brokenUpTo fuel rest := ih (by omega)
      rw [closer, Text.infix_pair_append_iff, Text.infix_pair_append_iff]
      rintro ((hi | hi | ⟨hi, -⟩) | hi | ⟨hi, -⟩)
      · exact not_closer_doubleQuoted hpiece hi
      · revert hi; decide
      · rw [getLast?_doubleQuoted] at hi
        exact absurd hi (by decide)
      · exact hrest hi
      · simp at hi
    · next hc =>
      split
      · decide
      · exact not_closer_doubleQuoted (Text.cut?_eq_none_iff.1 hc)

theorem tight_doubleQuoted (value : Text) : Text.Tight (doubleQuoted value) where
  head c hc := by
    obtain rfl : '"' = c := by simpa [doubleQuoted] using hc
    rfl
  last c hc := by
    rw [getLast?_doubleQuoted] at hc
    obtain rfl : '"' = c := by simpa using hc
    rfl

theorem tight_singleQuoted (value : Text) : Text.Tight (singleQuoted value) where
  head c hc := by
    obtain rfl : '\'' = c := by simpa [singleQuoted] using hc
    rfl
  last c hc := by
    rw [getLast?_singleQuoted] at hc
    obtain rfl : '\'' = c := by simpa using hc
    rfl

theorem tight_brokenUpTo (fuel : Nat) (value : Text) : Text.Tight (brokenUpTo fuel value) := by
  induction fuel generalizing value with
  | zero => exact tight_doubleQuoted value
  | succ fuel ih =>
    rw [brokenUpTo]
    split
    · have hbracket : Text.Tight ['\\', ']'] :=
        Text.tight_of_forall (Text.forall_mem_of_all (by decide))
      exact ((tight_doubleQuoted _).append hbracket).append (ih _)
    · split
      · exact Text.tight_nil
      · exact tight_doubleQuoted value

/-! ### The written form -/

/-- A value that can stand as it is. -/
structure Bare (value : Text) : Prop where
  ne_nil : value ≠ []
  plain : ∀ c ∈ value, IsPlain c
  notBlank : ∀ c ∈ value, isBlank c = false
  notCloser : ¬ closer <:+: value

/-- A form of a value in which every character of it is guarded. -/
structure Guarding (form value : Text) : Prop where
  spells : ∃ row, row ≠ [] ∧ Spells form row ∧ GuardedRow row value
  notCloser : ¬ closer <:+: form
  tight : Text.Tight form

theorem guarding_doubleQuoted {value : Text} (h : ¬ closer <:+: value) :
    Guarding (doubleQuoted value) value where
  spells := ⟨_, by simp, spells_doubleQuoted value, guardedRow_map value⟩
  notCloser := not_closer_doubleQuoted h
  tight := tight_doubleQuoted value

theorem guarding_singleQuoted {value : Text} (h : ¬ closer <:+: value) (hq : '\'' ∉ value) :
    Guarding (singleQuoted value) value where
  spells := ⟨_, by simp, spells_single hq, guardedRow_map value⟩
  notCloser := not_closer_singleQuoted h
  tight := tight_singleQuoted value

theorem guarding_broken {value : Text} (h : value ≠ []) : Guarding (broken value) value where
  spells := by
    obtain ⟨row, hs, hr⟩ := spells_brokenUpTo value.length value
    refine ⟨row, ?_, hs, hr⟩
    rintro rfl
    exact h hr.letters.symm
  notCloser := not_closer_brokenUpTo le_rfl
  tight := tight_brokenUpTo value.length value

/-- The written form is the value itself, which is then bare, or it guards the value. -/
theorem written_cases (value : Text) :
    (Bare value ∧ written value = value) ∨ Guarding (written value) value := by
  rw [written]
  split
  · next h =>
    subst h
    have h : Guarding (doubleQuoted []) [] := guarding_doubleQuoted (by decide)
    exact .inr h
  · next hne =>
    split
    · exact .inr (guarding_broken hne)
    · next hc =>
      rw [Text.has_eq_true_iff] at hc
      split
      · next h =>
        simp only [Bool.and_eq_true, Bool.not_eq_true', List.contains_eq_mem, decide_eq_true_eq,
          decide_eq_false_iff_not] at h
        exact .inr (guarding_singleQuoted hc h.2)
      · next h1 =>
        split
        · exact .inr (guarding_doubleQuoted hc)
        · next h2 =>
          simp only [Bool.and_eq_true, Bool.not_eq_true', Bool.or_eq_true, List.contains_eq_mem,
            decide_eq_true_eq, decide_eq_false_iff_not, List.any_eq_true, not_or, not_and,
            not_exists, not_not] at h1 h2
          have hs : '\'' ∉ value := h2.1
          split
          · exact .inr (guarding_singleQuoted hc hs)
          · next h3 =>
            rw [List.contains_eq_mem, decide_eq_true_eq] at h3
            -- what no style was chosen for has nothing in it that would need one
            refine .inl ⟨⟨hne, fun c hm => ⟨?_, ?_, ?_⟩, fun c hm => ?_, hc⟩, rfl⟩
            · rintro rfl; exact hs hm
            · rintro rfl; exact hs (h1 hm)
            · rintro rfl; exact h3 hm
            · simpa using h2.2 c hm

/-! ### Forms of words -/

/-- A text that is read as one word where blanks stand around it, and that does not end a
tag. -/
structure Form (form : Text) (word : Word) : Prop where
  spells : ∃ row, row ≠ [] ∧ .gap ∉ row ∧ Spells form row ∧ ofAtoms row = word
  notCloser : ¬ closer <:+: form
  tight : Text.Tight form

/-- Without a bare equals sign a row is a plain word. -/
theorem ofAtoms_of_not_mem {row : List Atom} (h : .bare '=' ∉ row) :
    ofAtoms row = plain (row.filterMap letter?) := by
  have hall : ∀ a ∈ row, decide (a ≠ .bare '=') = true := by
    intro a ha
    exact decide_eq_true fun e => h (e ▸ ha)
  rw [ofAtoms, List.dropWhile_eq_nil_iff.2 hall, List.takeWhile_eq_self_iff.2 hall]

/-- The first bare equals sign divides a row, if it has letters before it; otherwise it is a letter
itself. -/
theorem ofAtoms_append_equals {before : List Atom} (h : .bare '=' ∉ before) (after : List Atom) :
    ofAtoms (before ++ .bare '=' :: after) =
      if before.filterMap letter? = [] then .plain ('=' :: after.filterMap letter?)
      else keyed (before.filterMap letter?) (after.filterMap letter?) := by
  have hall : ∀ a ∈ before, decide (a ≠ .bare '=') = true := by
    intro a ha
    exact decide_eq_true fun e => h (e ▸ ha)
  rw [ofAtoms, List.dropWhile_append_of_pos hall, List.takeWhile_append_of_pos hall]
  simp only [List.dropWhile_cons, List.takeWhile_cons, ne_eq, not_true_eq_false, decide_false,
    Bool.false_eq_true, if_false, List.append_nil]

theorem ofAtoms_append {before after : List Atom} (h : .bare '=' ∉ before)
    (hne : before.filterMap letter? ≠ []) :
    ofAtoms (before ++ .bare '=' :: after) =
      keyed (before.filterMap letter?) (after.filterMap letter?) :=
  (ofAtoms_append_equals h after).trans (if_neg hne)

theorem ofAtoms_append_of_nameless {before after : List Atom} (h : .bare '=' ∉ before)
    (hnameless : before.filterMap letter? = []) :
    ofAtoms (before ++ .bare '=' :: after) = .plain ('=' :: after.filterMap letter?) :=
  (ofAtoms_append_equals h after).trans (if_pos hnameless)

theorem filterMap_map_bare (t : Text) : (t.map Atom.bare).filterMap letter? = t := by
  rw [List.filterMap_map]
  exact List.filterMap_some

theorem map_ofPlain {t : Text} (h : ∀ c ∈ t, isBlank c = false) :
    t.map ofPlain = t.map .bare :=
  List.map_congr_left fun c hc => by simp [ofPlain, h c hc]

theorem Bare.spells {value : Text} (h : Bare value) : Spells value (value.map .bare) := by
  rw [← map_ofPlain h.notBlank]
  exact spells_map_plain h.plain

/-- The row that a written value spells: no gap in it, and the letters of the value. -/
theorem exists_row_written (value : Text) :
    ∃ row, row ≠ [] ∧ .gap ∉ row ∧ Spells (written value) row ∧ row.filterMap letter? = value := by
  obtain ⟨hb, he⟩ | hg := written_cases value
  · rw [he]
    exact ⟨value.map .bare, by simpa using hb.ne_nil, by simp, hb.spells, filterMap_map_bare value⟩
  · obtain ⟨row, hne, hs, hr⟩ := hg.spells
    exact ⟨row, hne, hr.gap_not_mem, hs, hr.letters⟩

theorem not_closer_written (value : Text) : ¬ closer <:+: written value := by
  obtain ⟨hb, he⟩ | hg := written_cases value
  · rw [he]
    exact hb.notCloser
  · exact hg.notCloser

theorem tight_written (value : Text) : Text.Tight (written value) := by
  obtain ⟨hb, he⟩ | hg := written_cases value
  · rw [he]
    exact Text.tight_of_forall hb.notBlank
  · exact hg.tight

theorem Guarding.form {form value : Text} (h : Guarding form value) :
    Form form (plain value) where
  spells := by
    obtain ⟨row, hne, hs, hr⟩ := h.spells
    refine ⟨row, hne, hr.gap_not_mem, hs, ?_⟩
    rw [ofAtoms_of_not_mem (hr.bare_not_mem '='), hr.letters]
  notCloser := h.notCloser
  tight := h.tight

/-- What guards a value is not the value itself: quotation marks and backslashes are lost when
it is read. -/
theorem Guarding.ne {form value : Text} (h : Guarding form value) : form ≠ value := by
  rintro rfl
  obtain ⟨row, hne, hs, hr⟩ := h.spells
  have hshown : shown row = form.length := by
    rw [shown_eq, hr.letters, List.count_eq_zero_of_not_mem hr.gap_not_mem, Nat.add_zero]
  obtain ⟨-, -, hrow⟩ := (shown_le_of_read hs.read_eq).2 hshown
  obtain ⟨a, ha⟩ := List.exists_mem_of_ne_nil row hne
  obtain ⟨c, -, rfl⟩ := List.mem_map.1 (hrow ▸ ha)
  obtain h | ⟨d, h⟩ := hr.guarded _ ha
  · exact ofPlain_ne_opening c h
  · rw [ofPlain] at h
    split at h <;> cases h

/-- A bare value with double quotes around it is its double-quoted form. -/
theorem Bare.doubleQuoted_eq {value : Text} (h : Bare value) :
    doubleQuoted value = '"' :: value ++ ['"'] := by
  have hmap : value.flatMap escape = value := by
    have : ∀ c ∈ value, escape c = [c] := by
      intro c hc
      obtain ⟨-, hd, hb⟩ := h.plain c hc
      rw [escape, if_neg (not_or.2 ⟨hd, hb⟩)]
    rw [List.flatMap_congr this, List.flatMap_singleton']
  rw [Word.doubleQuoted_eq, hmap]

/-- The written form of a plain word. -/
theorem form_writtenPlain (value : Text) : Form (writtenPlain value) (plain value) := by
  obtain ⟨hb, he⟩ | hg := written_cases value
  · by_cases hc : value.contains '='
    · have hw : writtenPlain value = doubleQuoted value := by
        rw [writtenPlain, hb.doubleQuoted_eq]
        exact if_pos ⟨he, hc⟩
      rw [hw]
      exact (guarding_doubleQuoted hb.notCloser).form
    · have hw : writtenPlain value = value := by
        rw [writtenPlain]
        exact (if_neg fun h => hc h.2).trans he
      rw [hw]
      refine ⟨⟨value.map .bare, by simpa using hb.ne_nil, by simp, hb.spells, ?_⟩, hb.notCloser,
        Text.tight_of_forall hb.notBlank⟩
      have hmem : .bare '=' ∉ value.map Atom.bare := by simpa using hc
      rw [ofAtoms_of_not_mem hmem, filterMap_map_bare]
  · have hw : writtenPlain value = written value := by
      rw [writtenPlain]
      exact if_neg fun h => hg.ne h.1
    rw [hw]
    exact hg.form

/-- The form of a keyed word. -/
theorem form_keyed {key : Text} (hne : key ≠ []) (hplain : ∀ c ∈ key, IsPlain c)
    (hblank : ∀ c ∈ key, isBlank c = false) (heq : '=' ∉ key) (hcloser : ¬ closer <:+: key)
    (value : Text) : Form (key ++ '=' :: written value) (keyed key value) where
  spells := by
    obtain ⟨row, -, hgap, hs, hletters⟩ := exists_row_written value
    have hsign : Spells ['='] [.bare '='] := spells_plain (by simp [IsPlain])
    have hkey : Spells key (key.map .bare) := by
      rw [← map_ofPlain hblank]
      exact spells_map_plain hplain
    refine ⟨_, ?_, ?_, hkey.append (hsign.append hs), ?_⟩
    · simp
    · simpa using hgap
    · have hmem : .bare '=' ∉ key.map Atom.bare := by simpa using heq
      rw [List.singleton_append, ofAtoms_append hmem, filterMap_map_bare, hletters]
      rwa [filterMap_map_bare]
  notCloser := by
    rw [closer, Text.infix_pair_append_iff, List.infix_cons_iff]
    rintro (hi | (hi | hi) | ⟨-, hi⟩)
    · exact hcloser hi
    · simp [List.cons_prefix_cons] at hi
    · exact not_closer_written value hi
    · simp at hi
  tight :=
    (Text.tight_of_forall hblank).append
      ((Text.tight_of_forall (t := ['=']) (Text.forall_mem_of_all (by decide))).append
        (tight_written value))

theorem Form.ne_nil {form : Text} {word : Word} (h : Form form word) : form ≠ [] := by
  rintro rfl
  obtain ⟨row, hne, -, hs, -⟩ := h.spells
  have := hs.read_eq
  rw [Atom.read] at this
  exact hne (Except.ok.inj this).symm

/-! ### Rows of forms -/

theorem exists_form_of_mem {forms : List Text} {words : List Word}
    (h : List.Forall₂ Form forms words) {form : Text} (hm : form ∈ forms) :
    ∃ word, Form form word := by
  induction h with
  | nil => simp at hm
  | cons hf _ ih =>
    rcases List.mem_cons.1 hm with rfl | hm
    · exact ⟨_, hf⟩
    · exact ih hm

/-- The rows of texts with single blanks between them have gaps between them. -/
theorem spells_join {forms : List Text} {rows : List (List Atom)}
    (h : List.Forall₂ Spells forms rows) : Spells (Text.join [' '] forms) (spread rows) := by
  have hblank : Spells [' '] [.gap] := spells_plain (by simp [IsPlain])
  induction h with
  | nil => exact spells_nil
  | @cons form row forms rows hs hrest ih =>
    cases hrest with
    | nil => exact hs
    | @cons form' row' forms rows hs' hrest =>
      rw [Text.join, spread]
      · have := (hs.append hblank).append ih
        rwa [List.append_assoc row] at this
      · simp
      · simp

/-- Forms with blanks between them are read back as their words. -/
theorem readAll_join {forms : List Text} {words : List Word} (h : List.Forall₂ Form forms words) :
    readAll (Text.join [' '] forms) = .ok words := by
  obtain ⟨rows, hs, hrows, rfl⟩ : ∃ rows, List.Forall₂ Spells forms rows ∧
      (∀ row ∈ rows, row ≠ [] ∧ .gap ∉ row) ∧ rows.map ofAtoms = words := by
    induction h with
    | nil => exact ⟨[], .nil, by simp, rfl⟩
    | cons hf hrest ih =>
      obtain ⟨row, hne, hgap, hs, rfl⟩ := hf.spells
      obtain ⟨rows, hss, hall, rfl⟩ := ih
      exact ⟨row :: rows, .cons hs hss, by simpa using ⟨⟨hne, hgap⟩, hall⟩, rfl⟩
  rw [readAll, (spells_join hs).read_eq]
  simp [Except.map, groups_spread hrows]

theorem tight_join {forms : List Text} (h : ∀ form ∈ forms, form ≠ [] ∧ Text.Tight form) :
    Text.Tight (Text.join [' '] forms) := by
  induction forms with
  | nil => exact Text.tight_nil
  | cons form forms ih =>
    obtain ⟨hne, ht⟩ := h form (by simp)
    have htail := ih fun f hf => h f (by simp [hf])
    cases forms with
    | nil => exact ht
    | cons form' forms =>
      rw [Text.join]
      · exact ht.around htail hne (Text.join_ne_nil (h form' (by simp)).1 forms) [' ']
      · simp

theorem not_closer_join {forms : List Text} (h : ∀ form ∈ forms, ¬ closer <:+: form) :
    ¬ closer <:+: Text.join [' '] forms := by
  induction forms with
  | nil => decide
  | cons form forms ih =>
    have htail := ih fun f hf => h f (by simp [hf])
    cases forms with
    | nil => exact h form (by simp)
    | cons form' forms =>
      rw [Text.join]
      · rw [closer, Text.infix_pair_append_iff, Text.infix_pair_append_iff]
        rintro ((hi | hi | ⟨-, hi⟩) | hi | ⟨hi, -⟩)
        · exact h form (by simp) hi
        · simpa using hi.length_le
        · simp at hi
        · exact htail hi
        · simp at hi
      · simp

end Shortcodes.Word
