import Mathlib.Data.List.Basic
import Shortcodes.Proofs.Outcome
import Shortcodes.Proofs.Word.Reading

/-!
# Where reading words fails

An argument text has one of three shapes (`shape`). It spells atoms; or a lone backslash stands
behind a text that does; or a quotation mark stands there that nothing behind it closes. The shape
decides what reading gives, so that the two faults of a text, and the place that the second one
reports, are found in the text itself (`readAll_fails_iff`). A text that can be read spells what it
is read to, whatever follows it (`spells_of_read`).
-/

namespace Shortcodes

namespace Atom

/-! ### Marks that nothing closes -/

/-- The text without the pairs, from the left, of a backslash and what it guards between double
quotes. -/
def withoutPairs : Text → Text
  | '\\' :: '"' :: rest => withoutPairs rest
  | '\\' :: '\\' :: rest => withoutPairs rest
  | c :: rest => c :: withoutPairs rest
  | [] => []

/-- The text behind an opening mark does not close it. -/
inductive Unclosed : (mark : Char) → Text → Prop
  | single {rest : Text} (absent : '\'' ∉ rest) : Unclosed '\'' rest
  | double {rest : Text} (absent : '"' ∉ withoutPairs rest) : Unclosed '"' rest

/-- Only a double quote or a backslash can make a pair with a backslash in front of it. -/
theorem withoutPairs_append {c : Char} (hquote : c ≠ '"') (hslash : c ≠ '\\') (front rest : Text) :
    withoutPairs (front ++ c :: rest) = withoutPairs front ++ withoutPairs (c :: rest) := by
  induction front using withoutPairs.induct with
  | case1 front ih =>
    rw [List.cons_append, List.cons_append, withoutPairs, withoutPairs, ih]
  | case2 front ih =>
    rw [List.cons_append, List.cons_append, withoutPairs, withoutPairs, ih]
  | case3 d front hnquote hnslash ih =>
    -- what follows `d` begins with the next character of the front, or else with `c`
    have hpair : ∀ e, e ≠ c → (∀ r, d = '\\' → front ≠ e :: r) →
        ∀ r, d = '\\' → front ++ c :: rest ≠ e :: r := by
      intro e hne hfront r hd hr
      cases front with
      | nil => exact hne (List.cons.inj hr).1.symm
      | cons e' front => exact hfront front hd (by rw [(List.cons.inj hr).1])
    have hd : withoutPairs (d :: front) = d :: withoutPairs front := by
      rw [withoutPairs]
      · exact hnquote
      · exact hnslash
    rw [List.cons_append, withoutPairs, ih, hd, List.cons_append]
    · exact hpair '"' hquote.symm hnquote
    · exact hpair '\\' hslash.symm hnslash
  | case4 => rfl

theorem mem_of_mem_withoutPairs {c : Char} {t : Text} (h : c ∈ withoutPairs t) : c ∈ t := by
  induction t using withoutPairs.induct with
  | case1 rest ih =>
    rw [withoutPairs] at h
    exact List.mem_cons_of_mem _ (List.mem_cons_of_mem _ (ih h))
  | case2 rest ih =>
    rw [withoutPairs] at h
    exact List.mem_cons_of_mem _ (List.mem_cons_of_mem _ (ih h))
  | case3 d rest hquote hslash ih =>
    rw [withoutPairs, List.mem_cons] at h
    · exact List.mem_cons.2 (h.imp_right ih)
    · exact hquote
    · exact hslash
  | case4 => cases h

/-- Blanks do not close what is open. -/
theorem Unclosed.append_blanks {mark : Char} {rest blanks : Text} (h : Unclosed mark rest)
    (hblanks : ∀ c ∈ blanks, isBlank c = true) : Unclosed mark (rest ++ blanks) := by
  cases h with
  | single absent =>
    refine .single fun hm => ?_
    rcases List.mem_append.1 hm with hm | hm
    · exact absent hm
    · exact (isPlain_of_isBlank (hblanks _ hm)).1 rfl
  | double absent =>
    refine .double fun hm => ?_
    cases blanks with
    | nil => exact absent (by rwa [List.append_nil] at hm)
    | cons c blanks =>
      obtain ⟨-, hquote, hslash⟩ := isPlain_of_isBlank (hblanks c List.mem_cons_self)
      rw [withoutPairs_append hquote hslash] at hm
      rcases List.mem_append.1 hm with hm | hm
      · exact absent hm
      · exact (isPlain_of_isBlank (hblanks _ (mem_of_mem_withoutPairs hm))).2.1 rfl

theorem read_single_unclosed {rest : Text} (h : '\'' ∉ rest) (start offset : Nat) :
    read (.single start) offset rest = .error (.unclosedQuote '\'' start) := by
  induction rest generalizing offset with
  | nil => rw [read]
  | cons c rest ih =>
    rw [List.mem_cons, not_or] at h
    rw [read_single_cons (Ne.symm h.1), ih h.2]
    rfl

theorem read_double_unclosed {rest : Text} (h : '"' ∉ withoutPairs rest) (start offset : Nat) :
    read (.double start) offset rest = .error (.unclosedQuote '"' start) := by
  induction rest using withoutPairs.induct generalizing offset with
  | case1 rest ih =>
    rw [withoutPairs] at h
    rw [read, ih h]
    rfl
  | case2 rest ih =>
    rw [withoutPairs] at h
    rw [read, ih h]
    rfl
  | case3 c rest hquote hslash ih =>
    rw [withoutPairs, List.mem_cons, not_or] at h
    · rw [read_double_unpaired hquote hslash (Ne.symm h.1), ih h.2]
      rfl
    · exact hquote
    · exact hslash
  | case4 => rw [read]

theorem read_unclosed {mark : Char} {rest : Text} (h : Unclosed mark rest) (offset : Nat) :
    read .outside offset (mark :: rest) = .error (.unclosedQuote mark offset) := by
  cases h with
  | single absent =>
    rw [read, read_single_unclosed absent]
    rfl
  | double absent =>
    rw [read, read_double_unclosed absent]
    rfl

/-- The text closes double quotes: between them it is read to the row, whatever follows the closing
mark. -/
def Closes (inside : Text) (row : List Atom) : Prop :=
  ∀ start offset more, read (.double start) offset (inside ++ '"' :: more) =
    (read .outside (offset + Text.byteLength inside + 1) more).map (row ++ ·)

theorem Closes.cons_pair {inside : Text} {row : List Atom} (h : Closes inside row) {d : Char}
    (hd : d = '"' ∨ d = '\\') : Closes ('\\' :: d :: inside) (.guarded d :: row) := by
  intro start offset more
  have hpair : ∀ t, read (.double start) offset ('\\' :: d :: t) =
      before (.guarded d) (read (.double start) (offset + 2) t) := by
    intro t
    rcases hd with rfl | rfl
    · rw [read]
    · rw [read]
  have hsize : d.utf8Size = 1 := by
    rcases hd with rfl | rfl <;> rfl
  have hlength : offset + Text.byteLength ('\\' :: d :: inside) + 1 =
      offset + 2 + Text.byteLength inside + 1 := by
    simp only [Text.byteLength_cons, show ('\\' : Char).utf8Size = 1 from rfl, hsize]
    omega
  rw [List.cons_append, List.cons_append, hpair, h, before_eq_map, map_append_append, hlength]
  rfl

theorem Closes.cons {inside : Text} {row : List Atom} (h : Closes inside row) {c : Char}
    (hquote : ∀ more r, c = '\\' → inside ++ '"' :: more ≠ '"' :: r)
    (hslash : ∀ more r, c = '\\' → inside ++ '"' :: more ≠ '\\' :: r) (hc : c ≠ '"') :
    Closes (c :: inside) (.guarded c :: row) := by
  intro start offset more
  rw [List.cons_append, read_double_unpaired (hquote more) (hslash more) hc, h, before_eq_map,
    map_append_append, Text.byteLength_cons, ← Nat.add_assoc]
  rfl

/-- A double quote that is not part of a pair closes. -/
theorem exists_closes {rest : Text} (h : '"' ∈ withoutPairs rest) :
    ∃ inside behind row, rest = inside ++ '"' :: behind ∧ Closes inside row := by
  induction rest using withoutPairs.induct with
  | case1 rest ih =>
    rw [withoutPairs] at h
    obtain ⟨inside, behind, row, rfl, hcloses⟩ := ih h
    exact ⟨_, behind, _, rfl, hcloses.cons_pair (.inl rfl)⟩
  | case2 rest ih =>
    rw [withoutPairs] at h
    obtain ⟨inside, behind, row, rfl, hcloses⟩ := ih h
    exact ⟨_, behind, _, rfl, hcloses.cons_pair (.inr rfl)⟩
  | case3 c rest hquote hslash ih =>
    by_cases hc : c = '"'
    · refine ⟨[], rest, [], by rw [hc]; rfl, fun start offset more => ?_⟩
      rw [List.nil_append, read, map_nil_append]
      rfl
    · rw [withoutPairs, List.mem_cons] at h
      · obtain ⟨inside, behind, row, rfl, hcloses⟩ := ih (h.resolve_left (Ne.symm hc))
        -- no pair begins at `c`, whatever follows the closing mark
        have hunpaired : ∀ d, (∀ r, c = '\\' → inside ++ '"' :: behind ≠ d :: r) →
            ∀ more r, c = '\\' → inside ++ '"' :: more ≠ d :: r := by
          intro d hd more r hb hr
          cases inside with
          | nil => exact hd behind hb (by rw [List.nil_append, (List.cons.inj hr).1])
          | cons e inside => exact hd _ hb (by rw [List.cons_append, (List.cons.inj hr).1])
        exact ⟨_, behind, _, rfl, hcloses.cons (hunpaired _ hquote) (hunpaired _ hslash) hc⟩
      · exact hquote
      · exact hslash
  | case4 => cases h

theorem Closes.spells {inside : Text} {row : List Atom} (h : Closes inside row) :
    Spells ('"' :: inside ++ ['"']) (.opening :: row) := by
  intro offset more
  have hlength : offset + Text.byteLength ('"' :: inside ++ ['"']) =
      offset + 1 + Text.byteLength inside + 1 := by
    simp only [Text.byteLength_append, Text.byteLength_cons, Text.byteLength_nil,
      show ('"' : Char).utf8Size = 1 from rfl]
    omega
  rw [hlength, List.append_assoc, List.cons_append, List.singleton_append, read, h, before_eq_map,
    map_append_append]
  rfl

/-! ### The shapes of argument texts -/

/-- A text spells atoms, or fails behind a part that does: at a lone backslash or at a quotation
mark that is not closed. -/
inductive Shape : Text → Prop
  | spelled {t : Text} {row : List Atom} (spells : Spells t row) : Shape t
  | backslash {p : Text} {row : List Atom} (spells : Spells p row) : Shape (p ++ ['\\'])
  | quotation {p : Text} {row : List Atom} {mark : Char} {rest : Text} (spells : Spells p row)
      (unclosed : Unclosed mark rest) : Shape (p ++ mark :: rest)

theorem Shape.append {s t : Text} {row : List Atom} (hs : Spells s row) (ht : Shape t) :
    Shape (s ++ t) := by
  cases ht with
  | spelled spells => exact .spelled (hs.append spells)
  | backslash spells =>
    rw [← List.append_assoc]
    exact .backslash (hs.append spells)
  | quotation spells unclosed =>
    rw [← List.append_assoc]
    exact .quotation (hs.append spells) unclosed

/-- Every text has a shape: the units at its front spell atoms until one fails. -/
theorem shape (t : Text) : Shape t := by
  induction hn : t.length using Nat.strong_induction_on generalizing t with
  | _ n ih =>
    subst hn
    cases t with
    | nil => exact .spelled spells_nil
    | cons c rest =>
      -- what stands behind the unit in front is shorter
      have hbehind : ∀ front behind, rest = front ++ behind → Shape behind := by
        rintro front behind rfl
        refine ih behind.length ?_ behind rfl
        rw [List.length_cons, List.length_append]
        omega
      by_cases hslash : c = '\\'
      · subst hslash
        cases rest with
        | nil => exact .backslash spells_nil
        | cons d rest => exact .append (spells_escaped d) (hbehind [d] rest rfl)
      by_cases hsingle : c = '\''
      · subst hsingle
        by_cases hmem : '\'' ∈ rest
        · obtain ⟨inside, behind, rfl, habsent⟩ := List.eq_append_cons_of_mem hmem
          have hshape := Shape.append (spells_single habsent)
            (hbehind (inside ++ ['\'']) behind (by simp))
          rwa [List.append_assoc, List.singleton_append] at hshape
        · exact .quotation spells_nil (.single hmem)
      by_cases hdouble : c = '"'
      · subst hdouble
        by_cases hmem : '"' ∈ withoutPairs rest
        · obtain ⟨inside, behind, row, rfl, hcloses⟩ := exists_closes hmem
          have hshape := Shape.append hcloses.spells (hbehind (inside ++ ['"']) behind (by simp))
          rwa [List.append_assoc, List.singleton_append] at hshape
        · exact .quotation spells_nil (.double hmem)
      · exact .append (spells_plain ⟨hsingle, hdouble, hslash⟩) (hbehind [] rest rfl)

/-! ### What the shapes are read to -/

theorem Spells.read_backslash {p : Text} {row : List Atom} (h : Spells p row) (offset : Nat) :
    read .outside offset (p ++ ['\\']) = .error .trailingBackslash := by
  rw [h, read]
  rfl

theorem Spells.read_quotation {p : Text} {row : List Atom} {mark : Char} {rest : Text}
    (h : Spells p row) (hr : Unclosed mark rest) (offset : Nat) :
    read .outside offset (p ++ mark :: rest) =
      .error (.unclosedQuote mark (offset + Text.byteLength p)) := by
  rw [h, read_unclosed hr]
  rfl

/-- A text that can be read spells what it is read to. -/
theorem spells_of_read {t : Text} {row : List Atom} (h : read .outside 0 t = .ok row) :
    Spells t row := by
  cases shape t with
  | spelled spells =>
    rw [spells.read_eq] at h
    rwa [← Except.ok.inj h]
  | backslash spells =>
    rw [spells.read_backslash] at h
    cases h
  | quotation spells unclosed =>
    rw [spells.read_quotation unclosed] at h
    cases h

end Atom

namespace Word

theorem readAll_of_spells {t : Text} {row : List Atom} (h : Atom.Spells t row) :
    readAll t = .ok ((groups row).map ofAtoms) := by
  rw [readAll, h.read_eq]
  rfl

/-- The words of a text come from the atoms that it spells. -/
theorem exists_spells_of_readAll {t : Text} {words : List Word} (h : readAll t = .ok words) :
    ∃ row, Atom.Spells t row ∧ (groups row).map ofAtoms = words := by
  obtain ⟨row, hrow, hwords⟩ := Except.map_eq_ok_iff.1 h
  exact ⟨row, Atom.spells_of_read hrow, hwords⟩

theorem readAll_backslash {p : Text} {words : List Word} (h : readAll p = .ok words) :
    readAll (p ++ ['\\']) = .error .trailingBackslash := by
  obtain ⟨row, hrow, -⟩ := exists_spells_of_readAll h
  rw [readAll, hrow.read_backslash]
  rfl

theorem readAll_quotation {p rest : Text} {words : List Word} {mark : Char}
    (h : readAll p = .ok words) (hr : Atom.Unclosed mark rest) :
    readAll (p ++ mark :: rest) = .error (.unclosedQuote mark (Text.byteLength p)) := by
  obtain ⟨row, hrow, -⟩ := exists_spells_of_readAll h
  rw [readAll, hrow.read_quotation hr, Nat.zero_add]
  rfl

theorem readAll_cases (t : Text) :
    (∃ words, readAll t = .ok words) ∨
      (∃ p words, t = p ++ ['\\'] ∧ readAll p = .ok words) ∨
      ∃ mark p rest words, t = p ++ mark :: rest ∧ readAll p = .ok words ∧
        Atom.Unclosed mark rest := by
  cases Atom.shape t with
  | spelled spells => exact .inl ⟨_, readAll_of_spells spells⟩
  | backslash spells => exact .inr (.inl ⟨_, _, rfl, readAll_of_spells spells⟩)
  | quotation spells unclosed =>
    exact .inr (.inr ⟨_, _, _, _, rfl, readAll_of_spells spells, unclosed⟩)

/-- Reading words fails in two ways. A lone backslash is reported exactly if the text ends with a
backslash and what stands before it can be read. A quotation mark is reported at an offset exactly
if it stands behind so many bytes of text that can be read, and nothing behind it closes it. Every
other text can be read. -/
theorem readAll_fails_iff (t : Text) :
    (readAll t = .error .trailingBackslash ↔
        ∃ p words, t = p ++ ['\\'] ∧ readAll p = .ok words) ∧
      (∀ mark offset, readAll t = .error (.unclosedQuote mark offset) ↔
        ∃ p rest words, t = p ++ mark :: rest ∧ Text.byteLength p = offset ∧
          readAll p = .ok words ∧ Atom.Unclosed mark rest) ∧
      ((∃ words, readAll t = .ok words) ↔
        (¬ ∃ p words, t = p ++ ['\\'] ∧ readAll p = .ok words) ∧
          ¬ ∃ mark p rest words, t = p ++ mark :: rest ∧ readAll p = .ok words ∧
            Atom.Unclosed mark rest) := by
  refine ⟨⟨fun h => ?_, ?_⟩, fun mark offset => ⟨fun h => ?_, ?_⟩, ⟨?_, fun h => ?_⟩⟩
  · -- of the three cases only the second reports a backslash
    rcases readAll_cases t with ⟨words, hok⟩ | hslash | ⟨mark, p, rest, words, rfl, hp, hr⟩
    · rw [hok] at h
      cases h
    · exact hslash
    · rw [readAll_quotation hp hr] at h
      cases h
  · rintro ⟨p, words, rfl, hp⟩
    exact readAll_backslash hp
  · -- and only the third reports a quotation mark
    rcases readAll_cases t with
      ⟨words, hok⟩ | ⟨p, words, rfl, hp⟩ | ⟨_, p, rest, words, rfl, hp, hr⟩
    · rw [hok] at h
      cases h
    · rw [readAll_backslash hp] at h
      cases h
    · rw [readAll_quotation hp hr] at h
      cases h
      exact ⟨p, rest, words, rfl, rfl, hp, hr⟩
  · rintro ⟨p, rest, words, rfl, rfl, hp, hr⟩
    exact readAll_quotation hp hr
  · rintro ⟨words, hok⟩
    constructor
    · rintro ⟨p, _, rfl, hp⟩
      rw [readAll_backslash hp] at hok
      cases hok
    · rintro ⟨mark, p, rest, _, rfl, hp, hr⟩
      rw [readAll_quotation hp hr] at hok
      cases hok
  · exact (readAll_cases t).resolve_right (not_or.2 h)

/-- An apostrophe behind a backslash or between double quotes is a letter. The mark that opens here
and is not closed stands behind four bytes. -/
example : readAll "é\\'\"\\\"'".toList = .error (.unclosedQuote '"' 4) := by decide

end Word

end Shortcodes
