import Shortcodes.Proofs.Text
import Shortcodes.Word.Reading

/-!
# How texts spell words

Reading the atoms of an argument text is compositional: a text *spells* atoms (`Atom.Spells`)
when the reader, standing outside quotation marks, gives these atoms for it whatever follows.
The units of the syntax spell what they should (`spells_plain`, `spells_escaped`,
`spells_single`), and spelling respects concatenation (`Spells.append`), so that the atoms of a
long text are found part by part. The second part is about rows of atoms: the words between
gaps (`Word.groups_append_gap`) and the word that one row spells.
-/

namespace Shortcodes

namespace Atom

/-! ### One step of the reader -/

/-- A character that has no meaning of its own outside quotation marks. -/
def IsPlain (c : Char) : Prop := c ≠ '\'' ∧ c ≠ '"' ∧ c ≠ '\\'

/-- What a character without quotation mark or backslash contributes. -/
def ofPlain (c : Char) : Atom := if isBlank c then .gap else .bare c

theorem isPlain_of_isBlank {c : Char} (h : isBlank c = true) : IsPlain c := by
  refine ⟨?_, ?_, ?_⟩
  · rintro rfl
    cases h
  · rintro rfl
    cases h
  · rintro rfl
    cases h

theorem read_outside_plain {c : Char} (h : IsPlain c) (offset : Nat) (rest : Text) :
    read .outside offset (c :: rest) =
      before (ofPlain c) (read .outside (offset + c.utf8Size) rest) := by
  obtain ⟨hs, hd, hb⟩ := h
  rw [read, ofPlain]
  · rintro rfl; exact absurd rfl hb
  · rintro _ _ rfl; exact absurd rfl hb
  · rintro rfl; exact absurd rfl hs
  · rintro rfl; exact absurd rfl hd

/-- What is read outside quotation marks by no rule of its own is plain. -/
theorem isPlain_of_no_rule {c : Char} {rest : Text} (hlone : c = '\\' → rest = [] → False)
    (hguards : ∀ d r, c = '\\' → rest = d :: r → False) (hs : c ≠ '\'') (hd : c ≠ '"') :
    IsPlain c := by
  refine ⟨hs, hd, fun hslash => ?_⟩
  cases rest with
  | nil => exact hlone hslash rfl
  | cons d r => exact hguards d r hslash rfl

/-- Between double quotes a backslash guards a double quote or a backslash only. -/
theorem read_double_cons {c : Char} {rest : Text} (hq : c ≠ '"')
    (hb : c = '\\' → ∀ d ∈ rest.head?, d ≠ '"' ∧ d ≠ '\\') (start offset : Nat) :
    read (.double start) offset (c :: rest) =
      before (.guarded c) (read (.double start) (offset + c.utf8Size) rest) := by
  rw [read]
  · rintro r rfl rfl
    exact (hb rfl '"' rfl).1 rfl
  · rintro r rfl rfl
    exact (hb rfl '\\' rfl).2 rfl
  · exact hq

/-- A character that neither is a double quote nor begins a pair. -/
theorem read_double_unpaired {c : Char} {rest : Text} (hquote : ∀ r, c = '\\' → rest ≠ '"' :: r)
    (hslash : ∀ r, c = '\\' → rest ≠ '\\' :: r) (hc : c ≠ '"') (start offset : Nat) :
    read (.double start) offset (c :: rest) =
      before (.guarded c) (read (.double start) (offset + c.utf8Size) rest) := by
  refine read_double_cons hc (fun hb d hd => ?_) start offset
  obtain ⟨r, rfl⟩ := List.head?_eq_some_iff.1 hd
  exact ⟨fun h => hquote r hb (by rw [h]), fun h => hslash r hb (by rw [h])⟩

/-! ### Spelling -/

/-- A text spells atoms when the reader, standing outside quotation marks, gives these atoms for
it and goes on with what follows. -/
def Spells (form : Text) (atoms : List Atom) : Prop :=
  ∀ offset rest, read .outside offset (form ++ rest) =
    (read .outside (offset + Text.byteLength form) rest).map (atoms ++ ·)

theorem before_eq_map (a : Atom) (r : Except WordFault (List Atom)) :
    before a r = r.map ([a] ++ ·) := rfl

theorem map_append_append (a b : List Atom) (r : Except WordFault (List Atom)) :
    (r.map (b ++ ·)).map (a ++ ·) = r.map (a ++ b ++ ·) := by
  cases r with
  | error e => rfl
  | ok l => simp [Except.map]

theorem map_nil_append (r : Except WordFault (List Atom)) : r.map ([] ++ ·) = r := by
  cases r <;> rfl

/-- What a text spells is what reading it gives, at any offset. -/
theorem Spells.read_outside {t : Text} {row : List Atom} (h : Spells t row) (offset : Nat) :
    Atom.read .outside offset t = .ok row := by
  have := h offset []
  rw [List.append_nil, Atom.read] at this
  simpa [Except.map] using this

theorem Spells.read_eq {t : Text} {row : List Atom} (h : Spells t row) :
    Atom.read .outside 0 t = .ok row :=
  h.read_outside 0

theorem spells_nil : Spells [] [] := by
  intro offset rest
  rw [map_nil_append]
  rfl

theorem Spells.append {s t : Text} {a b : List Atom} (hs : Spells s a) (ht : Spells t b) :
    Spells (s ++ t) (a ++ b) := by
  intro offset rest
  rw [List.append_assoc, hs, ht, map_append_append, Text.byteLength_append, Nat.add_assoc]

theorem spells_plain {c : Char} (h : IsPlain c) : Spells [c] [ofPlain c] := by
  intro offset rest
  rw [List.singleton_append, read_outside_plain h, before_eq_map]
  simp

theorem spells_escaped (c : Char) : Spells ['\\', c] [.guarded c] := by
  intro offset rest
  rw [List.cons_append, List.cons_append, List.nil_append, read, before_eq_map]
  simp [Nat.add_assoc, show ('\\' : Char).utf8Size = 1 from rfl]

theorem spells_blank {c : Char} (h : isBlank c = true) : Spells [c] [.gap] := by
  have hgap : ofPlain c = .gap := if_pos h
  rw [← hgap]
  exact spells_plain (isPlain_of_isBlank h)

/-- Plain characters spell one atom each. -/
theorem spells_map_plain {t : Text} (h : ∀ c ∈ t, IsPlain c) : Spells t (t.map ofPlain) := by
  induction t with
  | nil => exact spells_nil
  | cons c t ih =>
    exact (spells_plain (h c (by simp))).append (ih fun d hd => h d (by simp [hd]))

/-- Blanks spell one gap each. -/
theorem spells_blanks {blanks : Text} (h : ∀ c ∈ blanks, isBlank c = true) :
    Spells blanks (List.replicate blanks.length .gap) := by
  have hplain : ∀ c ∈ blanks, IsPlain c := fun c hc => isPlain_of_isBlank (h c hc)
  have hgaps : blanks.map ofPlain = List.replicate blanks.length .gap := by
    rw [List.eq_replicate_iff, List.length_map]
    refine ⟨rfl, fun a ha => ?_⟩
    obtain ⟨c, hc, rfl⟩ := List.mem_map.1 ha
    exact if_pos (h c hc)
  rw [← hgaps]
  exact spells_map_plain hplain

/-- Between single quotes every character is guarded. -/
theorem read_single_append {t : Text} (h : '\'' ∉ t) (start offset : Nat) (rest : Text) :
    read (.single start) offset (t ++ '\'' :: rest) =
      (read .outside (offset + Text.byteLength t + 1) rest).map (t.map .guarded ++ ·) := by
  induction t generalizing offset with
  | nil => rw [List.nil_append, read, List.map_nil, map_nil_append]; rfl
  | cons c t ih =>
    have hc : c ≠ '\'' := fun hc => h (by simp [hc])
    have ht : '\'' ∉ t := fun hm => h (by simp [hm])
    rw [List.cons_append, read_single_cons hc, ih ht, before_eq_map, map_append_append,
      Text.byteLength_cons, ← Nat.add_assoc]
    rfl

theorem spells_single {t : Text} (h : '\'' ∉ t) :
    Spells ('\'' :: t ++ ['\'']) (.opening :: t.map .guarded) := by
  intro offset rest
  have hlen : offset + Text.byteLength ('\'' :: t ++ ['\'']) =
      offset + 1 + Text.byteLength t + 1 := by
    simp [show ('\'' : Char).utf8Size = 1 from rfl]
    omega
  rw [hlen, List.append_assoc, List.cons_append, List.singleton_append, read,
    read_single_append h, before_eq_map, map_append_append]
  rfl

/-! ### What reading can add up to -/

theorem before_eq_ok_iff {a : Atom} {r : Except WordFault (List Atom)} {atoms : List Atom} :
    before a r = .ok atoms ↔ ∃ l, r = .ok l ∧ atoms = a :: l := by
  cases r <;> simp [before, Except.map, eq_comm]

/-- How many characters of the text the atoms show: all but the opening marks. -/
def shown (atoms : List Atom) : Nat := atoms.countP (· ≠ .opening)

@[simp] theorem shown_nil : shown [] = 0 := rfl

@[simp] theorem shown_opening_cons (l : List Atom) : shown (.opening :: l) = shown l := by
  simp [shown]

theorem shown_cons {a : Atom} (h : a ≠ .opening) (l : List Atom) :
    shown (a :: l) = shown l + 1 := by
  simp [shown, h]

/-- What is shown are letters and gaps. -/
theorem shown_eq (l : List Atom) : shown l = (l.filterMap letter?).length + l.count .gap := by
  induction l with
  | nil => rfl
  | cons a l ih =>
    cases a with
    | gap =>
      rw [shown_cons (by simp), ih, List.filterMap_cons_none rfl, List.count_cons_self]
      omega
    | opening =>
      rw [shown_opening_cons, ih, List.filterMap_cons_none rfl, List.count_cons_of_ne (by simp)]
    | bare c | guarded c =>
      rw [List.filterMap_cons]
      rw [shown_cons (by simp), ih, List.count_cons_of_ne (by simp)]
      simp only [letter?, List.length_cons]
      omega

theorem ofPlain_ne_opening (c : Char) : ofPlain c ≠ .opening := by
  rw [ofPlain]
  split <;> simp

/-- Reading shows no more than the text has: every quotation mark and every backslash that is
read as one is lost. So a text that is shown whole has none of them. -/
theorem shown_le_of_read {q : Quotation} {offset : Nat} {t : Text} {atoms : List Atom}
    (h : read q offset t = .ok atoms) :
    shown atoms ≤ t.length ∧ (shown atoms = t.length →
      q = .outside ∧ (∀ c ∈ t, IsPlain c) ∧ atoms = t.map ofPlain) := by
  induction q, offset, t using read.induct generalizing atoms with
  | case1 offset => simp_all [read]
  | case2 => simp [read] at h
  | case3 => simp [read] at h
  | case4 => simp [read] at h
  | case5 offset c rest ih =>
    -- a backslash outside quotation marks
    rw [read, before_eq_ok_iff] at h
    obtain ⟨l, hl, rfl⟩ := h
    have := (ih hl).1
    rw [shown_cons (by simp), List.length_cons, List.length_cons]
    omega
  | case6 offset rest ih | case7 offset rest ih =>
    -- an opening mark
    rw [read, before_eq_ok_iff] at h
    obtain ⟨l, hl, rfl⟩ := h
    have := (ih hl).1
    rw [shown_opening_cons, List.length_cons]
    omega
  | case8 offset c rest h1 h2 h3 h4 ih =>
    have hc : IsPlain c := isPlain_of_no_rule h1 h2 h3 h4
    rw [read_outside_plain hc, before_eq_ok_iff] at h
    obtain ⟨l, hl, rfl⟩ := h
    obtain ⟨hle, heq⟩ := ih hl
    rw [shown_cons (ofPlain_ne_opening c), List.length_cons]
    refine ⟨by omega, fun h => ?_⟩
    obtain ⟨-, hp, rfl⟩ := heq (by omega)
    exact ⟨rfl, List.forall_mem_cons.2 ⟨hc, hp⟩, rfl⟩
  | case9 start offset rest ih | case13 start offset rest ih =>
    -- a closing mark
    rw [read] at h
    have := (ih h).1
    rw [List.length_cons]
    omega
  | case10 start offset c rest h1 ih =>
    rw [read_single_cons h1, before_eq_ok_iff] at h
    obtain ⟨l, hl, rfl⟩ := h
    obtain ⟨hle, heq⟩ := ih hl
    have hne : shown l ≠ rest.length := fun h => by simpa using (heq h).1
    rw [shown_cons (by simp), List.length_cons]
    omega
  | case11 start offset rest ih | case12 start offset rest ih =>
    -- a backslash that guards, between double quotes
    rw [read, before_eq_ok_iff] at h
    obtain ⟨l, hl, rfl⟩ := h
    have := (ih hl).1
    rw [shown_cons (by simp), List.length_cons, List.length_cons]
    omega
  | case14 start offset c rest h1 h2 h3 ih =>
    rw [read_double_unpaired h1 h2 h3, before_eq_ok_iff] at h
    obtain ⟨l, hl, rfl⟩ := h
    obtain ⟨hle, heq⟩ := ih hl
    have hne : shown l ≠ rest.length := fun h => by simpa using (heq h).1
    rw [shown_cons (by simp), List.length_cons]
    omega

end Atom

namespace Word

/-! ### Rows of atoms -/

theorem groups_gap_cons (l : List Atom) : groups (.gap :: l) = groups l := by
  rw [groups]

theorem groups_singleton {a : Atom} (h : a ≠ .gap) : groups [a] = [[a]] := by
  rw [groups]
  exact h

theorem groups_cons_gap {a : Atom} (h : a ≠ .gap) (l : List Atom) :
    groups (a :: .gap :: l) = [a] :: groups l := by
  rw [groups, groups_gap_cons]
  exact h

/-- What does not begin with a gap has a first row, and an atom before it joins that row. -/
theorem groups_cons_cons {a b : Atom} (ha : a ≠ .gap) (hb : b ≠ .gap) (l : List Atom) :
    ∃ first others, groups (b :: l) = first :: others ∧
      groups (a :: b :: l) = (a :: first) :: others := by
  obtain ⟨first, others, hg⟩ : ∃ first others, groups (b :: l) = first :: others := by
    unfold groups
    split
    · simp_all
    · simp_all
    · split
      · exact ⟨_, _, rfl⟩
      · exact ⟨_, _, rfl⟩
      · split <;> exact ⟨_, _, rfl⟩
  refine ⟨first, others, hg, ?_⟩
  cases a <;> cases b <;> simp_all [groups]

/-- A gap ends a word whatever stands on its sides. -/
theorem groups_append_gap (l m : List Atom) :
    groups (l ++ .gap :: m) = groups l ++ groups m := by
  induction l with
  | nil => rw [List.nil_append, groups_gap_cons]; rfl
  | cons a l ih =>
    by_cases ha : a = .gap
    · rw [ha, List.cons_append, groups_gap_cons, groups_gap_cons, ih]
    · cases l with
      | nil => rw [List.singleton_append, groups_cons_gap ha, groups_singleton ha]; rfl
      | cons b l =>
        by_cases hb : b = .gap
        · subst hb
          rw [List.cons_append, groups_gap_cons, groups_gap_cons] at ih
          rw [List.cons_append, List.cons_append, groups_cons_gap ha, groups_cons_gap ha, ih]
          rfl
        · obtain ⟨f, o, h1, h2⟩ := groups_cons_cons ha hb l
          obtain ⟨f', o', h3, h4⟩ := groups_cons_cons ha hb (l ++ .gap :: m)
          rw [List.cons_append] at ih
          rw [List.cons_append, List.cons_append, h2, h4]
          rw [h1, h3, List.cons_append, List.cons.injEq] at ih
          rw [ih.1, ih.2, List.cons_append]

theorem groups_gaps_append (n : Nat) (l : List Atom) :
    groups (List.replicate n .gap ++ l) = groups l := by
  induction n with
  | zero => rfl
  | succ n ih => rw [List.replicate_succ, List.cons_append, groups_gap_cons, ih]

/-- Some gaps end a row, whatever follows them, and no gaps do at the end. -/
theorem groups_append_gaps {n : Nat} {m : List Atom} (h : n = 0 → m = []) (l : List Atom) :
    groups (l ++ (List.replicate n .gap ++ m)) = groups l ++ groups m := by
  cases n with
  | zero =>
    rw [h rfl, List.replicate_zero, List.append_nil, List.append_nil]
    exact (List.append_nil _).symm
  | succ n =>
    rw [List.replicate_succ, List.cons_append, groups_append_gap, groups_gaps_append]

/-- A row without gaps is one group. -/
theorem groups_row {l : List Atom} (hne : l ≠ []) (h : .gap ∉ l) : groups l = [l] := by
  induction l with
  | nil => exact absurd rfl hne
  | cons a l ih =>
    have ha : a ≠ .gap := fun e => h (by simp [e])
    cases l with
    | nil => exact groups_singleton ha
    | cons b l =>
      have hb : b ≠ .gap := fun e => h (by simp [e])
      obtain ⟨f, o, h1, h2⟩ := groups_cons_cons ha hb l
      rw [ih (by simp) fun hm => h (by simp [hm])] at h1
      obtain ⟨rfl, rfl⟩ : b :: l = f ∧ [] = o := by simpa using h1
      exact h2

/-- Rows with gaps between them. -/
def spread : List (List Atom) → List Atom
  | [] => []
  | [row] => row
  | row :: rows => row ++ .gap :: spread rows

theorem groups_spread {rows : List (List Atom)} (h : ∀ row ∈ rows, row ≠ [] ∧ .gap ∉ row) :
    groups (spread rows) = rows := by
  induction rows with
  | nil => rfl
  | cons row rows ih =>
    have hrow := h row (by simp)
    cases rows with
    | nil => exact groups_row hrow.1 hrow.2
    | cons row' rows =>
      rw [spread, groups_append_gap, groups_row hrow.1 hrow.2, ih fun r hr => h r (by simp [hr])]
      · rfl
      · simp

/-- The groups of a row hold all its atoms but the gaps, in order. -/
theorem flatten_groups (l : List Atom) : (groups l).flatten = l.filter (· ≠ .gap) := by
  induction l with
  | nil => rfl
  | cons a l ih =>
    by_cases ha : a = .gap
    · rw [ha, groups_gap_cons, ih]; simp
    · cases l with
      | nil => rw [groups_singleton ha]; simp [ha]
      | cons b l =>
        by_cases hb : b = .gap
        · subst hb
          rw [groups_gap_cons] at ih
          rw [groups_cons_gap ha, List.flatten_cons, ih]
          simp [ha]
        · obtain ⟨f, o, h1, h2⟩ := groups_cons_cons ha hb l
          rw [h1] at ih
          rw [h2, List.flatten_cons, List.cons_append, ← List.flatten_cons, ih]
          simp [ha]

/-- There is at most one group more than there are gaps behind the first atom. -/
theorem length_groups_cons_le (a : Atom) (l : List Atom) :
    (groups (a :: l)).length ≤ l.count .gap + 1 := by
  induction l generalizing a with
  | nil =>
    by_cases ha : a = .gap
    · simp [ha, groups]
    · simp [groups_singleton ha]
  | cons b l ih =>
    by_cases ha : a = .gap
    · have := ih b
      have := List.count_le_count_cons (a := Atom.gap) (b := b) (l := l)
      rw [ha, groups_gap_cons]
      omega
    · by_cases hb : b = .gap
      · have := ih .gap
        rw [groups_gap_cons] at this
        rw [hb, groups_cons_gap ha, List.count_cons_self, List.length_cons]
        omega
      · obtain ⟨f, o, h1, h2⟩ := groups_cons_cons ha hb l
        have := ih b
        rw [h1] at this
        rw [h2, List.count_cons_of_ne hb]
        exact this

end Word

end Shortcodes
