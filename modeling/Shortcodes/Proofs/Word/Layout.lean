import Shortcodes.Proofs.Word.Faults
import Shortcodes.Proofs.Word.Writing

/-!
# How words are laid out in a text

A text that can be read is blanks and stretches, each of which spells one word, with a blank at
least between two of them (`readAll_eq_ok_iff`). In the stretch of a word the first equals sign that
stands outside quotation marks and with no backslash that guards it is where the key ends, unless
nothing is spelled before it (`Stretch`). What a text spells is taken apart at such a character
(`Spells.exists_split`).
-/

namespace Shortcodes

namespace Atom

/-! ### Splitting at a character that nothing guards -/

/-- An atom in front of another kind of atom is among those before it. -/
theorem exists_of_before_eq {a b : Atom} {before after : List Atom}
    {rest : Except WordFault (List Atom)} (hne : b ≠ a)
    (h : Atom.before b rest = .ok (before ++ a :: after)) :
    ∃ others, before = b :: others ∧ rest = .ok (others ++ a :: after) := by
  obtain ⟨atoms, hrest, heq⟩ := before_eq_ok_iff.1 h
  cases before with
  | nil => exact absurd (List.cons.inj heq).1.symm hne
  | cons b' others =>
    obtain ⟨rfl, rfl⟩ := List.cons.inj heq
    exact ⟨others, rfl, hrest⟩

/-- A reader that comes to the end between double quotes has not closed them. -/
theorem ne_nil_of_read_double {start offset : Nat} {t : Text} {atoms : List Atom}
    (h : read (.double start) offset t = .ok atoms) : t ≠ [] := by
  rintro rfl
  rw [read] at h
  cases h

/-- The text has a character outside quotation marks that is read to an atom of its own, and what is
before the character and what is behind it are read by themselves. -/
def Splits (q : Quotation) (offset : Nat) (t : Text) (before : List Atom) (a : Atom)
    (after : List Atom) : Prop :=
  ∃ front c back offset', t = front ++ c :: back ∧ IsPlain c ∧ ofPlain c = a ∧
    read q offset front = .ok before ∧ read .outside offset' back = .ok after

/-- A split behind what a reader has passed. -/
theorem Splits.behind {q q' : Quotation} {offset offset' : Nat} {t : Text} {a : Atom}
    {before before' after : List Atom} (passed : Text) (h : Splits q' offset' t before' a after)
    (hread : ∀ front c back, t = front ++ c :: back → read q' offset' front = .ok before' →
      read q offset (passed ++ front) = .ok before) :
    Splits q offset (passed ++ t) before a after := by
  obtain ⟨front, c, back, place, rfl, hplain, hatom, hfront, hback⟩ := h
  refine ⟨passed ++ front, c, back, place, ?_, hplain, hatom, hread _ _ _ rfl hfront, hback⟩
  rw [List.append_assoc]

/-- A text is split at each gap and each bare letter that it is read to. -/
theorem splits_of_read {q : Quotation} {offset : Nat} {t : Text} {a : Atom}
    {before after : List Atom} (hopening : a ≠ .opening) (hguarded : ∀ c, a ≠ .guarded c)
    (h : read q offset t = .ok (before ++ a :: after)) : Splits q offset t before a after := by
  induction q, offset, t using read.induct generalizing before with
  | case1 offset => simp [read] at h
  | case2 => simp [read] at h
  | case3 => simp [read] at h
  | case4 => simp [read] at h
  | case5 offset d rest ih =>
    -- a backslash outside quotation marks
    rw [read] at h
    obtain ⟨others, rfl, hrest⟩ := exists_of_before_eq (hguarded d).symm h
    refine (ih hrest).behind ['\\', d] fun front _ _ _ hfront => ?_
    rw [List.cons_append, List.singleton_append, read, hfront]
    rfl
  | case6 offset rest ih | case7 offset rest ih =>
    -- an opening mark
    rw [read] at h
    obtain ⟨others, rfl, hrest⟩ := exists_of_before_eq hopening.symm h
    refine (ih hrest).behind [_] fun front _ _ _ hfront => ?_
    rw [List.singleton_append, read, hfront]
    rfl
  | case8 offset d rest h1 h2 h3 h4 ih =>
    have hd : IsPlain d := isPlain_of_no_rule h1 h2 h3 h4
    rw [read_outside_plain hd] at h
    obtain ⟨atoms, hrest, heq⟩ := before_eq_ok_iff.1 h
    cases before with
    | nil =>
      -- this is the character
      obtain ⟨rfl, rfl⟩ := List.cons.inj heq
      exact ⟨[], d, rest, _, rfl, hd, rfl, by rw [read], hrest⟩
    | cons first others =>
      obtain ⟨rfl, rfl⟩ := List.cons.inj heq
      refine (ih hrest).behind [d] fun front _ _ _ hfront => ?_
      rw [List.singleton_append, read_outside_plain hd, hfront]
      rfl
  | case9 start offset rest ih | case13 start offset rest ih =>
    -- a closing mark
    rw [read] at h
    refine (ih h).behind [_] fun front _ _ _ hfront => ?_
    rw [List.singleton_append, read, hfront]
  | case10 start offset d rest h1 ih =>
    rw [read_single_cons h1] at h
    obtain ⟨others, rfl, hrest⟩ := exists_of_before_eq (hguarded d).symm h
    refine (ih hrest).behind [d] fun front _ _ _ hfront => ?_
    rw [List.singleton_append, read_single_cons h1, hfront]
    rfl
  | case11 start offset rest ih | case12 start offset rest ih =>
    -- a backslash that guards, between double quotes
    rw [read] at h
    obtain ⟨others, rfl, hrest⟩ := exists_of_before_eq (hguarded _).symm h
    refine (ih hrest).behind ['\\', _] fun front _ _ _ hfront => ?_
    rw [List.cons_append, List.singleton_append, read, hfront]
    rfl
  | case14 start offset d rest h1 h2 h3 ih =>
    rw [read_double_unpaired h1 h2 h3] at h
    obtain ⟨others, rfl, hrest⟩ := exists_of_before_eq (hguarded d).symm h
    refine (ih hrest).behind [d] fun front c back hsplit hfront => ?_
    -- the marks are closed before the split, so that `d` is followed by the same character
    obtain ⟨e, front, rfl⟩ := List.exists_cons_of_ne_nil (ne_nil_of_read_double hfront)
    have hpair : ∀ f, (∀ r, d = '\\' → rest ≠ f :: r) → ∀ r, d = '\\' → e :: front ≠ f :: r := by
      intro f hf r hd he
      apply hf (front ++ c :: back) hd
      rw [hsplit, (List.cons.inj he).1, List.cons_append]
    rw [List.singleton_append, read_double_unpaired (hpair _ h1) (hpair _ h2) h3, hfront]
    rfl

theorem Spells.exists_split {t : Text} {a : Atom} {before after : List Atom}
    (h : Spells t (before ++ a :: after)) (hopening : a ≠ .opening)
    (hguarded : ∀ c, a ≠ .guarded c) :
    ∃ front c back, t = front ++ c :: back ∧ ofPlain c = a ∧ Spells front before ∧
      Spells back after := by
  obtain ⟨front, c, back, offset, rfl, -, hatom, hfront, hback⟩ :=
    splits_of_read hopening hguarded h.read_eq
  have hback' : read .outside 0 back = .ok after := by
    cases shape back with
    | spelled spells =>
      rw [spells.read_outside] at hback
      rw [spells.read_outside, hback]
    | backslash spells =>
      rw [spells.read_backslash] at hback
      cases hback
    | quotation spells unclosed =>
      rw [spells.read_quotation unclosed] at hback
      cases hback
  exact ⟨front, c, back, rfl, hatom, spells_of_read hfront, spells_of_read hback'⟩

theorem before_ne_ok_nil (a : Atom) (rest : Except WordFault (List Atom)) :
    Atom.before a rest ≠ .ok [] := by
  intro h
  obtain ⟨_, -, heq⟩ := before_eq_ok_iff.1 h
  cases heq

/-- Only the empty text spells nothing. -/
theorem Spells.eq_nil {t : Text} (h : Spells t []) : t = [] := by
  have hread := h.read_eq
  cases t with
  | nil => rfl
  | cons c rest =>
    -- outside quotation marks every character begins with an atom
    exfalso
    by_cases hslash : c = '\\'
    · subst hslash
      cases rest with
      | nil => cases hread
      | cons d rest => exact before_ne_ok_nil _ _ (by rwa [read] at hread)
    by_cases hsingle : c = '\''
    · subst hsingle
      exact before_ne_ok_nil _ _ (by rwa [read] at hread)
    by_cases hdouble : c = '"'
    · subst hdouble
      exact before_ne_ok_nil _ _ (by rwa [read] at hread)
    · exact before_ne_ok_nil _ _ (by rwa [read_outside_plain ⟨hsingle, hdouble, hslash⟩] at hread)

end Atom

namespace Word

open Atom

/-! ### The stretch of a word -/

/-- The text spells the word by itself. Without an equals sign that stands bare the word is plain.
Else the first such sign ends the key, which is what is spelled before it, if that is anything. -/
inductive Stretch : Text → Word → Prop
  | plain {t : Text} {row : List Atom} (spells : Spells t row) (whole : .gap ∉ row)
      (nonempty : row ≠ []) (unsigned : .bare '=' ∉ row) :
      Stretch t (.plain (row.filterMap letter?))
  | unnamed {front back : Text} {before after : List Atom} (front_spells : Spells front before)
      (back_spells : Spells back after) (front_whole : .gap ∉ before) (back_whole : .gap ∉ after)
      (unsigned : .bare '=' ∉ before) (nameless : before.filterMap letter? = []) :
      Stretch (front ++ '=' :: back) (.plain ('=' :: after.filterMap letter?))
  | keyed {front back : Text} {before after : List Atom} (front_spells : Spells front before)
      (back_spells : Spells back after) (front_whole : .gap ∉ before) (back_whole : .gap ∉ after)
      (unsigned : .bare '=' ∉ before) (named : before.filterMap letter? ≠ []) :
      Stretch (front ++ '=' :: back)
        (.keyed (before.filterMap letter?) (after.filterMap letter?))

/-- A row without gaps is spelled by the stretch of its word. -/
theorem stretch_of_spells {t : Text} {row : List Atom} (h : Spells t row) (whole : .gap ∉ row)
    (nonempty : row ≠ []) : Stretch t (ofAtoms row) := by
  by_cases hsign : .bare '=' ∈ row
  · obtain ⟨before, after, rfl, unsigned⟩ := List.eq_append_cons_of_mem hsign
    obtain ⟨front, c, back, rfl, hc, hfront, hback⟩ := h.exists_split nofun nofun
    have hequals : c = '=' := by
      rw [ofPlain] at hc
      split at hc
      · cases hc
      · exact bare.inj hc
    subst hequals
    have hbefore : .gap ∉ before := fun hm => whole (List.mem_append_left _ hm)
    have hafter : .gap ∉ after :=
      fun hm => whole (List.mem_append_right _ (List.mem_cons_of_mem _ hm))
    by_cases named : before.filterMap letter? = []
    · rw [ofAtoms_append_of_nameless unsigned named]
      exact .unnamed hfront hback hbefore hafter unsigned named
    · rw [ofAtoms_append unsigned named]
      exact .keyed hfront hback hbefore hafter unsigned named
  · rw [ofAtoms_of_not_mem hsign]
    exact .plain h whole nonempty hsign

/-- The stretch of a word spells a row without gaps, and that row is its word. -/
theorem Stretch.exists_row {t : Text} {w : Word} (h : Stretch t w) :
    ∃ row, Spells t row ∧ .gap ∉ row ∧ row ≠ [] ∧ ofAtoms row = w := by
  have hsign : Spells ['='] [.bare '='] := spells_plain (c := '=') ⟨by decide, by decide, by decide⟩
  have hjoin : ∀ {front back : Text} {before after : List Atom}, Spells front before →
      Spells back after → .gap ∉ before → .gap ∉ after →
        Spells (front ++ '=' :: back) (before ++ .bare '=' :: after) ∧
          .gap ∉ before ++ .bare '=' :: after ∧ before ++ .bare '=' :: after ≠ [] := by
    intro front back before after hfront hback hbefore hafter
    refine ⟨hfront.append (hsign.append hback), ?_, by simp⟩
    simp [hbefore, hafter]
  cases h with
  | plain spells whole nonempty unsigned =>
    exact ⟨_, spells, whole, nonempty, ofAtoms_of_not_mem unsigned⟩
  | unnamed hfront hback hbefore hafter unsigned nameless =>
    obtain ⟨hspells, hwhole, hne⟩ := hjoin hfront hback hbefore hafter
    exact ⟨_, hspells, hwhole, hne, ofAtoms_append_of_nameless unsigned nameless⟩
  | keyed hfront hback hbefore hafter unsigned named =>
    obtain ⟨hspells, hwhole, hne⟩ := hjoin hfront hback hbefore hafter
    exact ⟨_, hspells, hwhole, hne, ofAtoms_append unsigned named⟩

/-! ### The layout of a text -/

/-- The text is laid out as these words: each has a stretch, a blank stands between two of them, and
more blanks may stand anywhere around them. -/
inductive Laid : Text → List Word → Prop
  | nil : Laid [] []
  | blank {c : Char} {t : Text} {words : List Word} (blank : isBlank c = true)
      (rest : Laid t words) : Laid (c :: t) words
  | last {stretch : Text} {w : Word} (word : Stretch stretch w) : Laid stretch [w]
  | cons {stretch t : Text} {c : Char} {w : Word} {words : List Word} (word : Stretch stretch w)
      (blank : isBlank c = true) (rest : Laid t words) : Laid (stretch ++ c :: t) (w :: words)

theorem Laid.exists_row {t : Text} {words : List Word} (h : Laid t words) :
    ∃ row, Spells t row ∧ (groups row).map ofAtoms = words := by
  induction h with
  | nil => exact ⟨[], spells_nil, rfl⟩
  | blank blank _ ih =>
    obtain ⟨row, hrow, rfl⟩ := ih
    exact ⟨.gap :: row, (spells_blank blank).append hrow, by rw [groups_gap_cons]⟩
  | last word =>
    obtain ⟨row, hrow, hwhole, hne, rfl⟩ := word.exists_row
    exact ⟨row, hrow, by rw [groups_row hne hwhole, List.map_singleton]⟩
  | cons word blank _ ih =>
    obtain ⟨first, hfirst, hwhole, hne, rfl⟩ := word.exists_row
    obtain ⟨row, hrow, rfl⟩ := ih
    refine ⟨first ++ .gap :: row, hfirst.append ((spells_blank blank).append hrow), ?_⟩
    rw [groups_append_gap, groups_row hne hwhole]
    rfl

theorem laid_of_spells {t : Text} {row : List Atom} (h : Spells t row) :
    Laid t ((groups row).map ofAtoms) := by
  induction hn : row.length using Nat.strong_induction_on generalizing t row with
  | _ n ih =>
    subst hn
    by_cases hgap : .gap ∈ row
    · -- the first gap ends the first word, if there is one before it
      obtain ⟨before, after, rfl, whole⟩ := List.eq_append_cons_of_mem hgap
      obtain ⟨front, c, back, rfl, hc, hfront, hback⟩ := h.exists_split nofun nofun
      have hblank : isBlank c = true := by
        rw [ofPlain] at hc
        split at hc
        · assumption
        · cases hc
      have hrest := ih after.length (by rw [List.length_append, List.length_cons]; omega) hback rfl
      rw [groups_append_gap, List.map_append]
      by_cases hne : before = []
      · subst hne
        rw [hfront.eq_nil]
        exact .blank hblank hrest
      · rw [groups_row hne whole]
        exact .cons (stretch_of_spells hfront whole hne) hblank hrest
    · by_cases hne : row = []
      · subst hne
        rw [h.eq_nil]
        exact .nil
      · rw [groups_row hne hgap]
        exact .last (stretch_of_spells h hgap hne)

theorem Laid.key_ne_nil {t : Text} {words : List Word} (h : Laid t words) {key value : Text}
    (hmem : .keyed key value ∈ words) : key ≠ [] := by
  have hstretch : ∀ {stretch}, Stretch stretch (.keyed key value) → key ≠ [] := by
    intro stretch hw
    cases hw with
    | keyed _ _ _ _ _ named => exact named
  induction h with
  | nil => cases hmem
  | blank _ _ ih => exact ih hmem
  | last word =>
    obtain rfl := List.mem_singleton.1 hmem
    exact hstretch word
  | cons word _ _ ih =>
    rcases List.mem_cons.1 hmem with rfl | hmem
    · exact hstretch word
    · exact ih hmem

/-- A text is read to words exactly if it is laid out as these words. -/
theorem readAll_eq_ok_iff {t : Text} {words : List Word} :
    readAll t = .ok words ↔ Laid t words := by
  constructor
  · intro h
    obtain ⟨row, hrow, rfl⟩ := exists_spells_of_readAll h
    exact laid_of_spells hrow
  · intro h
    obtain ⟨row, hrow, rfl⟩ := h.exists_row
    exact readAll_of_spells hrow

end Word

end Shortcodes
