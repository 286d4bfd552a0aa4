import Shortcodes.Proofs.Word.Faults

/-!
# The words of joined texts

At a blank outside quotation marks a reader starts afresh: behind a text that can be read, a blank
and another text give the words of the first and then what the second gives
(`readAll_append_blank`). What is behind is read as by itself but for the offset at which it starts,
and that shows in the place of a fault alone (`read_outside_add`).
-/

namespace Shortcodes

/-- The same fault in a text that stands further back. -/
def WordFault.shift (by_ : Nat) : WordFault → WordFault
  | unclosedQuote mark offset => unclosedQuote mark (offset + by_)
  | trailingBackslash => trailingBackslash

namespace Atom

/-- A reader outside quotation marks knows of what it has passed only how long it is. -/
theorem read_outside_add (offset by_ : Nat) (t : Text) :
    read .outside (offset + by_) t = (read .outside offset t).mapError (WordFault.shift by_) := by
  cases shape t with
  | spelled spells =>
    rw [spells.read_outside, spells.read_outside]
    rfl
  | backslash spells =>
    rw [spells.read_backslash, spells.read_backslash]
    rfl
  | quotation spells unclosed =>
    rw [spells.read_quotation unclosed, spells.read_quotation unclosed, Nat.add_right_comm]
    rfl

end Atom

namespace Word

/-- Blanks in front of a text say nothing but where it starts. -/
theorem readAll_blanks_append {blanks : Text} (h : ∀ c ∈ blanks, isBlank c = true) (t : Text) :
    readAll (blanks ++ t) =
      (readAll t).mapError (WordFault.shift (Text.byteLength blanks)) := by
  rw [readAll, readAll, Atom.spells_blanks h, Atom.read_outside_add]
  cases Atom.read .outside 0 t with
  | error fault => rfl
  | ok atoms => simp only [Except.mapError, Except.map, groups_gaps_append]

/-- Blanks behind a text that can be read say nothing. -/
theorem readAll_append_blanks {t : Text} {words : List Word} (ht : readAll t = .ok words)
    {blanks : Text} (h : ∀ c ∈ blanks, isBlank c = true) : readAll (t ++ blanks) = .ok words := by
  obtain ⟨row, hrow, rfl⟩ := exists_spells_of_readAll ht
  have hgroups := groups_append_gaps (n := blanks.length) (m := []) (fun _ => rfl) row
  rw [List.append_nil] at hgroups
  rw [readAll_of_spells (hrow.append (Atom.spells_blanks h)), hgroups, groups, List.append_nil]

/-- Behind a text that can be read and a blank, a text has the words that it has by itself, and its
faults, which stand so much further back. -/
theorem readAll_append_blank {a : Text} {words : List Word} (ha : readAll a = .ok words)
    {blank : Char} (hblank : isBlank blank = true) (b : Text) :
    readAll (a ++ blank :: b) =
      ((readAll b).mapError (WordFault.shift (Text.byteLength (a ++ [blank])))).map
        (words ++ ·) := by
  obtain ⟨row, hrow, rfl⟩ := exists_spells_of_readAll ha
  have hfront := hrow.append (Atom.spells_blank hblank)
  have hsplit : a ++ blank :: b = (a ++ [blank]) ++ b := by simp
  rw [readAll, readAll, hsplit, hfront, Atom.read_outside_add]
  cases Atom.read .outside 0 b with
  | error fault => rfl
  | ok atoms =>
    have hgroups := groups_append_gap row atoms
    simp only [Except.mapError, Except.map, List.append_assoc, List.singleton_append, hgroups,
      List.map_append]

/-- Behind eight bytes and a blank of three, words are joined to those before, and a quotation mark
that opens behind three bytes more is reported there. -/
theorem readAll_append_blank_wide :
    let a := "x='1 é'".toList
    readAll a = .ok [keyed ['x'] "1 é".toList] ∧ isBlank '\u3000' = true ∧
      readAll (a ++ '\u3000' :: "=y".toList) = .ok [keyed ['x'] "1 é".toList, plain ['=', 'y']] ∧
      readAll (a ++ '\u3000' :: "é 'y".toList) = .error (.unclosedQuote '\'' 14) := by
  intro a
  have ha : readAll a = .ok [keyed ['x'] "1 é".toList] := by decide
  have hblank : isBlank '\u3000' = true := by decide
  refine ⟨ha, hblank, ?_, ?_⟩
  · rw [readAll_append_blank ha hblank]
    decide
  · rw [readAll_append_blank ha hblank]
    decide

end Word

end Shortcodes
