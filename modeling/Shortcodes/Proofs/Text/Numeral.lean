import Mathlib.Data.Nat.Digits.Defs
import Mathlib.Tactic.Ring
import Shortcodes.Text.Numeral

/-!
# Numerals and their values

An index is read from decimal digits, which may have zeros in front of them, behind a plus sign or
none; what it is read to is the value of these digits, if 64 bits can hold it
(`toIndex?_eq_some_iff`).
-/

namespace Shortcodes

namespace Text

/-- Decimal digits with the value `n`. -/
structure IsDecimal (t : Text) (n : Nat) : Prop where
  ne_nil : t ≠ []
  digits : ∀ c ∈ t, c.isDigit = true
  value : Nat.ofDigits 10 (t.reverse.map fun c => c.toNat - '0'.toNat) = n

/-- Decimal digits with the value `n`, which 64 bits can hold, behind a plus sign or none. -/
structure IsIndex (t : Text) (n : Nat) : Prop where
  decimal : IsDecimal t n ∨ ∃ digits, t = '+' :: digits ∧ IsDecimal digits n
  bounded : n < indexBound

theorem isDigit_iff {c : Char} : c.isDigit = true ↔ '0' ≤ c ∧ c ≤ '9' := by
  rw [Char.isDigit, Bool.and_eq_true, decide_eq_true_eq, decide_eq_true_eq]
  rfl

theorem digitValue?_eq_some_iff {c : Char} {d : Nat} :
    digitValue? c = some d ↔ c.isDigit = true ∧ c.toNat - '0'.toNat = d := by
  rw [isDigit_iff, digitValue?]
  split
  · next h => simp [h]
  · next h => simp [h]

/-- Digits behind others: these were worth `before`. -/
theorem digitsValue?_eq_some_iff {t : Text} {before n : Nat} :
    digitsValue? before t = some n ↔
      (∀ c ∈ t, c.isDigit = true) ∧ before * 10 ^ t.length +
        Nat.ofDigits 10 (t.reverse.map fun c => c.toNat - '0'.toNat) = n := by
  induction t generalizing before with
  | nil => simp [digitsValue?]
  | cons c t ih =>
    have hvalue : ∀ d, (before * 10 + d) * 10 ^ t.length +
        Nat.ofDigits 10 (t.reverse.map fun c => c.toNat - '0'.toNat) =
        before * 10 ^ (t.length + 1) +
          (Nat.ofDigits 10 (t.reverse.map fun c => c.toNat - '0'.toNat) + 10 ^ t.length * d) := by
      intro d
      ring
    rw [digitsValue?, Option.bind_eq_some_iff, List.reverse_cons, List.map_append,
      Nat.ofDigits_append, List.length_map, List.length_reverse, List.map_singleton,
      Nat.ofDigits_singleton, List.length_cons, List.forall_mem_cons]
    constructor
    · rintro ⟨d, hd, hrest⟩
      obtain ⟨hdigit, rfl⟩ := digitValue?_eq_some_iff.1 hd
      obtain ⟨hdigits, hn⟩ := ih.1 hrest
      exact ⟨⟨hdigit, hdigits⟩, by rw [← hvalue, hn]⟩
    · rintro ⟨⟨hdigit, hdigits⟩, hn⟩
      refine ⟨_, digitValue?_eq_some_iff.2 ⟨hdigit, rfl⟩, ih.2 ⟨hdigits, ?_⟩⟩
      rw [hvalue, hn]

/-- What decimal digits are read to, if 64 bits can hold their value. -/
theorem readDecimal_eq_some_iff {t : Text} {n : Nat} :
    (if t = [] then none else (digitsValue? 0 t).filter (· < indexBound)) = some n ↔
      IsDecimal t n ∧ n < indexBound := by
  split
  · next h => exact ⟨nofun, fun hn => absurd h hn.1.ne_nil⟩
  · next h =>
    rw [Option.filter_eq_some_iff, digitsValue?_eq_some_iff, Nat.zero_mul, Nat.zero_add,
      decide_eq_true_eq]
    exact ⟨fun hn => ⟨⟨h, hn.1.1, hn.1.2⟩, hn.2⟩, fun hn => ⟨⟨hn.1.digits, hn.1.value⟩, hn.2⟩⟩

/-- What an index is read to. -/
theorem toIndex?_eq_some_iff {t : Text} {n : Nat} : toIndex? t = some n ↔ IsIndex t n := by
  by_cases hsign : ∃ digits, t = '+' :: digits
  · obtain ⟨digits, rfl⟩ := hsign
    refine readDecimal_eq_some_iff.trans ⟨fun h => ⟨.inr ⟨digits, rfl, h.1⟩, h.2⟩, ?_⟩
    rintro ⟨hdecimal | ⟨digits', hdigits, hdecimal⟩, hbound⟩
    · -- the sign is not a digit
      exact absurd (hdecimal.digits '+' List.mem_cons_self) (by decide)
    · cases hdigits
      exact ⟨hdecimal, hbound⟩
  · rw [toIndex?, readDecimal_eq_some_iff]
    · refine ⟨fun h => ⟨.inl h.1, h.2⟩, ?_⟩
      rintro ⟨hdecimal | hdecimal, hbound⟩
      · exact ⟨hdecimal, hbound⟩
      · exact absurd (hdecimal.imp fun _ h => h.1) hsign
    · exact fun digits h => hsign ⟨digits, h⟩

theorem IsIndex.unique {t : Text} {m n : Nat} (hm : IsIndex t m) (hn : IsIndex t n) : m = n :=
  Option.some.inj ((toIndex?_eq_some_iff.2 hm).symm.trans (toIndex?_eq_some_iff.2 hn))

end Text

end Shortcodes
