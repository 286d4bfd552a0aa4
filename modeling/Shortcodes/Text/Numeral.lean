import Shortcodes.Text.Basic

/-!
# Decimal numerals

Writing a natural number in decimal and reading one back. A position or an index may be
written with one leading plus sign and leading zeros, and must fit 64 bits.
-/
namespace Shortcodes

/-- The decimal digit of a number below ten. -/
def digitChar (n : Nat) : Char := Char.ofNat ('0'.toNat + n)

/-- The value of an ASCII decimal digit. -/
def digitValue? (c : Char) : Option Nat :=
  if '0' ≤ c ∧ c ≤ '9' then some (c.toNat - '0'.toNat) else none

namespace Text

/-- The decimal digits of `n`, the last first, with at most `fuel` of them. -/
def digitsUpTo : (fuel : Nat) → Nat → Text
  | 0, _ => []
  | fuel + 1, n => digitChar (n % 10) :: if n < 10 then [] else digitsUpTo fuel (n / 10)

/-- The decimal numeral of `n`, without leading zeros. -/
def ofNat (n : Nat) : Text := (digitsUpTo (n + 1) n).reverse

/-- The decimal numeral of an integer, with a minus sign if it is negative. -/
def ofInt : Int → Text
  | .ofNat n => ofNat n
  | .negSucc n => '-' :: ofNat (n + 1)

/-- The value of a run of decimal digits, after the value of what stood before it. -/
def digitsValue? (before : Nat) : Text → Option Nat
  | [] => some before
  | c :: rest => (digitValue? c).bind fun d => digitsValue? (before * 10 + d) rest

/-- The first number that a position or an index cannot take. -/
def indexBound : Nat := 0x10000000000000000

/-- Reads an index: one optional plus sign, then at least one decimal digit, with a value
    below `indexBound`. -/
def toIndex? (t : Text) : Option Nat :=
  let digits := match t with
    | '+' :: rest => rest
    | _ => t
  if digits = [] then none
  else (digitsValue? 0 digits).filter (· < indexBound)

end Text

end Shortcodes
