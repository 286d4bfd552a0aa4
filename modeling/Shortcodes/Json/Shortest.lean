import Shortcodes.Json.Double
import Shortcodes.Text.Numeral

/-!
# The shortest decimal of a double

A double stands for every real that rounds to it. Its shortest decimal is the one with the
fewest digits among those reals, and the nearest to the double's exact value when several have
that number of digits; of two equally near ones the even one. The search is in exact integer
arithmetic: for 1, 2, … 17 digits it tests the two neighbours of the value on that decimal grid.
-/

namespace Shortcodes

/-- A positive decimal: the value is the digits read as `0.d₁d₂…`, times `10 ^ point`. -/
structure Decimal where
  digits : Text
  point : Int
  deriving DecidableEq, Repr

namespace Decimal

/-- A positive double in units of `1 / unit`: its value, and the bounds of the reals that round
    to it. The bounds belong to them when `closed`. -/
structure Band where
  value : Nat
  low : Nat
  high : Nat
  unit : Nat
  closed : Bool

/-- The band of a positive finite double, from its size. -/
def Band.ofSize (size : Nat) : Band :=
  let exponent := Double.exponentOf size
  let fraction := Double.fractionOf size
  let m := if exponent = 0 then fraction else fraction + Double.exponentBit
  let e := if exponent = 0 then 1 else exponent
  -- The value is m * 2 ^ (e - 1075).
  let up := Nat.pow 2 (e - 1075)
  let below := if fraction = 0 ∧ 1 < exponent then 1 else 2
  { value := 4 * m * up, low := (4 * m - below) * up, high := (4 * m + 2) * up,
    unit := 4 * Nat.pow 2 (1075 - e), closed := m % 2 = 0 }

/-- Whether the decimal `c / scale` (in ones) lies in the band. -/
def Band.holds (b : Band) (c scale : Nat) : Bool :=
  let x := c * b.unit
  let low := b.low * scale
  let high := b.high * scale
  if b.closed then low ≤ x && x ≤ high else low < x && x < high

/-- The least `p` from `start` on, in at most `fuel` steps, for which the band's value is below
    `10 ^ p` ones. -/
def Band.pointFrom (b : Band) : (fuel : Nat) → (start : Int) → Int
  | 0, start => start
  | fuel + 1, start =>
    let below :=
      if 0 ≤ start then b.value < b.unit * Nat.pow 10 start.toNat
      else b.value * Nat.pow 10 (-start).toNat < b.unit
    if below then start else b.pointFrom fuel (start + 1)

/-- The nearest number with `n` digits to the band's value, if one lies in the band. -/
def Band.onGrid? (b : Band) (point : Int) (n : Nat) : Option Nat :=
  let shift := (n : Int) - point
  -- One grid step is 10 ^ (-shift) ones; `up / down` is its inverse.
  let up := Nat.pow 10 shift.toNat
  let down := Nat.pow 10 (-shift).toNat
  let floor := b.value * up / (b.unit * down)
  let inside (c : Nat) : Bool := b.holds (c * down) up
  let twice := 2 * b.value * up
  let middle := (2 * floor + 1) * (b.unit * down)
  let lowerFirst := twice < middle || (twice == middle && floor % 2 == 0)
  let (near, far) := if lowerFirst then (floor, floor + 1) else (floor + 1, floor)
  if inside near then some near else if inside far then some far else none

/-- Digits without the zeros at their end. -/
def significant (digits : Text) : Text := (digits.reverse.dropWhile (· = '0')).reverse

/-- The first hit with `n` or more digits, in at most `fuel` steps. Rounding up to a power of ten
    gives a hit with one more digit, a zero that does not count. -/
def Band.search (b : Band) (point : Int) : (fuel : Nat) → (n : Nat) → Decimal
  | 0, _ => ⟨[], point⟩
  | fuel + 1, n =>
    match b.onGrid? point n with
    | some c =>
      let digits := Text.ofNat c
      ⟨significant digits, point + digits.length - n⟩
    | none => b.search point fuel (n + 1)

/-- The shortest decimal of a positive finite double, from its size. -/
def ofSize (size : Nat) : Decimal :=
  let b := Band.ofSize size
  b.search (b.pointFrom 700 (-330)) 17 1

/-- The decimal with all its digits written out, without a fraction mark if it is whole. -/
def positional (d : Decimal) : Text :=
  let n := d.digits.length
  if d.point ≤ 0 then "0.".toList ++ List.replicate (-d.point).toNat '0' ++ d.digits
  else if d.point.toNat < n then d.digits.take d.point.toNat ++ '.' :: d.digits.drop d.point.toNat
  else d.digits ++ List.replicate (d.point.toNat - n) '0'

/-- The decimal with one digit before the mark and a signed exponent of ten. -/
def scientific (d : Decimal) : Text :=
  let fraction := match d.digits.drop 1 with
    | [] => []
    | rest => '.' :: rest
  let exponent := d.point - 1
  d.digits.take 1 ++ fraction ++ 'e' ::
    (if exponent < 0 then Text.ofInt exponent else '+' :: Text.ofInt exponent)

end Decimal

end Shortcodes
