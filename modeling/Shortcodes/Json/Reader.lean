import Shortcodes.Json.Basic

/-!
# Reading JSON text

A number without fraction and exponent that fits 64 bits, signed or not, stays whole; `-0` and
every other number is a double. The double is the leading digits that fit 64 bits, rounded,
times or divided by one power of ten.
-/

namespace Shortcodes.Json

/-! ### Numbers -/

/-- Blanks that JSON allows between its signs. -/
def isSpace (c : Char) : Bool := c = ' ' || c = '\n' || c = '\r' || c = '\t'

/-- What a row of digits adds to a number read so far: the leading digits that fit 64 bits, the
    count of digits that did not fit, and whether some did not. -/
structure Leading where
  value : Nat
  dropped : Nat
  full : Bool

/-- Adds a digit unless the value would pass 64 bits. -/
def Leading.add (l : Leading) (d : Nat) : Leading :=
  if l.full || Number.wordBound ≤ l.value * 10 + d then { l with dropped := l.dropped + 1, full := true }
  else { l with value := l.value * 10 + d }

/-- Scales a double by a power of ten in one operation, or in steps of `10 ^ 308` for large
    negative exponents; none if the result is too large. -/
def scale (x : Float) (exponent : Int) : (fuel : Nat) → Option Float
  | 0 => some 0.0
  | fuel + 1 =>
    if exponent.natAbs ≤ 308 then
      let power := Float.ofScientific 1 false exponent.natAbs
      if 0 ≤ exponent then
        let y := x * power
        if y.isInf then none else some y
      else some (x / power)
    else if x == 0.0 then some x
    else if 0 ≤ exponent then none
    else scale (x / 1e308) (exponent + 308) fuel

/-- The digits at the start of a text, and the rest. -/
def digitRun (t : Text) : Text × Text :=
  (t.takeWhile Char.isDigit, t.dropWhile Char.isDigit)

/-- The value of an ASCII digit. -/
def digit (c : Char) : Nat := c.toNat - '0'.toNat

/-- The exponent part at the start of a text, if there is one. -/
def exponentPart? (t : Text) : Option (Option Int × Text) :=
  match t with
  | c :: rest =>
    if c = 'e' || c = 'E' then
      let (negative, rest) := match rest with
        | '+' :: r => (false, r)
        | '-' :: r => (true, r)
        | _ => (false, rest)
      let (digits, tail) := digitRun rest
      if digits = [] then none
      else
        let size : Int := (digits.foldl (fun n c => n * 10 + digit c) 0 : Nat)
        some (some (if negative then -size else size), tail)
    else some (none, t)
  | [] => some (none, t)

/-- Reads a number. -/
def readNumber (t : Text) : Option (Number × Text) := do
  let (negative, body) := match t with
    | '-' :: rest => (true, rest)
    | _ => (false, t)
  let (whole, rest) := digitRun body
  if whole = [] || (whole.length > 1 && whole.head? == some '0') then none
  let lead := whole.foldl (fun l c => l.add (digit c)) (⟨0, 0, false⟩ : Leading)
  let (fraction, rest') ← match rest with
    | '.' :: r =>
      let (digits, tail) := digitRun r
      if digits = [] then none else some (some digits, tail)
    | _ => some (none, rest)
  let (exponent, tail) ← exponentPart? rest'
  if fraction.isNone && exponent.isNone && !lead.full then
    if !negative then return (.whole lead.value, tail)
    if 0 < lead.value && lead.value ≤ Number.signedBound then return (.whole (-(lead.value : Int)), tail)
  let digits := fraction.getD []
  -- Digits of a fraction that fit add to the value and move the point; the others are dropped.
  let all := digits.foldl (fun l c => l.add (digit c)) { lead with dropped := 0, full := false }
  let kept := digits.length - all.dropped
  let shift : Int := (lead.dropped : Int) - kept + exponent.getD 0
  let x ← scale (Float.ofNat all.value) shift 8
  return (.real (if negative then -x else x), tail)

/-! ### Strings -/

/-- The value of a hexadecimal digit. -/
def hexValue? (c : Char) : Option Nat :=
  if '0' ≤ c ∧ c ≤ '9' then some (c.toNat - '0'.toNat)
  else if 'a' ≤ c ∧ c ≤ 'f' then some (c.toNat - 'a'.toNat + 10)
  else if 'A' ≤ c ∧ c ≤ 'F' then some (c.toNat - 'A'.toNat + 10)
  else none

/-- The value of four hexadecimal digits. -/
def hexFour? (a b c d : Char) : Option Nat := do
  return (((← hexValue? a) * 16 + (← hexValue? b)) * 16 + (← hexValue? c)) * 16 + (← hexValue? d)

/-- The rest of a string after its opening quotation mark. -/
def readString : Text → Option (Text × Text)
  | [] => none
  | '"' :: rest => some ([], rest)
  | '\\' :: 'u' :: a :: b :: c :: d :: '\\' :: 'u' :: e :: f :: g :: h :: rest => do
    let n ← hexFour? a b c d
    let m ← hexFour? e f g h
    if 0xD800 ≤ n && n < 0xDC00 && 0xDC00 ≤ m && m < 0xE000 then
      let (s, tail) ← readString rest
      return (Char.ofNat (0x10000 + (n - 0xD800) * 0x400 + (m - 0xDC00)) :: s, tail)
    else
      let (s, tail) ← readString ('\\' :: 'u' :: e :: f :: g :: h :: rest)
      return (Char.ofNat n :: s, tail)
  | '\\' :: 'u' :: a :: b :: c :: d :: rest => do
    let n ← hexFour? a b c d
    let (s, tail) ← readString rest
    return (Char.ofNat n :: s, tail)
  | '\\' :: e :: rest => do
    let c ← match e with
      | '"' => some '"' | '\\' => some '\\' | '/' => some '/' | 'b' => some '\x08'
      | 'f' => some '\x0c' | 'n' => some '\n' | 'r' => some '\r' | 't' => some '\t'
      | _ => none
    let (s, tail) ← readString rest
    return (c :: s, tail)
  | c :: rest => do
    let (s, tail) ← readString rest
    return (c :: s, tail)

/-! ### Values -/

/-- The text without JSON blanks at its start. -/
def skip (t : Text) : Text := t.dropWhile isSpace

mutual

/-- Reads a value, nested at most `fuel` deep. -/
def readValue : (fuel : Nat) → Text → Option (Json × Text)
  | 0, _ => none
  | fuel + 1, t =>
    match skip t with
    | '"' :: rest => (readString rest).map fun (s, tail) => (string s, tail)
    | '[' :: rest =>
      match skip rest with
      | ']' :: tail => some (array [], tail)
      | _ => (readItems fuel rest).map fun (items, tail) => (array items, tail)
    | '\x7b' :: rest =>
      match skip rest with
      | '\x7d' :: tail => some (object [], tail)
      | _ => (readMembers fuel rest).map fun (members, tail) => (ofMembers members, tail)
    | c :: rest =>
      if let some tail := Text.after? "null".toList (c :: rest) then some (null, tail)
      else if let some tail := Text.after? "true".toList (c :: rest) then some (bool true, tail)
      else if let some tail := Text.after? "false".toList (c :: rest) then some (bool false, tail)
      else (readNumber (c :: rest)).map fun (n, tail) => (number n, tail)
    | [] => none

/-- Reads the items of an array, of which there is one, and the closing bracket. -/
def readItems : (fuel : Nat) → Text → Option (List Json × Text)
  | 0, _ => none
  | fuel + 1, t => do
    let (v, rest) ← readValue fuel t
    match skip rest with
    | ',' :: more =>
      let (items, tail) ← readItems fuel more
      return (v :: items, tail)
    | ']' :: tail => return ([v], tail)
    | _ => none

/-- Reads the members of an object, of which there is one, and the closing brace. -/
def readMembers : (fuel : Nat) → Text → Option (List (Text × Json) × Text)
  | 0, _ => none
  | fuel + 1, t => do
    let '"' :: afterQuote := skip t | none
    let (key, rest) ← readString afterQuote
    let ':' :: rest := skip rest | none
    let (v, rest) ← readValue fuel rest
    match skip rest with
    | ',' :: more =>
      let (members, tail) ← readMembers fuel more
      return ((key, v) :: members, tail)
    | '\x7d' :: tail => return ([(key, v)], tail)
    | _ => none

end

/-- Reads a JSON text. -/
def read? (t : Text) : Option Json := do
  let (v, tail) ← readValue (t.length + 1) t
  if skip tail = [] then some v else none

end Shortcodes.Json
