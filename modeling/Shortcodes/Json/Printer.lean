import Shortcodes.Json.Basic

/-!
# Compact JSON text

Values are written without blanks. A double is written with the fewest digits that read back,
positionally from `1e-5` on and below `1e16` and with an exponent elsewhere; a number that is
not finite is written as `null`. Strings escape the double quote, the backslash and the control
characters below U+0020.
-/

namespace Shortcodes

/-- A double in JSON. -/
def Json.real (x : Float) : Text :=
  let sign : Text := if Double.isNegative x then ['-'] else []
  let size := Double.size x
  if Double.infinity ≤ size then "null".toList
  else if size = 0 then sign ++ "0.0".toList
  else
    let d := Decimal.ofSize size
    let whole := (d.digits.length : Int) ≤ d.point
    if -5 < d.point ∧ d.point ≤ 16 then
      sign ++ d.positional ++ if whole then ".0".toList else []
    else sign ++ d.scientific

/-- A number in JSON. -/
def Number.text : Number → Text
  | whole n => Text.ofInt n
  | real x => Json.real x

namespace Json

/-- The hexadecimal digit of a number below sixteen. -/
def hexDigit (n : Nat) : Char :=
  if n < 10 then Char.ofNat ('0'.toNat + n) else Char.ofNat ('a'.toNat + (n - 10))

/-- A character inside a JSON string. -/
def escaped (c : Char) : Text :=
  if c = '"' then ['\\', '"']
  else if c = '\\' then ['\\', '\\']
  else if c = '\n' then ['\\', 'n']
  else if c = '\r' then ['\\', 'r']
  else if c = '\t' then ['\\', 't']
  else if c.toNat = 8 then ['\\', 'b']
  else if c.toNat = 12 then ['\\', 'f']
  else if c.toNat < 0x20 then
    ['\\', 'u', '0', '0', hexDigit (c.toNat / 16), hexDigit (c.toNat % 16)]
  else [c]

/-- A JSON string. -/
def quoted (s : Text) : Text := '"' :: s.flatMap escaped ++ ['"']

mutual

/-- The compact text of a value. -/
def text : Json → Text
  | null => "null".toList
  | bool true => "true".toList
  | bool false => "false".toList
  | number n => n.text
  | string s => quoted s
  | array items => '[' :: itemsText items
  | object members => '\x7b' :: membersText members

/-- The items of an array and its closing bracket. -/
def itemsText : List Json → Text
  | [] => [']']
  | [v] => text v ++ [']']
  | v :: rest => text v ++ ',' :: itemsText rest

/-- The members of an object and its closing brace. -/
def membersText : List (Text × Json) → Text
  | [] => ['\x7d']
  | [(k, v)] => quoted k ++ ':' :: text v ++ ['\x7d']
  | (k, v) :: rest => quoted k ++ ':' :: text v ++ ',' :: membersText rest

end

end Json

end Shortcodes
