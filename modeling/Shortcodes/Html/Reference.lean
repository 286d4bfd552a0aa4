import Shortcodes.Text.Basic
import Shortcodes.Html.ReferenceNames

/-!
# Character references

A reference is `&`, a name or a number, and normally a semicolon. The longest name that is known
counts. Without a semicolon only the common names count, and in an attribute value not even they
when a letter, a digit or an equals sign follows, so that addresses with parameters survive.
-/

namespace Shortcodes.Html.Reference

/-- A reference as it was read, after its ampersand. -/
structure Reading where
  /-- What it stands for. -/
  text : Text
  /-- Whether the semicolon of a numeric reference is missing. -/
  unended : Bool
  rest : Text

/-- The character that takes the place of what cannot stand in a text. -/
def replacement : Char := '\ufffd'

/-- The replacement of a code point between 0x80 and 0x9F: references to these mean the
    characters of a common single-byte code. -/
def westernPoint (n : Nat) : Nat :=
  [0x20AC, 0x81, 0x201A, 0x0192, 0x201E, 0x2026, 0x2020, 0x2021, 0x02C6, 0x2030, 0x0160, 0x2039,
   0x0152, 0x8D, 0x017D, 0x8F, 0x90, 0x2018, 0x2019, 0x201C, 0x201D, 0x2022, 0x2013, 0x2014,
   0x02DC, 0x2122, 0x0161, 0x203A, 0x0153, 0x9D, 0x017E, 0x0178].getD (n - 0x80) n

/-- The character that a number refers to. -/
def numbered (n : Nat) : Char :=
  if n = 0 ∨ 0x10FFFF < n ∨ (0xD800 ≤ n ∧ n ≤ 0xDFFF) then replacement
  else if 0x80 ≤ n ∧ n ≤ 0x9F then Char.ofNat (westernPoint n)
  else Char.ofNat n

/-- The value of a digit in base 16. -/
def hexValue (c : Char) : Nat :=
  if c.isDigit then c.toNat - '0'.toNat else c.toLower.toNat - 'a'.toNat + 10

/-- Whether a character is a digit in base 16. -/
def isHexDigit (c : Char) : Bool :=
  c.isDigit || ('a' ≤ c && c ≤ 'f') || ('A' ≤ c && c ≤ 'F')

/-- Reads the digits of a numeric reference. -/
def readNumber? (base : Nat) (isDigit : Char → Bool) (t : Text) : Option Reading :=
  let digits := t.takeWhile isDigit
  let rest := t.dropWhile isDigit
  if digits = [] then none
  else
    let c := numbered (digits.foldl (fun n d => n * base + hexValue d) 0)
    match rest with
    | ';' :: tail => some ⟨[c], false, tail⟩
    | _ => some ⟨[c], true, rest⟩

/-- What a name with its semicolon stands for. -/
def named? (name : Text) : Option Text :=
  let key := String.ofList name
  match common.find? (·.1 == key) with
  | some (_, value) => some value.toList
  | none => ((namedFrom (name.headD ' ')).find? (·.1 == key)).map (·.2.toList)

/-- The longest common name at the start of a text, with what it stands for and what follows. -/
def longestCommon? (t : Text) : Option (Text × Text) :=
  (common.foldl
    (fun best (name, value) =>
      match Text.after? name.toList t with
      | some rest =>
        match best with
        | some (n, _) => if n < name.length then some (name.length, value.toList, rest) else best
        | none => some (name.length, value.toList, rest)
      | none => best)
    none).map (·.2)

/-- Reads a named reference. -/
def readNamed? (inAttribute : Bool) (t : Text) : Option Reading :=
  let run := t.takeWhile Char.isAlphanum
  let whole? := match t.dropWhile Char.isAlphanum with
    | ';' :: tail => (named? run).map fun value => (⟨value, false, tail⟩ : Reading)
    | _ => none
  match whole? with
  | some r => some r
  | none =>
    match longestCommon? t with
    | none => none
    | some (value, rest) =>
      match rest with
      | c :: _ =>
        if inAttribute && (c = '=' || c.isAlphanum) then none else some ⟨value, false, rest⟩
      | [] => some ⟨value, false, rest⟩

/-- Reads the reference that follows an ampersand, if one does. -/
def read? (inAttribute : Bool) (t : Text) : Option Reading :=
  match t with
  | '#' :: 'x' :: rest | '#' :: 'X' :: rest => readNumber? 16 isHexDigit rest
  | '#' :: rest => readNumber? 10 Char.isDigit rest
  | _ => readNamed? inAttribute t

/-- The value that an attribute's text spells, in at most `fuel` steps. -/
def decodeUpTo : (fuel : Nat) → Text → Text
  | 0, _ => []
  | _ + 1, [] => []
  | fuel + 1, c :: rest =>
    if c = '&' then
      match read? true rest with
      | some r => r.text ++ decodeUpTo fuel r.rest
      | none => '&' :: decodeUpTo fuel rest
    else (if c.toNat = 0 then replacement else c) :: decodeUpTo fuel rest

/-- The value that an attribute's text spells. -/
def decode (t : Text) : Text := decodeUpTo t.length t

end Shortcodes.Html.Reference
