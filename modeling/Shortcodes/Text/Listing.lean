import Shortcodes.Text.Unshown
import Shortcodes.Json.Printer

/-!
# Listings

How messages and listings show text and values: text between double quotes with everything
that would not show escaped, lists in brackets, and JSON values with the name of their kind.
-/

namespace Shortcodes.Listing

/-- The hexadecimal digits of `n`, at most `fuel` of them, the last first. -/
def hexUpTo : (fuel : Nat) → Nat → Text
  | 0, _ => []
  | fuel + 1, n => Json.hexDigit (n % 16) :: if n < 16 then [] else hexUpTo fuel (n / 16)

/-- A character inside a listed text. Characters that would not show by themselves are written
    by code point. -/
def escaped (c : Char) : Text :=
  if c = '"' then ['\\', '"']
  else if c = '\\' then ['\\', '\\']
  else if c = '\n' then ['\\', 'n']
  else if c = '\r' then ['\\', 'r']
  else if c = '\t' then ['\\', 't']
  else if c.toNat = 0 then ['\\', '0']
  else if !isShown c then
    ['\\', 'u', '\x7b'] ++ (hexUpTo 8 c.toNat).reverse ++ ['\x7d']
  else [c]

/-- A text between double quotes. -/
def text (t : Text) : Text := '"' :: t.flatMap escaped ++ ['"']

/-- Items in brackets. -/
def list (items : List Text) : Text := '[' :: Text.join ", ".toList items ++ [']']

/-- An optional value, with the name of its case. -/
def option : Option Text → Text
  | none => "None".toList
  | some t => "Some(".toList ++ t ++ [')']

/-- A truth value. -/
def truth (b : Bool) : Text := if b then "true".toList else "false".toList

/-- Named fields in braces after the name of their kind. -/
def fields (kind : Text) (pairs : List (String × Text)) : Text :=
  kind ++ [' ', '\x7b', ' '] ++
    Text.join ", ".toList (pairs.map fun (name, value) => name.toList ++ ": ".toList ++ value) ++
    [' ', '\x7d']

mutual

/-- A JSON value with the name of its kind. -/
def json : Json → Text
  | .null => "Null".toList
  | .bool b => "Bool(".toList ++ truth b ++ [')']
  | .number n => "Number(".toList ++ n.text ++ [')']
  | .string s => "String(".toList ++ text s ++ [')']
  | .array items => "Array [".toList ++ jsonItems items ++ [']']
  | .object ms => "Object \x7b".toList ++ jsonMembers ms ++ ['\x7d']

/-- The items of an array, between commas. -/
def jsonItems : List Json → Text
  | [] => []
  | [v] => json v
  | v :: rest => json v ++ ", ".toList ++ jsonItems rest

/-- The members of an object, between commas. -/
def jsonMembers : List (Text × Json) → Text
  | [] => []
  | [(k, v)] => text k ++ ": ".toList ++ json v
  | (k, v) :: rest => text k ++ ": ".toList ++ json v ++ ", ".toList ++ jsonMembers rest

end

end Shortcodes.Listing
