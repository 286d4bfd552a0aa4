import Shortcodes.Word.Basic

/-!
# Writing a value as one word

The written form of a value is read back as exactly one word with that text, and never
holds the closing mark of a tag. A value is left as it is whenever that is enough.
-/
namespace Shortcodes.Word

/-- The closing mark of a tag. -/
def closer : Text := ['%', ']']

/-- The value between double quotes, with a backslash before each double quote and each
    backslash. -/
def doubleQuoted (value : Text) : Text :=
  '"' :: value.flatMap (fun c => if c = '"' ∨ c = '\\' then ['\\', c] else [c]) ++ ['"']

/-- The value between single quotes. -/
def singleQuoted (value : Text) : Text := '\'' :: value ++ ['\'']

/-- A value written so that `%]` does not show: each `%` of a closing mark ends a double-quoted
    piece, and the bracket follows with a backslash. `fuel` bounds the number of marks. -/
def brokenUpTo : (fuel : Nat) → Text → Text
  | 0, value => doubleQuoted value
  | fuel + 1, value =>
    match Text.cut? closer value with
    | some (piece, rest) => doubleQuoted (piece ++ ['%']) ++ ['\\', ']'] ++ brokenUpTo fuel rest
    | none => if value = [] then [] else doubleQuoted value

/-- The written form of a value with a closing mark in it. -/
def broken (value : Text) : Text := brokenUpTo value.length value

/-- The written form of a value. -/
def written (value : Text) : Text :=
  if value = [] then ['"', '"']
  else if Text.has closer value then broken value
  else if value.contains '"' && !value.contains '\'' then singleQuoted value
  else if value.contains '\'' || value.any isBlank then doubleQuoted value
  else if value.contains '\\' then singleQuoted value
  else value

/-- The written form of a value that must not be taken for a keyed word: a value that stands
    bare although it has an equals sign gets double quotes. -/
def writtenPlain (value : Text) : Text :=
  let form := written value
  if form = value ∧ value.contains '=' then '"' :: value ++ ['"'] else form

end Shortcodes.Word
