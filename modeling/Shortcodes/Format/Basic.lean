import Shortcodes.Text.Blank
import Shortcodes.Failure

/-!
# Format texts

A format text is literal characters and placeholders `{key}`; a literal brace is written twice.
Reading gives the parts up to the first brace without a partner, and writing parts out doubles
the literal braces again.
-/

namespace Shortcodes

/-- A part of a format text. -/
inductive FormatPart where
  | literal (c : Char)
  | placeholder (key : Text)
  deriving DecidableEq, Repr

namespace FormatPart

/-- The opening brace. -/
def opener : Char := '\x7b'

/-- The closing brace. -/
def closer : Char := '\x7d'

/-- How a part is written. -/
def written : FormatPart → Text
  | literal c => if c = opener ∨ c = closer then [c, c] else [c]
  | placeholder key => opener :: key ++ [closer]

/-- How parts are written. -/
def writtenAll (parts : List FormatPart) : Text := parts.flatMap written

end FormatPart

/-- A format text that was read: its parts, and the byte offset of the first brace without a
    partner, at which reading stops. -/
structure FormatReading where
  parts : List FormatPart
  unbalanced : Option Nat
  deriving DecidableEq, Repr

namespace FormatReading

/-- Puts a part in front. -/
def before (part : FormatPart) (r : FormatReading) : FormatReading :=
  { r with parts := part :: r.parts }

/-- Reads the format text that starts at byte `offset`. In a placeholder that was opened at
    byte `start`, `key` is what was read of its key, the last character first. -/
def readFrom : (open? : Option (Nat × Text)) → (offset : Nat) → Text → FormatReading
  | none, _, [] => ⟨[], none⟩
  | some (start, _), _, [] => ⟨[], some start⟩
  | none, offset, '\x7b' :: '\x7b' :: rest =>
    before (.literal FormatPart.opener) (readFrom none (offset + 2) rest)
  | none, offset, '\x7d' :: '\x7d' :: rest =>
    before (.literal FormatPart.closer) (readFrom none (offset + 2) rest)
  | none, offset, '\x7d' :: _ => ⟨[], some offset⟩
  | none, offset, '\x7b' :: rest => readFrom (some (offset, [])) (offset + 1) rest
  | none, offset, c :: rest =>
    before (.literal c) (readFrom none (offset + c.utf8Size) rest)
  | some (_, key), offset, '\x7d' :: rest =>
    before (.placeholder key.reverse) (readFrom none (offset + 1) rest)
  | some (start, key), offset, c :: rest =>
    readFrom (some (start, c :: key)) (offset + c.utf8Size) rest

/-- Reads a format text. -/
def read (t : Text) : FormatReading := readFrom none 0 t

end FormatReading

end Shortcodes
