import Shortcodes.Text.Blank

/-!
# The words of a tag

The argument text of a tag is a row of words between blanks. A word is plain or keyed; a
keyed word `key=value` came from a text with an equals sign that was neither quoted nor
escaped, after at least one character. A word is read from atoms: what one character of the
argument text, or one quotation mark, contributes.
-/
namespace Shortcodes

/-- What a piece of argument text contributes to the words. -/
inductive Atom where
  /-- A blank outside quotation marks. It ends a word. -/
  | gap
  /-- An opening quotation mark. It begins a word even if nothing follows. -/
  | opening
  /-- A character with no quotation mark or backslash about it. -/
  | bare (c : Char)
  /-- A quoted or escaped character. -/
  | guarded (c : Char)
  deriving DecidableEq, Repr

/-- The character that an atom adds to its word. -/
def Atom.letter? : Atom → Option Char
  | gap | opening => none
  | bare c | guarded c => some c

/-- One word of an argument text. -/
inductive Word where
  | plain (value : Text)
  | keyed (key value : Text)
  deriving DecidableEq, Repr

namespace Word

/-- The whole text of a word, its key and equals sign included. -/
def text : Word → Text
  | plain value => value
  | keyed key value => key ++ '=' :: value

/-- The key and the value of a keyed word. -/
def pair? : Word → Option (Text × Text)
  | plain _ => none
  | keyed key value => some (key, value)

/-- The word that a row of atoms spells. The first bare equals sign separates key and value,
    unless nothing stands before it. -/
def ofAtoms (atoms : List Atom) : Word :=
  let key := (atoms.takeWhile (· ≠ .bare '=')).filterMap Atom.letter?
  match atoms.dropWhile (· ≠ .bare '=') with
  | [] => plain key
  | _ :: value =>
    if key = [] then plain ('=' :: value.filterMap Atom.letter?)
    else keyed key (value.filterMap Atom.letter?)

/-- The rows of atoms between gaps, without the empty ones. -/
def groups : List Atom → List (List Atom)
  | [] => []
  | .gap :: rest => groups rest
  | a :: rest =>
    match rest with
    | [] => [[a]]
    | .gap :: _ => [a] :: groups rest
    | _ :: _ =>
      match groups rest with
      | [] => [[a]]
      | first :: others => (a :: first) :: others

end Word

end Shortcodes
