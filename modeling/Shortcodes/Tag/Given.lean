import Shortcodes.Tag.Basic

/-!
# The words of a tag, sorted by kind

Plain words count by position and keyed words by key. A key that is given again keeps its
place and takes the later value.
-/
namespace Shortcodes

/-- What a tag gives to its shortcode. -/
structure Given where
  positional : List Text
  keyed : List (Text × Text)
  deriving DecidableEq, Repr

namespace Given

/-- Nothing given. -/
def empty : Given := ⟨[], []⟩

/-- The pairs with `key` set to `value`: in place if the key is there, else at the end. -/
def assign (key value : Text) : List (Text × Text) → List (Text × Text)
  | [] => [(key, value)]
  | (k, v) :: rest => if k = key then (k, value) :: rest else (k, v) :: assign key value rest

/-- Adds one word. -/
def add (given : Given) : Word → Given
  | .plain value => { given with positional := given.positional ++ [value] }
  | .keyed key value => { given with keyed := assign key value given.keyed }

/-- Sorts words by kind. -/
def ofWords (words : List Word) : Given := words.foldl add empty

/-- What an argument text gives. -/
def ofText (t : Text) : Except WordFault Given := (Word.readAll t).map ofWords

end Given

/-- What a tag gives. -/
def Tag.given (t : Tag) : Except WordFault Given := Given.ofText t.arguments

end Shortcodes
