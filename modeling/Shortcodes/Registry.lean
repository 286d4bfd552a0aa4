import Shortcodes.Shortcode.Basic

/-!
# Registries

A registry holds shortcodes of different names in the order of their registration, and a context
that renderings use when they are given no other. It expands the tags of a text in one sweep
from the left, and reverses a text shortcode by shortcode.
-/

namespace Shortcodes

/-- Registered shortcodes and their context. -/
structure Registry where
  shortcodes : List Shortcode := []
  context : Context := .empty

namespace Registry

/-- The registry without shortcodes. -/
def empty : Registry := {}

/-- The names in the order of registration. -/
def names (r : Registry) : List Text := r.shortcodes.map Shortcode.name

/-- The number of shortcodes. -/
def size (r : Registry) : Nat := r.shortcodes.length

/-- Whether there are no shortcodes. -/
def isEmpty (r : Registry) : Bool := r.shortcodes.isEmpty

/-- The shortcode of a name. -/
def get? (r : Registry) (name : Text) : Option Shortcode :=
  r.shortcodes.find? fun s => s.name = name

/-- Whether a name is registered. -/
def has (r : Registry) (name : Text) : Bool := r.shortcodes.any fun s => s.name = name

/-- Registers a shortcode under a name that is free. -/
def register (r : Registry) (s : Shortcode) : Except Failure Registry :=
  if r.has s.name then .error (.duplicateName s.name)
  else .ok { r with shortcodes := r.shortcodes ++ [s] }

/-- Registers shortcodes in order. -/
def registerAll (r : Registry) : List Shortcode → Except Failure Registry
  | [] => .ok r
  | s :: rest => do (← r.register s).registerAll rest

/-- The registry of shortcodes in order. -/
def ofList (shortcodes : List Shortcode) : Except Failure Registry :=
  empty.registerAll shortcodes

/-- The registry with another context. -/
def withContext (r : Registry) (context : Context) : Registry := { r with context }

/-! ### Expansion -/

/-- What a tag renders to. -/
def renderTag (r : Registry) (context : Context) (t : Tag) : Except Failure Text := do
  let some s := r.get? t.name | .error (.unknownShortcode t.name t.source)
  let given ← t.given.mapError .badWords
  let args ← s.bind given
  s.convert args context

/-- What a piece of a text renders to. -/
def renderPiece (r : Registry) (context : Context) : Piece → Except Failure Text
  | .plain c => .ok [c]
  | .tag t => r.renderTag context t

/-- What pieces render to, one after the other, or the failure of the first that fails. -/
def renderAll (r : Registry) (context : Context) : List Piece → Except Failure Text
  | [] => .ok []
  | piece :: rest => do
    let front ← r.renderPiece context piece
    let back ← r.renderAll context rest
    return front ++ back

/-- Expands every tag of a text with a context. -/
def expandWith (r : Registry) (context : Context) (t : Text) : Except Failure Text :=
  if r.isEmpty then .error .noShortcodes else r.renderAll context (Tag.sweep t)

/-- Expands every tag of a text with the registry's context. -/
def expand (r : Registry) (t : Text) : Except Failure Text := r.expandWith r.context t

/-! ### Reversal -/

/-- Lets shortcodes turn their output in a text back, one after the other. -/
def reverseAll (t : Text) : List Shortcode → Except Failure Text
  | [] => .ok t
  | s :: rest => do reverseAll (← s.reverse t) rest

/-- Turns the output of every shortcode in a text back into tags, in the order of
    registration. -/
def reverse (r : Registry) (t : Text) : Except Failure Text := reverseAll t r.shortcodes

/-- How a registry is listed. -/
def listing (r : Registry) : Text :=
  Listing.fields "Shortcoder".toList
    [("shortcodes", Listing.list (r.names.map Listing.text)),
     ("context", '\x7b' :: Listing.jsonMembers r.context.entries ++ ['\x7d'])]

end Registry

end Shortcodes
