import Shortcodes.Context
import Shortcodes.Signature.Canonical

/-!
# Shortcodes

What the registry needs of a shortcode: its signature, how it binds the words of a tag, how it
renders arguments, and how, if at all, it turns its own output in a text back into tags.
-/

namespace Shortcodes

/-- A shortcode. -/
structure Shortcode where
  signature : Signature
  bind : Given → Except Failure Arguments := signature.bind
  convert : Arguments → Context → Except Failure Text
  /-- Turns the shortcode's output in a text back into tags. -/
  reverse? : Option (Text → Except Failure Text) := none

namespace Shortcode

/-- The name in tags. -/
def name (s : Shortcode) : Text := s.signature.name

/-- Whether the shortcode's output can be turned back. -/
def isReversible (s : Shortcode) : Bool := s.reverse?.isSome

/-- Turns the shortcode's output in a text back into tags, if it can. -/
def reverse (s : Shortcode) (t : Text) : Except Failure Text :=
  match s.reverse? with
  | some f => f t
  | none => .error (.notReversible s.name)

end Shortcode

end Shortcodes
