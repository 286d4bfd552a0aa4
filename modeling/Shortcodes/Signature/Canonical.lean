import Shortcodes.Signature.Arguments
import Shortcodes.Word.Writing

/-!
# Canonical tags

The canonical tag of arguments gives every input the value it has there, an absent value
counting as the empty one, and leaves out what binding supplies: by position the trailing
values that equal the fallback, by key the pairs that the policy names.
-/

namespace Shortcodes

/-- Drops the pairs at the end for which `droppable` holds. -/
def dropTrailing {α : Type} (droppable : α → Bool) (items : List α) : List α :=
  (items.reverse.dropWhile droppable).reverse

namespace Signature

/-- The words of the canonical tag by position. -/
def positionalWords (s : Signature) (args : Arguments) : List Text :=
  let values := s.inputs.map fun input => (input, args.getOrEmpty input.name)
  (dropTrailing (fun (input, value) => value = input.fallback) values).map
    fun (_, value) => Word.writtenPlain value

/-- Whether the canonical tag leaves out the pair of an input. -/
def omits (omission : Omission) (input : Input) (value : Text) : Bool :=
  match omission with
  | .defaults => value = input.fallback
  | .empties => value = []

/-- The words of the canonical tag by key. -/
def keywordWords (s : Signature) (omission : Omission) (args : Arguments) : List Text :=
  s.inputs.filterMap fun input =>
    let value := args.getOrEmpty input.name
    if omits omission input value then none
    else some (input.name ++ '=' :: Word.written value)

/-- The words of the canonical tag. -/
def canonicalWords (s : Signature) (args : Arguments) : List Text :=
  match s.binding with
  | .positional => s.positionalWords args
  | .keyword policy => s.keywordWords policy.omission args

/-- The canonical tag of arguments. -/
def canonical (s : Signature) (args : Arguments) : Text :=
  match s.canonicalWords args with
  | [] => ['[', '%'] ++ s.name ++ [' ', '%', ']']
  | words => ['[', '%'] ++ s.name ++ ' ' :: Text.join [' '] words ++ [' ', '%', ']']

end Signature

end Shortcodes
