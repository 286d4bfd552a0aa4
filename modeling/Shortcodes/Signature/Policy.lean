import Shortcodes.Signature.Basic
import Shortcodes.Json.Basic

/-!
# Keyword policies as data

A policy is written as an object with the members `reject_unknown` and `rejoin`, or as an array
of the two in that order. What is left out takes its default and unknown members are ignored.
-/

namespace Shortcodes

namespace Omission

/-- The written name of an omission. -/
def name : Omission → Text
  | defaults => "omit-defaults".toList
  | empties => "omit-empty".toList

/-- The omission of a written name. -/
def ofName? (t : Text) : Option Omission :=
  if t = defaults.name then some .defaults
  else if t = empties.name then some .empties
  else none

/-- An omission is written as its name, or as an object with the name as its only key and
    `null` as the value. -/
def ofJson? : Json → Option Omission
  | .string t => ofName? t
  | .object [(t, .null)] => ofName? t
  | _ => none

end Omission

namespace KeywordPolicy

/-- The truth value of a policy member. -/
def truth? : Json → Option Bool
  | .bool b => some b
  | _ => none

/-- Reads a policy. -/
def ofJson? : Json → Option KeywordPolicy
  | .object members => do
    let reject ← match Members.get? "reject_unknown".toList members with
      | some v => truth? v
      | none => some true
    let omission ← match Members.get? "rejoin".toList members with
      | some v => Omission.ofJson? v
      | none => some .defaults
    return ⟨reject, omission⟩
  | .array [] => some {}
  | .array [reject] => (truth? reject).map fun b => ⟨b, .defaults⟩
  | .array [reject, omission] => do return ⟨← truth? reject, ← Omission.ofJson? omission⟩
  | _ => none

end KeywordPolicy

end Shortcodes
