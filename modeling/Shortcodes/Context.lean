import Shortcodes.Json.Basic

/-!
# Contexts

A context is a table of named values that every rendering can read. Its entries are sorted by
name and no name occurs twice; two contexts with the same look-ups are equal.
-/

namespace Shortcodes

/-- Named values, sorted by name. -/
structure Context where
  entries : List (Text × Json) := []
  deriving Inhabited

namespace Context

/-- The context without values. -/
def empty : Context := ⟨[]⟩

/-- The value of a name. -/
def get? (c : Context) (name : Text) : Option Json := Members.get? name c.entries

/-- Gives a name a value, in place of the one it had. -/
def set (c : Context) (name : Text) (value : Json) : Context :=
  ⟨Members.set name value c.entries⟩

/-- The context with the given entries; of several with one name the last counts. -/
def ofList (pairs : List (Text × Json)) : Context := ⟨Members.ofList pairs⟩

/-- The entries of both contexts; where both have a name, the second counts. -/
def merge (base own : Context) : Context :=
  own.entries.foldl (fun c (name, value) => c.set name value) base

/-- The context as a JSON object. -/
def toJson (c : Context) : Json := .object c.entries

end Context

end Shortcodes
