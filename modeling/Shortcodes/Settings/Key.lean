import Shortcodes.Json.Basic
import Shortcodes.Text.Lower

/-!
# Keys of settings

A setting is named by a path such as `keyword.rejoin` or `context.list[0]`. Setting a value makes
the tables and arrays on the way; a table that is set adds to the one that is there, and any
other value takes its place. Keys do not distinguish case.
-/

namespace Shortcodes.Settings

/-- A step of a setting's path after its first name. -/
inductive KeyStep where
  | name (key : Text)
  /-- A position in an array; a negative one counts from the end. -/
  | position (n : Int)
  deriving DecidableEq, Repr

/-- The path of a setting. -/
structure Key where
  first : Text
  steps : List KeyStep := []
  deriving DecidableEq, Repr

namespace Key

/-! ### Reading -/

/-- Whether a character may stand in a name. -/
def isNameChar (c : Char) : Bool := c.isAlphanum || c = ' ' || c = '_' || c = '-'

/-- The name at the start of a text. -/
def name? (t : Text) : Option (Text × Text) :=
  let name := t.takeWhile isNameChar
  if name = [] then none else some (name, t.dropWhile isNameChar)

/-- The position at the start of a text, with blanks about it, and its closing bracket. -/
def position? (t : Text) : Option (Int × Text) := do
  let isSpace (c : Char) : Bool := c = ' ' || c = '\t'
  let t := t.dropWhile isSpace
  let (negative, t) := match t with
    | '-' :: rest => (true, rest)
    | _ => (false, t)
  let digits := t.takeWhile Char.isDigit
  if digits = [] then none
  let n ← Text.digitsValue? 0 digits
  let position : Int := if negative then -(n : Int) else n
  if !Number.fitsSigned position then none
  let tail ← Text.after? [']'] ((t.dropWhile Char.isDigit).dropWhile isSpace)
  return (position, tail)

/-- The steps that a text spells, in at most `fuel` of them. -/
def steps? : (fuel : Nat) → Text → Option (List KeyStep)
  | 0, _ => some []
  | _ + 1, [] => some []
  | fuel + 1, '.' :: rest => do
    let (key, tail) ← name? rest
    return .name key :: (← steps? fuel tail)
  | fuel + 1, '[' :: rest => do
    let (n, tail) ← position? rest
    return .position n :: (← steps? fuel tail)
  | _ + 1, _ => none

/-- Reads a path as it is spelled. -/
def read? (t : Text) : Option Key := do
  let (first, rest) ← name? t
  return ⟨first, ← steps? rest.length rest⟩

/-! ### Setting values -/

/-- The members of a table; anything else counts as an empty table. -/
def tableOf : Json → List (Text × Json)
  | .object members => members
  | _ => []

/-- The items of an array; anything else counts as an empty array. -/
def itemsOf : Json → List Json
  | .array items => items
  | _ => []

mutual

/-- Sets a key of a table to a value: tables add up, other values replace. -/
def assign (key : Text) (value : Json) (target : Json) : Json :=
  let key := Text.lower key
  let members := tableOf target
  match value with
  | .object incoming =>
    let inner := (Members.get? key members).getD (.object [])
    .object (Members.set key (assignAll incoming inner) members)
  | v => .object (Members.set key v members)

/-- Sets the keys of incoming members one after the other. -/
def assignAll (incoming : List (Text × Json)) (target : Json) : Json :=
  match incoming with
  | [] => target
  | (key, value) :: rest => assignAll rest (assign key value target)

end

/-- The place of a position in an array of a size: none before its start. -/
def placeOf (n : Int) (size : Nat) : Option Nat :=
  if 0 ≤ n then some n.toNat
  else if n.natAbs ≤ size then some (size - n.natAbs)
  else none

/-- Changes the item at a place, filling up with nulls. -/
def changeItem (place : Nat) (f : Json → Json) (items : List Json) : List Json :=
  let items := items ++ List.replicate (place + 1 - items.length) .null
  items.set place (f (items.getD place .null))

/-- Sets what steps lead to from a target. The last step sets, the others make their way. -/
def setFrom (value : Json) : List KeyStep → Json → Json
  | [], _ => value
  | [.name key], target => assign key value target
  | .name key :: rest, target =>
    let key := Text.lower key
    let members := tableOf target
    let inner := (Members.get? key members).getD .null
    .object (Members.set key (setFrom value rest inner) members)
  | .position n :: rest, target =>
    let items := itemsOf target
    match placeOf n items.length with
    | some place => .array (changeItem place (setFrom value rest) items)
    | none => .array items

/-- Sets the setting of a path. -/
def set (key : Key) (value : Json) (root : Json) : Json :=
  setFrom value (.name key.first :: key.steps) root

/-- Sets the setting of a name that may spell a path. -/
def setNamed (name : Text) (value : Json) (root : Json) : Json :=
  match read? name with
  | some key => key.set value root
  | none => assign name value root

end Key

end Shortcodes.Settings
