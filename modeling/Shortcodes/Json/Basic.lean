import Shortcodes.Json.Shortest

/-!
# JSON values

The values of contexts and settings. Numbers keep their kind: a whole number within 64 bits
stays whole, any other is a double. The members of an object are kept sorted by key, each key
once.
-/

namespace Shortcodes

/-- The double nearest to `n * 10 ^ exponent`. Beyond the range of doubles the answer needs no
    arithmetic. -/
def nearestDouble (n : Nat) (exponent : Int) : Float :=
  let digits : Int := n.log2 / 3 + 1
  if n = 0 || exponent + digits < -400 then 0.0
  else if 400 < exponent then 1.0 / 0.0
  else Float.ofScientific n (exponent < 0) exponent.natAbs

/-- A number of a JSON value. -/
inductive Number where
  | whole (n : Int)
  | real (x : Float)
  deriving DecidableEq, Inhabited

namespace Number

/-- The number of values of 64 bits. -/
def wordBound : Nat := 0x10000000000000000

/-- The size of the least integer of 64 bits with a sign, one more than that of the greatest. -/
def signedBound : Nat := 0x8000000000000000

/-- Whether an integer fits 64 bits with its sign. -/
def fitsSigned (n : Int) : Bool := -(signedBound : Int) ≤ n && n < (signedBound : Int)

end Number

/-- A JSON value. -/
inductive Json where
  | null
  | bool (b : Bool)
  | number (n : Number)
  | string (s : Text)
  | array (items : List Json)
  | object (members : List (Text × Json))
  deriving Inhabited

/-! ### Members of an object -/

namespace Members

/-- The value at `key`. -/
def get? {α : Type} (key : Text) : List (Text × α) → Option α
  | [] => none
  | (k, v) :: rest => if k = key then some v else get? key rest

/-- Sets `key` to `value` among members sorted by key. -/
def set {α : Type} (key : Text) (value : α) : List (Text × α) → List (Text × α)
  | [] => [(key, value)]
  | (k, v) :: rest =>
    if k = key then (key, value) :: rest
    else if Text.precedes key k then (key, value) :: (k, v) :: rest
    else (k, v) :: set key value rest

/-- The members sorted by key. Of several with one key the last counts. -/
def ofList {α : Type} (pairs : List (Text × α)) : List (Text × α) :=
  pairs.foldl (fun members (key, value) => set key value members) []

end Members

namespace Json

/-- An object with the given members. -/
def ofMembers (pairs : List (Text × Json)) : Json := object (Members.ofList pairs)

/-- The value of a member, for an object that has it. -/
def member? (key : Text) : Json → Option Json
  | object members => Members.get? key members
  | _ => none

end Json

end Shortcodes
