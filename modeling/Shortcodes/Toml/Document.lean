import Shortcodes.Toml.Scalar

/-!
# TOML: tables and documents

A document is a table of tables. Headers and dotted keys may add to a table only as long as it
was not stated as a whole: a table has one header, dotted keys do not reopen a table that has
one, and a table in braces is closed. A table whose first key is the moment key is no table but
the date or time that the string at that key spells.
-/

namespace Shortcodes.Toml

/-! ### Tables that grow -/

/-- How a table came to be. -/
structure Origin where
  /-- Only as part of the path of another table or key. -/
  implied : Bool := false
  /-- Through dotted keys. -/
  dotted : Bool := false
  deriving DecidableEq, Repr

/-- What stands at a key. -/
inductive Item where
  | scalar (v : Scalar)
  | array (items : List Item)
  /-- A table in braces. -/
  | closed (members : List (Text × Item))
  | table (origin : Origin) (members : List (Text × Item))
  /-- The tables of an array, in order. -/
  | tables (rows : List (List (Text × Item)))
  deriving Inhabited

/-- The members of a table. -/
abbrev Table := List (Text × Item)

/-- The members with an item at a key, in place or at the end. -/
def put (key : Text) (item : Item) : Table → Table
  | [] => [(key, item)]
  | (k, i) :: rest => if k = key then (k, item) :: rest else (k, i) :: put key item rest

/-- Changes the table at the end of a path of keys. Tables that are missing on the way are
    implied; through `dotted` keys the way may not lead into a table that was stated. -/
def editAt (dotted : Bool) (f : Origin → Table → Option (Origin × Table)) :
    List Text → Origin → Table → Option (Origin × Table)
  | [], origin, members => f origin members
  | key :: path, origin, members =>
    match Members.get? key members with
    | none => do
      let (o, ms) ← editAt dotted f path { implied := true, dotted } []
      return (origin, put key (.table o ms) members)
    | some (.tables rows) => do
      let last ← rows.getLast?
      let (_, ms) ← editAt dotted f path {} last
      return (origin, put key (.tables (rows.dropLast ++ [ms])) members)
    | some (.table o ms) => do
      if dotted && !o.implied then none
      let (o, ms) ← editAt dotted f path o ms
      return (origin, put key (.table o ms) members)
    | some _ => none

/-- Adds a key to a table that the way to it belongs to. -/
def addKey (direct : Bool) (key : Text) (item : Item) (origin : Origin) (members : Table) :
    Option (Origin × Table) :=
  if origin.dotted = direct then none
  else if (Members.get? key members).isSome then none
  else some (origin, members ++ [(key, item)])

/-- Adds a key at the end of a path of dotted keys. -/
def addDotted (path : List Text) (item : Item) (origin : Origin) (members : Table) :
    Option (Origin × Table) := do
  let key ← path.getLast?
  let way := path.dropLast
  editAt true (addKey way.isEmpty key item) way origin members

/-- States a table by its header. A table that was implied moves to the end. -/
def openTable (path : List Text) (root : Table) : Option Table := do
  let key ← path.getLast?
  let stated (origin : Origin) (members : Table) : Option (Origin × Table) :=
    match Members.get? key members with
    | none => some (origin, put key (.table {} []) members)
    | some (.table o ms) =>
      if o.implied && !o.dotted then
        some (origin, members.filter (·.1 ≠ key) ++ [(key, .table {} ms)])
      else none
    | some _ => none
  return (← editAt false stated path.dropLast {} root).2

/-- Starts a further table of an array by its header. -/
def openRow (path : List Text) (root : Table) : Option Table := do
  let key ← path.getLast?
  let started (origin : Origin) (members : Table) : Option (Origin × Table) :=
    match Members.get? key members with
    | none => some (origin, put key (.tables [[]]) members)
    | some (.tables rows) => some (origin, put key (.tables (rows ++ [[]])) members)
    | some _ => none
  return (← editAt false started path.dropLast {} root).2

/-- The key whose table stands for a date or time. -/
def momentKey : Text := "$__toml_private_datetime".toList

mutual

/-- The value of an item; none for a table that should spell a date or time and does not. -/
def Item.toJson? : Item → Option Json
  | .scalar v => some v.toJson
  | .array items => (itemsToJson? items).map .array
  | .closed members | .table _ members => tableToJson? members
  | .tables rows => (rowsToJson? rows).map .array

/-- The values of items. -/
def itemsToJson? : List Item → Option (List Json)
  | [] => some []
  | item :: rest => do return (← item.toJson?) :: (← itemsToJson? rest)

/-- The value of a table. -/
def tableToJson? (members : List (Text × Item)) : Option Json :=
  match members with
  | [] => some (.object [])
  | (key, item) :: rest =>
    if key = momentKey then
      match item with
      | .scalar (.string t) => (dateTime? t).map .string
      | _ => none
    else do return .ofMembers ((key, ← item.toJson?) :: (← membersToJson? rest))

/-- The values of members. -/
def membersToJson? : List (Text × Item) → Option (List (Text × Json))
  | [] => some []
  | (key, item) :: rest => do return (key, ← item.toJson?) :: (← membersToJson? rest)

/-- The values of the tables of an array. -/
def rowsToJson? : List (List (Text × Item)) → Option (List Json)
  | [] => some []
  | row :: rest => do return (← tableToJson? row) :: (← rowsToJson? rest)

end

/-! ### Keys -/

/-- Reads a simple key. -/
def simpleKey? (t : Text) : Option (Text × Text) :=
  match t with
  | '"' :: rest => basic? (t.length + 1) rest
  | '\'' :: rest => literal? rest
  | _ =>
    let key := t.takeWhile isBareKey
    if key = [] then none else some (key, t.dropWhile isBareKey)

/-- Reads a key with dots, in at most `fuel` parts, and the blanks after it. -/
def key? : (fuel : Nat) → Text → Option (List Text × Text)
  | 0, _ => none
  | fuel + 1, t => do
    let (first, rest) ← simpleKey? (skipSpace t)
    match skipSpace rest with
    | '.' :: more =>
      let (others, tail) ← key? fuel more
      return (first :: others, tail)
    | tail => return ([first], tail)

/-- How deep values and the tables of a key may nest, and one more. -/
def nestingBound : Nat := 80

/-- Reads a key with dots and the blanks after it. -/
def dottedKey? (t : Text) : Option (List Text × Text) := do
  let (path, rest) ← key? (t.length + 1) t
  if path.length < nestingBound then some (path, rest) else none

/-! ### Values -/

mutual

/-- Reads a value; `depth` bounds how deep arrays and tables nest. -/
def value? : (depth fuel : Nat) → Text → Option (Item × Text)
  | _, 0, _ => none
  | depth, fuel + 1, t =>
    match t with
    | '"' :: _ | '\'' :: _ => (string? t).map fun (s, tail) => (.scalar (.string s), tail)
    | '[' :: rest =>
      if depth = 0 then none
      else (items? (depth - 1) fuel rest).map fun (items, tail) => (.array items, tail)
    | '\x7b' :: rest =>
      if depth = 0 then none
      else
        match skipSpace rest with
        | '\x7d' :: tail => some (.closed [], tail)
        | start => do
          let (members, tail) ← pairs? (depth - 1) fuel [] start
          return (.closed members, tail)
    | _ =>
      let (word, tail) := splitScalar t
      (Scalar.ofWord? word).map fun v => (.scalar v, tail)

/-- Reads the items of an array and its closing bracket. -/
def items? : (depth fuel : Nat) → Text → Option (List Item × Text)
  | _, 0, _ => none
  | depth, fuel + 1, t => do
    match ← skipLines? (t.length + 1) t with
    | ']' :: tail => return ([], tail)
    | start =>
      let (v, rest) ← value? depth fuel start
      match ← skipLines? (rest.length + 1) rest with
      | ',' :: more =>
        let (items, tail) ← items? depth fuel more
        return (v :: items, tail)
      | ']' :: tail => return ([v], tail)
      | _ => none

/-- Reads the pairs of a table in braces, of which there is one, and its closing brace. -/
def pairs? : (depth fuel : Nat) → Table → Text → Option (Table × Text)
  | _, 0, _, _ => none
  | depth, fuel + 1, seen, t => do
    let (path, rest) ← dottedKey? t
    let '=' :: rest := rest | none
    let (item, rest) ← value? depth fuel (skipSpace rest)
    let (_, seen) ← addDotted path item {} seen
    match skipSpace rest with
    | ',' :: more => pairs? depth fuel seen more
    | '\x7d' :: tail => return (seen, tail)
    | _ => none

end

/-! ### Documents -/

/-- What follows the end of a line that holds nothing more. -/
def lineEnd? (t : Text) : Option Text := do
  let rest ← comment? (skipSpace t)
  if rest = [] then some [] else lineBreak? rest

/-- Reads a header after its opening brackets, up to `closer`. -/
def header? (closer : Text) (t : Text) : Option (List Text × Text) := do
  let (path, rest) ← dottedKey? t
  return (path, ← lineEnd? (← Text.after? closer rest))

/-- Reads lines, in at most `fuel` of them, into the table that the last header opened. -/
def lines? : (fuel : Nat) → (current : List Text) → (root : Table) → Text → Option Table
  | 0, _, root, _ => some root
  | fuel + 1, current, root, t =>
    match skipSpace t with
    | [] => some root
    | '[' :: '[' :: rest => do
      let (path, tail) ← header? [']', ']'] rest
      lines? fuel path (← openRow path root) tail
    | '[' :: rest => do
      let (path, tail) ← header? [']'] rest
      lines? fuel path (← openTable path root) tail
    | start =>
      match lineEnd? start with
      | some tail => lines? fuel current root tail
      | none => do
        let (path, rest) ← dottedKey? start
        let '=' :: rest := rest | none
        let (item, rest) ← value? (nestingBound - 1) (rest.length + 1) (skipSpace rest)
        let tail ← lineEnd? rest
        let (_, root) ← editAt false (addDotted path item) current {} root
        lines? fuel current root tail

/-- Reads a TOML document; none if it is not well-formed or not a table. -/
def read? (t : Text) : Option (List (Text × Json)) := do
  let body := match t with
    | '\ufeff' :: rest => rest
    | _ => t
  let root ← lines? (body.length + 1) [] [] body
  match ← tableToJson? root with
  | .object members => some members
  | _ => none

end Shortcodes.Toml
