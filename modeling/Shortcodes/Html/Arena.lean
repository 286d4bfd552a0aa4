import Shortcodes.Html.Node

/-!
# Growing trees

While markup is read its nodes move about, so they live in an arena: numbered cells that know
their parent and their children. When reading is done, the cells below one of them become a
tree. Text that arrives right behind text joins it.
-/

namespace Shortcodes.Html

/-- What a cell holds. -/
inductive Content where
  | document
  /-- An element. A template keeps its content below a cell of its own. -/
  | element (label : Label) (inner? : Option Nat)
  /-- A text, the last character first. -/
  | text (reversed : Text)
  | comment (t : Text)
  deriving Repr, Inhabited

/-- A cell of an arena. -/
structure Cell where
  content : Content
  parent : Option Nat := none
  children : List Nat := []
  deriving Repr, Inhabited

/-- Numbered cells. -/
abbrev Arena := Array Cell

namespace Arena

/-- The cell of a number. -/
def cell (a : Arena) (id : Nat) : Cell := a.getD id default

/-- Changes a cell. -/
def change (a : Arena) (id : Nat) (f : Cell → Cell) : Arena := a.modify id f

/-- A new cell without parent, and its number. -/
def create (a : Arena) (content : Content) : Arena × Nat := (a.push { content }, a.size)

/-- The label of an element. -/
def label? (a : Arena) (id : Nat) : Option Label :=
  match (a.cell id).content with
  | .element label _ => some label
  | _ => none

/-- The cell below which the content of a node stands: a template's own, or the node. -/
def host (a : Arena) (id : Nat) : Nat :=
  match (a.cell id).content with
  | .element _ (some inner) => inner
  | _ => id

/-- Puts a node without parent at the end of another's children. -/
def append (a : Arena) (parent child : Nat) : Arena :=
  (a.change parent fun c => { c with children := c.children ++ [child] }).change child
    fun c => { c with parent := some parent }

/-- Takes a node out of its parent's children. -/
def detach (a : Arena) (child : Nat) : Arena :=
  match (a.cell child).parent with
  | none => a
  | some parent =>
    (a.change parent fun c => { c with children := c.children.erase child }).change child
      fun c => { c with parent := none }

/-- The list with an item put before the first occurrence of another. -/
def putBefore (item mark : Nat) : List Nat → List Nat
  | [] => [item]
  | x :: rest => if x = mark then item :: x :: rest else x :: putBefore item mark rest

/-- Puts a node without parent before a node that has one. -/
def insertBefore (a : Arena) (sibling child : Nat) : Arena :=
  match (a.cell sibling).parent with
  | none => a
  | some parent =>
    (a.change parent fun c => { c with children := putBefore child sibling c.children }).change
      child fun c => { c with parent := some parent }

/-- Adds a character to a text. -/
def extendText (a : Arena) (id : Nat) (c : Char) : Arena :=
  a.change id fun cell =>
    match cell.content with
    | .text reversed => { cell with content := .text (c :: reversed) }
    | _ => cell

/-- Whether a cell holds a text. -/
def isText (a : Arena) (id : Nat) : Bool :=
  match (a.cell id).content with
  | .text _ => true
  | _ => false

/-- Puts a character at the end of a node's children, joined to a text that stands there. -/
def appendChar (a : Arena) (parent : Nat) (c : Char) : Arena :=
  match (a.cell parent).children.getLast? with
  | some last =>
    if a.isText last then a.extendText last c
    else
      let (a, id) := a.create (.text [c])
      a.append parent id
  | none =>
    let (a, id) := a.create (.text [c])
    a.append parent id

/-- The node right before another among its siblings. -/
def previous? (a : Arena) (sibling : Nat) : Option Nat := do
  let parent ← (a.cell sibling).parent
  ((a.cell parent).children.takeWhile (· ≠ sibling)).getLast?

/-- Puts a character before a node that has a parent, joined to a text that stands there. -/
def insertCharBefore (a : Arena) (sibling : Nat) (c : Char) : Arena :=
  match a.previous? sibling with
  | some before =>
    if a.isText before then a.extendText before c
    else
      let (a, id) := a.create (.text [c])
      a.insertBefore sibling id
  | none =>
    let (a, id) := a.create (.text [c])
    a.insertBefore sibling id

/-- Moves all children of a node to the end of another's. -/
def moveChildren (a : Arena) (source target : Nat) : Arena :=
  let moved := (a.cell source).children
  let a := moved.foldl (fun a id => a.change id fun c => { c with parent := some target }) a
  (a.change source fun c => { c with children := [] }).change target
    fun c => { c with children := c.children ++ moved }

/-- Gives an element those of the attributes whose names it lacks. -/
def addMissing (a : Arena) (id : Nat) (attributes : List Attribute) : Arena :=
  a.change id fun c =>
    match c.content with
    | .element label inner? =>
      let known := label.attributes
      let new := attributes.filter fun x =>
        !known.any fun y => y.space = x.space && y.name == x.name
      { c with content := .element { label with attributes := known ++ new } inner? }
    | _ => c

/-! ### From cells to trees -/

/-- The tree below a cell, at most `fuel` cells deep. The content of a template does not
    count as its children. -/
def toNodes (a : Arena) : (fuel : Nat) → List Nat → List Node
  | 0, _ => []
  | fuel + 1, ids => ids.filterMap fun id =>
    let cell := a.cell id
    match cell.content with
    | .document => none
    | .element label _ => some (.element label (toNodes a fuel cell.children))
    | .text reversed => some (.text reversed.reverse)
    | .comment t => some (.comment t)

end Arena

end Shortcodes.Html
