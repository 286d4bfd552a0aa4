import Shortcodes.Html.Builder.Basic

/-!
# Formatting elements

Formatting such as `<b>` survives wrongly nested tags: an element that something else closed is
opened again where text goes on, and an end tag that crosses other elements splits them. At most
three equal formatting elements are remembered.
-/

namespace Shortcodes.Html.Builder

/-! ### The remembered elements -/

/-- The entries that are newer than the last bound, newest first. -/
def sinceBound : List Formatting → List (Nat × StartTag)
  | [] | .bound :: _ => []
  | .element id tag :: rest => (id, tag) :: sinceBound rest

/-- Forgets everything up to and with the last bound. -/
def forgetToBound (b : Builder) : Builder :=
  { b with formatting := (b.formatting.dropWhile (· ≠ .bound)).tail }

/-- Sets a bound. -/
def pushBound (b : Builder) : Builder := { b with formatting := .bound :: b.formatting }

/-- Whether an entry is the element of a number. -/
def isEntry (id : Nat) : Formatting → Bool
  | .bound => false
  | .element i _ => i = id

/-- Forgets an element. -/
def forget (b : Builder) (id : Nat) : Builder :=
  { b with formatting := b.formatting.eraseP (isEntry id) }

/-- Whether an element is remembered. -/
def remembers (b : Builder) (id : Nat) : Bool := b.formatting.any (isEntry id)

/-- Puts an entry in the place of an element's. -/
def replaceEntry (b : Builder) (id : Nat) (entry : Formatting) : Builder :=
  { b with formatting := b.formatting.map fun e => if isEntry id e then entry else e }

/-- The list with an entry right on the newer side of an element's. -/
def addNewerThan (id : Nat) (entry : Formatting) : List Formatting → List Formatting
  | [] => []
  | e :: rest => if isEntry id e then entry :: e :: rest else e :: addNewerThan id entry rest

/-- Whether two start tags have the same name and the same attributes in any order. -/
def sameTag (s t : StartTag) : Bool :=
  s.name == t.name && s.attributes.length == t.attributes.length &&
    s.attributes.all t.attributes.contains

/-- Forgets the oldest of three elements that equal a new one. -/
def makeRoom (b : Builder) (tag : StartTag) : Builder :=
  let equal := (sinceBound b.formatting).filter fun (_, t) => sameTag tag t
  if 3 ≤ equal.length then
    match equal.getLast? with
    | some (id, _) => b.forget id
    | none => b
  else b

/-- Opens a formatting element and remembers it. -/
def insertFormatting (b : Builder) (tag : StartTag) : Builder :=
  let b := b.makeRoom tag
  let (b, e) := b.insertLabel (htmlLabel tag)
  { b with formatting := .element e.id tag :: b.formatting }

/-! ### Opening again -/

/-- Whether formatting need not be opened again from an entry on. -/
def isSettled (b : Builder) : Formatting → Bool
  | .bound => true
  | .element id _ => b.stack.any (·.id = id)

/-- Opens a remembered element again. -/
def reopen (b : Builder) : Formatting → Builder
  | .bound => b
  | .element id tag =>
    let (b, e) := b.insertLabel (htmlLabel { tag with selfClosing := false })
    b.replaceEntry id (.element e.id tag)

/-- Opens the remembered elements again that are no longer open, the oldest first. -/
def reopenFormatting (b : Builder) : Builder :=
  (b.formatting.takeWhile fun e => !b.isSettled e).reverse.foldl reopen b

/-! ### End tags in general -/

/-- Closes what an end tag names, unless a special element is met before. -/
def closeNamed (b : Builder) (name : String) : Builder :=
  match b.stack.find? fun e => e.isHtml name || e.isAnyOf Names.special with
  | none => b
  | some e =>
    if e.isHtml name then
      let b := b.closeImpliedExcept name
      { b with stack := (b.stack.dropWhile (·.id ≠ e.id)).tail }
    else b

/-! ### End tags of formatting elements -/

/-- What splitting has built from the inside: the state, the open elements that stay, innermost
    first, the node that was moved last, and the element whose entry the new one follows. -/
structure Splitting where
  builder : Builder
  kept : List OpenElement := []
  last : Nat
  follows : Option Nat := none

/-- Handles one element between the block and the formatting element, the `count`-th from the
    inside: a remembered one among the first three is cloned around what was moved last, any
    other is closed and, after the third, forgotten. -/
def splitOne (s : Splitting) (count block : Nat) (e : OpenElement) : Splitting :=
  if 3 < count then { s with builder := s.builder.forget e.id }
  else
    match s.builder.formatting.find? (isEntry e.id) with
    | some (.element _ tag) =>
      let (b, clone) := s.builder.createElement (htmlLabel tag)
      let b := b.replaceEntry e.id (.element clone.id tag)
      let b := { b with arena := (b.arena.detach s.last).append clone.id s.last }
      { builder := b, kept := s.kept ++ [clone], last := clone.id,
        follows := if s.last = block then some clone.id else s.follows }
    | _ => s

/-- Handles the elements between the block and the formatting element, from the inside. -/
def splitAll (s : Splitting) (count block : Nat) : List OpenElement → Splitting
  | [] => s
  | e :: rest => splitAll (splitOne s count block e) (count + 1) block rest

/-- Splits a formatting element around the outermost special element in it. `inner` are the open
    elements inside that block, `between` those between the two, `outer` those around the
    formatting element; all innermost first. -/
def splitAround (b : Builder) (formatting : OpenElement) (tag : StartTag) (block : OpenElement)
    (inner between outer : List OpenElement) : Builder :=
  let s := splitAll { builder := b, last := block.id } 1 block.id between
  let b := s.builder
  let b := { b with
    arena := b.arena.detach s.last
    stack := inner ++ block :: s.kept ++ formatting :: outer }
  let b := b.insertAt (b.placeIn (outer.headD default)) s.last
  let (b, clone) := b.createElement (htmlLabel tag)
  let b := { b with
    arena := (b.arena.moveChildren block.id clone.id).append block.id clone.id }
  let entry := Formatting.element clone.id tag
  let b := match s.follows with
    | none => b.replaceEntry formatting.id entry
    | some other =>
      { b with formatting := addNewerThan other entry b.formatting }.forget formatting.id
  { b with stack := inner ++ clone :: block :: s.kept ++ outer }

/-- What one round of closing a formatting element comes to. -/
inductive Round where
  | finished (b : Builder)
  | further (b : Builder)

/-- One round of closing the newest formatting element of a name. -/
def closeRound (b : Builder) (name : String) : Round :=
  match (sinceBound b.formatting).find? fun (_, tag) => tag.name == name with
  | none => .finished (b.closeNamed name)
  | some (id, tag) =>
    match b.stack.dropWhile (·.id ≠ id) with
    | [] => .finished (b.forget id)
    | formatting :: outer =>
      if !inScopeWhere OpenElement.boundsScope (·.id = id) b.stack then .finished b
      else
        let above := b.stack.takeWhile (·.id ≠ id)
        let between := (above.reverse.takeWhile fun e => !e.isAnyOf Names.special).reverse
        match above.reverse.dropWhile fun e => !e.isAnyOf Names.special with
        | [] => .finished ({ b with stack := outer }.forget id)
        | block :: innerReversed =>
          .further (b.splitAround formatting tag block innerReversed.reverse between outer)

/-- Closes the newest formatting element of a name in at most `rounds` rounds. -/
def closeRounds (name : String) : (rounds : Nat) → Builder → Builder
  | 0, b => b
  | rounds + 1, b =>
    match b.closeRound name with
    | .finished b => b
    | .further b => closeRounds name rounds b

/-- The end tag of a formatting element. -/
def closeFormatting (b : Builder) (name : String) : Builder :=
  match b.stack with
  | e :: _ => if e.isHtml name && !b.remembers e.id then b.pop else closeRounds name 8 b
  | [] => b

/-- Closes a link that is open where a new one starts. -/
def closeOpenLink (b : Builder) : Builder :=
  match (sinceBound b.formatting).find? fun (_, tag) => tag.name == "a" with
  | none => b
  | some (id, _) => ((b.closeFormatting "a").forget id).removeOpen id

end Shortcodes.Html.Builder
