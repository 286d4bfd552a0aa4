import Shortcodes.Html.Arena
import Shortcodes.Html.Token.Basic

/-!
# The state of reading markup

Tokens build a tree through a stack of open elements. The state also knows the insertion mode,
the formatting elements that wrongly nested tags leave to be opened again, and a few marks that
change how the next tokens count. This module holds the state, the questions about open elements
and the places where new nodes go.
-/

namespace Shortcodes.Html

/-- Which rules the next token meets. -/
inductive Mode where
  | initial
  | beforeHtml
  | beforeHead
  | inHead
  | afterHead
  | inBody
  | text
  | inTable
  | inTableText
  | inCaption
  | inColumnGroup
  | inTableBody
  | inRow
  | inCell
  | inSelect
  | inSelectInTable
  | inTemplate
  | afterBody
  | inFrameset
  | afterFrameset
  | afterAfterBody
  | afterAfterFrameset
  deriving DecidableEq, Repr, Inhabited

/-- An open element. -/
structure OpenElement where
  id : Nat
  space : Space
  name : String
  /-- Whether HTML may stand in it although it is MathML. -/
  holdsHtml : Bool := false
  deriving DecidableEq, Repr, Inhabited

namespace OpenElement

/-- Whether it is the HTML element of a name. -/
def isHtml (e : OpenElement) (name : String) : Bool := e.space = .html && e.name == name

/-- Whether it is an HTML element with one of the names. -/
def isAnyOf (e : OpenElement) (names : List String) : Bool :=
  e.space = .html && names.contains e.name

/-- Whether it is a MathML element that holds text. -/
def isMathText (e : OpenElement) : Bool := e.space = .mathml && Names.mathText.contains e.name

/-- Whether it is an SVG element that holds HTML. -/
def isSvgHtml (e : OpenElement) : Bool := e.space = .svg && Names.svgHtml.contains e.name

/-- Whether it bounds the general scope. -/
def boundsScope (e : OpenElement) : Bool :=
  e.isAnyOf Names.scope || e.isMathText || e.isSvgHtml

/-- Whether it bounds the scope in which a button or paragraph is looked for. -/
def boundsButtonScope (e : OpenElement) : Bool := e.boundsScope || e.isHtml "button"

/-- Whether it bounds the scope in which a list item is looked for. -/
def boundsListScope (e : OpenElement) : Bool :=
  e.boundsScope || e.isHtml "ol" || e.isHtml "ul"

/-- Whether it bounds the scope in which table parts are looked for. -/
def boundsTableScope (e : OpenElement) : Bool := e.isAnyOf Names.tableScope

/-- Whether it bounds the scope in which a `select` is looked for. -/
def boundsSelectScope (e : OpenElement) : Bool := !(e.isAnyOf ["optgroup", "option"])

end OpenElement

/-- A formatting element that was opened, or a bound that formatting does not cross. -/
inductive Formatting where
  | bound
  | element (id : Nat) (tag : StartTag)
  deriving DecidableEq, Repr, Inhabited

/-- The state of reading. -/
structure Builder where
  arena : Arena := #[{ content := .document }]
  mode : Mode := .initial
  /-- The mode to which raw text and text in tables lead back. -/
  resumeMode : Mode := .initial
  /-- The modes of the open templates, innermost first. -/
  templateModes : List Mode := []
  /-- The open elements, innermost first. -/
  stack : List OpenElement := []
  /-- Formatting elements and bounds, newest first. -/
  formatting : List Formatting := []
  /-- The head, once there is one. -/
  head : Option Nat := none
  /-- The form that a new form or an end tag would meet. -/
  form : Option Nat := none
  /-- Whether a frameset may still take the place of the body. -/
  framesetOk : Bool := true
  /-- Whether what may not stand in a table moves before it. -/
  fostering : Bool := false
  /-- Whether a line break at once would be left out. -/
  skipBreak : Bool := false
  /-- Text met in a table, the last character first. -/
  tableText : Text := []
  /-- Whether the rules of old documents hold. -/
  legacy : Bool := false
  lexing : Lexing := .data
  deriving Inhabited

/-- The result of a rule: the new state, and the token if it has to be processed again. -/
abbrev Step := Builder × Option Token

namespace Builder

/-- The token is used up. -/
def done (b : Builder) : Step := (b, none)

/-- The token meets the rules of another mode. -/
def again (b : Builder) (mode : Mode) (t : Token) : Step := ({ b with mode }, some t)

/-! ### Open elements -/

/-- The innermost open element. -/
def current (b : Builder) : OpenElement := b.stack.headD default

/-- Whether the innermost open element is the HTML element of a name. -/
def atHtml (b : Builder) (name : String) : Bool := (b.stack.head?.map (·.isHtml name)).getD false

/-- Whether the innermost open element is an HTML element with one of the names. -/
def atAnyOf (b : Builder) (names : List String) : Bool :=
  (b.stack.head?.map (·.isAnyOf names)).getD false

/-- Whether an HTML element of a name is open. -/
def hasOpen (b : Builder) (name : String) : Bool := b.stack.any (·.isHtml name)

/-- Whether an element that is looked for is met before one that bounds the scope. -/
def inScopeWhere (bounds wanted : OpenElement → Bool) : List OpenElement → Bool
  | [] => false
  | e :: rest => wanted e || (!bounds e && inScopeWhere bounds wanted rest)

/-- Whether an HTML element of a name is in the general scope. -/
def inScope (b : Builder) (name : String) : Bool :=
  inScopeWhere OpenElement.boundsScope (·.isHtml name) b.stack

/-- Whether a paragraph is in button scope. -/
def paragraphInScope (b : Builder) : Bool :=
  inScopeWhere OpenElement.boundsButtonScope (·.isHtml "p") b.stack

/-- Whether an HTML element of a name is in table scope. -/
def inTableScope (b : Builder) (name : String) : Bool :=
  inScopeWhere OpenElement.boundsTableScope (·.isHtml name) b.stack

/-- Whether an HTML element with one of the names is in table scope. -/
def anyInTableScope (b : Builder) (names : List String) : Bool :=
  inScopeWhere OpenElement.boundsTableScope (·.isAnyOf names) b.stack

/-- Whether a `select` is in select scope. -/
def selectInScope (b : Builder) : Bool :=
  inScopeWhere OpenElement.boundsSelectScope (·.isHtml "select") b.stack

/-- Closes the innermost open element. -/
def pop (b : Builder) : Builder := { b with stack := b.stack.tail }

/-- Closes elements up to and with the first that is looked for. -/
def popUntil (b : Builder) (wanted : OpenElement → Bool) : Builder :=
  { b with stack := (b.stack.dropWhile fun e => !wanted e).tail }

/-- Closes elements up to and with the first HTML element of a name. -/
def popUntilHtml (b : Builder) (name : String) : Builder := b.popUntil (·.isHtml name)

/-- Closes elements until one with one of the names is innermost. -/
def popTo (b : Builder) (names : List String) : Builder :=
  { b with stack := b.stack.dropWhile fun e => !e.isAnyOf names }

/-- Closes the innermost elements whose end tag may be left out. -/
def closeImplied (b : Builder) (names : List String) : Builder :=
  { b with stack := b.stack.dropWhile (·.isAnyOf names) }

/-- Closes the innermost elements whose end tag may be left out, but none of a name. -/
def closeImpliedExcept (b : Builder) (name : String) : Builder :=
  b.closeImplied (Names.impliedEnd.filter (· != name))

/-- Closes the open paragraph and everything in it. -/
def closeParagraph (b : Builder) : Builder := (b.closeImpliedExcept "p").popUntilHtml "p"

/-- Closes a paragraph in button scope, if there is one. -/
def closeParagraphInScope (b : Builder) : Builder :=
  if b.paragraphInScope then b.closeParagraph else b

/-- Takes one open element off the stack, wherever it is. -/
def removeOpen (b : Builder) (id : Nat) : Builder :=
  { b with stack := b.stack.eraseP (·.id = id) }

/-! ### Places for new nodes -/

/-- Where a new node goes. -/
inductive Place where
  /-- At the end of a node's children. -/
  | last (parent : Nat)
  /-- Before a table, or at the end of another element's children if the table stands nowhere. -/
  | beforeTable (table otherwise : Nat)
  deriving Repr

/-- The place before the innermost open table or in the innermost template. -/
def fosterPlace (a : Arena) : List OpenElement → Place
  | [] => .last 0
  | [html] => .last html.id
  | e :: e' :: rest =>
    if e.isHtml "template" then .last (a.host e.id)
    else if e.isHtml "table" then .beforeTable e.id e'.id
    else fosterPlace a (e' :: rest)

/-- The place of a node that belongs to `target`. -/
def placeIn (b : Builder) (target : OpenElement) : Place :=
  if b.fostering && target.isAnyOf Names.tableContext then fosterPlace b.arena b.stack
  else .last (b.arena.host target.id)

/-- Puts a node at a place. -/
def insertAt (b : Builder) (place : Place) (id : Nat) : Builder :=
  match place with
  | .last parent => { b with arena := b.arena.append parent id }
  | .beforeTable table otherwise =>
    if (b.arena.cell table).parent.isSome then
      { b with arena := b.arena.insertBefore table id }
    else { b with arena := b.arena.append otherwise id }

/-- Adds a character where text goes. -/
def insertChar (b : Builder) (c : Char) : Builder :=
  match b.placeIn b.current with
  | .last parent => { b with arena := b.arena.appendChar parent c }
  | .beforeTable table otherwise =>
    if (b.arena.cell table).parent.isSome then
      { b with arena := b.arena.insertCharBefore table c }
    else { b with arena := b.arena.appendChar otherwise c }

/-- Adds a comment where nodes go. -/
def insertComment (b : Builder) (content : Text) : Builder :=
  let place := b.placeIn b.current
  let (arena, id) := b.arena.create (.comment content)
  { b with arena }.insertAt place id

/-- Adds a comment at the end of a node's children. -/
def appendComment (b : Builder) (parent : Nat) (content : Text) : Builder :=
  let (arena, id) := b.arena.create (.comment content)
  { b with arena := arena.append parent id }

/-! ### New elements -/

/-- HTML attributes as they were read. -/
def ownAttributes (attributes : List (String × Text)) : List Attribute :=
  attributes.map fun (name, value) => { name, value }

/-- Whether a MathML annotation says that it holds HTML. -/
def statesHtml (label : Label) : Bool :=
  label.space = .mathml && label.name == "annotation-xml" &&
    label.attributes.any fun a =>
      a.name == "encoding" && (Text.sameUpToCase a.value "text/html".toList ||
        Text.sameUpToCase a.value "application/xhtml+xml".toList)

/-- Creates an element that stands nowhere yet. -/
def createElement (b : Builder) (label : Label) : Builder × OpenElement :=
  let (arena, inner?) :=
    if label.space = .html && label.name == "template" then
      let (arena, inner) := b.arena.create .document
      (arena, some inner)
    else (b.arena, none)
  let (arena, id) := arena.create (.element label inner?)
  ({ b with arena }, { id, space := label.space, name := label.name, holdsHtml := statesHtml label })

/-- Creates an element and puts it where nodes go. -/
def insertLeaf (b : Builder) (label : Label) : Builder × OpenElement :=
  let (b, e) := b.createElement label
  (b.insertAt (b.placeIn b.current) e.id, e)

/-- Creates an element, puts it where nodes go and opens it. -/
def insertLabel (b : Builder) (label : Label) : Builder × OpenElement :=
  let (b, e) := b.insertLeaf label
  ({ b with stack := e :: b.stack }, e)

/-- The label of an HTML start tag. -/
def htmlLabel (tag : StartTag) : Label := ⟨.html, tag.name, ownAttributes tag.attributes⟩

/-- Opens the element of an HTML start tag. -/
def insert (b : Builder) (tag : StartTag) : Builder := (b.insertLabel (htmlLabel tag)).1

/-- Adds the element of an HTML start tag without opening it. -/
def insertClosed (b : Builder) (tag : StartTag) : Builder := (b.insertLeaf (htmlLabel tag)).1

/-- Opens an HTML element of a name without attributes. -/
def insertNamed (b : Builder) (name : String) : Builder := b.insert { name }

/-- Opens the root element. -/
def insertRoot (b : Builder) (attributes : List (String × Text)) : Builder :=
  let (b, e) := b.createElement ⟨.html, "html", ownAttributes attributes⟩
  { b with arena := b.arena.append 0 e.id, stack := e :: b.stack }

/-- Opens the element of a start tag whose content is read as raw text. -/
def insertRaw (b : Builder) (tag : StartTag) (lexing : Lexing) : Builder :=
  let b := b.insert tag
  { b with resumeMode := b.mode, mode := .text, lexing }

/-- The root element. -/
def root (b : Builder) : Nat := (b.stack.getLast?.map (·.id)).getD 0

/-- The body, if it is the second of the open elements. -/
def body? (b : Builder) : Option OpenElement :=
  match b.stack.reverse with
  | _ :: e :: _ => if e.isHtml "body" then some e else none
  | _ => none

/-! ### The mode of the open elements -/

/-- The mode of an open `select`, given the elements around it. -/
def selectMode : List OpenElement → Mode
  | [] => .inSelect
  | e :: rest =>
    if e.isHtml "template" then .inSelect
    else if e.isHtml "table" then .inSelectInTable
    else selectMode rest

/-- The mode that open elements ask for. -/
def modeOf (templateModes : List Mode) (hasHead : Bool) : List OpenElement → Mode
  | [] => .inBody
  | e :: rest =>
    if e.isHtml "select" then selectMode rest
    else if e.isAnyOf Names.cell && rest ≠ [] then .inCell
    else if e.isHtml "tr" then .inRow
    else if e.isAnyOf Names.rowGroup then .inTableBody
    else if e.isHtml "caption" then .inCaption
    else if e.isHtml "colgroup" then .inColumnGroup
    else if e.isHtml "table" then .inTable
    else if e.isHtml "template" then templateModes.headD .inBody
    else if e.isHtml "head" && rest ≠ [] then .inHead
    else if e.isHtml "body" then .inBody
    else if e.isHtml "frameset" then .inFrameset
    else if e.isHtml "html" then if hasHead then .afterHead else .beforeHead
    else modeOf templateModes hasHead rest

/-- The mode that the open elements ask for. -/
def modeOfStack (b : Builder) : Mode := modeOf b.templateModes b.head.isSome b.stack

/-- Sets the mode that the open elements ask for. -/
def resetMode (b : Builder) : Builder := { b with mode := b.modeOfStack }

end Builder

end Shortcodes.Html
