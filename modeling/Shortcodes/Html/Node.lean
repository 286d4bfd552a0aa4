import Shortcodes.Html.Names
import Shortcodes.Text.Blank

/-!
# Markup trees

A node is an element, a text or a comment. An element has a label, which is what its opening tag
says, and children. This module holds the questions asked of a tree (names, attributes, text,
children, descendants), the class list of a label and the written form of a tree.
-/

namespace Shortcodes.Html

/-- The vocabulary to which an element belongs. -/
inductive Space where
  | html
  | svg
  | mathml
  deriving DecidableEq, Repr, Inhabited

/-- The vocabulary to which an attribute belongs. -/
inductive AttributeSpace where
  | own
  | xml
  | xmlns
  | xlink
  deriving DecidableEq, Repr

/-- An attribute of an element. Its name is the local one. -/
structure Attribute where
  space : AttributeSpace := .own
  name : String
  value : Text
  deriving DecidableEq, Repr

/-- What the opening tag of an element says. -/
structure Label where
  space : Space
  name : String
  attributes : List Attribute
  deriving DecidableEq, Repr, Inhabited

/-- A node of a markup tree. -/
inductive Node where
  | element (label : Label) (children : List Node)
  | text (content : Text)
  | comment (content : Text)
  deriving Repr, Inhabited

/-- An element of a markup tree. -/
structure Element where
  label : Label
  children : List Node
  deriving Repr, Inhabited

/-! ### Labels -/

namespace Label

/-- The name in lower case. -/
def tagName (l : Label) : Text := Text.lowerAscii l.name.toList

/-- The value of the first attribute of a name, up to ASCII case. -/
def attribute? (l : Label) (name : Text) : Option Text :=
  (l.attributes.find? fun a => Text.sameUpToCase a.name.toList name).map (·.value)

/-- The class names, in order. -/
def classes (l : Label) : List Text := ((l.attribute? "class".toList).map Text.words).getD []

/-- Whether a class name is among the classes. -/
def hasClass (l : Label) (name : Text) : Bool := l.classes.contains name

/-- The value of a class attribute with a class name put at its end. -/
def appendClass (value name : Text) : Text := Text.trim (Text.trim value ++ ' ' :: name)

/-- The attributes with a class name put at the end of the first `class`, or with a new
    attribute for it at the end. -/
def attributesWithClass (name : Text) : List Attribute → List Attribute
  | [] => [{ name := "class", value := name }]
  | a :: rest =>
    if a.name = "class" then { a with value := appendClass a.value name } :: rest
    else a :: attributesWithClass name rest

/-- The label with a class name added, if it does not have it. -/
def addClass (l : Label) (name : Text) : Label :=
  if l.hasClass name then l else { l with attributes := attributesWithClass name l.attributes }

end Label

/-! ### Questions about trees -/

namespace Node

/-- The element that a node is. -/
def element? : Node → Option Element
  | element label children => some ⟨label, children⟩
  | _ => none

/-- The text that a node is. -/
def text? : Node → Option Text
  | text content => some content
  | _ => none

mutual

/-- The elements below a node, in document order. -/
def descendants : Node → List Element
  | element _ children => descendantsOfAll children
  | _ => []

/-- The elements among nodes and below them, in document order. -/
def descendantsOfAll : List Node → List Element
  | [] => []
  | element label children :: rest =>
    ⟨label, children⟩ :: (descendants (element label children) ++ descendantsOfAll rest)
  | _ :: rest => descendantsOfAll rest

end

mutual

/-- The text in a node and below it, joined. -/
def textContent : Node → Text
  | element _ children => textContentOfAll children
  | text content => content
  | comment _ => []

/-- The text in nodes and below them, joined. -/
def textContentOfAll : List Node → Text
  | [] => []
  | n :: rest => textContent n ++ textContentOfAll rest

end

end Node

namespace Element

/-- The node that an element is. -/
def node (e : Element) : Node := .element e.label e.children

/-- The elements directly below. -/
def childElements (e : Element) : List Element := e.children.filterMap Node.element?

/-- The elements below, in document order. -/
def descendants (e : Element) : List Element := Node.descendantsOfAll e.children

/-- The texts directly below. -/
def directTexts (e : Element) : List Text := e.children.filterMap Node.text?

/-- All text below, joined. -/
def textContent (e : Element) : Text := Node.textContentOfAll e.children

end Element

/-! ### Written markup -/

/-- The no-break space. -/
def noBreakSpace : Char := '\u00a0'

/-- A character of an attribute value in written markup. -/
def escapedInAttribute (c : Char) : Text :=
  if c = '&' then "&amp;".toList
  else if c = noBreakSpace then "&nbsp;".toList
  else if c = '"' then "&quot;".toList
  else [c]

/-- A character of a text in written markup. -/
def escapedInText (c : Char) : Text :=
  if c = '&' then "&amp;".toList
  else if c = noBreakSpace then "&nbsp;".toList
  else if c = '<' then "&lt;".toList
  else if c = '>' then "&gt;".toList
  else [c]

/-- The written name of an attribute. -/
def Attribute.writtenName (a : Attribute) : Text :=
  match a.space with
  | .own => a.name.toList
  | .xml => "xml:".toList ++ a.name.toList
  | .xmlns => if a.name = "xmlns" then a.name.toList else "xmlns:".toList ++ a.name.toList
  | .xlink => "xlink:".toList ++ a.name.toList

/-- A written attribute, with the blank before it. -/
def Attribute.written (a : Attribute) : Text :=
  ' ' :: a.writtenName ++ ['=', '"'] ++ a.value.flatMap escapedInAttribute ++ ['"']

namespace Label

/-- The written opening tag. -/
def openingTag (l : Label) : Text :=
  '<' :: l.name.toList ++ l.attributes.flatMap Attribute.written ++ ['>']

/-- The written closing tag. -/
def closingTag (l : Label) : Text := ['<', '/'] ++ l.name.toList ++ ['>']

/-- Whether the element is written as an opening tag only. -/
def isVoid (l : Label) : Bool := l.space = .html && Names.void.contains l.name

/-- Whether text directly below the element is written as it is. -/
def isRaw (l : Label) : Bool := l.space = .html && Names.rawText.contains l.name

end Label

namespace Node

mutual

/-- A written node below an element whose text is `raw` or not. -/
def written (raw : Bool) : Node → Text
  | element label children =>
    if label.isVoid then label.openingTag
    else label.openingTag ++ writtenAll label.isRaw children ++ label.closingTag
  | text content => if raw then content else content.flatMap escapedInText
  | comment content => "<!--".toList ++ content ++ "-->".toList

/-- Written nodes, one after the other. -/
def writtenAll (raw : Bool) : List Node → Text
  | [] => []
  | n :: rest => written raw n ++ writtenAll raw rest

end

end Node

/-- The written form of an element. -/
def Element.written (e : Element) : Text := e.node.written false

end Shortcodes.Html
