import Shortcodes.Failure
import Shortcodes.Html.Document

/-!
# Fragments

A fragment is a piece of markup seen as one element: the first element directly below the parts
of the document that the markup spells. Markup that is to be rendered must have that element and
nothing else at its top level.
-/

namespace Shortcodes.Html

/-- A piece of markup seen as one element. -/
structure Fragment where
  root : Element
  /-- How many elements, and texts with more than blanks, stand at the top level. -/
  topLevel : Nat
  deriving Repr

namespace Fragment

/-- The elements among nodes. -/
def elements (nodes : List Node) : List Element := nodes.filterMap Node.element?

/-- Whether a node counts at the top level. -/
def counts : Node → Bool
  | .element _ _ => true
  | .text t => !Text.allBlank t
  | .comment _ => false

/-- The nodes at the top level of a document: those that count, directly below the parts of the
    root. -/
def topLevelNodes (document : List Node) : List Node :=
  (elements document).flatMap fun html =>
    html.childElements.flatMap fun part => part.children.filter counts

/-- Reads a piece of markup; none if it has no element. -/
def read? (markup : Text) : Option Fragment :=
  let nodes := topLevelNodes (Document.read markup)
  (elements nodes).head?.map fun root => ⟨root, nodes.length⟩

/-- Whether the root has a class. -/
def hasClass (f : Fragment) (name : Text) : Bool := f.root.label.hasClass name

/-- The fragment with a class added to its root. -/
def addClass (f : Fragment) (name : Text) : Fragment :=
  { f with root := { f.root with label := f.root.label.addClass name } }

/-- The written form of the root. -/
def written (f : Fragment) : Text := f.root.written

end Fragment

/-- Markup with a single root, written with the marker among the root's classes. -/
def mark (markup marker : Text) : Except RootFault Text :=
  match Fragment.read? markup with
  | none => .error .noRoot
  | some f =>
    if f.topLevel = 1 then .ok (f.addClass marker).written else .error (.severalRoots f.topLevel)

end Shortcodes.Html
