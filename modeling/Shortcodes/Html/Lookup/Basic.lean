import Shortcodes.Failure
import Shortcodes.Html.Node

/-!
# Look-up paths

A look-up path says where in an element a value stands. Its steps are separated by `/`, which
goes to children, or `//`, which goes to descendants; a step is `.`, an element name or `*` with
an optional position in brackets, and last of all `@name` or `text()`. A path selects the first
value in the order of its steps.
-/

namespace Shortcodes.Html

/-- Where a step looks. -/
inductive Axis where
  | child
  | descendant
  deriving DecidableEq, Repr

/-- A step of a look-up path. -/
inductive LookupStep where
  /-- Elements of a name, or of any name; only the one at a position, counted from 1 for each
      element the step starts from. -/
  | element (name : Option Text) (position : Option Nat)
  | current
  | attribute (name : Text)
  | text
  deriving DecidableEq, Repr

/-- Whether a step gives a value and must come last. -/
def LookupStep.isValue : LookupStep → Bool
  | .attribute _ | .text => true
  | _ => false

/-- A look-up path. -/
structure Lookup where
  /-- The path as it was written. -/
  source : Text
  steps : List (Axis × LookupStep)
  deriving DecidableEq, Repr

namespace Lookup

/-! ### Reading -/

/-- Whether a character may begin a name. -/
def startsName (c : Char) : Bool := c.isAlpha || c = '_'

/-- Whether a character may stand in a name. -/
def continuesName (c : Char) : Bool :=
  c.isAlphanum || c = '_' || c = '-' || c = '.' || c = ':'

/-- Whether a text is a name. -/
def isName : Text → Bool
  | [] => false
  | c :: rest => startsName c && rest.all continuesName

/-- Reads a name or `*`. -/
def readElementName (name : Text) : Except PathReason (Option Text) :=
  if name = ['*'] then .ok none
  else if isName name then .ok (some name)
  else .error (.badElement name)

/-- Reads a position in brackets. -/
def readPosition (inner : Text) : Except PathReason Nat :=
  match (Text.toIndex? (Text.trim inner)).filter (0 < ·) with
  | some n => .ok n
  | none => .error (.badIndex inner)

/-- Reads one step. -/
def readStep (step : Text) : Except PathReason LookupStep :=
  if step = [] then .error .emptyStep
  else if step = ['.'] then .ok .current
  else if step = "text()".toList then .ok .text
  else if step = ['.', '.'] then .error .parentStep
  else
    match step with
    | '@' :: name =>
      if isName name then .ok (.attribute (Text.lowerAscii name)) else .error (.badAttribute name)
    | _ =>
      match Text.cut? ['['] step with
      | none => (readElementName step).map fun name => .element name none
      | some (name, rest) =>
        match rest.getLast? with
        | some ']' => do
          let position ← readPosition rest.dropLast
          let name ← readElementName name
          return .element name (some position)
        | _ => .error (.unclosedIndex step)

/-- Reads the separator at the start of a text, if there is one. -/
def readAxis : Text → Axis × Text
  | '/' :: '/' :: rest => (.descendant, rest)
  | '/' :: rest => (.child, rest)
  | t => (.child, t)

/-- Reads steps, in at most `fuel` rounds. `closed` says that the step before must be the
    last. -/
def readSteps : (fuel : Nat) → (closed : Bool) → Text →
    Except PathReason (List (Axis × LookupStep))
  | 0, _, _ => .ok []
  | _ + 1, _, [] => .ok []
  | fuel + 1, closed, t =>
    let (axis, rest) := readAxis t
    if closed then .error .notLast
    else do
      let step ← readStep (rest.takeWhile (· ≠ '/'))
      let others ← readSteps fuel step.isValue (rest.dropWhile (· ≠ '/'))
      return (axis, step) :: others

/-- The steps that a text without blanks at its ends spells. -/
def stepsOf (t : Text) : Except PathReason (List (Axis × LookupStep)) :=
  match t with
  | [] => .error .empty
  | '/' :: '/' :: _ => readSteps t.length false t
  | '/' :: _ => .error .absolute
  | _ => readSteps t.length false t

/-- Reads a look-up path. -/
def read (source : Text) : Except PathFault Lookup :=
  match stepsOf (Text.trim source) with
  | .ok steps => .ok ⟨source, steps⟩
  | .error reason => .error ⟨source, reason⟩

/-! ### Looking up -/

/-- An element, with its descendants when the axis goes to them. -/
def reach (axis : Axis) (e : Element) : List Element :=
  match axis with
  | .child => [e]
  | .descendant => e :: e.descendants

/-- Whether an element has a name, up to ASCII case; none stands for any name. -/
def named (name : Option Text) (e : Element) : Bool :=
  match name with
  | none => true
  | some name => Text.sameUpToCase e.label.tagName name

/-- The item at a position counted from 1, or all items without one. -/
def atPosition {α : Type} (position : Option Nat) (items : List α) : List α :=
  match position with
  | none => items
  | some n => (items.drop (n - 1)).take 1

/-- The elements that an element step goes to from an element. -/
def go (axis : Axis) (name : Option Text) (position : Option Nat) (e : Element) :
    List Element :=
  let candidates := match axis with
    | .child => e.childElements
    | .descendant => e.descendants
  atPosition position (candidates.filter (named name))

/-- The value that steps lead to from elements. -/
def follow : List (Axis × LookupStep) → List Element → Option Text
  | [], elements => elements.head?.map Element.textContent
  | (axis, .attribute name) :: _, elements =>
    (elements.flatMap (reach axis)).findSome? fun e => e.label.attribute? name
  | (axis, .text) :: _, elements =>
    (elements.flatMap (reach axis)).findSome? fun e => e.directTexts.head?
  | (axis, .current) :: rest, elements => follow rest (elements.flatMap (reach axis))
  | (axis, .element name position) :: rest, elements =>
    follow rest (elements.flatMap (go axis name position))

/-- The value that a path selects in an element. -/
def value? (path : Lookup) (root : Element) : Option Text := follow path.steps [root]

end Lookup

end Shortcodes.Html
