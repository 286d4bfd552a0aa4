import Shortcodes.Format.Filling
import Shortcodes.Html.Fragment
import Shortcodes.Html.LooseTag
import Shortcodes.Html.Lookup.Basic
import Shortcodes.Shortcode.Basic

/-!
# HTML shortcodes

An HTML shortcode renders through a template into markup with a single root and puts its marker
among the root's classes. Reversal trusts the marker alone: it goes through a text tag by tag,
takes an opening tag that shows the marker together with its element as a candidate, and claims
the candidate if the markup's root has the marker as a class. A claimed candidate becomes the
canonical tag of the values that the look-up paths find in it; everything else stays as it is.
-/

namespace Shortcodes

open Html

/-- A shortcode rendered as a marked element. -/
structure HtmlShortcode where
  signature : Signature
  template : Template
  marker : Text
  /-- The look-up path of each input, in declaration order. -/
  paths : List (Option Lookup)

namespace HtmlShortcode

/-! ### Definition -/

/-- The beginning of markers that are not chosen. -/
def markerPrefix : Text := "shortcode-".toList

/-- Reads the look-up paths of inputs. -/
def readPaths (shortcode : Text) : List Input → Except Failure (List (Option Lookup))
  | [] => .ok []
  | input :: rest => do
    let path ← match input.path with
      | none => .ok none
      | some source =>
        match Lookup.read source with
        | .ok path => .ok (some path)
        | .error fault => .error (.badDefinition shortcode (.badPath fault))
    let others ← readPaths shortcode rest
    return path :: others

/-- The HTML shortcode of a signature, with the default marker. -/
def ofSignature (signature : Signature) (template : Template) : Except Failure HtmlShortcode := do
  let paths ← readPaths signature.name signature.inputs
  return ⟨signature, template, markerPrefix ++ signature.name, paths⟩

/-- The HTML shortcode of a declaration, with the default marker. -/
def ofDeclaration (d : Declaration) (template : Template) : Except Failure HtmlShortcode := do
  ofSignature (← Signature.ofDeclaration d) template

/-- The shortcode with a chosen marker, which must be a single class name. -/
def withMarker (s : HtmlShortcode) (marker : Text) : Except Failure HtmlShortcode :=
  if marker = [] || marker.any isBlank then
    .error (.badDefinition s.signature.name (.badMarker marker))
  else .ok { s with marker }

/-- The name in tags. -/
def name (s : HtmlShortcode) : Text := s.signature.name

/-! ### Rendering -/

/-- A missing input keeps an HTML shortcode from rendering. -/
def missingAsRendering (shortcode : Text) : Failure → Failure
  | .missingInput owner input => .rendering shortcode (.missingInput owner input)
  | f => f

/-- Binds what a tag gives. -/
def bind (s : HtmlShortcode) (given : Given) : Except Failure Arguments :=
  (s.signature.bind given).mapError (missingAsRendering s.name)

/-- Renders arguments to a marked element. -/
def convert (s : HtmlShortcode) (args : Arguments) (context : Context) : Except Failure Text := do
  let args ← (s.signature.fill args).mapError (missingAsRendering s.name)
  let markup ← (s.template.render args context).mapError (.rendering s.name <| .template ·)
  (mark markup s.marker).mapError (.rendering s.name <| .root ·)

/-! ### Reversal -/

/-- Whether reversal can do without the path of an input. -/
def canRestore (s : HtmlShortcode) (input : Input) (path : Option Lookup) : Bool :=
  path.isSome || s.signature.binding ≠ .positional || input.default.isSome

/-- Whether every value can be read back from markup or left to its default. -/
def isReversible (s : HtmlShortcode) : Bool :=
  (s.signature.inputs.zip s.paths).all fun (input, path) => s.canRestore input path

/-- The value of an input in an element of the shortcode. -/
def restore (root : Element) (input : Input) (path : Option Lookup) : Text :=
  match path with
  | some path => (path.value? root).getD []
  | none => input.fallback

/-- The arguments that an element of the shortcode was rendered from. -/
def restoreAll (s : HtmlShortcode) (root : Element) : Arguments :=
  { values := (s.signature.inputs.zip s.paths).map fun (input, path) =>
      (input.name, restore root input path) }

/-- The canonical tag of an element of the shortcode. -/
def tagOf (s : HtmlShortcode) (root : Element) : Text := s.signature.canonical (s.restoreAll root)

/-- A part of a text that reversal went through. -/
inductive Passage where
  /-- Text that stays. -/
  | kept (t : Text)
  /-- Markup whose place a tag takes. -/
  | claimed (markup tag : Text)
  deriving DecidableEq, Repr

/-- The text in which a passage results. -/
def Passage.result : Passage → Text
  | kept t => t
  | claimed _ tag => tag

/-- The text that a passage stands for. -/
def Passage.source : Passage → Text
  | kept t => t
  | claimed markup _ => markup

/-- The element of a candidate, if the candidate is the shortcode's. -/
def claim? (s : HtmlShortcode) (candidate : Text) : Option Element :=
  match Fragment.read? candidate with
  | some f => if f.hasClass s.marker then some f.root else none
  | none => none

/-- What reversal makes of the loose tag at the start of a text: the passage and what follows
    it. -/
def passage (s : HtmlShortcode) (seen : Sighting) : Except Failure (Passage × Text) :=
  let stays : Except Failure (Passage × Text) := .ok (.kept seen.source, seen.rest)
  match seen.tag with
  | .opening _ _ =>
    if !Text.has s.marker seen.source then stays
    else
      match seen.extent? with
      | some (candidate, rest) =>
        match s.claim? candidate with
        | some root => .ok (.claimed candidate (s.tagOf root), rest)
        | none => stays
      | none =>
        match s.claim? seen.source with
        | some _ => .error (.unclosedMarkup s.name seen.source)
        | none => stays
  | _ => stays

/-- The passages of a text, at most `fuel` of them. -/
def passagesUpTo (s : HtmlShortcode) : (fuel : Nat) → Text → Except Failure (List Passage)
  | 0, _ => .ok []
  | _ + 1, [] => .ok []
  | fuel + 1, c :: rest =>
    match LooseTag.at? (c :: rest) with
    | none => do return .kept [c] :: (← s.passagesUpTo fuel rest)
    | some seen => do
      let (passage, tail) ← s.passage seen
      return passage :: (← s.passagesUpTo fuel tail)

/-- The passages of a text, from the left. Every passage has at least one character, so the
    text's length bounds their number. -/
def passages (s : HtmlShortcode) (t : Text) : Except Failure (List Passage) :=
  s.passagesUpTo t.length t

/-- Turns the shortcode's elements in a text back into tags. -/
def reverse (s : HtmlShortcode) (t : Text) : Except Failure Text :=
  if s.isReversible then (s.passages t).map fun ps => ps.flatMap Passage.result
  else .error (.notReversible s.name)

/-- The shortcode as the registry sees it. -/
def toShortcode (s : HtmlShortcode) : Shortcode :=
  { signature := s.signature
    bind := s.bind
    convert := s.convert
    reverse? := if s.isReversible then some s.reverse else none }

end HtmlShortcode

end Shortcodes
