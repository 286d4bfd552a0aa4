import Shortcodes.Text.Listing
import Shortcodes.Word.Reading

/-!
# Failures

Every cause for which a definition, an expansion or a reversal is refused, with what a caller
needs to know about it, and the one wording of each.
-/

namespace Shortcodes

/-! ### Look-up paths -/

/-- Why the text of a look-up path has no meaning. -/
inductive PathReason where
  | empty
  | absolute
  | notLast
  | emptyStep
  | parentStep
  | badAttribute (name : Text)
  | unclosedIndex (step : Text)
  | badIndex (index : Text)
  | badElement (name : Text)
  deriving DecidableEq, Repr

/-- The wording of a reason. -/
def PathReason.message : PathReason → Text
  | empty => "path is empty".toList
  | absolute => "absolute paths are not supported".toList
  | notLast => "`@attr` and `text()` must be the last step".toList
  | emptyStep => "empty step".toList
  | parentStep => "parent steps are not supported".toList
  | badAttribute name => "invalid attribute name `".toList ++ name ++ ['`']
  | unclosedIndex step => "unclosed predicate in `".toList ++ step ++ ['`']
  | badIndex index => "predicate must be a position >= 1, got `".toList ++ index ++ ['`']
  | badElement name => "invalid element name `".toList ++ name ++ ['`']

/-- A look-up path that has no meaning. -/
structure PathFault where
  path : Text
  reason : PathReason
  deriving DecidableEq, Repr

/-- The wording of a path fault. -/
def PathFault.message (f : PathFault) : Text :=
  "invalid reverse path `".toList ++ f.path ++ "`: ".toList ++ f.reason.message

/-! ### Templates and their markup -/

/-- Why a template gives no markup. -/
inductive TemplateFault where
  /-- No argument and no context value answers to the key. -/
  | unknownPlaceholder (key : Text)
  /-- A brace at this byte offset has no partner. -/
  | unbalancedBrace (offset : Nat)
  /-- A computed template refused. -/
  | refused (reason : Text)
  deriving DecidableEq, Repr

/-- The wording of a template fault. -/
def TemplateFault.message : TemplateFault → Text
  | unknownPlaceholder key => "unknown placeholder `\x7b".toList ++ key ++ "\x7d`".toList
  | unbalancedBrace offset => "unbalanced brace at byte ".toList ++ Text.ofNat offset
  | refused reason => reason

/-- Why markup is not a single element. -/
inductive RootFault where
  | noRoot
  | severalRoots (topLevel : Nat)
  deriving DecidableEq, Repr

/-- The wording of a root fault. -/
def RootFault.message : RootFault → Text
  | noRoot => "markup has no root element".toList
  | severalRoots n =>
    "markup must have exactly one root element, found ".toList ++ Text.ofNat n ++
      " top-level nodes".toList

/-! ### Definitions -/

/-- Why the definition of a shortcode is refused. -/
inductive DefinitionFault where
  | badName
  | repeatedInput (input : Text)
  | requiredWithDefault (input : Text)
  | defaultNotTrailing (input default : Text)
  | badPath (fault : PathFault)
  | badMarker (marker : Text)
  deriving DecidableEq, Repr

/-- The wording of a definition fault. -/
def DefinitionFault.message : DefinitionFault → Text
  | badName => "shortcode names must be non-empty, contain no whitespace and no `%]`".toList
  | repeatedInput input => "input ".toList ++ input ++ " is declared more than once".toList
  | requiredWithDefault input =>
    "input ".toList ++ input ++ " is required and cannot have a default".toList
  | defaultNotTrailing input default =>
    "only trailing inputs can have default values: ".toList ++ input ++ " has default ".toList ++
      default ++ " but is not trailing".toList
  | badPath fault => fault.message
  | badMarker marker =>
    "marker class `".toList ++ marker ++ "` must be a single non-empty class name".toList

/-! ### All failures -/

/-- What kept a shortcode from rendering. -/
inductive RenderCause where
  | missingInput (shortcode input : Text)
  | template (fault : TemplateFault)
  | root (fault : RootFault)
  /-- The shortcode's own reason. -/
  | stated (reason : Text)
  deriving DecidableEq, Repr

/-- The wording of a required input that has no value. -/
def missingInputMessage (shortcode input : Text) : Text :=
  "missing required input `".toList ++ input ++ "` for shortcode `".toList ++ shortcode ++ ['`']

/-- The wording of a cause. -/
def RenderCause.message : RenderCause → Text
  | missingInput shortcode input => missingInputMessage shortcode input
  | template fault => fault.message
  | root fault => fault.message
  | stated reason => reason

/-- A failure of the engine. -/
inductive Failure where
  /-- A tag names no registered shortcode. -/
  | unknownShortcode (name source : Text)
  /-- More words than the shortcode takes by position. -/
  | tooManyWords (shortcode : Text) (count expected : Nat)
  /-- Keys that the shortcode does not take. -/
  | unknownKeys (shortcode : Text) (keys allowed : List Text)
  | badDefinition (shortcode : Text) (fault : DefinitionFault)
  | duplicateName (name : Text)
  | noShortcodes
  | notReversible (shortcode : Text)
  /-- A required input has no value or an empty one. -/
  | missingInput (shortcode input : Text)
  | rendering (shortcode : Text) (cause : RenderCause)
  /-- A marked element is never closed. -/
  | unclosedMarkup (shortcode fragment : Text)
  | badWords (fault : WordFault)
  deriving DecidableEq, Repr

/-- The wording of a failure. -/
def Failure.message : Failure → Text
  | unknownShortcode name source =>
    "unknown shortcode `".toList ++ name ++ "` in ".toList ++ source
  | tooManyWords shortcode count expected =>
    "shortcode ".toList ++ shortcode ++ " got ".toList ++ Text.ofNat count ++
      " parameters when ".toList ++ Text.ofNat expected ++ " expected".toList
  | unknownKeys shortcode keys allowed =>
    "shortcode ".toList ++ shortcode ++ " got unknown keys ".toList ++
      Listing.list (keys.map Listing.text) ++ ", allowed: ".toList ++
      Listing.list (allowed.map Listing.text)
  | badDefinition shortcode fault =>
    "invalid input declaration for shortcode `".toList ++ shortcode ++ "`: ".toList ++ fault.message
  | duplicateName name => "shortcode `".toList ++ name ++ "` already registered".toList
  | noShortcodes => "no shortcodes registered".toList
  | notReversible shortcode =>
    "shortcode `".toList ++ shortcode ++ "` does not support reversal".toList
  | missingInput shortcode input => missingInputMessage shortcode input
  | rendering shortcode cause =>
    "error rendering ".toList ++ shortcode ++ " shortcode: ".toList ++ cause.message
  | unclosedMarkup shortcode fragment =>
    "malformed `".toList ++ shortcode ++ "` shortcode markup: ".toList ++ fragment
  | badWords fault => "malformed shortcode arguments: ".toList ++ fault.message

end Shortcodes
