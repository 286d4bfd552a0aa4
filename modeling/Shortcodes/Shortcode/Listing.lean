import Shortcodes.Format.Filling
import Shortcodes.Shortcode.Basic

/-!
# Listings of shortcodes

How the definition of a shortcode is listed.
-/

namespace Shortcodes.Listing

/-- An input. -/
def input (i : Input) : Text :=
  fields "Input".toList
    [("name", text i.name), ("path", option (i.path.map text)),
     ("default", option (i.default.map text)), ("required", truth i.required)]

/-- An omission. -/
def omission : Omission → Text
  | .defaults => "OmitDefaults".toList
  | .empties => "OmitEmpty".toList

/-- A binding. -/
def binding : Binding → Text
  | .positional => "Positional".toList
  | .keyword policy =>
    "Keyword(".toList ++
      fields "KeywordPolicy".toList
        [("reject_unknown", truth policy.rejectUnknown), ("rejoin", omission policy.omission)] ++
      [')']

/-- A signature. -/
def signature (s : Signature) : Text :=
  fields "Signature".toList
    [("name", text s.name), ("inputs", list (s.inputs.map input)), ("binding", binding s.binding)]

/-- A shortcode that is given by functions. -/
def shortcode (s : Shortcode) : Text :=
  fields "FnShortcode".toList
    [("signature", signature s.signature), ("reversible", truth s.isReversible)]

/-- A template. -/
def template : Template → Text
  | .format t => "Format(".toList ++ text t ++ [')']
  | .computed _ => "Function(..)".toList

end Shortcodes.Listing
