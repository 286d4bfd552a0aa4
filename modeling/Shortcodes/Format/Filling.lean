import Shortcodes.Context
import Shortcodes.Format.Basic
import Shortcodes.Json.Printer
import Shortcodes.Signature.Arguments

/-!
# Filling format texts

A placeholder stands for the argument at its index, else for the argument of its name, else for
the context value of its name. What it stands for is written so that HTML reads it back as text.
-/

namespace Shortcodes

/-- The text with the five characters that HTML could take for markup written as references. -/
def escapeMarkup (t : Text) : Text :=
  t.flatMap fun c =>
    if c = '&' then "&amp;".toList
    else if c = '<' then "&lt;".toList
    else if c = '>' then "&gt;".toList
    else if c = '"' then "&quot;".toList
    else if c = '\'' then "&#39;".toList
    else [c]

/-- A context value as text: a string as it is, anything else as compact JSON. -/
def Json.plain : Json → Text
  | .string s => s
  | v => v.text

/-- What a key stands for. -/
def Arguments.answer? (args : Arguments) (context : Context) (key : Text) : Option Text :=
  match (Text.toIndex? key).bind args.at? with
  | some value => some value
  | none =>
    match args.get? key with
    | some value => some value
    | none => (context.get? key).map Json.plain

namespace FormatPart

/-- The text that fills a part. -/
def fill (args : Arguments) (context : Context) : FormatPart → Except TemplateFault Text
  | literal c => .ok [c]
  | placeholder key =>
    match args.answer? context (Text.trim key) with
    | some value => .ok (escapeMarkup value)
    | none => .error (.unknownPlaceholder (Text.trim key))

/-- The text that fills parts, or the fault of the first part that has one. -/
def fillAll (args : Arguments) (context : Context) :
    List FormatPart → Except TemplateFault Text
  | [] => .ok []
  | part :: rest => do
    let front ← part.fill args context
    let back ← fillAll args context rest
    return front ++ back

end FormatPart

/-- The text of a reading. Unknown placeholders before an unbalanced brace come first. -/
def FormatReading.fill (r : FormatReading) (args : Arguments) (context : Context) :
    Except TemplateFault Text := do
  let t ← FormatPart.fillAll args context r.parts
  match r.unbalanced with
  | some offset => .error (.unbalancedBrace offset)
  | none => return t

/-- How a shortcode renders its arguments to markup. -/
inductive Template where
  /-- A format text. -/
  | format (t : Text)
  /-- A function of arguments and context, which may refuse with a reason. -/
  | computed (render : Arguments → Context → Except Text Text)

/-- The markup of a template. -/
def Template.render (t : Template) (args : Arguments) (context : Context) :
    Except TemplateFault Text :=
  match t with
  | format f => (FormatReading.read f).fill args context
  | computed render => (render args context).mapError .refused

end Shortcodes
