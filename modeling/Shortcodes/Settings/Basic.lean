import Shortcodes.Context
import Shortcodes.Json.Printer
import Shortcodes.Settings.Key
import Shortcodes.Shortcode.Html
import Shortcodes.Registry
import Shortcodes.Signature.Policy
import Shortcodes.Toml.Document

/-!
# Settings

Settings are built in layers over built-in ones: files in their order, then single overrides,
which beat every file. The result is read with some indulgence: truth values may be words or
numbers, and the prefix of markers may be a number.
-/

namespace Shortcodes

/-- What an application settles for all its shortcodes. -/
structure Settings where
  /-- Values handed to every rendering. -/
  context : Context := .empty
  keyword : KeywordPolicy := {}
  /-- What stands before the name in marker classes. -/
  markerPrefix : Text := HtmlShortcode.markerPrefix

/-- Why settings are refused. -/
inductive SettingsFault where
  /-- An override does not name a setting. -/
  | badKey
  /-- A file that must be there is not. -/
  | missingFile
  /-- A file is not well-formed. -/
  | badFile
  /-- A value is not of the kind that its setting takes. -/
  | badKind
  /-- A value has the wrong shape or is none of those allowed. -/
  | badValue
  deriving DecidableEq, Repr

/-- A layer of settings. -/
inductive Layer where
  /-- The content of a file. -/
  | file (content : Text)
  /-- A file that is not there. -/
  | absent (required : Bool)
  /-- A single setting. -/
  | override (key : Text) (value : Json)

namespace Settings

/-! ### Layers -/

/-- The built-in settings. -/
def builtIn : Json :=
  .ofMembers
    [("context".toList, .object []),
     ("keyword".toList, .ofMembers
       [("reject_unknown".toList, .bool true), ("rejoin".toList, .string Omission.defaults.name)]),
     ("html".toList, .ofMembers [("marker_prefix".toList, .string HtmlShortcode.markerPrefix)])]

/-- The overrides of layers, in order. Of several with one path the last counts. -/
def overrides : List Layer → Except SettingsFault (List (Settings.Key × Json))
  | [] => .ok []
  | .override key value :: rest => do
    let some path := Key.read? key | .error .badKey
    let others ← overrides rest
    if others.any (·.1 = path) then return others else return (path, value) :: others
  | _ :: rest => overrides rest

/-- The settings with those of the files of layers added, in order. -/
def addFiles (root : Json) : List Layer → Except SettingsFault Json
  | [] => .ok root
  | .file content :: rest =>
    match Toml.read? content with
    | some table =>
      addFiles (table.foldl (fun r (key, v) => Key.setNamed key v r) root) rest
    | none => .error .badFile
  | .absent required :: rest => if required then .error .missingFile else addFiles root rest
  | .override _ _ :: rest => addFiles root rest

/-! ### Reading values -/

/-- A truth value: a word, a number other than zero, or a truth value itself. -/
def truth : Json → Except SettingsFault Bool
  | .bool b => .ok b
  | .number (.whole n) => .ok (n != 0)
  | .number (.real x) => .ok (x != 0.0)
  | .string t =>
    let word := Text.lower t
    if ["1", "true", "on", "yes"].any (·.toList == word) then .ok true
    else if ["0", "false", "off", "no"].any (·.toList == word) then .ok false
    else .error .badKind
  | _ => .error .badKind

/-- The positional numeral of a double. -/
def numeral (x : Float) : Text :=
  let sign : Text := if Double.isNegative x then ['-'] else []
  let size := Double.size x
  if Double.infinity < size then "NaN".toList
  else if size = Double.infinity then sign ++ "inf".toList
  else if size = 0 then sign ++ ['0']
  else sign ++ (Decimal.ofSize size).positional

/-- A text: a string, or a number or truth value as it is written. -/
def textOf : Json → Except SettingsFault Text
  | .string t => .ok t
  | .bool b => .ok (if b then "true".toList else "false".toList)
  | .number (.whole n) => .ok (Text.ofInt n)
  | .number (.real x) => .ok (numeral x)
  | _ => .error .badKind

/-- An omission: its name in any case, or a table with the name as its only key. -/
def omission (v : Json) : Except SettingsFault Omission :=
  let named (t : Text) : Except SettingsFault Omission :=
    match Omission.ofName? (Text.lower t) with
    | some o => .ok o
    | none => .error .badValue
  match v with
  | .string t => named t
  | .object [(t, _)] => named t
  | _ => .error .badValue

/-- A value, or its default if it is missing. -/
def orDefault {α : Type} (default : α) (read : Json → Except SettingsFault α) :
    Option Json → Except SettingsFault α
  | none => .ok default
  | some v => read v

/-- The keyword policy, as a table or as an array of its values. -/
def policy : Json → Except SettingsFault KeywordPolicy
  | .object members => do
    let reject ← orDefault true truth (Members.get? "reject_unknown".toList members)
    let omission ← orDefault .defaults omission (Members.get? "rejoin".toList members)
    return ⟨reject, omission⟩
  | .array items => do
    let reject ← orDefault true truth items[0]?
    let omission ← orDefault .defaults omission items[1]?
    return ⟨reject, omission⟩
  | _ => .error .badValue

/-- The prefix of markers, as a table or as an array of its value. -/
def markerPrefixOf : Json → Except SettingsFault Text
  | .object members =>
    match Members.get? "marker_prefix".toList members with
    | some v => textOf v
    | none => .error .badValue
  | .array (v :: _) => textOf v
  | _ => .error .badValue

mutual

/-- A value without the numbers that JSON cannot write: they are null. -/
def finite : Json → Json
  | .number (.real x) => if x.isFinite then .number (.real x) else .null
  | .array items => .array (finiteItems items)
  | .object members => .object (finiteMembers members)
  | v => v

/-- Items without the numbers that JSON cannot write. -/
def finiteItems : List Json → List Json
  | [] => []
  | v :: rest => finite v :: finiteItems rest

/-- Members without the numbers that JSON cannot write. -/
def finiteMembers : List (Text × Json) → List (Text × Json)
  | [] => []
  | (key, v) :: rest => (key, finite v) :: finiteMembers rest

end

/-- The context: a table, or null for none. -/
def contextOf : Json → Except SettingsFault Context
  | .object members => .ok (.ofList (finiteMembers members))
  | .null => .ok .empty
  | _ => .error .badValue

/-- Reads settings from a table. -/
def ofJson (root : Json) : Except SettingsFault Settings := do
  let context ← orDefault .empty contextOf (root.member? "context".toList)
  let some keyword := root.member? "keyword".toList | .error .badValue
  let keyword ← policy keyword
  let some html := root.member? "html".toList | .error .badValue
  let markerPrefix ← markerPrefixOf html
  return { context, keyword, markerPrefix }

/-- Builds settings from layers over the built-in ones. -/
def ofLayers (layers : List Layer) : Except SettingsFault Settings := do
  let overrides ← overrides layers
  let files ← addFiles builtIn layers
  ofJson (overrides.foldl (fun r (key, v) => key.set v r) files)

/-! ### Use -/

/-- The marker class of a shortcode. -/
def markerFor (s : Settings) (name : Text) : Text := s.markerPrefix ++ name

/-- The shortcode with the marker class that the settings give it. -/
def mark (s : Settings) (shortcode : HtmlShortcode) : Except Failure HtmlShortcode :=
  shortcode.withMarker (s.markerFor shortcode.name)

/-- An HTML shortcode by position, with the marker class of the settings. -/
def htmlPositional (s : Settings) (name : Text) (inputs : List Input) (template : Template) :
    Except Failure HtmlShortcode := do
  s.mark (← HtmlShortcode.ofDeclaration ⟨name, inputs, .positional⟩ template)

/-- An HTML shortcode by key, with the marker class and the policy of the settings. -/
def htmlKeyword (s : Settings) (name : Text) (inputs : List Input) (template : Template) :
    Except Failure HtmlShortcode := do
  s.mark (← HtmlShortcode.ofDeclaration ⟨name, inputs, .keyword s.keyword⟩ template)

/-- Hands the context of the settings to a registry, whose own values come first. -/
def apply (s : Settings) (r : Registry) : Registry :=
  r.withContext (s.context.merge r.context)

end Settings

end Shortcodes
