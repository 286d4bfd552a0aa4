import Shortcodes.Html.Builder.Formatting

/-!
# Rules for head and body

The rules for what stands in the head, for what stands in the body, and for the modes before and
between them. Other modes fall back on these rules.
-/

namespace Shortcodes.Html.Builder

/-! ### Head -/

/-- A second `html` start tag gives the root the attributes it lacks. -/
def mergeRoot (b : Builder) (tag : StartTag) : Step :=
  if b.hasOpen "template" then b.done
  else { b with arena := b.arena.addMissing b.root (ownAttributes tag.attributes) }.done

/-- Opens a template. -/
def openTemplate (b : Builder) (tag : StartTag) : Builder :=
  let b := (b.pushBound).insert tag
  { b with framesetOk := false, mode := .inTemplate,
           templateModes := .inTemplate :: b.templateModes }

/-- Closes the innermost template, if there is one. -/
def closeTemplate (b : Builder) : Builder :=
  if b.hasOpen "template" then
    let b := ((b.closeImplied Names.impliedEndInTemplate).popUntilHtml "template").forgetToBound
    { b with templateModes := b.templateModes.tail }.resetMode
  else b

/-- Elements that belong into the head, and the tags of templates, wherever they are met. -/
def metadata (b : Builder) (t : Token) : Builder :=
  match t with
  | .startTag tag =>
    if tag.name == "title" then b.insertRaw tag (.referring "title")
    else if tag.name == "noframes" || tag.name == "style" || tag.name == "noscript" then
      b.insertRaw tag (.raw tag.name)
    else if tag.name == "script" then b.insertRaw tag (.script .plain)
    else if tag.name == "template" then b.openTemplate tag
    else b.insertClosed tag
  | .endTag _ => b.closeTemplate
  | _ => b

/-- Whether an end tag stands where the element it closes was left out. -/
def endsUnopened (name : String) : Bool :=
  name == "body" || name == "html" || name == "br"

/-- The rules in the head. -/
def inHead (b : Builder) (t : Token) : Step :=
  let leave := b.pop.again .afterHead t
  match t with
  | .char c => if Token.isSpace c then (b.insertChar c).done else leave
  | .comment content => (b.insertComment content).done
  | .startTag tag =>
    if tag.name == "html" then b.mergeRoot tag
    else if Names.metadata.contains tag.name || tag.name == "noscript" then
      (b.metadata t).done
    else if tag.name == "head" then b.done
    else leave
  | .endTag name =>
    if name == "head" then { b.pop with mode := .afterHead }.done
    else if endsUnopened name then leave
    else if name == "template" then b.closeTemplate.done
    else b.done
  | _ => leave

/-! ### Before and after the head -/

/-- The rules before anything. -/
def initial (b : Builder) (t : Token) : Step :=
  let leave := { b with legacy := true }.again .beforeHtml t
  match t with
  | .char c => if Token.isSpace c then b.done else leave
  | .comment content => (b.appendComment 0 content).done
  | _ => leave

/-- The rules before the root. -/
def beforeHtml (b : Builder) (t : Token) : Step :=
  let leave := (b.insertRoot []).again .beforeHead t
  match t with
  | .char c => if Token.isSpace c then b.done else leave
  | .comment content => (b.appendComment 0 content).done
  | .startTag tag =>
    if tag.name == "html" then { b.insertRoot tag.attributes with mode := .beforeHead }.done
    else leave
  | .endTag name => if name == "head" || endsUnopened name then leave else b.done
  | _ => leave

/-- Opens the head. -/
def openHead (b : Builder) (tag : StartTag) : Builder :=
  let (b, e) := b.insertLabel (htmlLabel tag)
  { b with head := some e.id, mode := .inHead }

/-- The rules before the head. -/
def beforeHead (b : Builder) (t : Token) : Step :=
  let leave := (b.openHead { name := "head" }).again .inHead t
  match t with
  | .char c => if Token.isSpace c then b.done else leave
  | .comment content => (b.insertComment content).done
  | .startTag tag =>
    if tag.name == "html" then b.mergeRoot tag
    else if tag.name == "head" then (b.openHead tag).done
    else leave
  | .endTag name => if name == "head" || endsUnopened name then leave else b.done
  | _ => leave

/-- Adds what belongs into the head to the closed head. -/
def metadataAfterHead (b : Builder) (t : Token) : Builder :=
  match b.head with
  | some id =>
    let e : OpenElement := { id, space := .html, name := "head" }
    ({ b with stack := e :: b.stack }.metadata t).removeOpen id
  | none => b.metadata t

/-- The rules after the head. -/
def afterHead (b : Builder) (t : Token) : Step :=
  let leave := (b.insertNamed "body").again .inBody t
  match t with
  | .char c => if Token.isSpace c then (b.insertChar c).done else leave
  | .comment content => (b.insertComment content).done
  | .startTag tag =>
    if tag.name == "html" then b.mergeRoot tag
    else if tag.name == "body" then
      { b.insert tag with framesetOk := false, mode := .inBody }.done
    else if tag.name == "frameset" then { b.insert tag with mode := .inFrameset }.done
    else if Names.metadata.contains tag.name then (b.metadataAfterHead t).done
    else if tag.name == "head" then b.done
    else leave
  | .endTag name =>
    if name == "template" then b.closeTemplate.done
    else if endsUnopened name then leave
    else b.done
  | _ => leave

/-! ### Body: start tags -/

/-- A second `body` start tag gives the body the attributes it lacks. -/
def mergeBody (b : Builder) (tag : StartTag) : Builder :=
  match b.body? with
  | some e =>
    if b.hasOpen "template" then b
    else
      { b with framesetOk := false,
               arena := b.arena.addMissing e.id (ownAttributes tag.attributes) }
  | none => b

/-- A frameset takes the place of a body that holds nothing yet. -/
def replaceBody (b : Builder) (tag : StartTag) : Builder :=
  if b.framesetOk then
    match b.body? with
    | some e =>
      let b := { b with arena := b.arena.detach e.id, stack := b.stack.drop (b.stack.length - 1) }
      { b.insert tag with mode := .inFrameset }
    | none => b
  else b

/-- The open item that a new list item closes. -/
def openItem? (closes : List String) : List OpenElement → Option String
  | [] => none
  | e :: rest =>
    if e.isAnyOf closes then some e.name
    else if e.isAnyOf Names.special && !e.isAnyOf Names.transparentToItems then none
    else openItem? closes rest

/-- Opens a list item. -/
def insertItem (b : Builder) (tag : StartTag) : Builder :=
  let closes := if tag.name == "li" then ["li"] else ["dd", "dt"]
  let b := { b with framesetOk := false }
  let b := match openItem? closes b.stack with
    | some name => (b.closeImpliedExcept name).popUntilHtml name
    | none => b
  b.closeParagraphInScope.insert tag

/-- Whether an input is hidden. -/
def isHidden (tag : StartTag) : Bool :=
  tag.attributes.any fun (name, value) =>
    name == "type" && Text.sameUpToCase value "hidden".toList

/-- Adds an element that has no content. -/
def insertVoid (b : Builder) (tag : StartTag) : Builder :=
  let keeps := tag.name == "input" && isHidden tag
  let b := b.reopenFormatting.insertClosed tag
  if keeps then b else { b with framesetOk := false }

/-- Opens a form, unless one is open. -/
def insertForm (b : Builder) (tag : StartTag) : Builder :=
  let inTemplate := b.hasOpen "template"
  if b.form.isSome && !inTemplate then b
  else
    let (b, e) := b.closeParagraphInScope.insertLabel (htmlLabel tag)
    if inTemplate then b else { b with form := some e.id }

/-- Opens a button. An open button is closed first. -/
def insertButton (b : Builder) (tag : StartTag) : Builder :=
  let b := if b.inScope "button" then
      (b.closeImplied Names.impliedEnd).popUntilHtml "button"
    else b
  { b.reopenFormatting.insert tag with framesetOk := false }

/-- Opens an element that does not wrap, inside no other of its kind. -/
def insertUnbroken (b : Builder) (tag : StartTag) : Builder :=
  let b := b.reopenFormatting
  let b := if b.inScope "nobr" then (b.closeFormatting "nobr").reopenFormatting else b
  b.insertFormatting tag

/-- The mode of a `select` that is opened in a mode. -/
def modeInSelect (mode : Mode) : Mode :=
  if [Mode.inTable, .inCaption, .inTableBody, .inRow, .inCell].contains mode then
    .inSelectInTable
  else .inSelect

/-- The name of an attribute with the capitals that SVG gives it. -/
def svgAttributeName (name : String) : String :=
  let known := ["attributeName", "attributeType", "baseFrequency", "baseProfile", "calcMode",
    "clipPathUnits", "diffuseConstant", "edgeMode", "filterUnits", "glyphRef",
    "gradientTransform", "gradientUnits", "kernelMatrix", "kernelUnitLength", "keyPoints",
    "keySplines", "keyTimes", "lengthAdjust", "limitingConeAngle", "markerHeight",
    "markerUnits", "markerWidth", "maskContentUnits", "maskUnits", "numOctaves", "pathLength",
    "patternContentUnits", "patternTransform", "patternUnits", "pointsAtX", "pointsAtY",
    "pointsAtZ", "preserveAlpha", "preserveAspectRatio", "primitiveUnits", "refX", "refY",
    "repeatCount", "repeatDur", "requiredExtensions", "requiredFeatures",
    "specularConstant", "specularExponent", "spreadMethod", "startOffset", "stdDeviation",
    "stitchTiles", "surfaceScale", "systemLanguage", "tableValues", "targetX", "targetY",
    "textLength", "viewBox", "viewTarget", "xChannelSelector", "yChannelSelector", "zoomAndPan"]
  (known.find? fun k => Text.lowerAscii k.toList == name.toList).getD name

/-- The name of an element with the capitals that SVG gives it. -/
def svgElementName (name : String) : String :=
  let known := ["altGlyph", "altGlyphDef", "altGlyphItem", "animateColor", "animateMotion",
    "animateTransform", "clipPath", "feBlend", "feColorMatrix", "feComponentTransfer",
    "feComposite", "feConvolveMatrix", "feDiffuseLighting", "feDisplacementMap",
    "feDistantLight", "feDropShadow", "feFlood", "feFuncA", "feFuncB", "feFuncG", "feFuncR",
    "feGaussianBlur", "feImage", "feMerge", "feMergeNode", "feMorphology", "feOffset",
    "fePointLight", "feSpecularLighting", "feSpotLight", "feTile", "feTurbulence",
    "foreignObject", "glyphRef", "linearGradient", "radialGradient", "textPath"]
  (known.find? fun k => Text.lowerAscii k.toList == name.toList).getD name

/-- An attribute of an element outside HTML: a few names belong to other vocabularies. -/
def foreignAttribute (space : Space) (name : String) (value : Text) : Attribute :=
  let name := match space with
    | .svg => svgAttributeName name
    | .mathml => if name == "definitionurl" then "definitionURL" else name
    | .html => name
  if ["xlink:actuate", "xlink:arcrole", "xlink:href", "xlink:role", "xlink:show", "xlink:title",
      "xlink:type"].contains name then
    ⟨.xlink, String.ofList (name.toList.drop 6), value⟩
  else if name == "xml:lang" || name == "xml:space" then
    ⟨.xml, String.ofList (name.toList.drop 4), value⟩
  else if name == "xmlns" then ⟨.xmlns, "xmlns", value⟩
  else if name == "xmlns:xlink" then ⟨.xmlns, "xlink", value⟩
  else ⟨.own, name, value⟩

/-- Adds an element outside HTML, open unless its tag closes itself. -/
def insertForeign (b : Builder) (space : Space) (name : String) (tag : StartTag) : Builder :=
  let label : Label :=
    ⟨space, name, tag.attributes.map fun (n, v) => foreignAttribute space n v⟩
  if tag.selfClosing then (b.insertLeaf label).1 else (b.insertLabel label).1

/-- The rules for blocks in the body; none if the tag does not open one. -/
def blockStart? (b : Builder) (tag : StartTag) : Option Builder :=
  let name := tag.name
  if Names.block.contains name then some (b.closeParagraphInScope.insert tag)
  else if Names.heading.contains name then
    let b := b.closeParagraphInScope
    some ((if b.atAnyOf Names.heading then b.pop else b).insert tag)
  else if name == "pre" || name == "listing" then
    some { b.closeParagraphInScope.insert tag with skipBreak := true, framesetOk := false }
  else if name == "form" then some (b.insertForm tag)
  else if name == "li" || name == "dd" || name == "dt" then some (b.insertItem tag)
  else if name == "plaintext" then
    some { b.closeParagraphInScope.insert tag with lexing := .plaintext }
  else if name == "table" then
    let b := if b.legacy then b else b.closeParagraphInScope
    some { b.insert tag with framesetOk := false, mode := .inTable }
  else if name == "hr" then
    some { b.closeParagraphInScope.insertClosed tag with framesetOk := false }
  else if name == "xmp" then
    some ({ b.closeParagraphInScope.reopenFormatting with framesetOk := false }.insertRaw tag
      (.raw "xmp"))
  else none

/-- The rules for what runs with the text of the body; none if the tag does not open it. -/
def inlineStart? (b : Builder) (tag : StartTag) : Option Builder :=
  let name := tag.name
  if name == "a" then some (b.closeOpenLink.reopenFormatting.insertFormatting tag)
  else if Names.formatting.contains name then some (b.reopenFormatting.insertFormatting tag)
  else if name == "nobr" then some (b.insertUnbroken tag)
  else if name == "button" then some (b.insertButton tag)
  else if Names.embedding.contains name then
    some { (b.reopenFormatting.insert tag).pushBound with framesetOk := false }
  else if Names.inlineVoid.contains name then some (b.insertVoid tag)
  else if name == "image" then some (b.insertVoid { tag with name := "img" })
  else if name == "param" || name == "source" || name == "track" then some (b.insertClosed tag)
  else if name == "textarea" then
    some ({ b with skipBreak := true, framesetOk := false }.insertRaw tag (.referring "textarea"))
  else if name == "iframe" then some ({ b with framesetOk := false }.insertRaw tag (.raw "iframe"))
  else if name == "noembed" || name == "noscript" then some (b.insertRaw tag (.raw name))
  else if name == "select" then
    some { b.reopenFormatting.insert tag with framesetOk := false, mode := modeInSelect b.mode }
  else if name == "optgroup" || name == "option" then
    some ((if b.atHtml "option" then b.pop else b).reopenFormatting.insert tag)
  else if name == "rb" || name == "rtc" then
    some ((if b.inScope "ruby" then b.closeImplied Names.impliedEnd else b).insert tag)
  else if name == "rp" || name == "rt" then
    some ((if b.inScope "ruby" then b.closeImpliedExcept "rtc" else b).insert tag)
  else if name == "math" then some (b.insertForeign .mathml name tag)
  else if name == "svg" then some (b.insertForeign .svg name tag)
  else none

/-- A start tag in the body. -/
def bodyStart (b : Builder) (tag : StartTag) : Step :=
  if tag.name == "html" then b.mergeRoot tag
  else if Names.metadata.contains tag.name then (b.metadata (.startTag tag)).done
  else if tag.name == "body" then (b.mergeBody tag).done
  else if tag.name == "frameset" then (b.replaceBody tag).done
  else
    match b.blockStart? tag with
    | some b => b.done
    | none =>
      match b.inlineStart? tag with
      | some b => b.done
      | none =>
        if Names.ignoredInBody.contains tag.name then b.done
        else (b.reopenFormatting.insert tag).done

/-! ### Body: end tags -/

/-- Closes the open form. -/
def closeForm (b : Builder) : Builder :=
  if b.hasOpen "template" then
    if b.inScope "form" then (b.closeImplied Names.impliedEnd).popUntilHtml "form" else b
  else
    match b.form with
    | none => b
    | some id =>
      let b := { b with form := none }
      if inScopeWhere OpenElement.boundsScope (·.id = id) b.stack then
        (b.closeImplied Names.impliedEnd).removeOpen id
      else b

/-- Closes an item of a list. -/
def closeItem (b : Builder) (name : String) : Builder :=
  let bounds := if name == "li" then OpenElement.boundsListScope else OpenElement.boundsScope
  if inScopeWhere bounds (·.isHtml name) b.stack then
    (b.closeImpliedExcept name).popUntilHtml name
  else b

/-- An end tag in the body. -/
def bodyEnd (b : Builder) (name : String) : Step :=
  if name == "template" then b.closeTemplate.done
  else if name == "body" then
    if b.inScope "body" then { b with mode := .afterBody }.done else b.done
  else if name == "html" then
    if b.inScope "body" then b.again .afterBody (.endTag name) else b.done
  else if Names.closedWhole.contains name then
    if b.inScope name then ((b.closeImplied Names.impliedEnd).popUntilHtml name).done
    else b.done
  else if name == "form" then b.closeForm.done
  else if name == "p" then
    (if b.paragraphInScope then b else b.insertNamed "p").closeParagraph.done
  else if name == "li" || name == "dd" || name == "dt" then (b.closeItem name).done
  else if Names.heading.contains name then
    if inScopeWhere OpenElement.boundsScope (·.isAnyOf Names.heading) b.stack then
      ((b.closeImplied Names.impliedEnd).popUntil (·.isAnyOf Names.heading)).done
    else b.done
  else if Names.formatting.contains name || name == "a" || name == "nobr" then
    (b.closeFormatting name).done
  else if Names.embedding.contains name then
    if b.inScope name then
      ((b.closeImplied Names.impliedEnd).popUntilHtml name).forgetToBound.done
    else b.done
  else if name == "br" then (b.insertVoid { name := "br" }).done
  else (b.closeNamed name).done

/-! ### Body -/

/-- The end of the markup inside a template. -/
def stopInTemplate (b : Builder) (t : Token) : Step :=
  if b.hasOpen "template" then
    let b := (b.popUntilHtml "template").forgetToBound
    let b := { b with templateModes := b.templateModes.tail }.resetMode
    b.again b.mode t
  else b.done

/-- The rules in the body. -/
def inBody (b : Builder) (t : Token) : Step :=
  match t with
  | .char c =>
    if c.toNat = 0 then b.done
    else
      let b := b.reopenFormatting
      let b := if Token.isSpace c then b else { b with framesetOk := false }
      (b.insertChar c).done
  | .comment content => (b.insertComment content).done
  | .startTag tag => b.bodyStart tag
  | .endTag name => b.bodyEnd name
  | .stop => if b.templateModes ≠ [] then b.stopInTemplate t else b.done
  | _ => b.done

end Shortcodes.Html.Builder
