import Shortcodes.Html.Builder.Table

/-!
# Rules for the other modes

Raw text, selections, templates, framesets and what follows the body; the rules for markup that
is not HTML; and the choice of the rule that a token meets.
-/

namespace Shortcodes.Html.Builder

/-! ### Raw text -/

/-- The rules in raw text. -/
def inText (b : Builder) (t : Token) : Step :=
  match t with
  | .char c => (b.insertChar c).done
  | .stop => b.pop.again b.resumeMode t
  | .endTag _ => { b.pop with mode := b.resumeMode }.done
  | _ => b.done

/-! ### Selections -/

/-- Closes an open option, and then an open group of options. -/
def closeOptions (b : Builder) : Builder :=
  let b := if b.atHtml "option" then b.pop else b
  if b.atHtml "optgroup" then b.pop else b

/-- Closes the open `select`, if it is in scope. -/
def closeSelect (b : Builder) : Builder :=
  if b.selectInScope then (b.popUntilHtml "select").resetMode else b

/-- The rules in a `select`. -/
def inSelect (b : Builder) (t : Token) : Step :=
  match t with
  | .char c => if c.toNat = 0 then b.done else (b.insertChar c).done
  | .comment content => (b.insertComment content).done
  | .startTag tag =>
    let name := tag.name
    if name == "html" then b.mergeRoot tag
    else if name == "option" then ((if b.atHtml "option" then b.pop else b).insert tag).done
    else if name == "optgroup" then (b.closeOptions.insert tag).done
    else if name == "hr" then (b.closeOptions.insertClosed tag).done
    else if name == "select" then b.closeSelect.done
    else if name == "input" || name == "keygen" || name == "textarea" then
      if b.selectInScope then
        let b := b.popUntilHtml "select"
        b.again b.modeOfStack t
      else b.done
    else if name == "script" || name == "template" then (b.metadata t).done
    else b.done
  | .endTag name =>
    if name == "optgroup" then
      let b := match b.stack with
        | e :: e' :: _ => if e.isHtml "option" && e'.isHtml "optgroup" then b.pop else b
        | _ => b
      (if b.atHtml "optgroup" then b.pop else b).done
    else if name == "option" then (if b.atHtml "option" then b.pop else b).done
    else if name == "select" then b.closeSelect.done
    else if name == "template" then b.closeTemplate.done
    else b.done
  | .stop => b.inBody t
  | _ => b.done

/-- Tags of tables that end a `select` in one. -/
def endsSelectInTable : List String :=
  ["caption", "table", "tbody", "tfoot", "thead", "tr", "td", "th"]

/-- The rules in a `select` in a table. -/
def inSelectInTable (b : Builder) (t : Token) : Step :=
  match t with
  | .startTag tag =>
    if endsSelectInTable.contains tag.name then
      let b := b.popUntilHtml "select"
      b.again b.modeOfStack t
    else b.inSelect t
  | .endTag name =>
    if endsSelectInTable.contains name then
      if b.inTableScope name then
        let b := b.popUntilHtml "select"
        b.again b.modeOfStack t
      else b.done
    else b.inSelect t
  | _ => b.inSelect t

/-! ### Templates -/

/-- The mode in which a start tag in a template belongs. -/
def modeInTemplate (name : String) : Mode :=
  if ["caption", "colgroup", "tbody", "tfoot", "thead"].contains name then .inTable
  else if name == "col" then .inColumnGroup
  else if name == "tr" then .inTableBody
  else if Names.cell.contains name then .inRow
  else .inBody

/-- The rules in a template. -/
def inTemplate (b : Builder) (t : Token) : Step :=
  match t with
  | .char _ | .comment _ => b.inBody t
  | .startTag tag =>
    if Names.metadata.contains tag.name then (b.metadata t).done
    else
      let mode := modeInTemplate tag.name
      { b with templateModes := mode :: b.templateModes.tail }.again mode t
  | .endTag name => if name == "template" then b.closeTemplate.done else b.done
  | .stop => b.stopInTemplate t
  | _ => b.done

/-! ### After the body -/

/-- The rules after the body. -/
def afterBody (b : Builder) (t : Token) : Step :=
  match t with
  | .char c => if Token.isSpace c then b.inBody t else b.again .inBody t
  | .comment content => (b.appendComment b.root content).done
  | .startTag tag => if tag.name == "html" then b.mergeRoot tag else b.again .inBody t
  | .endTag name =>
    if name == "html" then { b with mode := .afterAfterBody }.done else b.again .inBody t
  | .stop => b.done
  | _ => b.again .inBody t

/-- The rules after the root. -/
def afterAfterBody (b : Builder) (t : Token) : Step :=
  match t with
  | .char c => if Token.isSpace c then b.inBody t else b.again .inBody t
  | .comment content => (b.appendComment 0 content).done
  | .startTag tag => if tag.name == "html" then b.mergeRoot tag else b.again .inBody t
  | .stop => b.done
  | _ => b.again .inBody t

/-! ### Framesets -/

/-- The rules in a frameset. -/
def inFrameset (b : Builder) (t : Token) : Step :=
  match t with
  | .char c => if Token.isSpace c then (b.insertChar c).done else b.done
  | .comment content => (b.insertComment content).done
  | .startTag tag =>
    if tag.name == "html" then b.mergeRoot tag
    else if tag.name == "frameset" then (b.insert tag).done
    else if tag.name == "frame" then (b.insertClosed tag).done
    else if tag.name == "noframes" then (b.metadata t).done
    else b.done
  | .endTag name =>
    if name == "frameset" && 1 < b.stack.length then
      let b := b.pop
      (if b.atHtml "frameset" then b else { b with mode := .afterFrameset }).done
    else b.done
  | _ => b.done

/-- The rules after a frameset. -/
def afterFrameset (b : Builder) (t : Token) : Step :=
  match t with
  | .char c => if Token.isSpace c then (b.insertChar c).done else b.done
  | .comment content => (b.insertComment content).done
  | .startTag tag =>
    if tag.name == "html" then b.mergeRoot tag
    else if tag.name == "noframes" then (b.metadata t).done
    else b.done
  | .endTag name =>
    if name == "html" then { b with mode := .afterAfterFrameset }.done else b.done
  | _ => b.done

/-- The rules after the root with a frameset. -/
def afterAfterFrameset (b : Builder) (t : Token) : Step :=
  match t with
  | .char c => if Token.isSpace c then b.inBody t else b.done
  | .comment content => (b.appendComment 0 content).done
  | .startTag tag =>
    if tag.name == "html" then b.mergeRoot tag
    else if tag.name == "noframes" then (b.metadata t).done
    else b.done
  | _ => b.done

/-! ### HTML -/

/-- The rules of the mode. -/
def byMode (b : Builder) (t : Token) : Step :=
  match b.mode with
  | .initial => b.initial t
  | .beforeHtml => b.beforeHtml t
  | .beforeHead => b.beforeHead t
  | .inHead => b.inHead t
  | .afterHead => b.afterHead t
  | .inBody => b.inBody t
  | .text => b.inText t
  | .inTable => b.inTable t
  | .inTableText => b.inTableText t
  | .inCaption => b.inCaption t
  | .inColumnGroup => b.inColumnGroup t
  | .inTableBody => b.inTableBody t
  | .inRow => b.inRow t
  | .inCell => b.inCell t
  | .inSelect => b.inSelect t
  | .inSelectInTable => b.inSelectInTable t
  | .inTemplate => b.inTemplate t
  | .afterBody => b.afterBody t
  | .inFrameset => b.inFrameset t
  | .afterFrameset => b.afterFrameset t
  | .afterAfterBody => b.afterAfterBody t
  | .afterAfterFrameset => b.afterAfterFrameset t

/-! ### Markup that is not HTML -/

/-- Whether the innermost open element is not HTML. -/
def inForeign (b : Builder) : Bool := b.stack.head?.any fun e => e.space ≠ .html

/-- Whether a token meets the rules for markup that is not HTML. -/
def isForeign (b : Builder) (t : Token) : Bool :=
  match b.stack.head? with
  | none => false
  | some e =>
    if e.space = .html then false
    else
      match t with
      | .stop => false
      | .char _ => !(e.isMathText || e.isSvgHtml || e.holdsHtml)
      | .startTag tag =>
        if e.isMathText && tag.name != "mglyph" && tag.name != "malignmark" then false
        else if e.isSvgHtml then false
        else if e.space = .mathml && e.name == "annotation-xml" then
          !(tag.name == "svg" || e.holdsHtml)
        else true
      | _ => true

/-- Leaves the markup that is not HTML and processes the token as HTML. -/
def leaveForeign (b : Builder) (t : Token) : Step :=
  let outside (e : OpenElement) : Bool := e.space = .html || e.isMathText || e.isSvgHtml
  { b with stack := b.stack.dropWhile fun e => !outside e }.byMode t

/-- Whether a start tag leaves markup that is not HTML. -/
def leavesForeign (tag : StartTag) : Bool :=
  Names.leavesForeign.contains tag.name ||
    (tag.name == "font" &&
      tag.attributes.any fun (name, _) => name == "color" || name == "face" || name == "size")

/-- Closes what an end tag names among elements that are not HTML; the first HTML element met
    takes the tag. `below` are the elements still to look at, innermost first. -/
def closeForeign (b : Builder) (name : String) (first : Bool) : List OpenElement → Step
  | [] | [_] => b.done
  | e :: rest =>
    if !first && e.space = .html then b.byMode (.endTag name)
    else if Text.lowerAscii e.name.toList == name.toList then { b with stack := rest }.done
    else closeForeign b name false rest

/-- The rules for markup that is not HTML. -/
def foreign (b : Builder) (t : Token) : Step :=
  match t with
  | .char c =>
    if c.toNat = 0 then (b.insertChar Reference.replacement).done
    else
      let b := if Token.isSpace c then b else { b with framesetOk := false }
      (b.insertChar c).done
  | .comment content => (b.insertComment content).done
  | .startTag tag =>
    if leavesForeign tag then b.leaveForeign t
    else
      let space := b.current.space
      let name := if space = .svg then svgElementName tag.name else tag.name
      (b.insertForeign space name tag).done
  | .endTag name =>
    if name == "br" || name == "p" then b.leaveForeign t
    else b.closeForeign name true b.stack
  | _ => b.done

/-! ### Tokens -/

/-- Applies the rule that a token meets, and those that it leads to, at most `fuel`. -/
def process : (fuel : Nat) → Builder → Token → Builder
  | 0, b, _ => b
  | fuel + 1, b, t =>
    match if b.isForeign t then b.foreign t else b.byMode t with
    | (b, none) => b
    | (b, some t) => process fuel b t

/-- The number of rules that one token can lead through: each that hands it on closes an
    element or moves to a later part of the document. -/
def ruleBound (b : Builder) : Nat := 2 * b.stack.length + 24

/-- Takes a token. A line break right after some start tags does not count. -/
def accept (b : Builder) (t : Token) : Builder :=
  let skip := b.skipBreak
  let b := { b with skipBreak := false }
  match t with
  | .fault => b
  | .doctype legacy => if b.mode = .initial then { b with legacy, mode := .beforeHtml } else b
  | .char c => if skip && c = '\n' then b else process b.ruleBound b t
  | _ => process b.ruleBound b t

end Shortcodes.Html.Builder
