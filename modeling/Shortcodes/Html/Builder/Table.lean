import Shortcodes.Html.Builder.Body

/-!
# Rules for tables

The rules for tables and their parts. What may not stand in a table is handled as in the body
and moves before the table; text is collected first, because blanks alone may stay.
-/

namespace Shortcodes.Html.Builder

/-- The rules of the body, with new nodes moved before the table. -/
def foster (b : Builder) (t : Token) : Step :=
  let (b, next) := { b with fostering := true }.inBody t
  ({ b with fostering := false }, next)

/-- Text between the parts of a table. -/
def tableChar (b : Builder) (t : Token) : Step :=
  if b.atAnyOf Names.tableContext then { b with resumeMode := b.mode }.again .inTableText t
  else b.foster t

/-- End tags that a table ignores. -/
def ignoredEndsInTable : List String :=
  ["body", "caption", "col", "colgroup", "html", "tbody", "td", "tfoot", "th", "thead", "tr"]

/-- The rules between the parts of a table. -/
def inTable (b : Builder) (t : Token) : Step :=
  match t with
  | .char _ => b.tableChar t
  | .comment content => (b.insertComment content).done
  | .startTag tag =>
    let name := tag.name
    let cleared := b.popTo Names.tableScope
    if name == "caption" then
      { (cleared.pushBound).insert tag with mode := .inCaption }.done
    else if name == "colgroup" then { cleared.insert tag with mode := .inColumnGroup }.done
    else if name == "col" then (cleared.insertNamed "colgroup").again .inColumnGroup t
    else if Names.rowGroup.contains name then { cleared.insert tag with mode := .inTableBody }.done
    else if Names.cell.contains name || name == "tr" then
      (cleared.insertNamed "tbody").again .inTableBody t
    else if name == "table" then
      if b.inTableScope "table" then
        let b := b.popUntilHtml "table"
        b.again b.modeOfStack t
      else b.done
    else if name == "style" || name == "script" || name == "template" then (b.metadata t).done
    else if name == "input" && isHidden tag then (b.insertClosed tag).done
    else if name == "form" then
      if b.hasOpen "template" || b.form.isSome then b.done
      else
        let (b, e) := b.insertLeaf (htmlLabel tag)
        { b with form := some e.id }.done
    else b.foster t
  | .endTag name =>
    if name == "table" then
      if b.inTableScope "table" then (b.popUntilHtml "table").resetMode.done else b.done
    else if ignoredEndsInTable.contains name then b.done
    else if name == "template" then b.closeTemplate.done
    else b.foster t
  | .stop => b.inBody t
  | _ => b.done

/-- Puts the collected text where it goes: blanks alone stay, anything else moves out. -/
def flushTableText (b : Builder) : Builder :=
  let text := b.tableText.reverse
  let b := { b with tableText := [] }
  if text.all Token.isSpace then text.foldl insertChar b
  else text.foldl (fun b c => (b.foster (.char c)).1) b

/-- The rules while text of a table is collected. -/
def inTableText (b : Builder) (t : Token) : Step :=
  match t with
  | .char c => if c.toNat = 0 then b.done else { b with tableText := c :: b.tableText }.done
  | _ =>
    let mode := b.resumeMode
    b.flushTableText.again mode t

/-- Start tags of table parts. -/
def tableParts : List String :=
  ["caption", "col", "colgroup", "tbody", "td", "tfoot", "th", "thead", "tr"]

/-- The rules in a caption. -/
def inCaption (b : Builder) (t : Token) : Step :=
  let close (next : Builder → Step) : Step :=
    if b.inTableScope "caption" then
      next (((b.closeImplied Names.impliedEnd).popUntilHtml "caption").forgetToBound)
    else b.done
  match t with
  | .startTag tag =>
    if tableParts.contains tag.name then close fun b => b.again .inTable t else b.inBody t
  | .endTag name =>
    if name == "caption" then close fun b => { b with mode := .inTable }.done
    else if name == "table" then close fun b => b.again .inTable t
    else if ignoredEndsInTable.contains name then b.done
    else b.inBody t
  | _ => b.inBody t

/-- The rules in a group of columns. -/
def inColumnGroup (b : Builder) (t : Token) : Step :=
  let leave : Step := if b.atHtml "colgroup" then b.pop.again .inTable t else b.done
  match t with
  | .char c => if Token.isSpace c then (b.insertChar c).done else leave
  | .comment content => (b.insertComment content).done
  | .startTag tag =>
    if tag.name == "html" then b.mergeRoot tag
    else if tag.name == "col" then (b.insertClosed tag).done
    else if tag.name == "template" then (b.metadata t).done
    else leave
  | .endTag name =>
    if name == "colgroup" then
      if b.atHtml "colgroup" then { b.pop with mode := .inTable }.done else b.done
    else if name == "col" then b.done
    else if name == "template" then b.closeTemplate.done
    else leave
  | .stop => b.inBody t
  | _ => leave

/-- Elements between which and the root rows stand. -/
def rowGroupContext : List String := ["tbody", "tfoot", "thead", "template", "html"]

/-- Elements between which and the root cells stand. -/
def rowContext : List String := ["tr", "template", "html"]

/-- The rules in a group of rows. -/
def inTableBody (b : Builder) (t : Token) : Step :=
  let cleared := b.popTo rowGroupContext
  let leave : Step :=
    if b.anyInTableScope ["table", "tbody", "tfoot"] then cleared.pop.again .inTable t
    else b.done
  match t with
  | .startTag tag =>
    if tag.name == "tr" then { cleared.insert tag with mode := .inRow }.done
    else if Names.cell.contains tag.name then (cleared.insertNamed "tr").again .inRow t
    else if ["caption", "col", "colgroup", "tbody", "tfoot", "thead"].contains tag.name then leave
    else b.inTable t
  | .endTag name =>
    if Names.rowGroup.contains name then
      if b.inTableScope name then { cleared.pop with mode := .inTable }.done else b.done
    else if name == "table" then leave
    else if ignoredEndsInTable.contains name then b.done
    else b.inTable t
  | _ => b.inTable t

/-- The rules in a row. -/
def inRow (b : Builder) (t : Token) : Step :=
  let cleared := b.popTo rowContext
  let leave : Step :=
    if b.inTableScope "tr" then cleared.pop.again .inTableBody t else b.done
  match t with
  | .startTag tag =>
    if Names.cell.contains tag.name then
      { (cleared.insert tag).pushBound with mode := .inCell }.done
    else if ["caption", "col", "colgroup", "tbody", "tfoot", "thead", "tr"].contains tag.name then
      leave
    else b.inTable t
  | .endTag name =>
    if name == "tr" then
      if b.inTableScope "tr" then { cleared.pop with mode := .inTableBody }.done else b.done
    else if name == "table" then leave
    else if Names.rowGroup.contains name then
      if b.inTableScope name then leave else b.done
    else if ignoredEndsInTable.contains name then b.done
    else b.inTable t
  | _ => b.inTable t

/-- Closes the open cell. -/
def closeCell (b : Builder) : Builder :=
  ((b.closeImplied Names.impliedEnd).popUntil (·.isAnyOf Names.cell)).forgetToBound

/-- The rules in a cell. -/
def inCell (b : Builder) (t : Token) : Step :=
  match t with
  | .startTag tag =>
    if tableParts.contains tag.name then
      if b.anyInTableScope Names.cell then b.closeCell.again .inRow t else b.done
    else b.inBody t
  | .endTag name =>
    if Names.cell.contains name then
      if b.inTableScope name then
        { ((b.closeImplied Names.impliedEnd).popUntilHtml name).forgetToBound with
          mode := .inRow }.done
      else b.done
    else if ["body", "caption", "col", "colgroup", "html"].contains name then b.done
    else if Names.tableContext.contains name then
      if b.inTableScope name then b.closeCell.again .inRow t else b.done
    else b.inBody t
  | _ => b.inBody t

end Shortcodes.Html.Builder
