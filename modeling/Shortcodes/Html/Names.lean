/-!
# Classes of element names

The names that the rules of HTML treat alike. All are names of HTML elements, in lower case.
-/

namespace Shortcodes.Html.Names

/-- Elements without end tag and content in written markup. -/
def void : List String :=
  ["area", "base", "basefont", "bgsound", "br", "col", "embed", "frame", "hr", "img", "input",
   "keygen", "link", "meta", "param", "source", "track", "wbr"]

/-- Elements whose text is written as it is, without references. -/
def rawText : List String :=
  ["style", "script", "xmp", "iframe", "noembed", "noframes", "plaintext", "noscript"]

/-- Elements that bound the repair of wrongly nested tags. -/
def special : List String :=
  ["address", "applet", "area", "article", "aside", "base", "basefont", "bgsound", "blockquote",
   "body", "br", "button", "caption", "center", "col", "colgroup", "dd", "details", "dir", "div",
   "dl", "dt", "embed", "fieldset", "figcaption", "figure", "footer", "form", "frame", "frameset",
   "h1", "h2", "h3", "h4", "h5", "h6", "head", "header", "hgroup", "hr", "html", "iframe", "img",
   "input", "isindex", "li", "link", "listing", "main", "marquee", "menu", "meta", "nav",
   "noembed", "noframes", "noscript", "object", "ol", "p", "param", "plaintext", "pre", "script",
   "section", "select", "source", "style", "summary", "table", "tbody", "td", "template",
   "textarea", "tfoot", "th", "thead", "title", "tr", "track", "ul", "wbr", "xmp"]

/-- Special elements that a new list item looks through for an open one. -/
def transparentToItems : List String := ["address", "div", "p"]

/-- Elements that bound the general scope. -/
def scope : List String :=
  ["applet", "caption", "html", "table", "td", "th", "marquee", "object", "template"]

/-- Elements that bound the scope of table parts. -/
def tableScope : List String := ["html", "table", "template"]

/-- Elements whose end tag may be left out. -/
def impliedEnd : List String :=
  ["dd", "dt", "li", "option", "optgroup", "p", "rb", "rp", "rt", "rtc"]

/-- Elements whose end the end of a template implies. -/
def impliedEndInTemplate : List String :=
  impliedEnd ++ ["caption", "colgroup", "tbody", "td", "tfoot", "th", "thead", "tr"]

/-- Headings. -/
def heading : List String := ["h1", "h2", "h3", "h4", "h5", "h6"]

/-- Elements that belong into the head. -/
def metadata : List String :=
  ["base", "basefont", "bgsound", "link", "meta", "noframes", "script", "style", "template",
   "title"]

/-- Blocks that close an open paragraph. -/
def block : List String :=
  ["address", "article", "aside", "blockquote", "center", "details", "dialog", "dir", "div", "dl",
   "fieldset", "figcaption", "figure", "footer", "header", "hgroup", "main", "menu", "nav", "ol",
   "p", "search", "section", "summary", "ul"]

/-- Elements that an end tag of their name closes with everything in them. -/
def closedWhole : List String :=
  ["address", "article", "aside", "blockquote", "button", "center", "details", "dialog", "dir",
   "div", "dl", "fieldset", "figcaption", "figure", "footer", "header", "hgroup", "listing",
   "main", "menu", "nav", "ol", "pre", "search", "section", "summary", "ul"]

/-- Formatting elements, apart from `a` and `nobr`. -/
def formatting : List String :=
  ["b", "big", "code", "em", "font", "i", "s", "small", "strike", "strong", "tt", "u"]

/-- Elements that hold a document of their own. -/
def embedding : List String := ["applet", "marquee", "object"]

/-- Elements without content in a body that keep formatting around them. -/
def inlineVoid : List String := ["area", "br", "embed", "img", "keygen", "wbr", "input"]

/-- Start tags that a body ignores. -/
def ignoredInBody : List String :=
  ["caption", "col", "colgroup", "frame", "head", "tbody", "td", "tfoot", "th", "thead", "tr"]

/-- Groups of table rows. -/
def rowGroup : List String := ["tbody", "tfoot", "thead"]

/-- Table cells. -/
def cell : List String := ["td", "th"]

/-- Elements between which and a table stray content is moved before the table. -/
def tableContext : List String := ["table", "tbody", "tfoot", "thead", "tr"]

/-- Start tags that leave foreign markup. -/
def leavesForeign : List String :=
  ["b", "big", "blockquote", "body", "br", "center", "code", "dd", "div", "dl", "dt", "em",
   "embed", "h1", "h2", "h3", "h4", "h5", "h6", "head", "hr", "i", "img", "li", "listing", "menu",
   "meta", "nobr", "ol", "p", "pre", "ruby", "s", "small", "span", "strong", "strike", "sub",
   "sup", "table", "tt", "u", "ul", "var"]

/-- MathML elements that hold text. -/
def mathText : List String := ["mi", "mo", "mn", "ms", "mtext"]

/-- SVG elements that hold HTML. -/
def svgHtml : List String := ["foreignObject", "desc", "title"]

end Shortcodes.Html.Names
