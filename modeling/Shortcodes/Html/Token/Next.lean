import Shortcodes.Html.Token.Doctype

/-!
# The next token

Reads the token, or the few tokens, at the start of a text that is not empty, and says how what
follows is to be read. Line breaks are written `\n` only; NUL characters outside plain content
are replaced.
-/

namespace Shortcodes.Html

/-- Tokens at the start of a text, and where reading goes on. -/
structure Lexed where
  tokens : List Token
  lexing : Lexing
  rest : Text

namespace Token

/-- The text with every line break written `\n`. -/
def normalizeBreaks : Text → Text
  | '\r' :: '\n' :: rest => '\n' :: normalizeBreaks rest
  | '\r' :: rest => '\n' :: normalizeBreaks rest
  | c :: rest => c :: normalizeBreaks rest
  | [] => []

/-- The text without a byte order mark at its start. -/
def withoutMark : Text → Text
  | '\ufeff' :: rest => rest
  | t => t

/-- The text as it is lexed: without a byte order mark at its start, and with its line breaks
    written alike. -/
def prepare (t : Text) : Text := normalizeBreaks (withoutMark t)

/-- The tokens of a reference that was read. -/
def ofReference (r : Reference.Reading) : List Token :=
  if r.unended then fault :: chars r.text else chars r.text

/-! ### Plain content -/

/-- A CDATA section after its opening mark. -/
def readCdata (t : Text) : Text × Text := (Text.cut? "]]>".toList t).getD (t, [])

/-- What follows `<!`. -/
def nextDeclaration (foreign : Bool) (t : Text) : List Token × Text :=
  if let some rest := Text.after? ['-', '-'] t then
    let (content, tail) := readComment rest
    ([comment (replaceNul content)], tail)
  else if Text.lowerAscii (t.take 7) = "doctype".toList then
    let (d, tail) := Doctype.read (t.drop 7)
    ([doctype d.isLegacy], tail)
  else
    match if foreign then Text.after? "[CDATA[".toList t else none with
    | some rest =>
      let (content, tail) := readCdata rest
      (chars content, tail)
    | none =>
      let (content, tail) := readBogus t
      ([comment (replaceNul content)], tail)

/-- What follows `</`. -/
def nextEndTag (t : Text) : List Token × Text :=
  match t with
  | [] => (chars ['<', '/'], [])
  | '>' :: rest => ([fault], rest)
  | c :: _ =>
    if c.isAlpha then
      match readTag? t with
      | some (tag, tail) => ([endTag tag.name], tail)
      | none => ([], [])
    else
      let (content, tail) := readBogus t
      ([comment (replaceNul content)], tail)

/-- The next token of plain content. In foreign markup CDATA sections are known. -/
def nextData (foreign : Bool) (t : Text) : List Token × Text :=
  match t with
  | [] => ([], [])
  | '&' :: rest =>
    match Reference.read? false rest with
    | some r => (ofReference r, r.rest)
    | none => ([char '&'], rest)
  | '<' :: rest =>
    match rest with
    | '!' :: after => nextDeclaration foreign after
    | '/' :: after => nextEndTag after
    | '?' :: _ =>
      let (content, tail) := readBogus rest
      ([comment (replaceNul content)], tail)
    | c :: _ =>
      if c.isAlpha then
        match readTag? rest with
        | some (tag, tail) => ([startTag tag], tail)
        | none => ([], [])
      else ([char '<'], rest)
    | [] => ([char '<'], [])
  | c :: rest => ([char c], rest)

/-! ### Raw content -/

/-- What follows the end tag of `name` at the start of a text: none if there is no such tag,
    no text if the markup ends inside it. -/
def endTagAt? (name : String) (t : Text) : Option (Option Text) :=
  match t with
  | '<' :: '/' :: rest =>
    let n := name.toList.length
    if Text.lowerAscii (rest.take n) = name.toList then
      match rest.drop n with
      | c :: _ =>
        if endsTagName c then
          some ((readAttributes? (rest.length + 1) [] (rest.drop n)).map (·.2.2))
        else none
      | [] => none
    else none
  | _ => none

/-- The end tag of `name` at the start of a text, which leads back to plain content. -/
def nextRawEnd? (name : String) (t : Text) : Option Lexed :=
  match endTagAt? name t with
  | some (some rest) => some ⟨[endTag name], .data, rest⟩
  | some none => some ⟨[], .data, []⟩
  | none => none

/-- One character of raw content. -/
def rawChar (c : Char) : Token := char (if c.toNat = 0 then Reference.replacement else c)

/-- What follows `<script` or `</script` and a character that ends a tag's name, at the start of
    a text; with the text up to and with that character. -/
def scriptWord? (opening : Text) (t : Text) : Option (Text × Text) :=
  let n := opening.length
  if Text.lowerAscii (t.take n) = opening then
    match t.drop n with
    | c :: rest => if endsTagName c then some (t.take n ++ [c], rest) else none
    | [] => none
  else none

/-- The end tag of a script at the start of a text. Reading pauses where a script ends and starts
    anew with what follows, where again a byte order mark does not count. -/
def nextScriptEnd? (t : Text) : Option Lexed :=
  (nextRawEnd? "script" t).map fun lexed => { lexed with rest := withoutMark lexed.rest }

/-- The next tokens of a script. -/
def nextScript (phase : ScriptPhase) (t : Text) : Lexed :=
  let one : Lexed := match t with
    | c :: rest => ⟨[rawChar c], .script phase, rest⟩
    | [] => ⟨[], .script phase, []⟩
  let leave? : Option Lexed := (Text.after? "-->".toList t).map fun rest =>
    ⟨chars "-->".toList, .script .plain, rest⟩
  match phase with
  | .plain =>
    match nextScriptEnd? t with
    | some lexed => lexed
    | none =>
      if (Text.after? "<!--".toList t).isSome then
        ⟨chars ['<', '!'], .script .commented, t.drop 2⟩
      else one
  | .commented =>
    match leave? with
    | some lexed => lexed
    | none =>
      match nextScriptEnd? t with
      | some lexed => lexed
      | none =>
        match scriptWord? "<script".toList t with
        | some (word, rest) => ⟨chars word, .script .nested, rest⟩
        | none => one
  | .nested =>
    match leave? with
    | some lexed => lexed
    | none =>
      match scriptWord? "</script".toList t with
      | some (word, rest) => ⟨chars word, .script .commented, rest⟩
      | none => one

/-- The next tokens of a text that is not empty. -/
def next (foreign : Bool) (lexing : Lexing) (t : Text) : Lexed :=
  match lexing with
  | .data =>
    let (tokens, rest) := nextData foreign t
    ⟨tokens, .data, rest⟩
  | .referring name =>
    match t with
    | [] => ⟨[], lexing, []⟩
    | '&' :: rest =>
      match Reference.read? false rest with
      | some r => ⟨ofReference r, lexing, r.rest⟩
      | none => ⟨[char '&'], lexing, rest⟩
    | c :: rest => (nextRawEnd? name t).getD ⟨[rawChar c], lexing, rest⟩
  | .raw name =>
    match t with
    | [] => ⟨[], lexing, []⟩
    | c :: rest => (nextRawEnd? name t).getD ⟨[rawChar c], lexing, rest⟩
  | .script phase => nextScript phase t
  | .plaintext =>
    match t with
    | [] => ⟨[], lexing, []⟩
    | c :: rest => ⟨[rawChar c], lexing, rest⟩

end Token

end Shortcodes.Html
