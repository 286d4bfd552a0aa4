import Shortcodes.Html.Reference

/-!
# Tokens of markup

Markup is read to tokens: characters, tags, comments and document types. How the next token is
read depends on the element whose content is being read: some elements hold raw text up to their
end tag.
-/

namespace Shortcodes.Html

/-- A start tag as it was read. Of several attributes with one name the first is kept. -/
structure StartTag where
  name : String
  attributes : List (String × Text) := []
  selfClosing : Bool := false
  deriving DecidableEq, Repr, Inhabited

/-- A token. -/
inductive Token where
  | char (c : Char)
  | startTag (tag : StartTag)
  | endTag (name : String)
  | comment (content : Text)
  /-- A document type; `legacy` when it asks for the layout rules of old documents. -/
  | doctype (legacy : Bool)
  /-- A fault in the markup that leaves nothing but its own mark. -/
  | fault
  /-- The end of the markup. -/
  | stop
  deriving DecidableEq, Repr, Inhabited

/-- Where in a script's text the reader stands: what looks like a comment hides end tags of
    scripts that the comment seems to open. -/
inductive ScriptPhase where
  | plain
  | commented
  | nested
  deriving DecidableEq, Repr

/-- How the next token is read. -/
inductive Lexing where
  | data
  /-- Raw text with references, up to the end tag of the name. -/
  | referring (name : String)
  /-- Raw text up to the end tag of the name. -/
  | raw (name : String)
  | script (phase : ScriptPhase)
  /-- Raw text to the end of the markup. -/
  | plaintext
  deriving DecidableEq, Repr, Inhabited

namespace Token

/-- The blanks of HTML. -/
def isSpace (c : Char) : Bool :=
  c = ' ' || c = '\n' || c = '\t' || c = '\x0c' || c = '\r'

/-- The text with NUL characters replaced. -/
def replaceNul (t : Text) : Text :=
  t.map fun c => if c.toNat = 0 then Reference.replacement else c

/-- The name that a run of characters spells: ASCII capitals count as small. -/
def nameOf (t : Text) : String := String.ofList (Text.lowerAscii (replaceNul t))

/-- The tokens of characters. -/
def chars (t : Text) : List Token := t.map char

/-! ### Tags -/

/-- Whether a character ends the name of a tag. -/
def endsTagName (c : Char) : Bool := isSpace c || c = '/' || c = '>'

/-- Whether a character ends the name of an attribute. -/
def endsAttributeName (c : Char) : Bool := endsTagName c || c = '='

/-- Attributes with one more, unless its name is there. -/
def withAttribute (attributes : List (String × Text)) (name : String) (value : Text) :
    List (String × Text) :=
  if attributes.any (·.1 == name) then attributes else attributes ++ [(name, value)]

/-- Reads an attribute value, after its equals sign. -/
def readValue? (t : Text) : Option (Text × Text) :=
  match t.dropWhile isSpace with
  | '"' :: rest => (Text.cut? ['"'] rest).map fun (value, tail) => (Reference.decode value, tail)
  | '\'' :: rest =>
    (Text.cut? ['\''] rest).map fun (value, tail) => (Reference.decode value, tail)
  | rest =>
    let ends (c : Char) : Bool := isSpace c || c = '>'
    some (Reference.decode (rest.takeWhile fun c => !ends c), rest.dropWhile fun c => !ends c)

/-- Reads attributes up to the end of a tag, in at most `fuel` steps. Gives the attributes,
    whether the tag closes itself, and what follows; none if the markup ends before. -/
def readAttributes? : (fuel : Nat) → List (String × Text) → Text →
    Option (List (String × Text) × Bool × Text)
  | 0, _, _ => none
  | _ + 1, _, [] => none
  | _ + 1, seen, '>' :: rest => some (seen, false, rest)
  | _ + 1, seen, '/' :: '>' :: rest => some (seen, true, rest)
  | fuel + 1, seen, c :: rest =>
    if isSpace c || c = '/' then readAttributes? fuel seen rest
    else
      let name := nameOf (c :: rest.takeWhile fun d => !endsAttributeName d)
      match (rest.dropWhile fun d => !endsAttributeName d).dropWhile isSpace with
      | '=' :: after =>
        match readValue? after with
        | some (value, tail) => readAttributes? fuel (withAttribute seen name value) tail
        | none => none
      | tail => readAttributes? fuel (withAttribute seen name []) tail

/-- Reads a tag from the first letter of its name. -/
def readTag? (t : Text) : Option (StartTag × Text) :=
  let name := nameOf (t.takeWhile fun c => !endsTagName c)
  (readAttributes? (t.length + 1) [] (t.dropWhile fun c => !endsTagName c)).map
    fun (attributes, selfClosing, rest) => (⟨name, attributes, selfClosing⟩, rest)

/-! ### Comments -/

/-- The content of a comment after `<!--`, from where `>` no longer ends it at once, and what
    follows. Dashes and an exclamation mark before the end of the markup count as the
    beginning of the end. -/
def commentBody : Text → Text × Text
  | '-' :: '-' :: '>' :: rest => ([], rest)
  | '-' :: '-' :: '!' :: '>' :: rest => ([], rest)
  | [] | ['-'] | ['-', '-'] | ['-', '-', '!'] => ([], [])
  | c :: rest =>
    let (content, tail) := commentBody rest
    (c :: content, tail)

/-- Reads a comment after `<!--`. -/
def readComment (t : Text) : Text × Text :=
  match t with
  | '>' :: rest => ([], rest)
  | '-' :: '>' :: rest => ([], rest)
  | _ => commentBody t

/-- Reads what is treated as a comment although it is not one: everything up to `>`. -/
def readBogus (t : Text) : Text × Text :=
  (t.takeWhile (· ≠ '>'), (t.dropWhile (· ≠ '>')).drop 1)

end Token

end Shortcodes.Html
