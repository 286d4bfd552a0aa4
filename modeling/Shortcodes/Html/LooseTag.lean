import Shortcodes.Html.Names
import Shortcodes.Text.Blank

/-!
# Loose tags

Reversal looks for its markup in text of any kind, tag by tag. A loose tag is a comment, a
closing tag or an opening tag whose attributes are written in one of the usual ways; quoted
values may hold anything. A comment without end goes to the end of the text. What is not a loose
tag is plain text here, whatever HTML makes of it.
-/

namespace Shortcodes.Html

/-- A loose tag. -/
inductive LooseTag where
  | comment
  | closing (name : Text)
  | opening (name : Text) (selfClosing : Bool)
  deriving DecidableEq, Repr

/-- A loose tag as it stands at the start of a text. -/
structure Sighting where
  tag : LooseTag
  source : Text
  rest : Text
  deriving DecidableEq, Repr

namespace LooseTag

/-- Whether a character is a letter in a tag name: an ASCII letter, or one of the two others that
    equal one when case does not count. -/
def isNameLetter (c : Char) : Bool := c.isAlpha || c = '\u017f' || c = '\u212a'

/-- Whether a character may stand in a tag name. -/
def isNameChar (c : Char) : Bool := isNameLetter c || c.isDigit || c = ':' || c = '-'

/-- Whether a character may stand in an attribute name. -/
def isAttributeChar (c : Char) : Bool :=
  !(isBlank c || c = '"' || c = '\'' || c = '>' || c = '/' || c = '=')

/-- Whether a character may stand in an attribute value without quotation marks. -/
def isValueChar (c : Char) : Bool :=
  !(isBlank c || c = '"' || c = '\'' || c = '=' || c = '<' || c = '>' || c = '\x60')

/-- The name at the start of a text, and what follows it. -/
def name? : Text → Option (Text × Text)
  | [] => none
  | c :: rest =>
    if isNameLetter c then some (c :: rest.takeWhile isNameChar, rest.dropWhile isNameChar)
    else none

/-- What follows an attribute value at the start of a text. -/
def afterValue? (t : Text) : Option Text :=
  match t.dropWhile isBlank with
  | '"' :: rest => (Text.cut? ['"'] rest).map (·.2)
  | '\'' :: rest => (Text.cut? ['\''] rest).map (·.2)
  | c :: rest => if isValueChar c then some (rest.dropWhile isValueChar) else none
  | [] => none

/-- What follows the attributes and the end of an opening tag, and whether it closes itself; in
    at most `fuel` steps. -/
def afterAttributes? : (fuel : Nat) → Text → Option (Bool × Text)
  | 0, _ => none
  | fuel + 1, t =>
    match t.dropWhile isBlank with
    | [] => none
    | '>' :: rest => some (false, rest)
    | '/' :: '>' :: rest => some (true, rest)
    | c :: rest =>
      if isAttributeChar c && t.head?.any isBlank then
        let tail := rest.dropWhile isAttributeChar
        match tail.dropWhile isBlank with
        | '=' :: after => (afterValue? after).bind (afterAttributes? fuel)
        | _ => afterAttributes? fuel tail
      else none

/-- What follows `<!--` and a comment. -/
def afterComment (t : Text) : Text :=
  match Text.cut? "-->".toList t with
  | some (_, rest) => rest
  | none => []

/-- The loose tag at the start of a text. -/
def at? (t : Text) : Option Sighting :=
  let seen (tag : LooseTag) (rest : Text) : Sighting :=
    ⟨tag, t.take (t.length - rest.length), rest⟩
  match t with
  | '<' :: '!' :: '-' :: '-' :: rest => some (seen .comment (afterComment rest))
  | '<' :: '/' :: rest =>
    match name? rest with
    | some (name, tail) =>
      match tail.dropWhile isBlank with
      | '>' :: after => some (seen (.closing name) after)
      | _ => none
    | none => none
  | '<' :: rest =>
    match name? rest with
    | some (name, tail) =>
      (afterAttributes? (tail.length + 1) tail).map fun (selfClosing, after) =>
        seen (.opening name selfClosing) after
    | none => none
  | _ => none

/-- Elements without content: their opening tag is all there is. -/
def voidNames : List String :=
  ["area", "base", "br", "col", "embed", "hr", "img", "input", "link", "meta", "param", "source",
   "track", "wbr"]

/-- Whether an opening tag needs no closing tag. -/
def standsAlone (name : Text) (selfClosing : Bool) : Bool :=
  selfClosing || voidNames.any fun v => v.toList == Text.lowerAscii name

/-- The change of depth that a tag makes among the elements of a name. -/
def depthAfter (name : Text) (depth : Nat) : LooseTag → Nat
  | comment => depth
  | closing other => if Text.sameUpToCase other name then depth - 1 else depth
  | opening other selfClosing =>
    if Text.sameUpToCase other name && !selfClosing then depth + 1 else depth

/-- The text up to and with the closing tag that brings the depth to zero, and what follows;
    in at most `fuel` steps. -/
def closeFrom? (name : Text) : (fuel depth : Nat) → Text → Option (Text × Text)
  | 0, _, _ => none
  | _ + 1, _, [] => none
  | fuel + 1, depth, c :: rest =>
    match at? (c :: rest) with
    | none => (closeFrom? name fuel depth rest).map fun (front, tail) => (c :: front, tail)
    | some s =>
      let depth := depthAfter name depth s.tag
      if depth = 0 then some (s.source, s.rest)
      else (closeFrom? name fuel depth s.rest).map fun (front, tail) => (s.source ++ front, tail)

/-- The content and the closing tag of an element that was opened right before a text, and what
    follows. -/
def close? (name : Text) (t : Text) : Option (Text × Text) := closeFrom? name t.length 1 t

end LooseTag

/-- What a sighted opening tag spans: the tag alone or the element with its closing tag, and
    what follows. None if there is no closing tag. -/
def Sighting.extent? (s : Sighting) : Option (Text × Text) :=
  match s.tag with
  | .opening name selfClosing =>
    if LooseTag.standsAlone name selfClosing then some (s.source, s.rest)
    else (LooseTag.close? name s.rest).map fun (front, tail) => (s.source ++ front, tail)
  | _ => none

end Shortcodes.Html
