import Shortcodes.Html.Token.Basic

/-!
# Document types

A document type decides one thing here: whether the document follows the layout rules of old
documents, under which a table does not close the paragraph it stands in. It does when the type
is damaged, names anything but `html`, or has a public or system identifier from a known list.
-/

namespace Shortcodes.Html.Doctype

/-- Public identifiers of old document types. -/
def legacyPublic : List String :=
  ["-//w3o//dtd w3 html strict 3.0//en//", "-/w3c/dtd html 4.0 transitional/en", "html"]

/-- System identifiers of old document types. -/
def legacySystem : List String :=
  ["http://www.ibm.com/data/dtd/v11/ibmxhtml1-transitional.dtd"]

/-- Beginnings of public identifiers of old document types. -/
def legacyPublicStarts : List String :=
  ["-//advasoft ltd//dtd html 3.0 aswedit + extensions//",
   "-//as//dtd html 3.0 aswedit + extensions//",
   "-//ietf//dtd html 2.0 level 1//", "-//ietf//dtd html 2.0 level 2//",
   "-//ietf//dtd html 2.0 strict level 1//", "-//ietf//dtd html 2.0 strict level 2//",
   "-//ietf//dtd html 2.0 strict//", "-//ietf//dtd html 2.0//", "-//ietf//dtd html 2.1e//",
   "-//ietf//dtd html 3.0//", "-//ietf//dtd html 3.2 final//", "-//ietf//dtd html 3.2//",
   "-//ietf//dtd html 3//", "-//ietf//dtd html level 0//", "-//ietf//dtd html level 1//",
   "-//ietf//dtd html level 2//", "-//ietf//dtd html level 3//",
   "-//ietf//dtd html strict level 0//", "-//ietf//dtd html strict level 1//",
   "-//ietf//dtd html strict level 2//", "-//ietf//dtd html strict level 3//",
   "-//ietf//dtd html strict//", "-//ietf//dtd html//",
   "-//metrius//dtd metrius presentational//",
   "-//microsoft//dtd internet explorer 2.0 html strict//",
   "-//microsoft//dtd internet explorer 2.0 html//",
   "-//microsoft//dtd internet explorer 2.0 tables//",
   "-//microsoft//dtd internet explorer 3.0 html strict//",
   "-//microsoft//dtd internet explorer 3.0 html//",
   "-//microsoft//dtd internet explorer 3.0 tables//",
   "-//netscape comm. corp.//dtd html//", "-//netscape comm. corp.//dtd strict html//",
   "-//o'reilly and associates//dtd html 2.0//",
   "-//o'reilly and associates//dtd html extended 1.0//",
   "-//o'reilly and associates//dtd html extended relaxed 1.0//",
   "-//softquad software//dtd hotmetal pro 6.0::19990601::extensions to html 4.0//",
   "-//softquad//dtd hotmetal pro 4.0::19971010::extensions to html 4.0//",
   "-//spyglass//dtd html 2.0 extended//", "-//sq//dtd html 2.0 hotmetal + extensions//",
   "-//sun microsystems corp.//dtd hotjava html//",
   "-//sun microsystems corp.//dtd hotjava strict html//",
   "-//w3c//dtd html 3 1995-03-24//", "-//w3c//dtd html 3.2 draft//",
   "-//w3c//dtd html 3.2 final//", "-//w3c//dtd html 3.2//", "-//w3c//dtd html 3.2s draft//",
   "-//w3c//dtd html 4.0 frameset//", "-//w3c//dtd html 4.0 transitional//",
   "-//w3c//dtd html experimental 19960712//", "-//w3c//dtd html experimental 970421//",
   "-//w3c//dtd w3 html//", "-//w3o//dtd w3 html 3.0//",
   "-//webtechs//dtd mozilla html 2.0//", "-//webtechs//dtd mozilla html//"]

/-- Beginnings of public identifiers that mark an old document when no system identifier
    follows. -/
def legacyPublicAloneStarts : List String :=
  ["-//w3c//dtd html 4.01 frameset//", "-//w3c//dtd html 4.01 transitional//"]

/-- What a document type says. -/
structure Stated where
  name : Text := []
  publicId : Option Text := none
  systemId : Option Text := none
  damaged : Bool := false

/-- Whether a document type asks for the rules of old documents. -/
def Stated.isLegacy (d : Stated) : Bool :=
  let publicId := (d.publicId.map Text.lowerAscii).getD []
  let systemId := (d.systemId.map Text.lowerAscii).getD []
  let starts (table : List String) : Bool :=
    d.publicId.isSome && table.any fun s => (Text.after? s.toList publicId).isSome
  d.damaged || d.name != "html".toList ||
    (d.publicId.isSome && legacyPublic.any fun s => s.toList == publicId) ||
    (d.systemId.isSome && legacySystem.any fun s => s.toList == systemId) ||
    starts legacyPublicStarts || (d.systemId.isNone && starts legacyPublicAloneStarts)

/-- Skips to the end of a document type. -/
def finish (d : Stated) (t : Text) : Stated × Text := (d, (Token.readBogus t).2)

/-- Reads a quoted identifier after its mark: none when `>` or the end of the markup comes
    first, with what follows. -/
def readIdentifier (mark : Char) (t : Text) : Option Text × Text :=
  let inside (c : Char) : Bool := c ≠ mark && c ≠ '>'
  match t.dropWhile inside with
  | [] => (none, [])
  | c :: rest =>
    if c = mark then (some (Token.replaceNul (t.takeWhile inside)), rest) else (none, c :: rest)

/-- The quotation mark at the start of a text. -/
def mark? : Text → Option (Char × Text)
  | '"' :: rest => some ('"', rest)
  | '\'' :: rest => some ('\'', rest)
  | _ => none

/-- Reads what may follow a system identifier. -/
def readEnd (d : Stated) (t : Text) : Stated × Text :=
  match t.dropWhile Token.isSpace with
  | [] => ({ d with damaged := true }, [])
  | rest => finish d rest

/-- Reads a system identifier, which may be missing when `optional`. -/
def readSystem (optional : Bool) (d : Stated) (t : Text) : Stated × Text :=
  let rest := t.dropWhile Token.isSpace
  match mark? rest with
  | some (mark, body) =>
    match readIdentifier mark body with
    | (some value, after) => readEnd { d with systemId := some value } after
    | (none, after) => finish { d with damaged := true } after
  | none =>
    match rest with
    | '>' :: _ => finish { d with damaged := !optional } rest
    | _ => finish { d with damaged := true } rest

/-- Reads a public identifier and the system identifier that may follow. -/
def readPublic (d : Stated) (t : Text) : Stated × Text :=
  let rest := t.dropWhile Token.isSpace
  match mark? rest with
  | some (mark, body) =>
    match readIdentifier mark body with
    | (some value, after) => readSystem true { d with publicId := some value } after
    | (none, after) => finish { d with damaged := true } after
  | none => finish { d with damaged := true } rest

/-- Reads a document type after its keyword. -/
def read (t : Text) : Stated × Text :=
  match t.dropWhile Token.isSpace with
  | [] => ({ damaged := true }, [])
  | '>' :: rest => ({ damaged := true }, rest)
  | start =>
    let ends (c : Char) : Bool := Token.isSpace c || c = '>'
    let name := Text.lowerAscii (Token.replaceNul (start.takeWhile fun c => !ends c))
    let rest := (start.dropWhile fun c => !ends c).dropWhile Token.isSpace
    let d : Stated := { name }
    let word := Text.lowerAscii (rest.take 6)
    if rest = [] then ({ d with damaged := true }, [])
    else if rest.head? = some '>' then finish d rest
    else if word = "public".toList then readPublic d (rest.drop 6)
    else if word = "system".toList then readSystem false d (rest.drop 6)
    else finish { d with damaged := true } rest

end Shortcodes.Html.Doctype
