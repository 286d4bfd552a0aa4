import Shortcodes.Word.Reading

/-!
# Tags in free text

A tag is `[%`, blanks, a name, optionally blanks and arguments, blanks, `%]`. The name
starts with a character that is neither blank nor `%`; the tag ends at the first `%]` after
that character. A text is swept from the left into pieces: tags, and the characters outside
them. The pieces spell the text, so that a text can be redone piece by piece.
-/
namespace Shortcodes

/-- A tag as it stands in a text. -/
structure Tag where
  name : Text
  /-- The text between the name and the closing mark, without the blanks at its ends. -/
  arguments : Text
  /-- The whole tag, from `[%` to `%]`. -/
  source : Text
  deriving DecidableEq, Repr

/-- A part of a swept text. -/
inductive Piece where
  /-- A character that belongs to no tag. -/
  | plain (c : Char)
  | tag (t : Tag)
  deriving DecidableEq, Repr

/-- The text that a piece stands for. -/
def Piece.source : Piece → Text
  | plain c => [c]
  | tag t => t.source

namespace Tag

/-- Reads the tag at the start of a text and gives what follows it. -/
def read? (t : Text) : Option (Tag × Text) := do
  let inside ← Text.after? ['[', '%'] t
  let c :: rest := Text.trimStart inside | none
  if c = '%' then none
  let (body, tail) ← Text.cut? ['%', ']'] rest
  let source := ['[', '%'] ++ inside.takeWhile isBlank ++ c :: body ++ ['%', ']']
  let letters := body.takeWhile fun d => !isBlank d
  let args := body.dropWhile fun d => !isBlank d
  return (⟨c :: letters, Text.trim args, source⟩, tail)

/-- The pieces of a text, at most `fuel` of them. -/
def sweepUpTo : (fuel : Nat) → Text → List Piece
  | 0, _ => []
  | _ + 1, [] => []
  | fuel + 1, c :: rest =>
    match read? (c :: rest) with
    | some (tag, tail) => .tag tag :: sweepUpTo fuel tail
    | none => .plain c :: sweepUpTo fuel rest

/-- The pieces of a text, from the left. Every piece has at least one character, so the text's
    length bounds their number. -/
def sweep (t : Text) : List Piece := sweepUpTo t.length t

/-- A tag together with the byte offset at which it starts. -/
structure Placed where
  tag : Tag
  start : Nat
  deriving DecidableEq, Repr

/-- The byte offset at which a placed tag ends. -/
def Placed.stop (p : Placed) : Nat := p.start + Text.byteLength p.tag.source

/-- The tags among pieces that start at byte `offset`. -/
def placedFrom (offset : Nat) : List Piece → List Placed
  | [] => []
  | .plain c :: rest => placedFrom (offset + c.utf8Size) rest
  | .tag t :: rest => ⟨t, offset⟩ :: placedFrom (offset + Text.byteLength t.source) rest

/-- The tags of a text, from the left. -/
def scan (t : Text) : List Placed := placedFrom 0 (sweep t)

end Tag

end Shortcodes
