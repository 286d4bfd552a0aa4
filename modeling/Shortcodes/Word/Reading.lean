import Shortcodes.Text.Numeral
import Shortcodes.Word.Basic

/-!
# Reading the words of an argument text

Quotation follows the shell: between single quotes every character is literal; between
double quotes a backslash guards a double quote or a backslash and is literal before
anything else; outside quotes a backslash guards the next character. Quoted and bare parts
that touch belong to one word. The text is first read to atoms, which are then grouped.
-/
namespace Shortcodes

/-- Why an argument text has no words. Offsets count the bytes before the place. -/
inductive WordFault where
  /-- A quotation mark that is never closed. -/
  | unclosedQuote (mark : Char) (offset : Nat)
  /-- A backslash with nothing behind it. -/
  | trailingBackslash
  deriving DecidableEq, Repr

namespace WordFault

/-- The wording of a fault. -/
def message : WordFault → Text
  | unclosedQuote mark offset =>
    "unterminated ".toList ++ mark :: " quote starting at byte ".toList ++ Text.ofNat offset
  | trailingBackslash => "dangling escape character at end of input".toList

end WordFault

/-- Where a reader of atoms stands: outside quotation marks, or after an opening mark at an
    offset. -/
inductive Quotation where
  | outside
  | single (start : Nat)
  | double (start : Nat)
  deriving DecidableEq, Repr

namespace Atom

/-- Puts an atom in front of what the rest reads to. -/
def before (a : Atom) (rest : Except WordFault (List Atom)) : Except WordFault (List Atom) :=
  rest.map (a :: ·)

/-- The atoms of a text that starts at byte `offset`, from where the reader stands. -/
def read : Quotation → (offset : Nat) → Text → Except WordFault (List Atom)
  | .outside, _, [] => .ok []
  | .single start, _, [] => .error (.unclosedQuote '\'' start)
  | .double start, _, [] => .error (.unclosedQuote '"' start)
  | .outside, _, ['\\'] => .error .trailingBackslash
  | .outside, offset, '\\' :: c :: rest =>
    before (.guarded c) (read .outside (offset + 1 + c.utf8Size) rest)
  | .outside, offset, '\'' :: rest => before .opening (read (.single offset) (offset + 1) rest)
  | .outside, offset, '"' :: rest => before .opening (read (.double offset) (offset + 1) rest)
  | .outside, offset, c :: rest =>
    before (if isBlank c then .gap else .bare c) (read .outside (offset + c.utf8Size) rest)
  | .single _, offset, '\'' :: rest => read .outside (offset + 1) rest
  | .single start, offset, c :: rest =>
    before (.guarded c) (read (.single start) (offset + c.utf8Size) rest)
  | .double start, offset, '\\' :: '"' :: rest =>
    before (.guarded '"') (read (.double start) (offset + 2) rest)
  | .double start, offset, '\\' :: '\\' :: rest =>
    before (.guarded '\\') (read (.double start) (offset + 2) rest)
  | .double _, offset, '"' :: rest => read .outside (offset + 1) rest
  | .double start, offset, c :: rest =>
    before (.guarded c) (read (.double start) (offset + c.utf8Size) rest)

/-- Between single quotes every character but the quotation mark is literal. -/
theorem read_single_cons {c : Char} (h : c ≠ '\'') (start offset : Nat) (rest : Text) :
    read (.single start) offset (c :: rest) =
      before (.guarded c) (read (.single start) (offset + c.utf8Size) rest) := by
  rw [read]
  rintro rfl; exact absurd rfl h

end Atom

namespace Word

/-- The words of an argument text. -/
def readAll (t : Text) : Except WordFault (List Word) :=
  (Atom.read .outside 0 t).map fun atoms => (groups atoms).map ofAtoms

end Word

end Shortcodes
