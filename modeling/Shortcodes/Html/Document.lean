import Shortcodes.Html.Builder.Modes
import Shortcodes.Html.Token.Next

/-!
# Documents

Any text is a document: markup that breaks the rules of HTML is repaired as the HTML standard
lays down, for a reader that runs scripts.
-/

namespace Shortcodes.Html

namespace Document

/-- Feeds the tokens of a text to a builder, in at most `fuel` steps, and ends the document. -/
def build : (fuel : Nat) → Builder → Text → Builder
  | 0, b, _ => b.accept .stop
  | _ + 1, b, [] => b.accept .stop
  | fuel + 1, b, t =>
    let lexed := Token.next b.inForeign b.lexing t
    build fuel (lexed.tokens.foldl Builder.accept { b with lexing := lexed.lexing }) lexed.rest

/-- The state after all of a text. -/
def finalState (t : Text) : Builder :=
  let t := Token.prepare t
  build t.length {} t

/-- The nodes at the top of the document that a text spells. -/
def read (t : Text) : List Node :=
  let a := (finalState t).arena
  a.toNodes (a.size + 1) (a.cell 0).children

end Document

end Shortcodes.Html
