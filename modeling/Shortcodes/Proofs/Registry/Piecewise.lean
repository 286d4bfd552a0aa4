import Shortcodes.Proofs.Registry.Expansion
import Shortcodes.Proofs.Tag.Joining

/-!
# Expanding a text in parts

Two texts one behind the other expand to their expansions one behind the other, unless the end of the
first may begin a tag (`expandWith_append`).
-/

namespace Shortcodes.Registry

variable {r : Registry} {context : Context}

/-- Pieces render one part after the other. -/
theorem renderAll_append (r : Registry) (context : Context) (ps qs : List Piece) :
    r.renderAll context (ps ++ qs) = (do
      let front ← r.renderAll context ps
      let back ← r.renderAll context qs
      return front ++ back) := by
  induction ps with
  | nil =>
    show _ = (r.renderAll context qs).bind fun back => .ok ([] ++ back)
    cases hq : r.renderAll context qs with
    | error e => exact hq
    | ok back => exact hq
  | cons p ps ih =>
    rw [List.cons_append, renderAll, ih, renderAll]
    cases r.renderPiece context p with
    | error e => rfl
    | ok part =>
      cases r.renderAll context ps with
      | error e => rfl
      | ok front =>
        cases r.renderAll context qs with
        | error e => rfl
        | ok back => exact congrArg Except.ok (List.append_assoc part front back).symm

/-- What stands behind the last tag of a text decides whether the text can be expanded by itself. If
no opening mark begins there, another text behind it has its own tags, further back, and its own
expansion; and of two failures the first text's counts. -/
theorem expandWith_append (r : Registry) (h : r.shortcodes ≠ []) (context : Context) (a b : Text)
    (hopen : ¬ Tag.opener <:+: Tag.remainder a) (hend : ¬ ['['] <:+ Tag.remainder a) :
    Tag.scan (a ++ b) =
        Tag.scan a ++ (Tag.scan b).map (Tag.Placed.shift (Text.byteLength a)) ∧
      r.expandWith context (a ++ b) = (do
        let front ← r.expandWith context a
        let back ← r.expandWith context b
        return front ++ back) := by
  have hnone := Tag.not_opener_remainder hopen hend b
  refine ⟨Tag.scan_append_of_remainder hnone, ?_⟩
  rw [expandWith_eq_renderAll h, expandWith_eq_renderAll h, expandWith_eq_renderAll h,
    Tag.sweep_append_of_remainder hnone, renderAll_append]

/-- The text behind closes what looks like an open tag, but a tag stands between them. -/
theorem expandWith_append_across :
    let quoting : Shortcode :=
      { signature := ⟨⟨['a'], [], .positional⟩, by decide⟩
        convert := fun _ _ => .ok "[%b%]".toList }
    let r : Registry := { shortcodes := [quoting] }
    ¬ Tag.opener <:+: Tag.remainder "[%%[%a%]x".toList ∧
      ¬ ['['] <:+ Tag.remainder "[%%[%a%]x".toList ∧
      r.expandWith .empty ("[%%[%a%]x".toList ++ "y%][%a%]".toList) =
        .ok "[%%[%b%]xy%][%b%]".toList := by
  intro quoting r
  have hopen : ¬ Tag.opener <:+: Tag.remainder "[%%[%a%]x".toList := by decide
  have hend : ¬ ['['] <:+ Tag.remainder "[%%[%a%]x".toList := by decide
  refine ⟨hopen, hend, ?_⟩
  rw [(expandWith_append r (List.cons_ne_nil _ _) .empty _ _ hopen hend).2]
  rfl

end Shortcodes.Registry
