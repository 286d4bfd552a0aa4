import Shortcodes.Proofs.Tag.Scan

/-!
# The gaps between tags

The tags of a text and the gaps between them make up the text: each tag starts where the gap
before it ends, and stops where the gap behind it starts (`spaced_scan`). A text is redone by
weaving its gaps with other parts; weaving them with the tags gives the text back
(`weave_sources`).
-/

namespace Shortcodes.Tag

/-- Gaps and parts in turn. The first and the last are gaps. -/
def weave : (gaps parts : List Text) → Text
  | [], _ => []
  | gap :: _, [] => gap
  | gap :: gaps, part :: parts => gap ++ part ++ weave gaps parts

/-- The text from byte `offset` on is a row of gaps with the placed tags between them. -/
inductive Spaced : (offset : Nat) → Text → List Placed → (gaps : List Text) → Prop
  | last (offset : Nat) (gap : Text) : Spaced offset gap [] [gap]
  | tag {offset : Nat} {gap rest : Text} {p : Placed} {ps : List Placed} {gaps : List Text}
      (start : p.start = offset + Text.byteLength gap) (behind : Spaced p.stop rest ps gaps) :
      Spaced offset (gap ++ p.tag.source ++ rest) (p :: ps) (gap :: gaps)

/-- The gaps with a character put at the start of the first one. -/
def lengthenFirst (c : Char) : List Text → List Text
  | [] => [[c]]
  | gap :: gaps => (c :: gap) :: gaps

/-- The gaps around the tags among pieces. -/
def gapsOf : List Piece → List Text
  | [] => [[]]
  | .plain c :: rest => lengthenFirst c (gapsOf rest)
  | .tag _ :: rest => [] :: gapsOf rest

/-- The gaps around the tags of a text. -/
def gaps (t : Text) : List Text := gapsOf (sweep t)

/-! ### Weaving -/

theorem gapsOf_ne_nil (ps : List Piece) : gapsOf ps ≠ [] := by
  cases ps with
  | nil => exact List.cons_ne_nil _ _
  | cons p ps =>
    cases p with
    | plain c =>
      rw [gapsOf]
      cases gapsOf ps <;> exact List.cons_ne_nil _ _
    | tag t => exact List.cons_ne_nil _ _

theorem weave_lengthenFirst (c : Char) {gaps : List Text} (h : gaps ≠ []) (parts : List Text) :
    weave (lengthenFirst c gaps) parts = c :: weave gaps parts := by
  obtain ⟨gap, gaps, rfl⟩ := List.exists_cons_of_ne_nil h
  cases parts <;> rfl

theorem Spaced.lengthenFirst {offset : Nat} {c : Char} {t : Text} {ps : List Placed}
    {gaps : List Text} (h : Spaced (offset + c.utf8Size) t ps gaps) :
    Spaced offset (c :: t) ps (lengthenFirst c gaps) := by
  cases h with
  | last gap => exact .last offset (c :: t)
  | @tag _ gap rest p ps gaps start behind =>
    have hstart : p.start = offset + Text.byteLength (c :: gap) := by
      rw [start, Text.byteLength_cons, Nat.add_assoc]
    exact .tag hstart behind

/-- Weaving the gaps with the tags gives the text. -/
theorem Spaced.weave_sources {offset : Nat} {t : Text} {ps : List Placed} {gaps : List Text}
    (h : Spaced offset t ps gaps) : weave gaps (ps.map fun p => p.tag.source) = t := by
  induction h with
  | last offset gap => rfl
  | tag start behind ih => rw [List.map_cons, weave, ih]

/-! ### The gaps of a text -/

/-- The pieces of a text spell it. -/
theorem flatMap_source_sweep (t : Text) : (sweep t).flatMap Piece.source = t := by
  suffices hall : ∀ fuel t, t.length ≤ fuel → (sweepUpTo fuel t).flatMap Piece.source = t from
    hall _ t (Nat.le_refl _)
  intro fuel
  induction fuel with
  | zero =>
    intro t h
    rw [List.length_eq_zero_iff.1 (Nat.le_zero.1 h)]
    rfl
  | succ fuel ih =>
    intro t h
    cases t with
    | nil => rfl
    | cons c t =>
      rw [List.length_cons] at h
      rw [sweepUpTo]
      split
      · next tag tail hread =>
        -- a tag is not empty, so the steps that are left suffice for what follows it
        obtain ⟨happend, hne⟩ := eq_of_read? hread
        have hlength := congrArg List.length happend
        have hpos := List.length_pos_iff.2 hne
        rw [List.length_append, List.length_cons] at hlength
        rw [List.flatMap_cons, ih tail (by omega)]
        exact happend.symm
      · rw [List.flatMap_cons, ih t (Nat.le_of_succ_le_succ h)]
        rfl

theorem spaced_pieces (offset : Nat) (ps : List Piece) :
    Spaced offset (ps.flatMap Piece.source) (placedFrom offset ps) (gapsOf ps) := by
  induction ps generalizing offset with
  | nil => exact .last offset []
  | cons p ps ih =>
    cases p with
    | plain c => exact (ih (offset + c.utf8Size)).lengthenFirst
    | tag t =>
      have hstart : (⟨t, offset⟩ : Placed).start = offset + Text.byteLength [] := rfl
      exact .tag hstart (ih _)

/-- The tags that scanning finds stand between the gaps of the text. -/
theorem spaced_scan (t : Text) : Spaced 0 t (scan t) (gaps t) := by
  have hspaced := spaced_pieces 0 (sweep t)
  rw [flatMap_source_sweep] at hspaced
  exact hspaced

end Shortcodes.Tag
