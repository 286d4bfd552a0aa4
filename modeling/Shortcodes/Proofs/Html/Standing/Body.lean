import Mathlib.Tactic.SplitIfs
import Shortcodes.Proofs.Html.Standing.Basic

/-!
# The rules of head and body move no standing element

The rules for what stands in the head and in the body, and those of the modes before and between
them, keep `Stands`.
-/

namespace Shortcodes.Html.Builder

/-! ### Conditions -/

section

variable {P : Builder → Prop}

theorem of_ite {c : Prop} [Decidable c] {x y : Builder} (hx : P x) (hy : P y) :
    P (if c then x else y) := by
  split
  · exact hx
  · exact hy

theorem of_ite_step {c : Prop} [Decidable c] {r s : Step} (hr : P r.1) (hs : P s.1) :
    P (if c then r else s).1 := by
  split
  · exact hr
  · exact hs

theorem of_ite_some {c : Prop} [Decidable c] {x : Builder} {rest : Option Builder} (hx : P x)
    (hrest : ∀ y ∈ rest, P y) : ∀ y ∈ (if c then some x else rest), P y := by
  split
  · rintro y ⟨⟩
    exact hx
  · exact hrest

end

namespace Stands

variable {k p : Nat} {label : Label} {b : Builder}

/-! ### Head -/

theorem openTemplate (h : Stands k p label b) (tag : StartTag) :
    Stands k p label (b.openTemplate tag) := h.pushBound.insert tag

theorem closeTemplate (h : Stands k p label b) : Stands k p label b.closeTemplate := by
  unfold Builder.closeTemplate
  split
  · exact ((h.closeImplied Names.impliedEndInTemplate).popUntilHtml "template").forgetToBound
  · exact h

theorem metadata (h : Stands k p label b) (t : Token) : Stands k p label (b.metadata t) := by
  unfold Builder.metadata
  cases t with
  | startTag tag =>
    refine of_ite (h.insertRaw tag _) (of_ite (h.insertRaw tag _) ?_)
    exact of_ite (h.insertRaw tag _) (of_ite (h.openTemplate tag) (h.insertClosed tag))
  | endTag name => exact h.closeTemplate
  | _ => exact h

theorem inHead (h : Stands k p label b) (t : Token) : Stands k p label (b.inHead t).1 := by
  unfold Builder.inHead
  cases t with
  | char c => exact of_ite_step (h.insertChar c) h.pop
  | comment content => exact h.insertComment content
  | startTag tag =>
    refine of_ite_step (h.mergeRoot tag) (of_ite_step (h.metadata _) ?_)
    exact of_ite_step h h.pop
  | endTag name =>
    refine of_ite_step h.pop (of_ite_step h.pop ?_)
    exact of_ite_step h.closeTemplate h
  | _ => exact h.pop

/-! ### Before and after the head -/

theorem initial (h : Stands k p label b) (t : Token) : Stands k p label (b.initial t).1 := by
  unfold Builder.initial
  cases t with
  | char c => exact of_ite_step h h
  | comment content => exact h.appendComment 0 content
  | _ => exact h

theorem beforeHtml (h : Stands k p label b) (t : Token) : Stands k p label (b.beforeHtml t).1 := by
  have hleave := h.insertRoot []
  unfold Builder.beforeHtml
  cases t with
  | char c => exact of_ite_step h hleave
  | comment content => exact h.appendComment 0 content
  | startTag tag => exact of_ite_step (h.insertRoot tag.attributes) hleave
  | endTag name => exact of_ite_step hleave h
  | _ => exact hleave

theorem openHead (h : Stands k p label b) (tag : StartTag) :
    Stands k p label (b.openHead tag) := (h.insertLabel (htmlLabel tag)).1

theorem beforeHead (h : Stands k p label b) (t : Token) : Stands k p label (b.beforeHead t).1 := by
  have hleave := h.openHead { name := "head" }
  unfold Builder.beforeHead
  cases t with
  | char c => exact of_ite_step h hleave
  | comment content => exact h.insertComment content
  | startTag tag =>
    exact of_ite_step (h.mergeRoot tag) (of_ite_step (h.openHead tag) hleave)
  | endTag name => exact of_ite_step hleave h
  | _ => exact hleave

theorem insertClosedAside (h : Stands k p label b) (e : OpenElement) (tag : StartTag) :
    Stands k p label (({ b with stack := e :: b.stack }.insertClosed tag).removeOpen e.id) := by
  have ha := Arena.Standing.insertLeaf (b := { b with stack := e :: b.stack }) h.arena
    (htmlLabel tag)
  unfold Builder.insertClosed
  rw [insertLeaf_eq]
  refine h.withParts ha.1 ?_
  rw [List.eraseP_cons_of_pos (by simp)]
  exact h.stack

theorem insertAside (h : Stands k p label b) (e : OpenElement) (tag : StartTag) :
    Stands k p label (({ b with stack := e :: b.stack }.insert tag).removeOpen e.id) := by
  have ha := Arena.Standing.insertLeaf (b := { b with stack := e :: b.stack }) h.arena
    (htmlLabel tag)
  unfold Builder.insert Builder.insertLabel
  dsimp only
  rw [insertLeaf_eq]
  exact h.withParts ha.1 (h.stack.eraseP_aside ha.2)

theorem metadataAfterHead (h : Stands k p label b) (tag : StartTag) :
    Stands k p label (b.metadataAfterHead (.startTag tag)) := by
  unfold Builder.metadataAfterHead
  split
  · next id _ =>
    unfold Builder.metadata
    dsimp only
    split_ifs
    · exact h.insertAside { id, space := .html, name := "head" } tag
    · exact h.insertAside { id, space := .html, name := "head" } tag
    · exact h.insertAside { id, space := .html, name := "head" } tag
    · exact h.pushBound.insertAside { id, space := .html, name := "head" } tag
    · exact h.insertClosedAside { id, space := .html, name := "head" } tag
  · exact h.metadata _

theorem afterHead (h : Stands k p label b) (t : Token) : Stands k p label (b.afterHead t).1 := by
  have hleave := h.insertNamed "body"
  unfold Builder.afterHead
  cases t with
  | char c => exact of_ite_step (h.insertChar c) hleave
  | comment content => exact h.insertComment content
  | startTag tag =>
    refine of_ite_step (h.mergeRoot tag) (of_ite_step (h.insert tag) ?_)
    refine of_ite_step (h.insert tag) (of_ite_step (h.metadataAfterHead tag) ?_)
    exact of_ite_step h hleave
  | endTag name => exact of_ite_step h.closeTemplate (of_ite_step hleave h)
  | _ => exact hleave

/-! ### Body: start tags -/

theorem mergeBody (h : Stands k p label b) (tag : StartTag) :
    Stands k p label (b.mergeBody tag) := by
  unfold Builder.mergeBody
  split
  · next e he =>
    split
    · exact h
    · exact h.withArena (h.arena.addMissing (h.body?_ne he).1 _)
  · exact h

theorem replaceBody (h : Stands k p label b) (tag : StartTag) :
    Stands k p label (b.replaceBody tag) := by
  unfold Builder.replaceBody
  split
  · split
    · next e he =>
      obtain ⟨hself, hroot⟩ := h.body?_ne he
      have hopen := h.withParts (h.arena.detach hroot hself)
        (h.stack.of_suffix (List.drop_suffix (b.stack.length - 1) b.stack))
      exact hopen.insert tag
    · exact h
  · exact h

theorem insertItem (h : Stands k p label b) (tag : StartTag) :
    Stands k p label (b.insertItem tag) := by
  have hb : Stands k p label { b with framesetOk := false } := h
  unfold Builder.insertItem
  dsimp only
  split
  · next name _ =>
    have hclosed := (hb.closeImpliedExcept name).popUntilHtml name
    exact hclosed.closeParagraphInScope.insert tag
  · exact hb.closeParagraphInScope.insert tag

theorem insertVoid (h : Stands k p label b) (tag : StartTag) :
    Stands k p label (b.insertVoid tag) := by
  unfold Builder.insertVoid
  dsimp only
  split <;> exact h.reopenFormatting.insertClosed tag

theorem insertForm (h : Stands k p label b) (tag : StartTag) :
    Stands k p label (b.insertForm tag) := by
  unfold Builder.insertForm
  dsimp only
  split
  · exact h
  · obtain ⟨hb, he⟩ := h.closeParagraphInScope.insertLabel (htmlLabel tag)
    split
    · exact hb
    · exact hb.withForm (Nat.le_of_lt he)

theorem insertButton (h : Stands k p label b) (tag : StartTag) :
    Stands k p label (b.insertButton tag) := by
  unfold Builder.insertButton
  dsimp only
  split
  · exact ((h.closeImplied _).popUntilHtml "button").reopenFormatting.insert tag
  · exact h.reopenFormatting.insert tag

theorem insertUnbroken (h : Stands k p label b) (tag : StartTag) :
    Stands k p label (b.insertUnbroken tag) := by
  unfold Builder.insertUnbroken
  dsimp only
  split
  · exact (h.reopenFormatting.closeFormatting "nobr").reopenFormatting.insertFormatting tag
  · exact h.reopenFormatting.insertFormatting tag

theorem insertForeign (h : Stands k p label b) (space : Space) (name : String) (tag : StartTag) :
    Stands k p label (b.insertForeign space name tag) := by
  unfold Builder.insertForeign
  dsimp only
  split
  · exact (h.insertLeaf _).1
  · exact (h.insertLabel _).1

theorem blockStart? (h : Stands k p label b) (tag : StartTag) :
    ∀ c ∈ b.blockStart? tag, Stands k p label c := by
  have hclosed := h.closeParagraphInScope
  unfold Builder.blockStart?
  refine of_ite_some (hclosed.insert tag) ?_
  refine of_ite_some ((of_ite hclosed.pop hclosed).insert tag) ?_
  refine of_ite_some (hclosed.insert tag) ?_
  refine of_ite_some (h.insertForm tag) ?_
  refine of_ite_some (h.insertItem tag) ?_
  refine of_ite_some (hclosed.insert tag) ?_
  refine of_ite_some ((of_ite h hclosed).insert tag) ?_
  refine of_ite_some (hclosed.insertClosed tag) ?_
  refine of_ite_some ?_ fun c hc => nomatch hc
  have hb : Stands k p label
      { b.closeParagraphInScope.reopenFormatting with framesetOk := false } :=
    hclosed.reopenFormatting
  exact hb.insertRaw tag _

theorem inlineStart? (h : Stands k p label b) (tag : StartTag) :
    ∀ c ∈ b.inlineStart? tag, Stands k p label c := by
  have hopened := h.reopenFormatting
  unfold Builder.inlineStart?
  refine of_ite_some (h.closeOpenLink.reopenFormatting.insertFormatting tag) ?_
  refine of_ite_some (hopened.insertFormatting tag) ?_
  refine of_ite_some (h.insertUnbroken tag) ?_
  refine of_ite_some (h.insertButton tag) ?_
  refine of_ite_some (hopened.insert tag).pushBound ?_
  refine of_ite_some (h.insertVoid tag) ?_
  refine of_ite_some (h.insertVoid _) ?_
  refine of_ite_some (h.insertClosed tag) ?_
  refine of_ite_some (insertRaw (b := { b with skipBreak := true, framesetOk := false }) h tag _) ?_
  refine of_ite_some (insertRaw (b := { b with framesetOk := false }) h tag _) ?_
  refine of_ite_some (h.insertRaw tag _) ?_
  refine of_ite_some (hopened.insert tag) ?_
  refine of_ite_some ((of_ite h.pop h).reopenFormatting.insert tag) ?_
  refine of_ite_some ((of_ite (h.closeImplied _) h).insert tag) ?_
  refine of_ite_some ((of_ite (h.closeImpliedExcept "rtc") h).insert tag) ?_
  refine of_ite_some (h.insertForeign .mathml tag.name tag) ?_
  exact of_ite_some (h.insertForeign .svg tag.name tag) fun c hc => nomatch hc

theorem bodyStart (h : Stands k p label b) (tag : StartTag) :
    Stands k p label (b.bodyStart tag).1 := by
  unfold Builder.bodyStart
  refine of_ite_step (h.mergeRoot tag) (of_ite_step (h.metadata _) ?_)
  refine of_ite_step (h.mergeBody tag) (of_ite_step (h.replaceBody tag) ?_)
  split
  · next c hc => exact h.blockStart? tag c hc
  · split
    · next c hc => exact h.inlineStart? tag c hc
    · exact of_ite_step h (h.reopenFormatting.insert tag)

/-! ### Body: end tags -/

theorem closeForm (h : Stands k p label b) : Stands k p label b.closeForm := by
  unfold Builder.closeForm
  split
  · split
    · exact (h.closeImplied _).popUntilHtml "form"
    · exact h
  · split
    · exact h
    · next id hform =>
      have hnone := h.withoutForm
      dsimp only
      split
      · exact (hnone.closeImplied Names.impliedEnd).removeOpen (h.form id hform)
      · exact hnone

theorem closeItem (h : Stands k p label b) (name : String) :
    Stands k p label (b.closeItem name) :=
  of_ite ((h.closeImpliedExcept name).popUntilHtml name) h

theorem bodyEnd (h : Stands k p label b) (name : String) :
    Stands k p label (b.bodyEnd name).1 := by
  have hclosed := h.closeImplied Names.impliedEnd
  unfold Builder.bodyEnd
  refine of_ite_step h.closeTemplate ?_
  refine of_ite_step (of_ite_step h h) ?_
  refine of_ite_step (of_ite_step h h) ?_
  refine of_ite_step (of_ite_step (hclosed.popUntilHtml name) h) ?_
  refine of_ite_step h.closeForm ?_
  refine of_ite_step (of_ite h (h.insertNamed "p")).closeParagraph ?_
  refine of_ite_step (h.closeItem name) ?_
  refine of_ite_step (of_ite_step (hclosed.popUntil _) h) ?_
  refine of_ite_step (h.closeFormatting name) ?_
  refine of_ite_step (of_ite_step (hclosed.popUntilHtml name).forgetToBound h) ?_
  exact of_ite_step (h.insertVoid { name := "br" }) (h.closeNamed name)

/-! ### Body -/

theorem stopInTemplate (h : Stands k p label b) (t : Token) :
    Stands k p label (b.stopInTemplate t).1 := by
  unfold Builder.stopInTemplate
  split
  · exact (h.popUntilHtml "template").forgetToBound
  · exact h

theorem inBody (h : Stands k p label b) (t : Token) : Stands k p label (b.inBody t).1 := by
  unfold Builder.inBody
  cases t with
  | char c =>
    dsimp only
    split_ifs
    · exact h
    · exact h.reopenFormatting.insertChar c
    · have hb : Stands k p label { b.reopenFormatting with framesetOk := false } :=
        h.reopenFormatting
      exact hb.insertChar c
  | comment content => exact h.insertComment content
  | startTag tag => exact h.bodyStart tag
  | endTag name => exact h.bodyEnd name
  | stop => exact of_ite_step (h.stopInTemplate _) h
  | _ => exact h

end Stands

end Shortcodes.Html.Builder
