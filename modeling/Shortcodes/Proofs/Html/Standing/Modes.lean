import Shortcodes.Proofs.Html.Standing.Body

/-!
# No token moves a standing element

The rules of the other modes keep `Stands`, and so does every token that is read.
-/

namespace Shortcodes.Html.Builder.Stands

variable {k p : Nat} {label : Label} {b : Builder}

/-! ### Tables -/

theorem foster (h : Stands k p label b) (t : Token) : Stands k p label (b.foster t).1 :=
  inBody (b := { b with fostering := true }) h t

theorem tableChar (h : Stands k p label b) (t : Token) : Stands k p label (b.tableChar t).1 :=
  of_ite_step h (h.foster t)

theorem inTable (h : Stands k p label b) (t : Token) : Stands k p label (b.inTable t).1 := by
  have hcleared := h.popTo Names.tableScope
  unfold Builder.inTable
  cases t with
  | char c => exact h.tableChar _
  | comment content => exact h.insertComment content
  | startTag tag =>
    refine of_ite_step (hcleared.pushBound.insert tag) ?_
    refine of_ite_step (hcleared.insert tag) ?_
    refine of_ite_step (hcleared.insertNamed "colgroup") ?_
    refine of_ite_step (hcleared.insert tag) ?_
    refine of_ite_step (hcleared.insertNamed "tbody") ?_
    refine of_ite_step (of_ite_step (h.popUntilHtml "table") h) ?_
    refine of_ite_step (h.metadata _) ?_
    refine of_ite_step (h.insertClosed tag) ?_
    refine of_ite_step (of_ite_step h ?_) (h.foster _)
    obtain ⟨hb, he⟩ := h.insertLeaf (htmlLabel tag)
    exact hb.withForm (Nat.le_of_lt he)
  | endTag name =>
    refine of_ite_step (of_ite_step (h.popUntilHtml "table") h) ?_
    exact of_ite_step h (of_ite_step h.closeTemplate (h.foster _))
  | stop => exact h.inBody _
  | _ => exact h

theorem flushTableText (h : Stands k p label b) : Stands k p label b.flushTableText := by
  have hb : Stands k p label { b with tableText := [] } := h
  unfold Builder.flushTableText
  refine of_ite (foldl (fun c hc => hc.insertChar c) _ hb) ?_
  exact foldl (fun c hc => hc.foster (.char c)) _ hb

theorem inTableText (h : Stands k p label b) (t : Token) :
    Stands k p label (b.inTableText t).1 := by
  unfold Builder.inTableText
  cases t with
  | char c => exact of_ite_step h h
  | _ => exact h.flushTableText

theorem inCaption (h : Stands k p label b) (t : Token) : Stands k p label (b.inCaption t).1 := by
  have hclosed := ((h.closeImplied Names.impliedEnd).popUntilHtml "caption").forgetToBound
  unfold Builder.inCaption
  cases t with
  | startTag tag => exact of_ite_step (of_ite_step hclosed h) (h.inBody _)
  | endTag name =>
    refine of_ite_step (of_ite_step hclosed h) (of_ite_step (of_ite_step hclosed h) ?_)
    exact of_ite_step h (h.inBody _)
  | _ => exact h.inBody _

theorem inColumnGroup (h : Stands k p label b) (t : Token) :
    Stands k p label (b.inColumnGroup t).1 := by
  have hleave : Stands k p label
      (if b.atHtml "colgroup" then b.pop.again .inTable t else b.done).1 := of_ite_step h.pop h
  unfold Builder.inColumnGroup
  cases t with
  | char c => exact of_ite_step (h.insertChar c) hleave
  | comment content => exact h.insertComment content
  | startTag tag =>
    refine of_ite_step (h.mergeRoot tag) (of_ite_step (h.insertClosed tag) ?_)
    exact of_ite_step (h.metadata _) hleave
  | endTag name =>
    refine of_ite_step (of_ite_step h.pop h) (of_ite_step h ?_)
    exact of_ite_step h.closeTemplate hleave
  | stop => exact h.inBody _
  | _ => exact hleave

theorem inTableBody (h : Stands k p label b) (t : Token) :
    Stands k p label (b.inTableBody t).1 := by
  have hcleared := h.popTo rowGroupContext
  unfold Builder.inTableBody
  cases t with
  | startTag tag =>
    refine of_ite_step (hcleared.insert tag) (of_ite_step (hcleared.insertNamed "tr") ?_)
    exact of_ite_step (of_ite_step hcleared.pop h) (h.inTable _)
  | endTag name =>
    refine of_ite_step (of_ite_step hcleared.pop h) (of_ite_step (of_ite_step hcleared.pop h) ?_)
    exact of_ite_step h (h.inTable _)
  | _ => exact h.inTable _

theorem inRow (h : Stands k p label b) (t : Token) : Stands k p label (b.inRow t).1 := by
  have hcleared := h.popTo rowContext
  unfold Builder.inRow
  cases t with
  | startTag tag =>
    refine of_ite_step (hcleared.insert tag).pushBound ?_
    exact of_ite_step (of_ite_step hcleared.pop h) (h.inTable _)
  | endTag name =>
    refine of_ite_step (of_ite_step hcleared.pop h) (of_ite_step (of_ite_step hcleared.pop h) ?_)
    refine of_ite_step (of_ite_step (of_ite_step hcleared.pop h) h) ?_
    exact of_ite_step h (h.inTable _)
  | _ => exact h.inTable _

theorem closeCell (h : Stands k p label b) : Stands k p label b.closeCell :=
  ((h.closeImplied Names.impliedEnd).popUntil _).forgetToBound

theorem inCell (h : Stands k p label b) (t : Token) : Stands k p label (b.inCell t).1 := by
  unfold Builder.inCell
  cases t with
  | startTag tag => exact of_ite_step (of_ite_step h.closeCell h) (h.inBody _)
  | endTag name =>
    have hclosed := ((h.closeImplied Names.impliedEnd).popUntilHtml name).forgetToBound
    refine of_ite_step (of_ite_step hclosed h) (of_ite_step h ?_)
    exact of_ite_step (of_ite_step h.closeCell h) (h.inBody _)
  | _ => exact h.inBody _

/-! ### Raw text and selections -/

theorem inText (h : Stands k p label b) (t : Token) : Stands k p label (b.inText t).1 := by
  unfold Builder.inText
  cases t with
  | char c => exact h.insertChar c
  | stop => exact h.pop
  | endTag name => exact h.pop
  | _ => exact h

theorem closeOptions (h : Stands k p label b) : Stands k p label b.closeOptions := by
  have hclosed : Stands k p label (if b.atHtml "option" then b.pop else b) := of_ite h.pop h
  exact of_ite hclosed.pop hclosed

theorem closeSelect (h : Stands k p label b) : Stands k p label b.closeSelect :=
  of_ite (h.popUntilHtml "select") h

theorem inSelect (h : Stands k p label b) (t : Token) : Stands k p label (b.inSelect t).1 := by
  unfold Builder.inSelect
  cases t with
  | char c => exact of_ite_step h (h.insertChar c)
  | comment content => exact h.insertComment content
  | startTag tag =>
    refine of_ite_step (h.mergeRoot tag) (of_ite_step ((of_ite h.pop h).insert tag) ?_)
    refine of_ite_step (h.closeOptions.insert tag) ?_
    refine of_ite_step (h.closeOptions.insertClosed tag) ?_
    refine of_ite_step h.closeSelect (of_ite_step (of_ite_step (h.popUntilHtml "select") h) ?_)
    exact of_ite_step (h.metadata _) h
  | endTag name =>
    refine of_ite_step ?_ (of_ite_step (of_ite h.pop h) (of_ite_step h.closeSelect ?_))
    · dsimp only
      split
      · exact of_ite (pop (of_ite h.pop h)) (of_ite h.pop h)
      · exact of_ite h.pop h
    · exact of_ite_step h.closeTemplate h
  | stop => exact h.inBody _
  | _ => exact h

theorem inSelectInTable (h : Stands k p label b) (t : Token) :
    Stands k p label (b.inSelectInTable t).1 := by
  unfold Builder.inSelectInTable
  cases t with
  | startTag tag => exact of_ite_step (h.popUntilHtml "select") (h.inSelect _)
  | endTag name => exact of_ite_step (of_ite_step (h.popUntilHtml "select") h) (h.inSelect _)
  | _ => exact h.inSelect _

/-! ### Templates, what follows the body, framesets -/

theorem inTemplate (h : Stands k p label b) (t : Token) :
    Stands k p label (b.inTemplate t).1 := by
  unfold Builder.inTemplate
  cases t with
  | char c => exact h.inBody _
  | comment content => exact h.inBody _
  | startTag tag => exact of_ite_step (h.metadata _) h
  | endTag name => exact of_ite_step h.closeTemplate h
  | stop => exact h.stopInTemplate _
  | _ => exact h

theorem afterBody (h : Stands k p label b) (t : Token) : Stands k p label (b.afterBody t).1 := by
  unfold Builder.afterBody
  cases t with
  | char c => exact of_ite_step (h.inBody _) h
  | comment content => exact h.appendComment b.root content
  | startTag tag => exact of_ite_step (h.mergeRoot tag) h
  | endTag name => exact of_ite_step h h
  | _ => exact h

theorem afterAfterBody (h : Stands k p label b) (t : Token) :
    Stands k p label (b.afterAfterBody t).1 := by
  unfold Builder.afterAfterBody
  cases t with
  | char c => exact of_ite_step (h.inBody _) h
  | comment content => exact h.appendComment 0 content
  | startTag tag => exact of_ite_step (h.mergeRoot tag) h
  | _ => exact h

theorem inFrameset (h : Stands k p label b) (t : Token) :
    Stands k p label (b.inFrameset t).1 := by
  unfold Builder.inFrameset
  cases t with
  | char c => exact of_ite_step (h.insertChar c) h
  | comment content => exact h.insertComment content
  | startTag tag =>
    refine of_ite_step (h.mergeRoot tag) (of_ite_step (h.insert tag) ?_)
    exact of_ite_step (h.insertClosed tag) (of_ite_step (h.metadata _) h)
  | endTag name => exact of_ite_step (of_ite h.pop h.pop) h
  | _ => exact h

theorem afterFrameset (h : Stands k p label b) (t : Token) :
    Stands k p label (b.afterFrameset t).1 := by
  unfold Builder.afterFrameset
  cases t with
  | char c => exact of_ite_step (h.insertChar c) h
  | comment content => exact h.insertComment content
  | startTag tag => exact of_ite_step (h.mergeRoot tag) (of_ite_step (h.metadata _) h)
  | endTag name => exact of_ite_step h h
  | _ => exact h

theorem afterAfterFrameset (h : Stands k p label b) (t : Token) :
    Stands k p label (b.afterAfterFrameset t).1 := by
  unfold Builder.afterAfterFrameset
  cases t with
  | char c => exact of_ite_step (h.inBody _) h
  | comment content => exact h.appendComment 0 content
  | startTag tag => exact of_ite_step (h.mergeRoot tag) (of_ite_step (h.metadata _) h)
  | _ => exact h

/-! ### Tokens -/

theorem byMode (h : Stands k p label b) (t : Token) : Stands k p label (b.byMode t).1 := by
  unfold Builder.byMode
  split
  · exact h.initial t
  · exact h.beforeHtml t
  · exact h.beforeHead t
  · exact h.inHead t
  · exact h.afterHead t
  · exact h.inBody t
  · exact h.inText t
  · exact h.inTable t
  · exact h.inTableText t
  · exact h.inCaption t
  · exact h.inColumnGroup t
  · exact h.inTableBody t
  · exact h.inRow t
  · exact h.inCell t
  · exact h.inSelect t
  · exact h.inSelectInTable t
  · exact h.inTemplate t
  · exact h.afterBody t
  · exact h.inFrameset t
  · exact h.afterFrameset t
  · exact h.afterAfterBody t
  · exact h.afterAfterFrameset t

theorem leaveForeign (h : Stands k p label b) (t : Token) :
    Stands k p label (b.leaveForeign t).1 :=
  (h.withSuffix (List.dropWhile_suffix _)).byMode t

theorem closeForeign (h : Stands k p label b) (name : String) (stack : List OpenElement) :
    ∀ first, stack <:+ b.stack → Stands k p label (b.closeForeign name first stack).1 := by
  induction stack with
  | nil => exact fun _ _ => h
  | cons e rest ih =>
    intro first hs
    have hrest : rest <:+ b.stack := (List.suffix_cons e rest).trans hs
    cases rest with
    | nil => exact h
    | cons d rest =>
      refine of_ite_step (h.byMode _) (of_ite_step (h.withSuffix hrest) ?_)
      exact ih false hrest

theorem foreign (h : Stands k p label b) (t : Token) : Stands k p label (b.foreign t).1 := by
  unfold Builder.foreign
  cases t with
  | char c =>
    refine of_ite_step (h.insertChar _) ?_
    have hb : Stands k p label (if Token.isSpace c then b else { b with framesetOk := false }) :=
      of_ite h h
    exact hb.insertChar c
  | comment content => exact h.insertComment content
  | startTag tag => exact of_ite_step (h.leaveForeign _) (h.insertForeign _ _ tag)
  | endTag name =>
    exact of_ite_step (h.leaveForeign _) (h.closeForeign name _ true List.suffix_rfl)
  | _ => exact h

theorem process (fuel : Nat) (h : Stands k p label b) (t : Token) :
    Stands k p label (process fuel b t) := by
  induction fuel generalizing b t with
  | zero => exact h
  | succ fuel ih =>
    have hrule : Stands k p label (if b.isForeign t then b.foreign t else b.byMode t).1 :=
      of_ite_step (h.foreign t) (h.byMode t)
    unfold Builder.process
    split
    · next c hc => rwa [hc] at hrule
    · next c t' hc =>
      rw [hc] at hrule
      exact ih hrule t'

/-- No token moves the element. -/
theorem accept (h : Stands k p label b) (t : Token) : Stands k p label (b.accept t) := by
  have hb : Stands k p label { b with skipBreak := false } := h
  unfold Builder.accept
  cases t with
  | fault => exact h
  | doctype legacy => exact of_ite h h
  | char c => exact of_ite h (process _ hb _)
  | _ => exact process _ hb _

end Shortcodes.Html.Builder.Stands
