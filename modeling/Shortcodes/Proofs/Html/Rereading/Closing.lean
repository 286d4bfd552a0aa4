import Shortcodes.Proofs.Html.Rereading.Opening

/-!
# End tags that close one element

The end tag of the innermost open element closes it and nothing else: nothing stands above it whose
end would be implied, and no formatting has to be split. What remains is the state in which the
element's start tag was met, with the cells below it filled (`Steady.bodyEnd_closes`).
-/

namespace Shortcodes.Html

namespace Builder

variable {b : Builder} {a : Arena} {e : OpenElement} {stack : List OpenElement}
  {entries : List Formatting} {skip : Bool} {name : String}

/-! ### What stays remembered -/

theorem Settled.of_other (h : Settled entries (e :: stack)) (hname : e.name ∉ remembered)
    (hembedding : e.isAnyOf Names.embedding = false) : Settled entries stack := by
  cases h with
  | other h _ => exact h
  | entry h he htag =>
    rw [OpenElement.isHtml, Bool.and_eq_true, beq_iff_eq] at he
    exact absurd (he.2 ▸ htag) hname
  | bound h he =>
    rw [hembedding] at he
    cases he

/-- Whether an element of a name is remembered in no other way than by being open. -/
def isUnmarked (name : String) : Bool := !("form" :: (remembered ++ Names.embedding)).contains name

namespace Steady

/-- Whatever was remembered of the innermost element, without it the state is one without it. -/
theorem popped (h : Steady (e :: stack) a skip b) (hsettled : Settled entries stack)
    {form : Option Nat} (hform : form = (stack.find? (·.isHtml "form")).map (·.id)) :
    Steady stack a skip { b with stack, formatting := entries, form } :=
  { h with
    stack_eq := rfl
    template_eq := by
      have htemplate := h.template_eq
      rw [List.any_cons, Bool.or_eq_false_iff] at htemplate
      exact htemplate.2
    form_eq := hform
    settled := hsettled
    rooted := h.rooted.tail }

theorem form_pop (h : Steady (e :: stack) a skip b) (hform : e.name ≠ "form") :
    b.form = (stack.find? (·.isHtml "form")).map (·.id) := by
  have hother : e.isHtml "form" = false := by
    rw [OpenElement.isHtml, beq_false_of_ne hform, Bool.and_false]
  rw [h.form_eq, List.find?_cons_of_neg (by simp [hother])]

/-- An element that is remembered in no other way than by being open is closed. -/
theorem closed (h : Steady (e :: stack) a skip b) (hname : isUnmarked e.name = true) :
    Steady stack a skip { b with stack } := by
  simp only [isUnmarked, Bool.not_eq_true', List.contains_eq_mem, decide_eq_false_iff_not,
    List.mem_cons, List.mem_append, not_or] at hname
  obtain ⟨hform, hforgotten, hembedding⟩ := hname
  refine h.popped (h.settled.of_other hforgotten ?_) (h.form_pop hform)
  rw [OpenElement.isAnyOf, List.contains_eq_mem, decide_eq_false hembedding, Bool.and_false]

/-! ### Rules for the innermost element -/

theorem popUntil_eq (h : Steady (e :: stack) a skip b) {wanted : OpenElement → Bool}
    (he : wanted e = true) : b.popUntil wanted = { b with stack } := by
  rw [popUntil, h.stack_eq, List.dropWhile_cons_of_neg (by simp [he])]
  rfl

theorem inScopeWhere_head {bounds wanted : OpenElement → Bool} (he : wanted e = true) :
    inScopeWhere bounds wanted (e :: stack) = true := by
  rw [inScopeWhere, he, Bool.true_or]

theorem closeImplied_eq_of_name (h : Steady (e :: stack) a skip b) (he : e.isHtml name = true)
    {names : List String} (hnames : names.contains name = false) : b.closeImplied names = b := by
  refine h.closeImplied_eq ?_
  rw [OpenElement.isHtml, Bool.and_eq_true, beq_iff_eq] at he
  show (_ && _) = false
  rw [he.2, hnames, Bool.and_false]

theorem closeImpliedExcept_eq (h : Steady (e :: stack) a skip b) (he : e.isHtml name = true) :
    b.closeImpliedExcept name = b :=
  h.closeImplied_eq_of_name he (by simp)

theorem closeNamed_eq (h : Steady (e :: stack) a skip b) (he : e.isHtml name = true) :
    b.closeNamed name = { b with stack } := by
  have hfind : (b.stack.find? fun e => e.isHtml name || e.isAnyOf Names.special) = some e := by
    rw [h.stack_eq, List.find?_cons_of_pos (by rw [he, Bool.true_or])]
  rw [closeNamed, hfind]
  dsimp only
  rw [if_pos he, h.closeImpliedExcept_eq he, h.stack_eq, List.dropWhile_cons_of_neg (by simp)]
  rfl

theorem closeItem_eq (h : Steady (e :: stack) a skip b) (he : e.isHtml name = true) :
    b.closeItem name = { b with stack } := by
  rw [closeItem, h.stack_eq, if_pos (inScopeWhere_head he), h.closeImpliedExcept_eq he]
  exact h.popUntil_eq he

theorem closeParagraph_eq (h : Steady (e :: stack) a skip b) (he : e.isHtml "p" = true) :
    (if b.paragraphInScope then b else b.insertNamed "p").closeParagraph = { b with stack } := by
  have hscope : b.paragraphInScope = true := by
    rw [paragraphInScope, h.stack_eq]
    exact inScopeWhere_head he
  rw [hscope, if_pos rfl, closeParagraph, h.closeImpliedExcept_eq he]
  exact h.popUntil_eq he

/-- The form that is closed was the only one. -/
theorem closeForm (h : Steady (e :: stack) a skip b) (he : e.isHtml "form" = true)
    (hforms : stack.any (·.isHtml "form") = false) : Steady stack a skip b.closeForm := by
  have hname : e.name = "form" := by
    rw [OpenElement.isHtml, Bool.and_eq_true, beq_iff_eq] at he
    exact he.2
  have htemplate : b.hasOpen "template" = false := by
    rw [hasOpen, h.stack_eq, h.template_eq]
  have hform : b.form = some e.id := by
    rw [h.form_eq, List.find?_cons_of_pos (by rw [he])]
    rfl
  have hsettled : Settled b.formatting stack := by
    refine h.settled.of_other (by rw [hname]; decide) ?_
    rw [OpenElement.isAnyOf, hname]
    exact Bool.and_false _
  -- no other form is open, so that none is remembered from then on
  have hnone : none = (stack.find? (·.isHtml "form")).map (·.id) := by
    rw [List.find?_eq_none.2 (List.any_eq_false.1 hforms)]
    rfl
  have himplied : closeImplied { b with form := none } Names.impliedEnd = { b with form := none } := by
    have hcur : e.isAnyOf Names.impliedEnd = false := by
      rw [OpenElement.isAnyOf, hname]
      exact Bool.and_false _
    rw [closeImplied]
    dsimp only
    rw [h.stack_eq, List.dropWhile_cons_of_neg (by simp [hcur])]
  have hclose : b.closeForm = { b with stack, form := none } := by
    rw [Builder.closeForm, htemplate, if_neg Bool.false_ne_true, hform]
    dsimp only
    rw [h.stack_eq, if_pos (inScopeWhere_head (by simp)), ← h.stack_eq, himplied, removeOpen]
    dsimp only
    rw [h.stack_eq, List.eraseP_cons_of_pos (by simp)]
  rw [hclose]
  exact h.popped hsettled hnone

theorem closeRound_eq (h : Steady (e :: stack) a skip b) {tag : StartTag}
    (hentries : b.formatting = .element e.id tag :: entries) :
    b.closeRound tag.name = .finished { b with stack, formatting := entries } := by
  rw [closeRound, hentries, sinceBound, List.find?_cons_of_pos (by simp)]
  dsimp only
  rw [h.stack_eq, List.dropWhile_cons_of_neg (by simp)]
  dsimp only
  rw [inScopeWhere_head (by simp), List.takeWhile_cons_of_neg (by simp), List.reverse_nil,
    List.dropWhile_nil]
  dsimp only
  rw [Builder.forget]
  dsimp only
  rw [List.eraseP_cons_of_pos (by simp [isEntry])]
  rfl

/-- A formatting element is closed, and no longer remembered. -/
theorem closeFormatting (h : Steady (e :: stack) a skip b) (he : e.isHtml name = true)
    (hname : name ∈ remembered) : Steady stack a skip (b.closeFormatting name) := by
  have hisname : e.name = name := by
    rw [OpenElement.isHtml, Bool.and_eq_true, beq_iff_eq] at he
    exact he.2
  have hnone : ∀ name ∈ remembered, name ≠ "form" := by decide
  have hform := h.form_pop (by rw [hisname]; exact hnone _ hname)
  have hsettled := h.settled
  rw [Builder.closeFormatting, h.stack_eq]
  dsimp only
  generalize hentries : b.formatting = all at hsettled
  cases hsettled with
  | other hsettled _ =>
    -- what is remembered is further out
    have hforgotten : b.remembers e.id = false := by
      rw [remembers, hentries, List.any_eq_false]
      intro entry hm
      cases entry with
      | bound => exact Bool.false_ne_true
      | element id tag =>
        obtain ⟨f, hf, hid, -⟩ := hsettled.exists_open hm
        have hlt := (List.pairwise_cons.1 h.rooted.descending).1 f hf
        simp only [isEntry, decide_eq_true_eq]
        omega
    rw [he, hforgotten]
    have hpop := h.popped hsettled hform
    rw [← hentries] at hpop
    show Steady stack a skip b.pop
    rw [pop, h.stack_eq]
    exact hpop
  | @entry entries _ _ tag hsettled htag _ =>
    have hremembers : b.remembers e.id = true := by
      rw [remembers, hentries, List.any_cons, isEntry]
      simp
    have htagname : tag.name = name := by
      rw [OpenElement.isHtml, Bool.and_eq_true, beq_iff_eq] at htag
      rw [← htag.2, hisname]
    rw [he, hremembers]
    show Steady stack a skip (closeRounds name 8 b)
    rw [closeRounds, ← htagname, h.closeRound_eq hentries]
    exact h.popped hsettled hform
  | bound _ hembedding =>
    rw [Settled.not_embedding he hname] at hembedding
    cases hembedding

/-- An element that holds a document of its own is closed, with its bound. -/
theorem closeEmbedding (h : Steady (e :: stack) a skip b) (he : e.isHtml name = true)
    (hname : name ∈ Names.embedding) :
    Steady stack a skip ((b.closeImplied Names.impliedEnd).popUntilHtml name).forgetToBound := by
  have hnone : ∀ name ∈ Names.embedding, name ≠ "form" ∧
      Names.impliedEnd.contains name = false := by decide
  obtain ⟨hne, himplied⟩ := hnone _ hname
  have hisname : e.space = .html ∧ e.name = name := by
    simpa [OpenElement.isHtml, Bool.and_eq_true] using he
  have hembedding : e.isAnyOf Names.embedding = true := by
    rw [OpenElement.isAnyOf, hisname.1, hisname.2, List.contains_iff_mem.2 hname]
    rfl
  have hform := h.form_pop (by rwa [hisname.2])
  rw [h.closeImplied_eq_of_name he himplied, popUntilHtml, h.popUntil_eq he]
  have hsettled := h.settled
  generalize hentries : b.formatting = all at hsettled
  -- an embedding element is neither passed over nor remembered, so that it left the bound
  cases hsettled with
  | other _ hnot =>
    rw [hembedding] at hnot
    cases hnot
  | entry _ hopen htag =>
    rw [Settled.not_embedding hopen htag] at hembedding
    cases hembedding
  | bound hsettled _ =>
    exact h.popped hsettled hform

/-! ### End tags in the body -/

/-- The token is used up, and the state that is left is steady. -/
def Closes (stack : List OpenElement) (a : Arena) (skip : Bool) (r : Step) : Prop :=
  Steady stack a skip r.1 ∧ r.2 = none

theorem closes_of_ite {c : Bool} {r s : Step} (hr : c = true → Closes stack a skip r)
    (hs : c = false → Closes stack a skip s) : Closes stack a skip (if c = true then r else s) := by
  cases c with
  | false => exact hs rfl
  | true => exact hr rfl

/-- The end tag of the innermost open element closes it, and nothing else changes. -/
theorem bodyEnd_closes (h : Steady (e :: stack) a skip b) (he : e.isHtml name = true)
    (hname : name ∉ irregular) (hadmits : admits stack name = true) :
    Closes stack a skip (b.bodyEnd name) := by
  have hregular : ∀ other ∈ irregular, ¬(name == other) = true :=
    fun _ => not_beq_of_notMem hname
  have hisname : e.space = .html ∧ e.name = name := by
    simpa [OpenElement.isHtml, Bool.and_eq_true] using he
  have hclosed : isUnmarked name = true → Closes stack a skip (Builder.done { b with stack }) :=
    fun hunmarked => ⟨h.closed (by rwa [hisname.2]), rfl⟩
  have hscope : b.inScope name = true := by
    rw [h.inScope_eq]
    exact inScopeWhere_head he
  have hwhole : ∀ name ∈ Names.closedWhole, isUnmarked name = true ∧
      Names.impliedEnd.contains name = false := by decide
  have hitem : ∀ name, name = "li" ∨ name = "dd" ∨ name = "dt" → isUnmarked name = true := by
    rintro name (rfl | rfl | rfl) <;> decide
  have hheading : ∀ name ∈ Names.heading, isUnmarked name = true ∧
      Names.impliedEnd.contains name = false := by decide
  unfold bodyEnd
  rw [if_neg (hregular "template" (by decide)), if_neg (hregular "body" (by decide)),
    if_neg (hregular "html" (by decide))]
  -- one case for each rule, in their order; an irregular name meets none of its own
  refine closes_of_ite (fun hc => ?_) fun _ => closes_of_ite (fun hc => ?_) fun hnotform =>
    closes_of_ite (fun hc => ?_) fun _ => closes_of_ite (fun hc => ?_) fun _ =>
    closes_of_ite (fun hc => ?_) fun _ => closes_of_ite (fun hc => ?_) fun hnotremembered =>
    closes_of_ite (fun hc => ?_) fun hnotembedding => closes_of_ite (fun hc => ?_) fun _ => ?_
  · obtain ⟨hunmarked, himplied⟩ := hwhole _ (List.contains_iff_mem.1 hc)
    rw [if_pos hscope, h.closeImplied_eq_of_name he himplied, popUntilHtml, h.popUntil_eq he]
    exact hclosed hunmarked
  · have hform : name = "form" := beq_iff_eq.1 hc
    have hrules := undisturbed hadmits
    simp only [disturbing, List.forall_mem_cons] at hrules
    obtain ⟨-, -, -, -, hforms, -⟩ := hrules
    exact ⟨h.closeForm (by rwa [hform] at he) (hforms (by rw [hform]; decide)), rfl⟩
  · have hp : name = "p" := beq_iff_eq.1 hc
    rw [h.closeParagraph_eq (by rwa [hp] at he)]
    exact hclosed (by rw [hp]; decide)
  · rw [h.closeItem_eq he]
    exact hclosed (hitem name (by simpa [or_assoc] using hc))
  · obtain ⟨hunmarked, himplied⟩ := hheading _ (List.contains_iff_mem.1 hc)
    have hany : e.isAnyOf Names.heading = true := by
      rw [OpenElement.isAnyOf, hisname.1, hisname.2, hc]
      rfl
    rw [h.stack_eq, if_pos (inScopeWhere_head hany), h.closeImplied_eq_of_name he himplied,
      h.popUntil_eq hany]
    exact hclosed hunmarked
  · refine ⟨h.closeFormatting he ?_, rfl⟩
    simp only [Bool.or_eq_true, beq_iff_eq, List.contains_iff_mem, or_assoc] at hc
    rw [remembered, List.mem_cons, List.mem_cons]
    exact or_rotate.1 hc
  · rw [if_pos hscope]
    exact ⟨h.closeEmbedding he (List.contains_iff_mem.1 hc), rfl⟩
  · exact absurd hc (hregular "br" (by decide))
  · rw [h.closeNamed_eq he]
    refine hclosed ?_
    simp only [Bool.or_eq_false_iff, beq_eq_false_iff_ne, List.contains_eq_mem,
      decide_eq_false_iff_not] at hnotform hnotremembered hnotembedding
    simp [isUnmarked, remembered, hnotform, hnotremembered, hnotembedding]

end Steady

end Builder

end Shortcodes.Html
