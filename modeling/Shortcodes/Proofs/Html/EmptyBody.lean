import Mathlib.Tactic.SplitIfs
import Shortcodes.Proofs.Html.TopLevel
import Shortcodes.Proofs.Text

/-!
# One element in a document

A document with a single element at its top level, in the head or in the body (`Placed`), and what
the start tags of the body make of a body that is empty (`InEmptyBody`): each adds one element that
keeps the tag's classes, be it HTML or not (`hasClass_foreign`).
-/

namespace Shortcodes.Html

namespace Arena

theorem children_toArray (cells : List Cell) (i : Nat) :
    (Arena.cell cells.toArray i).children = (cells.map (·.children)).getD i [] := by
  unfold cell
  rw [Array.getD_eq_getD_getElem?, List.getElem?_toArray, List.getD_eq_getElem?_getD,
    List.getElem?_map]
  cases cells[i]? <;> rfl

/-- In a fixed number of cells each place of a node can be looked at. -/
theorem Standing.of_cells {k p : Nat} {label : Label} {cells : List Cell} (links : List (List Nat))
    (hlinks : cells.map (·.children) = links) (hsize : k < links.length)
    (hk : k ∈ links.getD p [] ∧ ∀ i < links.length, k ∈ links.getD i [] → i = p)
    (hp : 1 < p ∧ p < k ∧ ∀ i < links.length, p ∈ links.getD i [] → i = 1)
    (hroot : 1 ∈ links.getD 0 []) (hrootElement : (Arena.label? cells.toArray 1).isSome)
    (hpartElement : (Arena.label? cells.toArray p).isSome)
    (hlabel : Arena.label? cells.toArray k = some label) :
    Standing k p label cells.toArray := by
  have hchildren : ∀ i, (Arena.cell cells.toArray i).children = links.getD i [] := by
    intro i
    rw [children_toArray, hlinks]
  have hin : ∀ {c i : Nat}, c ∈ links.getD i [] → i < links.length := by
    intro c i hc
    refine Nat.lt_of_not_le fun hi => ?_
    rw [List.getD_eq_getElem?_getD, List.getElem?_eq_none hi] at hc
    cases hc
  refine ⟨hp.1, hp.2.1, ?_, ?_, ?_, fun i hi => ?_, fun i hi => ?_, hrootElement, hpartElement,
    hlabel⟩
  · rw [← hlinks, List.length_map] at hsize
    exact hsize
  · rw [hchildren]
    exact hroot
  · rw [hchildren]
    exact hk.1
  · rw [hchildren] at hi
    exact hk.2 i (hin hi) hi
  · rw [hchildren] at hi
    exact hp.2.2 i (hin hi) hi

end Arena

namespace Builder

/-! ### Classes outside HTML -/

/-- Whether a name is that of the class attribute. -/
def namesClass (name : String) : Bool := Text.sameUpToCase name.toList "class".toList

theorem namesClass_svgAttributeName (name : String) :
    namesClass (svgAttributeName name) = namesClass name := by
  unfold svgAttributeName
  dsimp only
  generalize hfound : List.find? _ _ = found
  cases found with
  | none => rfl
  | some known =>
    have hknown := List.find?_some hfound
    have hlower : Text.lowerAscii known.toList = name.toList := by simpa using hknown
    unfold namesClass Text.sameUpToCase
    rw [Option.getD_some, ← hlower, Text.lowerAscii_lowerAscii]

theorem value_foreignAttribute (space : Space) (name : String) (value : Text) :
    (foreignAttribute space name value).value = value := by
  unfold foreignAttribute
  dsimp only
  split_ifs <;> rfl

theorem namesClass_foreignAttribute_html (name : String) (value : Text) :
    namesClass (foreignAttribute .html name value).name = namesClass name := by
  unfold foreignAttribute
  dsimp only
  split_ifs with hxlink hxml hxmlns hxmlnsXlink
  · simp only [List.contains_cons, List.contains_nil, Bool.or_false, Bool.or_eq_true,
      beq_iff_eq] at hxlink
    rcases hxlink with rfl | rfl | rfl | rfl | rfl | rfl | rfl <;> (dsimp only; decide)
  · simp only [Bool.or_eq_true, beq_iff_eq] at hxml
    rcases hxml with rfl | rfl <;> (dsimp only; decide)
  · rw [beq_iff_eq] at hxmlns
    subst hxmlns
    rfl
  · rw [beq_iff_eq] at hxmlnsXlink
    subst hxmlnsXlink
    dsimp only
    decide
  · rfl

theorem namesClass_foreignAttribute (space : Space) (name : String) (value : Text) :
    namesClass (foreignAttribute space name value).name = namesClass name := by
  cases space with
  | html => exact namesClass_foreignAttribute_html name value
  | svg =>
    -- the name is adjusted first
    have hadjusted : foreignAttribute .svg name value =
      foreignAttribute .html (svgAttributeName name) value := rfl
    rw [hadjusted, namesClass_foreignAttribute_html, namesClass_svgAttributeName]
  | mathml =>
    have hadjusted : foreignAttribute .mathml name value = foreignAttribute .html
      (if name == "definitionurl" then "definitionURL" else name) value := rfl
    rw [hadjusted, namesClass_foreignAttribute_html]
    split
    · next h =>
      rw [beq_iff_eq.1 h]
      decide
    · rfl

/-- Attributes keep their classes outside HTML. -/
theorem hasClass_foreign (space : Space) (name : String) (tag : StartTag) (c : Text) :
    (Label.mk space name (tag.attributes.map fun (n, v) => foreignAttribute space n v)).hasClass c =
      (htmlLabel tag).hasClass c := by
  have hclass : (fun x : String × Text => namesClass (foreignAttribute space x.1 x.2).name) =
      fun x => namesClass x.1 := funext fun x => namesClass_foreignAttribute space x.1 x.2
  have hvalue : (fun x : String × Text => (foreignAttribute space x.1 x.2).value) =
      fun x => x.2 := funext fun x => value_foreignAttribute space x.1 x.2
  have hattribute : (Label.mk space name
      (tag.attributes.map fun (n, v) => foreignAttribute space n v)).attribute? "class".toList =
        (htmlLabel tag).attribute? "class".toList := by
    unfold Label.attribute? htmlLabel ownAttributes
    dsimp only
    rw [List.find?_map, List.find?_map, Option.map_map, Option.map_map]
    show (tag.attributes.find? fun x => namesClass (foreignAttribute space x.1 x.2).name).map
      (fun x => (foreignAttribute space x.1 x.2).value) =
        (tag.attributes.find? fun x => namesClass x.1).map fun x => x.2
    rw [hclass, hvalue]
  unfold Label.hasClass Label.classes
  rw [hattribute]

/-! ### Documents with one element -/

/-- The cells of a document in whose head stand the nodes `children`. -/
def headCells (children : List Nat) : Arena :=
  #[{ content := .document, children := [1] },
    { content := .element ⟨.html, "html", []⟩ none, parent := some 0, children := [2] },
    { content := .element ⟨.html, "head", []⟩ none, parent := some 1, children }]

/-- The cells of a document in whose body stand the nodes `children`. -/
def bodyCells (children : List Nat) : Arena :=
  #[{ content := .document, children := [1] },
    { content := .element ⟨.html, "html", []⟩ none, parent := some 0, children := [2, 3] },
    { content := .element ⟨.html, "head", []⟩ none, parent := some 1 },
    { content := .element ⟨.html, "body", []⟩ none, parent := some 1, children }]

/-- The cells of a document with one element in the head. -/
def inHeadCells (label : Label) : Arena :=
  (headCells [3]).push { content := .element label none, parent := some 2 }

/-- The cells of a document with one template in the head. -/
def templateCells (label : Label) : Arena :=
  ((headCells [4]).push { content := .document }).push
    { content := .element label (some 3), parent := some 2 }

/-- The cells of a document with one element in the body. -/
def inBodyCells (label : Label) : Arena :=
  (bodyCells [4]).push { content := .element label none, parent := some 3 }

theorem standing_inHeadCells (label : Label) : (inHeadCells label).Standing 3 2 label :=
  .of_cells [[1], [2], [3], []] rfl (by decide) (by decide) (by decide) (by decide) rfl rfl rfl

theorem standing_templateCells (label : Label) : (templateCells label).Standing 4 2 label :=
  .of_cells [[1], [2], [4], [], []] rfl (by decide) (by decide) (by decide) (by decide) rfl rfl rfl

theorem standing_inBodyCells (label : Label) : (inBodyCells label).Standing 4 3 label :=
  .of_cells [[1], [2, 3], [], [4], []] rfl (by decide) (by decide) (by decide) (by decide) rfl rfl
    rfl

/-- The element `k` of a tag is all there is at the top level, in the part `p`. -/
def Placed (tag : StartTag) (k p : Nat) (b : Builder) : Prop :=
  ∃ label : Label, Stands k p label b ∧ b.arena.topLevelIds = [k] ∧
    ∀ name, label.hasClass name = (htmlLabel tag).hasClass name

theorem Placed.pushBound {tag : StartTag} {k p : Nat} {b : Builder} (h : Placed tag k p b) :
    Placed tag k p b.pushBound := by
  obtain ⟨label, hstands, htop, hclass⟩ := h
  exact ⟨label, hstands.pushBound, htop, hclass⟩

theorem not_template {tag : StartTag} (hn : tag.name ≠ "template") :
    ¬(decide ((htmlLabel tag).space = .html) && (htmlLabel tag).name == "template") = true := by
  simpa [htmlLabel] using hn

/-! ### In the body -/

/-- A state in the empty body of a document. -/
structure InEmptyBody (b : Builder) : Prop where
  arena_eq : b.arena = bodyCells []
  stack_eq : b.stack = [⟨3, .html, "body", false⟩, ⟨1, .html, "html", false⟩]
  formatting_eq : b.formatting = []
  form_eq : b.form = none
  fostering_eq : b.fostering = false

namespace InEmptyBody

variable {b : Builder} {tag : StartTag}

theorem insertLeaf_eq (h : InEmptyBody b) {l : Label}
    (hl : ¬(decide (l.space = .html) && l.name == "template") = true) :
    b.insertLeaf l =
      ({ b with arena := inBodyCells l }, ⟨4, l.space, l.name, statesHtml l⟩) := by
  obtain ⟨ha, hs, -, -, hf⟩ := h
  unfold Builder.insertLeaf Builder.createElement
  rw [if_neg hl, ha]
  unfold placeIn current
  dsimp only
  rw [hs, hf]
  rfl

theorem closeParagraphInScope_eq (h : InEmptyBody b) : b.closeParagraphInScope = b := by
  unfold Builder.closeParagraphInScope paragraphInScope
  rw [h.stack_eq]
  rfl

theorem reopenFormatting_eq (h : InEmptyBody b) : b.reopenFormatting = b := by
  unfold Builder.reopenFormatting
  rw [h.formatting_eq]
  rfl

theorem sunk : Sunk 4 3 [⟨3, .html, "body", false⟩, ⟨1, .html, "html", false⟩] :=
  ⟨[], _, rfl, List.forall_mem_nil _, by decide⟩

theorem sunk_cons {e : OpenElement} (he : e.id = 4) :
    Sunk 4 3 [e, ⟨3, .html, "body", false⟩, ⟨1, .html, "html", false⟩] := by
  refine ⟨[], _, rfl, List.forall_mem_nil _, ?_⟩
  rw [List.map_cons, he]
  exact List.suffix_rfl

/-- An element is added to the empty body. -/
theorem placed_insertLeaf (h : InEmptyBody b) {l : Label}
    (hl : ¬(decide (l.space = .html) && l.name == "template") = true)
    (hc : ∀ name, l.hasClass name = (htmlLabel tag).hasClass name) :
    Placed tag 4 3 (b.insertLeaf l).1 := by
  rw [h.insertLeaf_eq hl]
  refine ⟨l, ⟨standing_inBodyCells l, ?_, fun i t hm => ?_, fun i hi => ?_⟩, rfl, hc⟩
  · rw [h.stack_eq]
    exact sunk
  · rw [h.formatting_eq] at hm
    cases hm
  · rw [h.form_eq] at hi
    cases hi

theorem insertLabel_eq (h : InEmptyBody b) {l : Label}
    (hl : ¬(decide (l.space = .html) && l.name == "template") = true) :
    b.insertLabel l =
      ({ b with
         arena := inBodyCells l
         stack := ⟨4, l.space, l.name, statesHtml l⟩ :: b.stack },
        ⟨4, l.space, l.name, statesHtml l⟩) := by
  unfold Builder.insertLabel
  rw [h.insertLeaf_eq hl]

theorem stands (h : InEmptyBody b) (l : Label) {e : OpenElement} (he : e.id = 4) :
    Stands 4 3 l { b with arena := inBodyCells l, stack := e :: b.stack } := by
  refine ⟨standing_inBodyCells l, ?_, fun i t hm => ?_, fun i hi => ?_⟩
  · dsimp only
    rw [h.stack_eq]
    exact sunk_cons he
  · rw [h.formatting_eq] at hm
    cases hm
  · rw [h.form_eq] at hi
    cases hi

/-- An element is opened in the empty body. -/
theorem placed_insertLabel (h : InEmptyBody b) {l : Label}
    (hl : ¬(decide (l.space = .html) && l.name == "template") = true)
    (hc : ∀ name, l.hasClass name = (htmlLabel tag).hasClass name) :
    Placed tag 4 3 (b.insertLabel l).1 := by
  rw [h.insertLabel_eq hl]
  exact ⟨l, h.stands l rfl, rfl, hc⟩

theorem insert (h : InEmptyBody b) (hn : tag.name ≠ "template") : Placed tag 4 3 (b.insert tag) :=
  h.placed_insertLabel (not_template hn) fun _ => rfl

theorem insertClosed (h : InEmptyBody b) (hn : tag.name ≠ "template") :
    Placed tag 4 3 (b.insertClosed tag) :=
  h.placed_insertLeaf (not_template hn) fun _ => rfl

theorem insertRaw (h : InEmptyBody b) (hn : tag.name ≠ "template") (lexing : Lexing) :
    Placed tag 4 3 (b.insertRaw tag lexing) := h.insert hn

theorem insertFormatting (h : InEmptyBody b) (hn : tag.name ≠ "template") :
    Placed tag 4 3 (b.insertFormatting tag) := by
  have hroom : b.makeRoom tag = b := by
    unfold Builder.makeRoom
    rw [h.formatting_eq]
    rfl
  unfold Builder.insertFormatting
  dsimp only
  rw [hroom, h.insertLabel_eq (not_template hn)]
  refine ⟨_, (h.stands _ rfl).withFormatting fun id t hm => ?_, rfl, fun _ => rfl⟩
  rw [h.formatting_eq] at hm
  cases List.mem_singleton.1 hm
  exact Nat.le_refl 4

theorem insertForm (h : InEmptyBody b) (hn : tag.name ≠ "template") :
    Placed tag 4 3 (b.insertForm tag) := by
  have htemplate : b.hasOpen "template" = false := by
    unfold hasOpen
    rw [h.stack_eq]
    rfl
  unfold Builder.insertForm
  dsimp only
  rw [h.form_eq, htemplate, h.closeParagraphInScope_eq, h.insertLabel_eq (not_template hn)]
  exact ⟨_, (h.stands _ rfl).withForm (Nat.le_refl 4), rfl, fun _ => rfl⟩

theorem insertItem (h : InEmptyBody b) (hn : tag.name ≠ "template") :
    Placed tag 4 3 (b.insertItem tag) := by
  have hopen : openItem? (if tag.name == "li" then ["li"] else ["dd", "dt"]) b.stack = none := by
    rw [h.stack_eq]
    split <;> rfl
  have hb : InEmptyBody { b with framesetOk := false } :=
    ⟨h.arena_eq, h.stack_eq, h.formatting_eq, h.form_eq, h.fostering_eq⟩
  unfold Builder.insertItem
  dsimp only
  rw [hopen]
  dsimp only
  rw [hb.closeParagraphInScope_eq]
  exact hb.insert hn

theorem insertVoid (h : InEmptyBody b) (hn : tag.name ≠ "template") :
    Placed tag 4 3 (b.insertVoid tag) := by
  unfold Builder.insertVoid
  dsimp only
  rw [h.reopenFormatting_eq]
  exact of_ite (h.insertClosed hn) (h.insertClosed hn)

theorem insertButton (h : InEmptyBody b) (hn : tag.name ≠ "template") :
    Placed tag 4 3 (b.insertButton tag) := by
  have hscope : b.inScope "button" = false := by
    unfold inScope
    rw [h.stack_eq]
    rfl
  unfold Builder.insertButton
  dsimp only
  rw [hscope, if_neg Bool.false_ne_true, h.reopenFormatting_eq]
  exact h.insert hn

theorem insertUnbroken (h : InEmptyBody b) (hn : tag.name ≠ "template") :
    Placed tag 4 3 (b.insertUnbroken tag) := by
  have hscope : b.inScope "nobr" = false := by
    unfold inScope
    rw [h.stack_eq]
    rfl
  unfold Builder.insertUnbroken
  dsimp only
  rw [h.reopenFormatting_eq, hscope, if_neg Bool.false_ne_true]
  exact h.insertFormatting hn

theorem blockStart? (h : InEmptyBody b) (hn : tag.name ≠ "template") :
    ∀ c ∈ b.blockStart? tag, Placed tag 4 3 c := by
  have hheading : b.atAnyOf Names.heading = false := by
    unfold atAnyOf
    rw [h.stack_eq]
    rfl
  have hraw : InEmptyBody { b with framesetOk := false } :=
    ⟨h.arena_eq, h.stack_eq, h.formatting_eq, h.form_eq, h.fostering_eq⟩
  unfold Builder.blockStart?
  dsimp only
  rw [h.closeParagraphInScope_eq, h.reopenFormatting_eq, hheading, if_neg Bool.false_ne_true,
    ite_self]
  refine of_ite_some (h.insert hn) (of_ite_some (h.insert hn) ?_)
  refine of_ite_some (h.insert hn) (of_ite_some (h.insertForm hn) ?_)
  refine of_ite_some (h.insertItem hn) (of_ite_some (h.insert hn) ?_)
  refine of_ite_some (h.insert hn) (of_ite_some (h.insertClosed hn) ?_)
  exact of_ite_some (hraw.insertRaw hn _) fun c hc => nomatch hc

theorem insertForeign (h : InEmptyBody b) {space : Space} (hs : space ≠ .html) (name : String) :
    Placed tag 4 3 (b.insertForeign space name tag) := by
  have hl : ∀ attributes, ¬(decide ((Label.mk space name attributes).space = .html) &&
      (Label.mk space name attributes).name == "template") = true := by
    intro attributes
    simp [hs]
  have hc := hasClass_foreign space name tag
  unfold Builder.insertForeign
  exact of_ite (h.placed_insertLeaf (hl _) hc) (h.placed_insertLabel (hl _) hc)

theorem inlineStart? (h : InEmptyBody b) (hn : tag.name ≠ "template") :
    ∀ c ∈ b.inlineStart? tag, Placed tag 4 3 c := by
  have hlink : b.closeOpenLink = b := by
    unfold closeOpenLink
    rw [h.formatting_eq]
    rfl
  have hoption : b.atHtml "option" = false := by
    unfold atHtml
    rw [h.stack_eq]
    rfl
  have hruby : b.inScope "ruby" = false := by
    unfold inScope
    rw [h.stack_eq]
    rfl
  have himage : Placed { tag with name := "img" } 4 3 (b.insertVoid { tag with name := "img" }) :=
    h.insertVoid (show "img" ≠ "template" by decide)
  have hraw : InEmptyBody { b with framesetOk := false } :=
    ⟨h.arena_eq, h.stack_eq, h.formatting_eq, h.form_eq, h.fostering_eq⟩
  have hskip : InEmptyBody { b with skipBreak := true, framesetOk := false } :=
    ⟨h.arena_eq, h.stack_eq, h.formatting_eq, h.form_eq, h.fostering_eq⟩
  unfold Builder.inlineStart?
  dsimp only
  rw [hlink, hoption, hruby, if_neg Bool.false_ne_true, if_neg Bool.false_ne_true,
    if_neg Bool.false_ne_true, h.reopenFormatting_eq]
  -- one step for each rule, in their order
  refine of_ite_some (h.insertFormatting hn) (of_ite_some (h.insertFormatting hn) ?_)
  refine of_ite_some (h.insertUnbroken hn) (of_ite_some (h.insertButton hn) ?_)
  refine of_ite_some (h.insert hn).pushBound (of_ite_some (h.insertVoid hn) ?_)
  refine of_ite_some himage (of_ite_some (h.insertClosed hn) ?_)
  refine of_ite_some (hskip.insertRaw hn _) (of_ite_some (hraw.insertRaw hn _) ?_)
  refine of_ite_some (h.insertRaw hn _) (of_ite_some (h.insert hn) ?_)
  refine of_ite_some (h.insert hn) (of_ite_some (h.insert hn) (of_ite_some (h.insert hn) ?_))
  refine of_ite_some (h.insertForeign (by decide) _) ?_
  exact of_ite_some (h.insertForeign (by decide) _) fun c hc => nomatch hc

end InEmptyBody

end Builder

end Shortcodes.Html
