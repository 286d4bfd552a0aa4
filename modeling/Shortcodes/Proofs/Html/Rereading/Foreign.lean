import Shortcodes.Proofs.Html.Rereading.Accepting

/-!
# Elements outside HTML

The element that a start tag opens depends on where it is met (`labelIn`): in markup that is not HTML
names are given the capitals that the vocabulary wants, and some attributes belong to vocabularies of
their own. An element outside HTML whose label is what its own tag gives is opened and closed by its
tags like any other (`Steady.reads_foreignOpening`, `Steady.reads_foreignClosing`).
-/

namespace Shortcodes.Html

namespace Builder

variable {b : Builder} {a : Arena} {cur e : OpenElement} {stack : List OpenElement}
  {tag : StartTag} {label : Label} {skip : Bool}

/-! ### The labels of start tags -/

/-- The label of a start tag outside HTML. -/
def foreignLabel (space : Space) (name : String) (tag : StartTag) : Label :=
  ⟨space, name, tag.attributes.map fun (n, v) => foreignAttribute space n v⟩

/-- Whether a start tag in an element meets the rules for markup that is not HTML. -/
def meetsForeign (cur : OpenElement) (tag : StartTag) : Bool :=
  isForeign { stack := [cur] } (.startTag tag)

/-- The label of the element that a start tag opens in an element. -/
def labelIn (cur : OpenElement) (tag : StartTag) : Label :=
  if meetsForeign cur tag then
    foreignLabel cur.space (if cur.space = .svg then svgElementName tag.name else tag.name) tag
  else if tag.name == "svg" then foreignLabel .svg tag.name tag
  else if tag.name == "math" then foreignLabel .mathml tag.name tag
  else htmlLabel tag

theorem space_of_meetsForeign (h : meetsForeign cur tag = true) : cur.space ≠ .html := by
  intro hspace
  have hnot : meetsForeign cur tag = false := if_pos hspace
  rw [hnot] at h
  cases h

theorem eq_htmlLabel_of_labelIn (h : labelIn cur tag = label) (hspace : label.space = .html) :
    meetsForeign cur tag = false ∧ htmlLabel tag = label := by
  unfold labelIn at h
  split at h
  · next hforeign =>
    rw [← h] at hspace
    exact absurd hspace (space_of_meetsForeign hforeign)
  · next hforeign =>
    refine ⟨Bool.eq_false_iff.2 hforeign, ?_⟩
    split at h
    · rw [← h] at hspace
      cases hspace
    · split at h
      · rw [← h] at hspace
        cases hspace
      · exact h

/-! ### Names -/

theorem lowerAscii_svgElementName {name : String}
    (h : Text.lowerAscii name.toList = name.toList) :
    Text.lowerAscii (svgElementName name).toList = name.toList := by
  unfold svgElementName
  dsimp only
  generalize hfound : List.find? _ _ = found
  cases found with
  | none => exact h
  | some known => simpa using List.find?_some hfound

theorem lowerAscii_nameOf (t : Text) :
    Text.lowerAscii (Token.nameOf t).toList = (Token.nameOf t).toList := by
  rw [Token.nameOf, String.toList_ofList, Text.lowerAscii_lowerAscii]

/-- In small letters the name of an element is that of its tags. -/
theorem lowerAscii_of_labelIn (h : labelIn cur label.sourceTag = label) :
    Text.lowerAscii label.name.toList = label.sourceTag.name.toList := by
  have hlower := lowerAscii_nameOf label.name.toList
  have hname : label.name = label.sourceTag.name ∨
      label.name = svgElementName label.sourceTag.name := by
    have hname := congrArg Label.name h
    unfold labelIn at hname
    split at hname
    · rw [foreignLabel] at hname
      dsimp only at hname
      split at hname
      · exact .inr hname.symm
      · exact .inl hname.symm
    · split at hname
      · exact .inl hname.symm
      · split at hname
        · exact .inl hname.symm
        · exact .inl hname.symm
  rcases hname with hname | hname
  · rw [hname]
    exact hlower
  · rw [hname]
    exact lowerAscii_svgElementName hlower

namespace Steady

/-! ### Start tags -/

theorem insertForeign_eq (b : Builder) (space : Space) (name : String)
    (htag : tag.selfClosing = false) :
    b.insertForeign space name tag = (b.insertLabel (foreignLabel space name tag)).1 := by
  rw [insertForeign, htag]
  rfl

theorem bodyStart_svg (b : Builder) (h : tag.name = "svg") (htag : tag.selfClosing = false) :
    b.bodyStart tag = ((b.insertLabel (foreignLabel .svg tag.name tag)).1).done := by
  obtain ⟨name, attributes, selfClosing⟩ := tag
  obtain rfl : name = "svg" := h
  rw [← insertForeign_eq b _ _ htag]
  rfl

theorem bodyStart_math (b : Builder) (h : tag.name = "math") (htag : tag.selfClosing = false) :
    b.bodyStart tag = ((b.insertLabel (foreignLabel .mathml tag.name tag)).1).done := by
  obtain ⟨name, attributes, selfClosing⟩ := tag
  obtain rfl : name = "math" := h
  rw [← insertForeign_eq b _ _ htag]
  rfl

/-- Outside HTML a start tag opens its element, if it does not leave the markup that is not HTML. -/
theorem rule_eq_insertLabel (h : Steady (cur :: stack) a skip b)
    (hspace : (labelIn cur tag).space ≠ .html) (htag : tag.selfClosing = false)
    (hleaves : meetsForeign cur tag = true → leavesForeign tag = false) :
    b.rule (.startTag tag) = ((b.insertLabel (labelIn cur tag)).1).done := by
  cases hforeign : meetsForeign cur tag with
  | true =>
    have hlabel : labelIn cur tag = foreignLabel cur.space
        (if cur.space = .svg then svgElementName tag.name else tag.name) tag := if_pos hforeign
    have hrule : b.isForeign (.startTag tag) = true := (h.isForeign_eq _).trans hforeign
    rw [rule, hrule, if_pos rfl, foreign]
    dsimp only
    rw [hleaves hforeign, if_neg Bool.false_ne_true, h.current_eq, hlabel,
      insertForeign_eq b _ _ htag]
  | false =>
    have hrule : b.rule (.startTag tag) = b.bodyStart tag :=
      h.rule_eq_inBody ((h.isForeign_eq _).trans hforeign)
    have hlabel : labelIn cur tag = if tag.name == "svg" then foreignLabel .svg tag.name tag
        else if tag.name == "math" then foreignLabel .mathml tag.name tag
        else htmlLabel tag := if_neg (by rw [hforeign]; exact Bool.false_ne_true)
    rw [hlabel] at hspace ⊢
    rw [hrule]
    -- outside of foreign content only the two roots are of another space
    split at hspace
    · next hsvg =>
      rw [if_pos hsvg]
      exact bodyStart_svg b (beq_iff_eq.1 hsvg) htag
    · next hsvg =>
      split at hspace
      · next hmath =>
        rw [if_neg hsvg, if_pos hmath]
        exact bodyStart_math b (beq_iff_eq.1 hmath) htag
      · exact absurd rfl hspace

open Document

theorem reads_foreignOpening (h : Steady (cur :: stack) a skip b)
    (hlegible : label.isLegible = true) (hlabel : labelIn cur label.sourceTag = label)
    (hspace : label.space ≠ .html)
    (hleaves : meetsForeign cur label.sourceTag = true → leavesForeign label.sourceTag = false) :
    ∃ c, Reads false b label.openingTag c ∧
      Steady (opening a.size label :: cur :: stack) (a.sprout cur.id (.element label none)) false
        c := by
  have hsteady := h.with_skipBreak false
  have hother : ∀ name, (opening a.size label).isHtml name = false := fun name => by
    rw [OpenElement.isHtml, opening, decide_eq_false hspace, Bool.false_and]
  have hembedding : (opening a.size label).isAnyOf Names.embedding = false := by
    rw [OpenElement.isAnyOf, opening, decide_eq_false hspace, Bool.false_and]
  refine h.reads_of_closes rfl (by simp [Label.openingTag]) (Label.nextData_openingTag hlegible) ?_
  rw [hsteady.rule_eq_insertLabel (by rwa [hlabel]) rfl hleaves, hlabel]
  exact ⟨hsteady.insertLabel (hother _) (hother _) hembedding, rfl⟩

/-! ### End tags -/

/-- An element outside HTML is remembered in no way but by being open. -/
theorem closed_foreign (h : Steady (e :: stack) a skip b) (hspace : e.space ≠ .html) :
    Steady stack a skip { b with stack } := by
  have hother : ∀ name, e.isHtml name = false := fun name => by
    rw [OpenElement.isHtml, decide_eq_false hspace, Bool.false_and]
  have hsettled : Settled b.formatting stack := by
    have hsettled := h.settled
    generalize b.formatting = entries at hsettled
    cases hsettled with
    | other hsettled _ => exact hsettled
    | entry _ he _ =>
      rw [hother] at he
      cases he
    | bound _ he =>
      rw [OpenElement.isAnyOf, decide_eq_false hspace] at he
      cases he
  refine h.popped hsettled ?_
  rw [h.form_eq, List.find?_cons_of_neg (by simp [hother])]

/-- An element outside HTML is closed by an end tag of its name in small letters. -/
theorem closes_foreign (h : Steady (e :: cur :: stack) a skip b) (hspace : e.space ≠ .html)
    {name : String} (hname : Text.lowerAscii e.name.toList = name.toList)
    (hne : name ≠ "br" ∧ name ≠ "p") :
    Closes (cur :: stack) a skip (b.rule (.endTag name)) := by
  have hforeign : b.isForeign (.endTag name) = true := by
    rw [h.isForeign_eq]
    exact if_neg hspace
  have hclose : b.closeForeign name true (e :: cur :: stack) =
      Builder.done { b with stack := cur :: stack } := by
    rw [closeForeign]
    · rw [Bool.not_true, Bool.false_and, if_neg Bool.false_ne_true, hname, beq_self_eq_true,
        if_pos rfl]
    · exact List.cons_ne_nil cur stack
  have hrule : b.rule (.endTag name) = Builder.done { b with stack := cur :: stack } := by
    rw [rule, hforeign, if_pos rfl, foreign, beq_false_of_ne hne.1,
      beq_false_of_ne hne.2, Bool.or_false, if_neg Bool.false_ne_true, h.stack_eq, hclose]
  rw [hrule]
  exact ⟨h.closed_foreign hspace, rfl⟩

theorem ne_of_labelIn (hlabel : labelIn cur label.sourceTag = label) (hspace : label.space ≠ .html)
    (hleaves : meetsForeign cur label.sourceTag = true → leavesForeign label.sourceTag = false) :
    label.sourceTag.name ≠ "br" ∧ label.sourceTag.name ≠ "p" := by
  cases hforeign : meetsForeign cur label.sourceTag with
  | true =>
    have hnone := (Bool.or_eq_false_iff.1 (hleaves hforeign)).1
    constructor <;> intro he <;> rw [he] at hnone <;> exact absurd hnone (by decide)
  | false =>
    have hspace' : (labelIn cur label.sourceTag).space ≠ .html := by rwa [hlabel]
    unfold labelIn at hspace'
    rw [hforeign, if_neg Bool.false_ne_true] at hspace'
    constructor <;> intro he <;> rw [he] at hspace' <;> exact hspace' rfl

theorem reads_foreignClosing (h : Steady (e :: cur :: stack) a skip b)
    (he : e.space = label.space ∧ e.name = label.name) (hlegible : label.isLegible = true)
    (hlabel : labelIn cur label.sourceTag = label) (hspace : label.space ≠ .html)
    (hleaves : meetsForeign cur label.sourceTag = true → leavesForeign label.sourceTag = false) :
    ∃ c, Reads false b label.closingTag c ∧ Steady (cur :: stack) a false c := by
  refine h.reads_of_closes rfl (by simp [Label.closingTag]) (Label.nextData_closingTag hlegible) ?_
  refine (h.with_skipBreak false).closes_foreign (by rwa [he.1]) ?_
    (ne_of_labelIn hlabel hspace hleaves)
  rw [he.2]
  exact lowerAscii_of_labelIn hlabel

end Steady

end Builder

end Shortcodes.Html
