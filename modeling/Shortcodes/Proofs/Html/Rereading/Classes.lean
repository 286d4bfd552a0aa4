import Shortcodes.Proofs.Html.Marking
import Shortcodes.Proofs.Html.Rereading.Fitting

/-!
# Roots with a class more

A class put at the end of the class list is its last word (`Label.classes_addClass`), and nothing
else in the label changes (`Label.filter_addClass`). The label with the class is read as it is
written if the label without it is, so that the element still fits where it fitted
(`Builder.fits_addClass`).
-/

namespace Shortcodes

namespace Text

/-! ### Words -/

/-- A blank separates the words before it from those behind it. -/
theorem words_append_blank {b : Char} (hb : isBlank b = true) (s t : Text) :
    words (s ++ b :: t) = words s ++ words t := by
  fun_induction words s with
  | case1 => exact words_blank hb t
  | case2 c s hc ih => rw [List.cons_append, words_blank hc, ih]
  | case3 c hc => exact words_cons_blank (by simpa using hc) hb t
  | case4 c hc d s hd ih =>
    rw [List.cons_append, List.cons_append, words_cons_blank (by simpa using hc) hd]
    rw [← words_blank hd, ← List.cons_append, ih]
    rfl
  | case5 c hc d s hd hw ih => exact absurd hw (words_ne_nil (by simpa using hd) s)
  | case6 c hc d s hd first others hw ih =>
    rw [hw] at ih ⊢
    exact words_cons_cons (by simpa using hc) (by simpa using hd) ih

theorem words_blanks {blanks : Text} (h : ∀ c ∈ blanks, isBlank c = true) : words blanks = [] := by
  induction blanks with
  | nil => rfl
  | cons c blanks ih =>
    rw [List.forall_mem_cons] at h
    rw [words_blank h.1, ih h.2]

theorem words_append_blanks {blanks : Text} (h : ∀ c ∈ blanks, isBlank c = true) (t : Text) :
    words (t ++ blanks) = words t := by
  cases blanks with
  | nil => rw [List.append_nil]
  | cons c blanks =>
    rw [List.forall_mem_cons] at h
    rw [words_append_blank h.1, words_blanks h.2, List.append_nil]

theorem words_blanks_append {blanks : Text} (h : ∀ c ∈ blanks, isBlank c = true) (t : Text) :
    words (blanks ++ t) = words t := by
  induction blanks with
  | nil => rfl
  | cons c blanks ih =>
    rw [List.forall_mem_cons] at h
    rw [List.cons_append, words_blank h.1, ih h.2]

/-- Trimming keeps the words. -/
theorem words_trim (t : Text) : words (trim t) = words t := by
  obtain ⟨blanks, hblanks, ht⟩ := exists_append_trim t
  calc words (trim t)
    _ = words (trim t ++ blanks) := (words_append_blanks hblanks _).symm
    _ = words (t.takeWhile isBlank ++ (trim t ++ blanks)) :=
        (words_blanks_append (fun _ hc => List.mem_takeWhile_imp hc) _).symm
    _ = words t := by rw [← ht]

theorem words_of_isMarker {marker : Text} (h : IsMarker marker) : words marker = [marker] := by
  have hwords := words_append_cons h.ne_nil h.notBlank (b := ' ') rfl []
  rw [words_append_blank rfl] at hwords
  exact (List.append_nil _).symm.trans hwords

theorem mem_of_mem_trim {c : Char} {t : Text} (h : c ∈ trim t) : c ∈ t := by
  obtain ⟨blanks, -, ht⟩ := exists_append_trim t
  rw [ht]
  exact List.mem_append_right _ (List.mem_append_left _ h)

end Text

namespace Html

variable {marker : Text} {attributes : List Attribute}

namespace Label

/-! ### Attributes with a class -/

theorem words_appendClass (h : IsMarker marker) (value : Text) :
    Text.words (appendClass value marker) = Text.words value ++ [marker] := by
  rw [appendClass, Text.words_trim, Text.words_append_blank rfl, Text.words_trim,
    Text.words_of_isMarker h]

theorem faithful_appendClass {value : Text} (hmarker : Faithful marker) (hvalue : Faithful value) :
    Faithful (appendClass value marker) := by
  have hmem : ∀ c ∈ appendClass value marker, c ∈ value ∨ c = ' ' ∨ c ∈ marker := by
    intro c hc
    have hc := Text.mem_of_mem_trim hc
    rw [List.mem_append, List.mem_cons] at hc
    exact hc.imp_left Text.mem_of_mem_trim
  constructor
  · intro hc
    rcases hmem _ hc with hc | hc | hc
    · exact hvalue.1 hc
    · exact absurd hc (by decide)
    · exact hmarker.1 hc
  · intro hc
    rcases hmem _ hc with hc | hc | hc
    · exact hvalue.2 hc
    · exact absurd hc (by decide)
    · exact hmarker.2 hc

/-- Each attribute was there before, with another value if it is the class. -/
theorem mem_attributesWithClass {a : Attribute} (h : a ∈ attributesWithClass marker attributes) :
    a ∈ attributes ∨ (∃ b ∈ attributes, a = { b with value := appendClass b.value marker }) ∨
      a = { name := "class", value := marker } := by
  induction attributes with
  | nil => exact .inr (.inr (List.mem_singleton.1 h))
  | cons b attributes ih =>
    rw [attributesWithClass] at h
    split at h
    · rcases List.mem_cons.1 h with rfl | h
      · exact .inr (.inl ⟨b, List.mem_cons_self, rfl⟩)
      · exact .inl (List.mem_cons_of_mem b h)
    · rcases List.mem_cons.1 h with rfl | h
      · exact .inl List.mem_cons_self
      · rcases ih h with h | ⟨c, hc, rfl⟩ | h
        · exact .inl (List.mem_cons_of_mem b h)
        · exact .inr (.inl ⟨c, List.mem_cons_of_mem b hc, rfl⟩)
        · exact .inr (.inr h)

/-- What does not depend on values is listed as before, with a class at the end if there was
none. -/
theorem map_attributesWithClass {α : Type} {f : Attribute → α}
    (hf : ∀ a value, f { a with value } = f a) (attributes : List Attribute) :
    (attributesWithClass marker attributes).map f =
      attributes.map f ++ if attributes.any (·.name = "class") then []
        else [f { name := "class", value := [] }] := by
  induction attributes with
  | nil => exact congrArg (fun x => [x]) (hf { name := "class", value := [] } marker)
  | cons a attributes ih =>
    rw [attributesWithClass, List.any_cons]
    by_cases ha : a.name = "class"
    · rw [if_pos ha, List.map_cons, List.map_cons, hf, decide_eq_true ha, Bool.true_or, if_pos rfl,
        List.append_nil]
    · rw [if_neg ha, List.map_cons, List.map_cons, ih, decide_eq_false ha, Bool.false_or]
      rfl

/-- A question that the class attribute does not answer has the same answer. -/
theorem any_attributesWithClass {p : Attribute → Bool} (hp : ∀ a, a.name = "class" → p a = false)
    (attributes : List Attribute) :
    (attributesWithClass marker attributes).any p = attributes.any p := by
  induction attributes with
  | nil =>
    rw [attributesWithClass, List.any_cons, hp _ rfl]
    rfl
  | cons a attributes ih =>
    rw [attributesWithClass]
    split
    · next ha =>
      rw [List.any_cons, List.any_cons, hp a ha, hp { a with value := appendClass a.value marker } ha]
    · rw [List.any_cons, List.any_cons, ih]

theorem filter_attributesWithClass (attributes : List Attribute) :
    (attributesWithClass marker attributes).filter (·.name ≠ "class") =
      attributes.filter (·.name ≠ "class") := by
  induction attributes with
  | nil => rfl
  | cons a attributes ih =>
    rw [attributesWithClass]
    split
    · next ha => rw [List.filter_cons_of_neg (by simpa using ha),
        List.filter_cons_of_neg (by simpa using ha)]
    · next ha => rw [List.filter_cons_of_pos (by simpa using ha),
        List.filter_cons_of_pos (by simpa using ha), ih]

/-! ### Labels with a class -/

/-- All other attributes stay as they were. -/
theorem filter_addClass (l : Label) (marker : Text) :
    (l.addClass marker).attributes.filter (·.name ≠ "class") =
      l.attributes.filter (·.name ≠ "class") := by
  rw [addClass]
  split
  · rfl
  · exact filter_attributesWithClass l.attributes

/-- The first attribute of a name that is that of the class, up to case. -/
theorem attribute?_class (space : Space) (name : String) (attributes : List Attribute) :
    (Label.mk space name attributes).attribute? "class".toList =
      (attributes.find? fun a => Builder.namesClass a.name).map (·.value) := rfl

/-- The class is the last of the classes, and those that were there keep their order. -/
theorem classes_attributesWithClass (h : IsMarker marker) (space : Space) (name : String)
    (hclass : ∀ a ∈ attributes, Builder.namesClass a.name = true → a.name = "class") :
    (Label.mk space name (attributesWithClass marker attributes)).classes =
      (Label.mk space name attributes).classes ++ [marker] := by
  have hnames : Builder.namesClass "class" = true := by decide
  rw [classes, classes, attribute?_class, attribute?_class]
  induction attributes with
  | nil =>
    rw [attributesWithClass, List.find?_cons_of_pos (by exact hnames)]
    exact Text.words_of_isMarker h
  | cons a attributes ih =>
    rw [List.forall_mem_cons] at hclass
    rw [attributesWithClass]
    by_cases ha : a.name = "class"
    · have hfound : Builder.namesClass a.name = true := by rw [ha]; exact hnames
      rw [if_pos ha, List.find?_cons_of_pos (by exact hfound),
        List.find?_cons_of_pos (by exact hfound)]
      exact words_appendClass h a.value
    · have hnot : ¬Builder.namesClass a.name = true := fun hn => ha (hclass.1 hn)
      rw [if_neg ha, List.find?_cons_of_neg (by exact hnot),
        List.find?_cons_of_neg (by exact hnot)]
      exact ih hclass.2

/-- The classes with one more are those that were there, and the new one behind them. -/
theorem classes_addClass (h : IsMarker marker) {l : Label}
    (hclass : ∀ a ∈ l.attributes, Builder.namesClass a.name = true → a.name = "class") :
    (l.addClass marker).classes = l.classes ++ if l.hasClass marker then [] else [marker] := by
  rw [addClass]
  split
  · exact (List.append_nil _).symm
  · exact classes_attributesWithClass h l.space l.name hclass

end Label

namespace Builder

variable {cur : OpenElement} {around : List OpenElement} {label : Label} {tag tag' : StartTag}

/-! ### Labels that fit -/

/-- The attribute of an element that a start tag gives it. -/
def attributeIn (space : Space) (name : String) (value : Text) : Attribute :=
  if space = .html then { name, value } else foreignAttribute space name value

/-- The vocabulary of the element that a start tag opens in an element, and the element's name. -/
def kindIn (cur : OpenElement) (tag : StartTag) : Space × String :=
  if meetsForeign cur tag then
    (cur.space, if cur.space = .svg then svgElementName tag.name else tag.name)
  else if tag.name == "svg" then (.svg, tag.name)
  else if tag.name == "math" then (.mathml, tag.name)
  else (.html, tag.name)

theorem labelIn_eq (cur : OpenElement) (tag : StartTag) :
    labelIn cur tag = ⟨(kindIn cur tag).1, (kindIn cur tag).2,
      tag.attributes.map fun x => attributeIn (kindIn cur tag).1 x.1 x.2⟩ := by
  have hforeign : ∀ (space : Space) (name : String), space ≠ .html →
      foreignLabel space name tag =
        ⟨space, name, tag.attributes.map fun x => attributeIn space x.1 x.2⟩ := by
    intro space name hspace
    have hattribute : ∀ x : String × Text,
        attributeIn space x.1 x.2 = foreignAttribute space x.1 x.2 := fun _ => if_neg hspace
    rw [funext hattribute]
    rfl
  unfold labelIn kindIn
  split
  · next hmeets => exact hforeign _ _ (space_of_meetsForeign hmeets)
  · split
    · exact hforeign _ _ (by decide)
    · split
      · exact hforeign _ _ (by decide)
      · rfl

/-- The name of a start tag alone decides what element it opens. -/
theorem kindIn_congr (h : tag.name = tag'.name) : kindIn cur tag = kindIn cur tag' := by
  obtain ⟨name, attributes, selfClosing⟩ := tag
  obtain ⟨name', attributes', selfClosing'⟩ := tag'
  obtain rfl : name = name' := h
  rfl

theorem attributeIn_class (space : Space) (value : Text) :
    attributeIn space "class" value = { name := "class", value } := by
  cases space with
  | html => rfl
  | svg => rfl
  | mathml => rfl

theorem attributeIn_value (space : Space) (name : String) (value value' : Text) :
    { attributeIn space name value with value := value' } = attributeIn space name value' := by
  unfold attributeIn
  split
  · rfl
  · unfold foreignAttribute
    dsimp only
    split_ifs <;> rfl

theorem namesClass_attributeIn (space : Space) (name : String) (value : Text) :
    namesClass (attributeIn space name value).name = namesClass name := by
  unfold attributeIn
  split
  · rfl
  · exact namesClass_foreignAttribute space name value

theorem nameOf_class : Token.nameOf "class".toList = "class" := by decide

theorem eq_class_of_namesClass {t : Text} (h : namesClass (Token.nameOf t) = true) :
    Token.nameOf t = "class" := by
  rw [namesClass, Text.sameUpToCase, beq_iff_eq, lowerAscii_nameOf] at h
  exact String.toList_inj.1 h

/-- The attributes of an element are those that its own tag gives it. -/
theorem labelIn_sourceTag_iff : labelIn cur label.sourceTag = label ↔
    kindIn cur label.sourceTag = (label.space, label.name) ∧
      ∀ a ∈ label.attributes, attributeIn label.space (Token.nameOf a.writtenName) a.value = a := by
  have hattributes : ∀ space : Space,
      (label.sourceTag.attributes.map fun x => attributeIn space x.1 x.2) = label.attributes ↔
        ∀ a ∈ label.attributes, attributeIn space (Token.nameOf a.writtenName) a.value = a := by
    intro space
    rw [Label.sourceTag, List.map_map]
    nth_rewrite 2 [← List.map_id label.attributes]
    exact List.map_inj_left
  rw [labelIn_eq]
  constructor
  · intro h
    have hspace : (kindIn cur label.sourceTag).1 = label.space := congrArg Label.space h
    have hlist := congrArg Label.attributes h
    rw [← hspace]
    exact ⟨Prod.ext rfl (congrArg Label.name h), (hattributes _).1 hlist⟩
  · rintro ⟨hkind, hlist⟩
    rw [hkind, (hattributes _).2 hlist]

/-- What has the name of the class attribute, up to case, is that attribute. -/
theorem name_eq_class {a : Attribute} {space : Space}
    (h : attributeIn space (Token.nameOf a.writtenName) a.value = a)
    (hname : namesClass a.name = true) : a = { name := "class", value := a.value } := by
  rw [← h, namesClass_attributeIn] at hname
  rw [eq_class_of_namesClass hname, attributeIn_class] at h
  exact h.symm

variable {marker : Text}

/-- The label with a class is that which its own tag gives, if the label without it is. -/
theorem labelIn_addClass (h : labelIn cur label.sourceTag = label) (marker : Text) :
    labelIn cur (label.addClass marker).sourceTag = label.addClass marker := by
  rw [labelIn_sourceTag_iff] at h ⊢
  obtain ⟨hkind, hattributes⟩ := h
  have htag : (label.addClass marker).sourceTag.name = label.sourceTag.name := by
    rw [Label.sourceTag, Label.name_addClass]
    rfl
  rw [Label.space_addClass, Label.name_addClass, kindIn_congr htag]
  refine ⟨hkind, fun a ha => ?_⟩
  rw [Label.addClass] at ha
  split at ha
  · exact hattributes a ha
  · rcases Label.mem_attributesWithClass ha with ha | ⟨b, hb, rfl⟩ | rfl
    · exact hattributes a ha
    · have hvalue := attributeIn_value label.space (Token.nameOf b.writtenName) b.value
        (Label.appendClass b.value marker)
      rw [hattributes b hb] at hvalue
      exact hvalue.symm
    · have hname : Token.nameOf (Attribute.writtenName { name := "class", value := marker }) =
          "class" := nameOf_class
      rw [hname]
      exact attributeIn_class label.space marker

theorem isLegible_addClass (h : labelIn cur label.sourceTag = label)
    (hlegible : label.isLegible = true) (hmarker : Faithful marker) :
    (label.addClass marker).isLegible = true := by
  have hattributes := (labelIn_sourceTag_iff.1 h).2
  rw [Label.addClass]
  split
  · exact hlegible
  simp only [Label.isLegible, Bool.and_eq_true, List.all_eq_true, decide_eq_true_eq] at hlegible ⊢
  obtain ⟨⟨hname, hlist⟩, hnodup⟩ := hlegible
  refine ⟨⟨hname, fun a ha => ?_⟩, ?_⟩
  · rcases Label.mem_attributesWithClass ha with ha | ⟨b, hb, rfl⟩ | rfl
    · exact hlist a ha
    · have hb := hlist b hb
      rw [Attribute.isLegible, Bool.and_eq_true, decide_eq_true_eq] at hb ⊢
      exact ⟨hb.1, Label.faithful_appendClass hmarker hb.2⟩
    · rw [Attribute.isLegible, Bool.and_eq_true, decide_eq_true_eq]
      have hname : Token.isLegibleName "class".toList = true := by decide
      exact ⟨hname, hmarker⟩
  · rw [Label.sourceTag, List.map_map] at hnodup ⊢
    rw [Label.map_attributesWithClass fun _ _ => rfl]
    split
    · rwa [List.append_nil]
    · next hnone =>
      -- no other attribute is written as the class
      refine List.nodup_append.2 ⟨hnodup, List.nodup_singleton _, fun x hx y hy hxy => ?_⟩
      obtain ⟨a, ha, rfl⟩ := List.mem_map.1 hx
      have hclass : Token.nameOf a.writtenName = "class" := by
        rw [List.mem_singleton.1 hy] at hxy
        exact hxy.trans nameOf_class
      have hown := hattributes a ha
      rw [hclass, attributeIn_class] at hown
      exact hnone (List.any_eq_true.2 ⟨a, ha, by rw [← hown]; rfl⟩)


theorem statesHtml_addClass (label : Label) (marker : Text) :
    statesHtml (label.addClass marker) = statesHtml label := by
  rw [statesHtml, statesHtml, Label.space_addClass, Label.name_addClass]
  refine congrArg (and _) ?_
  rw [Label.addClass]
  split
  · rfl
  · refine Label.any_attributesWithClass (fun a ha => ?_) label.attributes
    rw [ha]
    rfl

theorem opening_addClass (id : Nat) (label : Label) (marker : Text) :
    opening id (label.addClass marker) = opening id label := by
  rw [opening, opening, statesHtml_addClass, Label.space_addClass, Label.name_addClass]

/-- An element that fits into HTML still fits there with a class more. -/
theorem fits_addClass {children : List Node} (hcur : cur.space = .html) (hmarker : Faithful marker)
    (h : fits cur around (.element label children) = true) :
    fits cur around (.element (label.addClass marker) children) = true := by
  have hmeets : ∀ tag, meetsForeign cur tag = false := fun _ => if_pos hcur
  simp only [fits, Bool.and_eq_true, decide_eq_true_eq] at h
  obtain ⟨⟨hlegible, hlabel⟩, h⟩ := h
  simp only [fits, Bool.and_eq_true, decide_eq_true_eq, Label.space_addClass, Label.name_addClass,
    opening_addClass, hmeets] at h ⊢
  exact ⟨⟨isLegible_addClass hlabel hlegible hmarker, labelIn_addClass hlabel marker⟩, h⟩

/-- The classes of an element that fits are those it had, and the new one behind them. -/
theorem classes_addClass (hmarker : IsMarker marker) (h : labelIn cur label.sourceTag = label) :
    (label.addClass marker).classes =
      label.classes ++ if label.hasClass marker then [] else [marker] := by
  refine Label.classes_addClass hmarker fun a ha hname => ?_
  rw [name_eq_class ((labelIn_sourceTag_iff.1 h).2 a ha) hname]

end Builder

end Html

end Shortcodes
