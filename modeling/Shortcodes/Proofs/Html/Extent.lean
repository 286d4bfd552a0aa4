import Shortcodes.Proofs.Html.Crossing
import Shortcodes.Proofs.Html.Marking
import Shortcodes.Proofs.Html.Reference

/-!
# The extent of written elements

A written element begins with its opening tag and ends with its closing tag, or with the opening tag
if the element is void. The reader of loose tags finds this extent by other means: it counts tags of
the same name and has a list of void elements of its own. It goes through the written forms of nodes
below the element unless raw text or the name of a tag misleads it (`Node.crosses_written`), so both
agree on the element exactly if they agree on whether it is void (`Element.extent?_eq_iff`).
-/

namespace Shortcodes.Html

open LooseTag

/-! ### Tags of labels -/

namespace Label

variable {l : Label}

/-- Whether the name of an attribute has no characters but those that it may have in a loose
tag. -/
def isLooseAttribute (a : Attribute) : Bool :=
  a.writtenName != [] && a.writtenName.all isAttributeChar

/-- Whether the tags of an element are loose tags: its name and those of its attributes have no
characters but those that names in loose tags may have. -/
def isLoose (l : Label) : Bool := isName l.name.toList && l.attributes.all isLooseAttribute

/-- An attribute as it stands in a written tag. -/
def sourceOf (a : Attribute) : Text × Text := (a.writtenName, a.value.flatMap escapedInAttribute)

theorem openingTag_eq (l : Label) :
    l.openingTag = '<' :: tagSource l.name.toList (l.attributes.map sourceOf) := by
  have hwritten : ∀ a : Attribute, a.written = attributeSource (sourceOf a) := by
    intro a
    simp [Attribute.written, attributeSource, sourceOf]
  rw [openingTag, tagSource, List.flatMap_map, List.flatMap_congr fun a _ => hwritten a]
  rfl

theorem isAttribute_sourceOf (h : l.isLoose = true) :
    ∀ a ∈ l.attributes.map sourceOf, IsAttribute a := by
  intro a ha
  obtain ⟨b, hb, rfl⟩ := List.mem_map.1 ha
  rw [isLoose, Bool.and_eq_true] at h
  have hname := List.all_eq_true.1 h.2 b hb
  rw [isLooseAttribute, Bool.and_eq_true, bne_iff_ne] at hname
  exact ⟨hname.1, List.all_eq_true.1 hname.2,
    codesAll_escapedInAttribute.not_mem (by decide) (by decide) b.value⟩

theorem isName_of_isLoose (h : l.isLoose = true) : isName l.name.toList = true := by
  rw [isLoose, Bool.and_eq_true] at h
  exact h.1

theorem at?_openingTag (h : l.isLoose = true) (rest : Text) :
    at? (l.openingTag ++ rest) = some ⟨.opening l.name.toList false, l.openingTag, rest⟩ := by
  rw [openingTag_eq]
  exact at?_tagSource (isName_of_isLoose h) (isAttribute_sourceOf h) rest

theorem at?_closingTag (h : l.isLoose = true) (rest : Text) :
    at? (l.closingTag ++ rest) = some ⟨.closing l.name.toList, l.closingTag, rest⟩ := by
  rw [closingTag]
  exact LooseTag.at?_closingTag (isName_of_isLoose h) rest

/-- Marking an element leaves its tags loose or not. -/
theorem isLoose_addClass (l : Label) (marker : Text) : (l.addClass marker).isLoose = l.isLoose := by
  have hattributes : ∀ attributes : List Attribute,
      (attributesWithClass marker attributes).all isLooseAttribute =
        attributes.all isLooseAttribute := by
    intro attributes
    induction attributes with
    | nil =>
      -- the value of the new attribute does not matter
      have hvalue : isLooseAttribute { name := "class", value := marker } =
          isLooseAttribute { name := "class", value := [] } := rfl
      rw [attributesWithClass, List.all_cons, List.all_nil, hvalue]
      decide
    | cons a attributes ih =>
      rw [attributesWithClass]
      split
      · rfl
      · rw [List.all_cons, List.all_cons, ih]
  rw [addClass]
  split
  · rfl
  · rw [isLoose, isLoose, hattributes]

end Label

/-! ### Nodes that the search goes through -/

namespace Node

mutual

/-- What the search for the closing tag of an element `name` goes through, below an element whose
text is `raw` or not: elements whose tags are loose, void ones only of other names, raw text that
leaves the depth as it is, and comments without the end of a comment in them. -/
def Passable (name : Text) (raw : Bool) : Node → Prop
  | element label children =>
    label.isLoose = true ∧
      if label.isVoid then Text.sameUpToCase label.name.toList name = false
      else PassableAll name label.isRaw children
  | text content => raw = true → Crosses name content
  | comment content => Text.has ['-', '-', '>'] content = false

@[inherit_doc Passable]
def PassableAll (name : Text) (raw : Bool) : List Node → Prop
  | [] => True
  | n :: rest => Passable name raw n ∧ PassableAll name raw rest

end

mutual

/-- Whether a node is passable for the reason that nothing in its raw text begins a loose tag. -/
def isPassable (name : Text) (raw : Bool) : Node → Bool
  | element label children =>
    label.isLoose &&
      if label.isVoid then !Text.sameUpToCase label.name.toList name
      else isPassableAll name label.isRaw children
  | text content => !raw || opensNone content
  | comment content => !Text.has ['-', '-', '>'] content

@[inherit_doc isPassable]
def isPassableAll (name : Text) (raw : Bool) : List Node → Bool
  | [] => true
  | n :: rest => isPassable name raw n && isPassableAll name raw rest

end

mutual

theorem passable_of_isPassable {name : Text} {raw : Bool} :
    (n : Node) → isPassable name raw n = true → Passable name raw n
  | element label children, h => by
    rw [isPassable, Bool.and_eq_true] at h
    rw [Passable]
    refine ⟨h.1, ?_⟩
    split
    · next hvoid => simpa [hvoid] using h.2
    · next hvoid =>
      rw [if_neg hvoid] at h
      exact passableAll_of_isPassableAll children h.2
  | text content, h => by
    rw [Passable]
    rintro rfl
    exact .of_opensNone (by simpa [isPassable] using h)
  | comment content, h => by
    rw [Passable]
    simpa [isPassable] using h

theorem passableAll_of_isPassableAll {name : Text} {raw : Bool} :
    (nodes : List Node) → isPassableAll name raw nodes = true → PassableAll name raw nodes
  | [], _ => trivial
  | n :: rest, h => by
    rw [isPassableAll, Bool.and_eq_true] at h
    exact ⟨passable_of_isPassable n h.1, passableAll_of_isPassableAll rest h.2⟩

end

theorem crosses_comment {name content : Text} (h : Text.has ['-', '-', '>'] content = false)
    (raw : Bool) : Crosses name (written raw (comment content)) := fun _ hpos =>
  Leads.of_at? (fun rest => at?_comment (Text.has_eq_false_iff.1 h) rest) rfl hpos

/-- The opening tag of an element of another name. -/
theorem crosses_openingTag {name : Text} {label : Label} (h : label.isLoose = true)
    (hname : Text.sameUpToCase label.name.toList name = false) :
    Crosses name label.openingTag := fun _ hpos =>
  Leads.of_at? (Label.at?_openingTag h) (by simp [depthAfter, hname]) hpos

/-- The tags of an element that is not void, around what the search goes through. -/
theorem crosses_element {name : Text} {label : Label} {content : Text} (h : label.isLoose = true)
    (hcontent : Crosses name content) :
    Crosses name (label.openingTag ++ content ++ label.closingTag) := by
  -- tags of the same name lead one deeper and back, others stay at the depth
  cases hname : Text.sameUpToCase label.name.toList name with
  | true =>
    intro depth hpos
    have hopening : Leads name depth label.openingTag (depth + 1) :=
      Leads.of_at? (Label.at?_openingTag h) (by simp [depthAfter, hname]) (Nat.succ_pos depth)
    have hclosing : Leads name (depth + 1) label.closingTag depth :=
      Leads.of_at? (Label.at?_closingTag h) (by simp [depthAfter, hname]) hpos
    exact (hopening.append (hcontent _ (Nat.succ_pos depth))).append hclosing
  | false =>
    have hclosing : Crosses name label.closingTag := fun _ hpos =>
      Leads.of_at? (Label.at?_closingTag h) (by simp [depthAfter, hname]) hpos
    exact ((crosses_openingTag h hname).append hcontent).append hclosing

mutual

/-- The search for the closing tag of an element goes through the nodes below it. -/
theorem crosses_written {name : Text} {raw : Bool} :
    (n : Node) → Passable name raw n → Crosses name (written raw n)
  | element label children, h => by
    rw [Passable] at h
    rw [written]
    split
    · next hvoid =>
      rw [if_pos hvoid] at h
      exact crosses_openingTag h.1 h.2
    · next hvoid =>
      rw [if_neg hvoid] at h
      exact crosses_element h.1 (crosses_writtenAll children h.2)
  | text content, h => by
    rw [Passable] at h
    rw [written]
    split
    · next hraw => exact h hraw
    · exact .of_not_mem (codesAll_escapedInText.not_mem (by decide) (by decide) content)
  | comment content, h => by
    rw [Passable] at h
    exact crosses_comment h raw

@[inherit_doc crosses_written]
theorem crosses_writtenAll {name : Text} {raw : Bool} :
    (nodes : List Node) → PassableAll name raw nodes → Crosses name (writtenAll raw nodes)
  | [], _ => by
    rw [writtenAll]
    exact crosses_nil name
  | n :: rest, h => by
    rw [PassableAll] at h
    rw [writtenAll]
    exact (crosses_written n h.1).append (crosses_writtenAll rest h.2)

end

end Node

/-! ### Written elements -/

namespace Element

variable {e : Element}

/-- What is written behind the opening tag. -/
def writtenRest (e : Element) : Text :=
  if e.label.isVoid then [] else Node.writtenAll e.label.isRaw e.children ++ e.label.closingTag

theorem written_eq (e : Element) : e.written = e.label.openingTag ++ e.writtenRest := by
  rw [written, node, Node.written, writtenRest]
  split
  · rw [List.append_nil]
  · rw [List.append_assoc]

/-- Whether the search for the closing tag of an element goes through its content. -/
def Passable (e : Element) : Prop :=
  e.label.isVoid = false → Node.PassableAll e.label.name.toList e.label.isRaw e.children

theorem passable_addClass {f : Fragment} (h : f.root.Passable) (marker : Text) :
    (f.addClass marker).root.Passable := by
  intro hvoid
  simp only [Fragment.addClass, Label.isVoid_addClass, Label.name_addClass,
    Label.isRaw_addClass] at hvoid ⊢
  exact h hvoid

/-- The opening tag as the reader of loose tags sees it, if the element stands in front of a
text. -/
def sighting (e : Element) (tail : Text) : Sighting :=
  ⟨.opening e.label.name.toList false, e.label.openingTag, e.writtenRest ++ tail⟩

theorem at?_written (h : e.label.isLoose = true) (tail : Text) :
    LooseTag.at? (e.written ++ tail) = some (e.sighting tail) := by
  rw [written_eq, List.append_assoc, Label.at?_openingTag h, sighting]

/-- The search for the closing tag ends with the element. -/
theorem close?_writtenRest (h : e.label.isLoose = true) (hvoid : e.label.isVoid = false)
    (hpass : e.Passable) (tail : Text) :
    close? e.label.name.toList (e.writtenRest ++ tail) = some (e.writtenRest, tail) := by
  have hcontent := Node.crosses_writtenAll _ (hpass hvoid) 1 Nat.one_pos
    (e.label.closingTag ++ tail)
  have hsame : Text.sameUpToCase e.label.name.toList e.label.name.toList = true :=
    beq_self_eq_true _
  have hclosing : closeAt? e.label.name.toList 1 (e.label.closingTag ++ tail) =
      some (e.label.closingTag, tail) := by
    rw [closeAt?_of_at?_eq_some (Label.at?_closingTag h tail)]
    simp [depthAfter, hsame]
  rw [close?_eq_closeAt?, writtenRest, hvoid, if_neg Bool.false_ne_true, List.append_assoc,
    hcontent, hclosing]
  rfl

/-- The extent that reversal finds is the element exactly if it knows whether the element is
void. -/
theorem extent?_eq_iff (h : e.label.isLoose = true) (hpass : e.Passable) (tail : Text) :
    (e.sighting tail).extent? = some (e.written, tail) ↔
      e.label.isVoid = standsAlone e.label.name.toList false := by
  rw [sighting, Sighting.extent?, written_eq]
  dsimp only
  cases hvoid : e.label.isVoid with
  | false =>
    have hne : e.writtenRest ≠ [] := by
      simp [writtenRest, hvoid, Label.closingTag]
    cases halone : standsAlone e.label.name.toList false with
    | false => simp [close?_writtenRest h hvoid hpass tail]
    | true => simp [hne]
  | true =>
    have hnil : e.writtenRest = [] := by rw [writtenRest, if_pos hvoid]
    rw [hnil, List.nil_append, List.append_nil]
    cases standsAlone e.label.name.toList false with
    | true => simp
    | false =>
      -- a closing tag that is found belongs to what follows the element
      simp only [Bool.false_eq_true, if_false, Bool.true_eq_false, iff_false]
      intro hmap
      obtain ⟨⟨front, rest⟩, hclose, heq⟩ := Option.map_eq_some_iff.1 hmap
      rw [close?_eq_closeAt?] at hclose
      exact ne_nil_of_closeAt? hclose (by simpa using (Prod.ext_iff.1 heq).1)

/-- A void element that reversal does not know, at the end of a text, has no extent. -/
theorem extent?_eq_none (hvoid : e.label.isVoid = true)
    (halone : standsAlone e.label.name.toList false = false) : (e.sighting []).extent? = none := by
  rw [sighting, Sighting.extent?, writtenRest, if_pos hvoid]
  dsimp only
  rw [halone]
  rfl

end Element

/-! ### Void elements -/

/-- The void elements that reversal does not know. -/
def unknownVoid : List String := ["basefont", "bgsound", "frame", "keygen"]

/-- Reversal knows whether an HTML element is void but for four names. -/
theorem isVoid_eq_standsAlone_iff {l : Label} (hspace : l.space = .html)
    (hlower : Text.lowerAscii l.name.toList = l.name.toList) :
    l.isVoid = standsAlone l.name.toList false ↔ l.name ∉ unknownVoid := by
  have hvoid : l.isVoid = Names.void.contains l.name := by
    rw [Label.isVoid, hspace, decide_eq_true rfl, Bool.true_and]
  have hknown : standsAlone l.name.toList false = voidNames.contains l.name := by
    rw [standsAlone, Bool.false_or, hlower, Bool.eq_iff_iff, List.any_eq_true,
      List.contains_iff_mem]
    constructor
    · rintro ⟨v, hv, he⟩
      rwa [← String.toList_inj.1 (beq_iff_eq.1 he)]
    · exact fun hm => ⟨l.name, hm, beq_self_eq_true _⟩
  have hlists : ∀ name ∈ Names.void,
      (Names.void.contains name = voidNames.contains name ↔ name ∉ unknownVoid) := by decide
  have hsubset : ∀ name ∈ voidNames ++ unknownVoid, name ∈ Names.void := by decide
  rw [hvoid, hknown]
  by_cases hm : l.name ∈ Names.void
  · exact hlists _ hm
  · have hother : l.name ∉ voidNames ++ unknownVoid := fun h => hm (hsubset _ h)
    rw [List.mem_append, not_or] at hother
    simp [hm, hother.1, hother.2]

end Shortcodes.Html
