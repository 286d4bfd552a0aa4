import Shortcodes.Proofs.Html.Rereading.Marked

/-!
# Elements with a class more

A class that is added to an element is put behind the classes that it has, unless it is one of them
(`Label.classes_addClass`). All other attributes stand where they stood (`Label.keeps_addClass`),
and the element has the same children. To add the class again changes nothing. So nothing of the
element but its class list is touched (`Fragment.addClass_preserves`).
-/

namespace Shortcodes.Html

variable {marker : Text}

namespace Label

/-! ### Attributes -/

/-- A label has all that another one says but the class list. Its class attribute stands where it
stood, or at the end if there was none. -/
structure Keeps (l l' : Label) : Prop where
  space : l'.space = l.space
  name : l'.name = l.name
  /-- Every other attribute has its value and its place. -/
  others : ∀ (i : Nat) (a : Attribute), a.name ≠ "class" →
    (l'.attributes[i]? = some a ↔ l.attributes[i]? = some a)
  names : l'.attributes.map (fun a => (a.space, a.name)) =
    l.attributes.map (fun a => (a.space, a.name)) ++
      if l.attributes.any (·.name = "class") then [] else [(.own, "class")]

/-- An attribute that is not the class has the same place. -/
theorem getElem?_attributesWithClass {a : Attribute} (ha : a.name ≠ "class")
    (attributes : List Attribute) (i : Nat) :
    (attributesWithClass marker attributes)[i]? = some a ↔ attributes[i]? = some a := by
  induction attributes generalizing i with
  | nil =>
    rw [attributesWithClass]
    cases i with
    | zero =>
      rw [List.getElem?_cons_zero, List.getElem?_nil, Option.some.injEq]
      refine iff_of_false ?_ (by simp)
      rintro rfl
      exact ha rfl
    | succ i => rw [List.getElem?_cons_succ, List.getElem?_nil, List.getElem?_nil]
  | cons b attributes ih =>
    -- the class attribute is changed in place, so that no other is moved
    rw [attributesWithClass]
    split
    · next hb =>
      cases i with
      | zero =>
        rw [List.getElem?_cons_zero, List.getElem?_cons_zero, Option.some.injEq, Option.some.injEq]
        refine iff_of_false ?_ ?_
        · rintro rfl
          exact ha hb
        · rintro rfl
          exact ha hb
      | succ i => rw [List.getElem?_cons_succ, List.getElem?_cons_succ]
    · cases i with
      | zero => rw [List.getElem?_cons_zero, List.getElem?_cons_zero]
      | succ i =>
        rw [List.getElem?_cons_succ, List.getElem?_cons_succ]
        exact ih i

/-- What has classes has a class attribute. -/
theorem exists_namesClass_of_hasClass {l : Label} {name : Text} (h : l.hasClass name = true) :
    ∃ a ∈ l.attributes, Builder.namesClass a.name = true := by
  rw [hasClass, classes, attribute?_class] at h
  cases hfind : l.attributes.find? fun a => Builder.namesClass a.name with
  | none =>
    rw [hfind] at h
    cases h
  | some a =>
    have hname := List.find?_some hfind
    exact ⟨a, List.mem_of_find?_eq_some hfind, hname⟩

/-! ### Classes -/

variable {l : Label} (hmarker : IsMarker marker)
  (hclass : ∀ a ∈ l.attributes, Builder.namesClass a.name = true → a.name = "class")

include hclass

/-- Adding a class touches nothing but the class list. -/
theorem keeps_addClass (marker : Text) : l.Keeps (l.addClass marker) := by
  refine ⟨space_addClass l marker, name_addClass l marker, fun i a ha => ?_, ?_⟩
  · rw [addClass]
    split
    · exact Iff.rfl
    · exact getElem?_attributesWithClass ha l.attributes i
  · rw [addClass]
    split
    · next hhas =>
      obtain ⟨a, ha, hname⟩ := exists_namesClass_of_hasClass hhas
      have hany : l.attributes.any (·.name = "class") = true :=
        List.any_eq_true.2 ⟨a, ha, decide_eq_true (hclass a ha hname)⟩
      rw [if_pos hany, List.append_nil]
    · exact map_attributesWithClass (fun _ _ => rfl) l.attributes

include hmarker

theorem hasClass_addClass_iff {name : Text} :
    (l.addClass marker).hasClass name = true ↔ l.hasClass name = true ∨ name = marker := by
  rw [hasClass_iff, hasClass_iff, classes_addClass hmarker hclass, List.mem_append]
  split
  · next hmem =>
    -- the class was there before
    rw [List.mem_nil_iff, or_false]
    refine (or_iff_left_of_imp ?_).symm
    rintro rfl
    exact hasClass_iff.1 hmem
  · rw [List.mem_singleton]

theorem addClass_addClass : (l.addClass marker).addClass marker = l.addClass marker :=
  addClass_of_hasClass ((hasClass_addClass_iff hmarker hclass).2 (.inr rfl))

end Label

namespace Fragment

/-- Adding a class to an element whose class attribute, if it has one, is spelled in lower case: the
element has the classes that it had and the new one, which stands behind them in the list if it was
not there; all else that its opening tag says stays, every other attribute with its value and in
its place; the children are the same, and to add the class again changes nothing. -/
theorem addClass_preserves (hmarker : IsMarker marker) (f : Fragment)
    (hclass : ∀ a ∈ f.root.label.attributes,
      Text.sameUpToCase a.name.toList "class".toList = true → a.name = "class") :
    (∀ name, (f.addClass marker).hasClass name = true ↔ f.hasClass name = true ∨ name = marker) ∧
    (f.addClass marker).root.label.classes =
      f.root.label.classes ++ (if f.hasClass marker then [] else [marker]) ∧
    f.root.label.Keeps (f.addClass marker).root.label ∧
    (f.addClass marker).root.children = f.root.children ∧
    (f.addClass marker).addClass marker = f.addClass marker := by
  refine ⟨fun name => ?_, ?_, ?_, rfl, ?_⟩
  · exact Label.hasClass_addClass_iff hmarker hclass
  · exact Label.classes_addClass hmarker hclass
  · exact Label.keeps_addClass hclass marker
  · have hlabel := Label.addClass_addClass hmarker hclass
    rw [addClass, addClass, hlabel]

/-- A link with blanks of several kinds in its class list, between two other attributes. -/
def spaced : Fragment :=
  ⟨⟨⟨.html, "a", [{ name := "href", value := "x".toList },
    { name := "class", value := "\u3000k  b\t".toList }, { name := "title", value := "m".toList }]⟩,
    [.text "y".toList]⟩, 1⟩

theorem addClass_preserves_spaced :
    IsMarker "m".toList ∧
    (∀ a ∈ spaced.root.label.attributes,
      Text.sameUpToCase a.name.toList "class".toList = true → a.name = "class") ∧
    (spaced.addClass "m".toList).root.label.classes = ["k".toList, "b".toList, "m".toList] ∧
    (spaced.addClass "m".toList).root.label.attributes[2]? =
      some { name := "title", value := "m".toList } ∧
    (spaced.addClass "m".toList).addClass "m".toList = spaced.addClass "m".toList := by
  have hmarker : IsMarker "m".toList := ⟨by decide, Text.forall_mem_of_all (by decide)⟩
  have hclass : ∀ a ∈ spaced.root.label.attributes,
      Text.sameUpToCase a.name.toList "class".toList = true → a.name = "class" := by
    intro a ha
    simp only [spaced, List.mem_cons, List.not_mem_nil, or_false] at ha
    rcases ha with rfl | rfl | rfl <;> decide
  obtain ⟨-, hclasses, hkeeps, -, hagain⟩ := addClass_preserves hmarker spaced hclass
  exact ⟨hmarker, hclass, hclasses.trans (by decide), (hkeeps.others 2 _ (by decide)).2 rfl, hagain⟩

end Fragment

end Shortcodes.Html
