import Shortcodes.Proofs.Html.Rereading.Classes
import Shortcodes.Proofs.Html.Rereading.Root

/-!
# Marked markup read again

Marking reads a root and writes it with a class more. Where the root comes back as it was read, so
does the marked root: what was written is read as the same tree, with nothing but the class list
changed, and to mark it again changes nothing (`read?_mark`). Not every root comes back: a line
break at the start of an element that drops one is dropped with each marking (`mark_forgets`).
-/

namespace Shortcodes.Html

variable {markup marker F : Text} {f : Fragment} {e : Element}

theorem Element.comesBack_addClass (hmarker : Faithful marker) (h : e.comesBack = true) :
    Element.comesBack { e with label := e.label.addClass marker } = true := by
  rw [comesBack_iff] at h ⊢
  obtain ⟨htidy, hname, hfits⟩ := h
  have hsource : (e.label.addClass marker).sourceTag.name = e.label.sourceTag.name := by
    rw [Label.sourceTag, Label.name_addClass]
    rfl
  exact ⟨htidy, hsource ▸ hname, Builder.fits_addClass rfl hmarker hfits⟩

/-- The marker is a class of what was marked. -/
theorem hasClass_of_classes {l l' : Label}
    (h : l'.classes = l.classes ++ if l.hasClass marker then [] else [marker]) :
    l'.hasClass marker = true := by
  rw [Label.hasClass_iff, h, List.mem_append]
  split
  · next hclass => exact .inl (Label.hasClass_iff.1 hclass)
  · exact .inr List.mem_cons_self

theorem addClass_of_hasClass {l : Label} (h : l.hasClass marker = true) : l.addClass marker = l :=
  if_pos h

/-- Marking changes nothing but the class list of a root that comes back: what it writes is read as
that root alone, with the marker behind the classes it had, and is marked with that class. -/
theorem read?_mark (hmarker : IsMarker marker) (hnul : '\x00' ∉ marker)
    (hread : Fragment.read? markup = some f) (hback : f.root.comesBack = true)
    (hmark : mark markup marker = .ok F) :
    ∃ label, Fragment.read? F = some ⟨⟨label, f.root.children⟩, 1⟩ ∧
      label.space = f.root.label.space ∧ label.name = f.root.label.name ∧
      label.attributes.filter (·.name ≠ "class") =
        f.root.label.attributes.filter (·.name ≠ "class") ∧
      label.classes = f.root.label.classes ++ (if f.hasClass marker then [] else [marker]) ∧
      mark F marker = .ok F := by
  obtain ⟨g, hg, hone, rfl⟩ := mark_eq_ok_iff.1 hmark
  obtain rfl : f = g := by
    rw [hread] at hg
    exact Option.some.inj hg
  have hfaithful : Faithful marker :=
    ⟨fun hm => absurd (hmarker.notBlank _ hm) (by decide), hnul⟩
  have hagain : Fragment.read? (f.addClass marker).written =
      some ⟨⟨f.root.label.addClass marker, f.root.children⟩, 1⟩ :=
    Element.read?_written (Element.comesBack_addClass hfaithful hback)
  have hclasses : (f.root.label.addClass marker).classes =
      f.root.label.classes ++ if f.hasClass marker then [] else [marker] :=
    Builder.classes_addClass hmarker
      (Builder.fits_element (Element.comesBack_iff.1 hback).2.2).2.1
  refine ⟨_, hagain, Label.space_addClass _ _, Label.name_addClass _ _, Label.filter_addClass _ _,
    hclasses, mark_of_read hagain rfl ?_⟩
  show Element.written ⟨Label.addClass _ marker, _⟩ = _
  rw [addClass_of_hasClass (hasClass_of_classes hclasses)]
  rfl

/-- A paragraph with a class, an escaped character, a line break and a drawing. -/
def paragraph (classes : Text) : Text :=
  "<p class=\"".toList ++ classes ++ "\">a&lt;b<br><svg viewBox=\"0\"></svg></p>".toList

theorem read?_mark_paragraph :
    IsMarker "m".toList ∧ mark (paragraph "k".toList) "m".toList = .ok (paragraph "k m".toList) ∧
      mark (paragraph "k m".toList) "m".toList = .ok (paragraph "k m".toList) := by
  have hmarker : IsMarker "m".toList := ⟨by decide, Text.forall_mem_of_all (by decide)⟩
  have hread : Fragment.read? (paragraph "k".toList) = some
      ⟨⟨⟨.html, "p", [{ name := "class", value := "k".toList }]⟩,
        [.text "a<b".toList, .element ⟨.html, "br", []⟩ [],
          .element ⟨.svg, "svg", [{ name := "viewBox", value := "0".toList }]⟩ []]⟩, 1⟩ := rfl
  have hmark : mark (paragraph "k".toList) "m".toList = .ok (paragraph "k m".toList) :=
    mark_of_read hread rfl rfl
  obtain ⟨-, -, -, -, -, -, hagain⟩ := read?_mark hmarker (by decide) hread (by decide) hmark
  exact ⟨hmarker, hmark, hagain⟩

/-- Of two line breaks behind an opening tag that drops one, marking writes one, which is dropped
when what was written is read. -/
theorem mark_forgets : ¬∀ markup marker F : Text, IsMarker marker → mark markup marker = .ok F →
    mark F marker = .ok F := by
  have hmarker : IsMarker "m".toList := ⟨by decide, Text.forall_mem_of_all (by decide)⟩
  have hread : Fragment.read? "<pre>\n\nx</pre>".toList =
      some ⟨⟨⟨.html, "pre", []⟩, [.text "\nx".toList]⟩, 1⟩ := rfl
  have hreread : Fragment.read? "<pre class=\"m\">\nx</pre>".toList =
      some ⟨⟨⟨.html, "pre", [{ name := "class", value := "m".toList }]⟩, [.text "x".toList]⟩, 1⟩ :=
    rfl
  have hmark : mark "<pre>\n\nx</pre>".toList "m".toList =
      .ok "<pre class=\"m\">\nx</pre>".toList := mark_of_read hread rfl rfl
  have hagain : mark "<pre class=\"m\">\nx</pre>".toList "m".toList =
      .ok "<pre class=\"m\">x</pre>".toList := mark_of_read hreread rfl rfl
  intro h
  have hsame := h _ _ _ hmarker hmark
  rw [hagain] at hsame
  exact absurd (Except.ok.inj hsame) (by decide)

end Shortcodes.Html
