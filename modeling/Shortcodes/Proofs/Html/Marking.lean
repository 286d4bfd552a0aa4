import Mathlib.Data.List.Infix
import Shortcodes.Html.Fragment
import Shortcodes.Proofs.Text

/-!
# What marking writes

Marked markup is the written form of the element that was read, with the marker among its classes
(`mark_eq_ok_iff`). Class names are the words of the class attribute, so a marker without blanks
stands in the value of an attribute, and in written form in the opening tag
(`infix_openingTag_addClass`).
-/

namespace Shortcodes

/-- A marker that is a single class name. -/
structure IsMarker (marker : Text) : Prop where
  ne_nil : marker ≠ []
  notBlank : ∀ c ∈ marker, isBlank c = false

namespace Text

/-! ### Words -/

theorem words_blank {c : Char} (h : isBlank c = true) (t : Text) : words (c :: t) = words t := by
  rw [words.eq_def]
  exact if_pos h

theorem words_single {c : Char} (h : isBlank c = false) : words [c] = [[c]] := by
  rw [words.eq_def]
  exact if_neg (by simp [h])

/-- A character in front of a blank is a word. -/
theorem words_cons_blank {c d : Char} (hc : isBlank c = false) (hd : isBlank d = true) (t : Text) :
    words (c :: d :: t) = [c] :: words t := by
  rw [words.eq_def, ← words_blank hd t]
  simp [hc, hd]

/-- A character in front of a word lengthens it. -/
theorem words_cons_cons {c d : Char} {t first : Text} {others : List Text} (hc : isBlank c = false)
    (hd : isBlank d = false) (h : words (d :: t) = first :: others) :
    words (c :: d :: t) = (c :: first) :: others := by
  rw [words.eq_def]
  simp [hc, hd, h]

/-- A run of characters that are not blank is the first word of a text that goes on with a
blank. -/
theorem words_append_cons {t : Text} (hne : t ≠ []) (ht : ∀ c ∈ t, isBlank c = false) {b : Char}
    (hb : isBlank b = true) (rest : Text) : words (t ++ b :: rest) = t :: words rest := by
  induction t with
  | nil => exact absurd rfl hne
  | cons c t ih =>
    rw [List.forall_mem_cons] at ht
    cases t with
    | nil => exact words_cons_blank ht.1 hb rest
    | cons d t =>
      have hd : isBlank d = false := ht.2 d List.mem_cons_self
      exact words_cons_cons ht.1 hd (ih (List.cons_ne_nil d t) ht.2)

theorem words_ne_nil {c : Char} (h : isBlank c = false) (t : Text) : words (c :: t) ≠ [] := by
  rw [words.eq_def]
  simp only [h, Bool.false_eq_true, if_false]
  repeat' split
  all_goals exact List.cons_ne_nil _ _

/-- The first word of a text that starts with it is its beginning. -/
theorem isPrefix_of_words {t first : Text} {others : List Text} (h : words t = first :: others)
    (ht : ∀ c ∈ t.head?, isBlank c = false) : first <+: t := by
  induction t generalizing first others with
  | nil => cases h
  | cons c t ih =>
    have hc : isBlank c = false := ht c rfl
    cases t with
    | nil =>
      rw [words_single hc] at h
      rw [← (List.cons.inj h).1]
    | cons d t =>
      cases hd : isBlank d with
      | true =>
        rw [words_cons_blank hc hd] at h
        rw [← (List.cons.inj h).1]
        exact List.prefix_append [c] _
      | false =>
        obtain ⟨next, others', hw⟩ := List.exists_cons_of_ne_nil (words_ne_nil hd t)
        rw [words_cons_cons hc hd hw] at h
        rw [← (List.cons.inj h).1, List.prefix_cons_inj]
        exact ih hw (by simpa using hd)

/-- A word of a text stands in it. -/
theorem infix_of_mem_words {t word : Text} (h : word ∈ words t) : word <:+: t := by
  -- either a word starts at the first character, or it is a word of the rest
  fun_induction words t with
  | case1 => cases h
  | case2 c t hc ih => exact List.infix_cons (ih h)
  | case3 c hc => rw [List.mem_singleton.1 h]
  | case4 c hc d t hd ih =>
    rcases List.mem_cons.1 h with rfl | h
    · exact (List.prefix_append [c] _).isInfix
    · exact List.infix_cons (ih h)
  | case5 c hc d t hd hw ih =>
    rw [hw] at h
    rw [List.mem_singleton.1 h]
    exact (List.prefix_append [c] _).isInfix
  | case6 c hc d t hd first others hw ih =>
    rw [hw] at h ih
    rcases List.mem_cons.1 h with rfl | h
    · have hfirst : first <+: d :: t := isPrefix_of_words hw (by simpa using hd)
      exact (List.prefix_cons_inj c |>.2 hfirst).isInfix
    · exact List.infix_cons (ih (List.mem_cons_of_mem _ h))

/-! ### Trimming -/

/-- Text without blanks stays at the end of a trimmed text. -/
theorem trim_append_of_notBlank {t : Text} (hne : t ≠ []) (ht : ∀ c ∈ t, isBlank c = false)
    (s : Text) : trim (s ++ t) = trimStart s ++ t := by
  have hstart : trimStart (s ++ t) = trimStart s ++ t := by
    obtain ⟨c, cs, rfl⟩ := List.exists_cons_of_ne_nil hne
    exact trimStart_append_cons (ht c List.mem_cons_self) s cs
  have hlast : t.reverse.dropWhile isBlank = t.reverse := by
    obtain ⟨c, cs, hrev⟩ := List.exists_cons_of_ne_nil (mt List.reverse_eq_nil_iff.1 hne)
    have hc : c ∈ t := List.mem_reverse.1 (hrev ▸ List.mem_cons_self)
    rw [hrev]
    exact List.dropWhile_cons_of_neg (by simp [ht c hc])
  rw [trim, hstart, trimEnd, List.reverse_append, List.dropWhile_append, hlast,
    if_neg (by simpa using hne), List.reverse_append, List.reverse_reverse, List.reverse_reverse]

end Text

namespace Html

variable {l : Label} {marker : Text}

/-! ### Labels with the marker -/

namespace Label

@[simp] theorem name_addClass (l : Label) (marker : Text) : (l.addClass marker).name = l.name := by
  rw [addClass]
  split <;> rfl

@[simp] theorem space_addClass (l : Label) (marker : Text) :
    (l.addClass marker).space = l.space := by
  rw [addClass]
  split <;> rfl

@[simp] theorem isVoid_addClass (l : Label) (marker : Text) :
    (l.addClass marker).isVoid = l.isVoid := by
  rw [isVoid, isVoid, name_addClass, space_addClass]

@[simp] theorem isRaw_addClass (l : Label) (marker : Text) :
    (l.addClass marker).isRaw = l.isRaw := by
  rw [isRaw, isRaw, name_addClass, space_addClass]

theorem appendClass_eq (h : IsMarker marker) (value : Text) :
    appendClass value marker = Text.trimStart (Text.trim value ++ [' ']) ++ marker := by
  rw [appendClass, ← List.singleton_append, ← List.append_assoc]
  exact Text.trim_append_of_notBlank h.ne_nil h.notBlank _

/-- An attribute with the marker in its value is there when one was put. -/
theorem exists_mem_attributesWithClass (h : IsMarker marker) (attributes : List Attribute) :
    ∃ a ∈ attributesWithClass marker attributes, marker <:+: a.value := by
  induction attributes with
  | nil => exact ⟨_, List.mem_singleton_self _, List.infix_rfl⟩
  | cons a attributes ih =>
    rw [attributesWithClass]
    split
    · refine ⟨_, List.mem_cons_self, ?_⟩
      rw [appendClass_eq h]
      exact (List.suffix_append _ _).isInfix
    · obtain ⟨b, hb, hvalue⟩ := ih
      exact ⟨b, List.mem_cons_of_mem a hb, hvalue⟩

theorem hasClass_iff {l : Label} {name : Text} : l.hasClass name = true ↔ name ∈ l.classes := by
  rw [hasClass, List.contains_iff_mem]

/-- A class name stands in the value of an attribute. -/
theorem exists_of_hasClass {name : Text} (h : l.hasClass name = true) :
    ∃ a ∈ l.attributes, name <:+: a.value := by
  have hmem := hasClass_iff.1 h
  rw [classes, attribute?, Option.map_map] at hmem
  cases hfind : l.attributes.find? fun a => Text.sameUpToCase a.name.toList "class".toList with
  | none =>
    rw [hfind] at hmem
    cases hmem
  | some a =>
    rw [hfind] at hmem
    exact ⟨a, List.mem_of_find?_eq_some hfind, Text.infix_of_mem_words hmem⟩

theorem exists_mem_addClass (h : IsMarker marker) (l : Label) :
    ∃ a ∈ (l.addClass marker).attributes, marker <:+: a.value := by
  rw [addClass]
  split
  · next hclass => exact exists_of_hasClass hclass
  · exact exists_mem_attributesWithClass h l.attributes

/-- An attribute stands in the opening tag, its value between quotes. -/
theorem infix_openingTag {a : Attribute} (h : a ∈ l.attributes) :
    ['=', '"'] ++ a.value.flatMap escapedInAttribute ++ ['"'] <:+: l.openingTag := by
  have hwritten : ['=', '"'] ++ a.value.flatMap escapedInAttribute ++ ['"'] <:+: a.written :=
    ⟨' ' :: a.writtenName, [], by simp [Attribute.written]⟩
  have hattributes : a.written <:+: l.attributes.flatMap Attribute.written :=
    List.infix_of_mem_flatten (List.mem_map_of_mem h)
  exact (hwritten.trans hattributes).trans ⟨'<' :: l.name.toList, ['>'], rfl⟩

/-- The opening tag of a marked label has the marker in written form. -/
theorem infix_openingTag_addClass (h : IsMarker marker) (l : Label) :
    marker.flatMap escapedInAttribute <:+: (l.addClass marker).openingTag := by
  obtain ⟨a, ha, hvalue⟩ := exists_mem_addClass h l
  have hescaped := hvalue.flatMap escapedInAttribute
  refine hescaped.trans (List.IsInfix.trans ?_ (infix_openingTag ha))
  exact ⟨['=', '"'], ['"'], rfl⟩

end Label

/-! ### Marked markup -/

/-- Marking succeeds on markup with one node at its top level, and writes the element that was
read with the marker among its classes. -/
theorem mark_eq_ok_iff {markup F : Text} : mark markup marker = .ok F ↔
    ∃ f, Fragment.read? markup = some f ∧ f.topLevel = 1 ∧ F = (f.addClass marker).written := by
  rw [mark]
  cases Fragment.read? markup with
  | none => simp
  | some f =>
    by_cases h : f.topLevel = 1
    · simp [h, eq_comm]
    · simp [h]

theorem mark_of_read {markup F : Text} {f : Fragment} (hread : Fragment.read? markup = some f)
    (hone : f.topLevel = 1) (hwritten : (f.addClass marker).written = F) :
    mark markup marker = .ok F :=
  mark_eq_ok_iff.2 ⟨f, hread, hone, hwritten.symm⟩

end Html

end Shortcodes
