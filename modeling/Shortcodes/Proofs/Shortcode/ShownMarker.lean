import Shortcodes.Proofs.Html.Anchor
import Shortcodes.Proofs.Shortcode.Built
import Shortcodes.Proofs.Shortcode.Reversal
import Shortcodes.Proofs.Signature.Filling

/-!
# Where rendered markup shows its marker

Reversal looks for the marker in the opening tag as it is written, but writing an attribute value
puts references in the place of `&` and `"`. Rendered markup has the written form of the marker in
the opening tag of its root, so it shows a marker that occurs in its own written form. Any other
marker is hidden from reversal in some rendered markup, unless it is punctuation that every tag
with a class has (`convert_shows_marker`).
-/

namespace Shortcodes

open Html Html.Builder

/-- A text that occurs in its written form in an attribute value. -/
def SurvivesWriting (t : Text) : Prop := t <:+: t.flatMap escapedInAttribute

/-- A text that occurs in the punctuation around the class attribute of any tag. -/
def IsPunctuation (t : Text) : Prop := t <:+: "class=".toList ++ ['"'] ∨ t <:+: ['"', '>']

/-! ### Texts in a tag -/

namespace Text

/-- An occurrence around a character that the text does not have lies on one side of it. -/
theorem infix_append_cons_iff {t s r : Text} {c : Char} (h : c ∉ t) :
    t <:+: s ++ c :: r ↔ t <:+: s ∨ t <:+: r := by
  have hstart : ∀ u, c ∉ u → u <+: c :: r → u = [] := by
    intro u hu hp
    rcases List.prefix_cons_iff.1 hp with rfl | ⟨v, rfl, -⟩
    · rfl
    · exact absurd List.mem_cons_self hu
  constructor
  · intro hi
    rcases List.infix_append_iff.1 hi with hs | hr | ⟨u, v, rfl, hu, hv⟩
    · exact .inl hs
    · rcases List.infix_cons_iff.1 hr with hp | hr
      · rw [hstart t h hp]
        exact .inl List.nil_infix
      · exact .inr hr
    · rw [hstart v (fun hm => h (List.mem_append_right u hm)) hv, List.append_nil]
      exact .inl hu.isInfix
  · rintro (hs | hr)
    · exact hs.trans (List.prefix_append s _).isInfix
    · exact hr.trans ⟨s ++ [c], [], by simp⟩

/-- A text that an added last character makes occur ends with that character. -/
theorem getLast?_of_infix_concat {t s : Text} {c : Char} (h : t <:+: s ++ [c]) (hs : ¬t <:+: s) :
    t.getLast? = some c := by
  rcases List.infix_concat_iff.1 h with hsuffix | hinfix
  · rcases List.suffix_concat_iff.1 hsuffix with rfl | ⟨u, rfl, -⟩
    · exact absurd List.nil_infix hs
    · exact List.getLast?_concat
  · exact absurd hinfix hs

/-- A text that an added first character makes occur starts with that character. -/
theorem head?_of_infix_cons {t s : Text} {c : Char} (h : t <:+: c :: s) (hs : ¬t <:+: s) :
    t.head? = some c := by
  rcases List.infix_cons_iff.1 h with hstart | hinfix
  · rcases List.prefix_cons_iff.1 hstart with rfl | ⟨u, rfl, -⟩
    · exact absurd List.nil_infix hs
    · rfl
  · exact absurd hinfix hs

end Text

/-! ### Written texts -/

theorem survivesWriting_of_not_mem {t : Text} (hblank : ∀ c ∈ t, isBlank c = false)
    (hamp : '&' ∉ t) (hquote : '"' ∉ t) : SurvivesWriting t := by
  have hself : ∀ c ∈ t, escapedInAttribute c = [c] := by
    intro c hc
    have hbreak : c ≠ noBreakSpace := by
      rintro rfl
      exact absurd (hblank _ hc) (by decide)
    have hc' : c ≠ '&' ∧ c ≠ '"' := ⟨fun he => hamp (he ▸ hc), fun he => hquote (he ▸ hc)⟩
    rw [escapedInAttribute, if_neg hc'.1, if_neg hbreak, if_neg hc'.2]
  have hwritten : t.flatMap escapedInAttribute = t := by
    rw [List.flatMap_congr hself, List.flatMap_singleton']
  rw [SurvivesWriting, hwritten]

/-- Behind its last zero a text is not longer than its written form, so it does not end it together
with more text. -/
theorem not_suffix_written {t rest : Text} (ht : '\x00' ∈ t) (hne : rest ≠ [])
    (hrest : '\x00' ∉ rest) : ¬t <:+ t.flatMap escapedInAttribute ++ rest := by
  obtain ⟨back, front, hrev, hback⟩ := List.eq_append_cons_of_mem (List.mem_reverse.2 ht)
  obtain rfl : t = front.reverse ++ '\x00' :: back.reverse := by
    rw [← List.reverse_reverse t, hrev]
    simp
  intro hsuffix
  set w := back.reverse.flatMap escapedInAttribute ++ rest with hw
  -- both what follows the last zero of the text and what follows it in the written form are ends
  -- of the same text, and the first is shorter
  have hshort : '\x00' :: back.reverse <:+
      front.reverse.flatMap escapedInAttribute ++ '\x00' :: w := by
    refine ((List.suffix_append _ _).trans hsuffix).trans ?_
    rw [List.flatMap_append, List.flatMap_cons, hw]
    simp [escapedInAttribute, noBreakSpace]
  have hlong : '\x00' :: w <:+ front.reverse.flatMap escapedInAttribute ++ '\x00' :: w :=
    List.suffix_append _ _
  have hlength : back.reverse.length < w.length := by
    have hpos := List.length_pos_iff.2 hne
    have hle := codesAll_escapedInAttribute.length_le back.reverse
    rw [hw, List.length_append]
    omega
  have hboth := List.suffix_of_suffix_length_le hshort hlong (by simpa using hlength.le)
  have hmem : '\x00' ∈ w := by
    rcases List.suffix_cons_iff.1 hboth with heq | hin
    · rw [(List.cons.inj heq).2] at hlength
      exact absurd hlength (Nat.lt_irrefl _)
    · exact hin.subset List.mem_cons_self
  -- a zero is written as itself, so there is none behind the last one
  rcases List.mem_append.1 hmem with hm | hm
  · obtain ⟨c, hc, hnul⟩ := List.mem_flatMap.1 hm
    obtain ⟨-, rfl⟩ := (codesAll_escapedInAttribute c).eq_of_mem (by decide) hnul
    exact hback (List.mem_reverse.1 hc)
  · exact hrest hm

/-! ### Anchors that hide a marker -/

/-- An anchor with a class attribute and nothing else. -/
def classed (value : Text) : Element := anchor [("class", value)] []

theorem openingTag_classed (value : Text) : (classed value).label.openingTag =
    ['<', 'a'] ++ ' ' :: ("class=".toList ++ '"' :: (value.flatMap escapedInAttribute ++
      ['"', '>'])) := by
  simp [classed, anchor, htmlLabel, anchorTag, ownAttributes, Label.openingTag, Attribute.written,
    Attribute.writtenName]

theorem classes_classed (value : Text) : (classed value).label.classes = Text.words value := by
  have hname : Text.sameUpToCase "class".toList "class".toList = true := by decide
  simp only [Label.classes, Label.attribute?, classed, anchor, htmlLabel, anchorTag, ownAttributes,
    List.map_cons, List.map_nil, List.find?_cons, hname, Option.map_some, Option.getD_some]

theorem read?_written_classed {value : Text} (h : Faithful value) :
    Fragment.read? (classed value).written = some ⟨classed value, 1⟩ := by
  have hvalue : ∀ a ∈ [("class", value)], a.1 = "class" ∧ Faithful a.2 := by
    intro a ha
    rw [List.mem_singleton.1 ha]
    exact ⟨rfl, h⟩
  exact read?_written_anchor (fun a ha => (hvalue a ha).1 ▸ attributeName_class)
    (List.nodup_singleton "class") (fun a ha => (hvalue a ha).2)
    ⟨List.not_mem_nil, List.not_mem_nil⟩

variable {m : Text}

/-- A marker that stands between two other class names is written as it is. -/
theorem mark_between (hm : IsMarker m) (hnul : '\x00' ∉ m) {c : Char}
    (hc : isBlank c = false ∧ c ≠ '\x00') :
    mark (classed (c :: ' ' :: (m ++ [' ', c]))).written m =
      .ok (classed (c :: ' ' :: (m ++ [' ', c]))).written := by
  have hfaithful : Faithful (c :: ' ' :: (m ++ [' ', c])) := by
    -- a carriage return is blank, and neither the marker nor the letter is
    have hreturn : '\r' ∉ c :: m := by
      intro hr
      have hblank : ∀ d ∈ c :: m, isBlank d = false := List.forall_mem_cons.2 ⟨hc.1, hm.notBlank⟩
      exact absurd (hblank _ hr) (by decide)
    rw [List.mem_cons, not_or] at hreturn
    constructor
    · simp [hreturn.1, hreturn.2]
    · simp [hc.2.symm, hnul]
  have hwords : m ∈ Text.words (c :: ' ' :: (m ++ [' ', c])) := by
    have hfirst := Text.words_append_cons (List.cons_ne_nil c []) (by simpa using hc.1)
      (by decide : isBlank ' ' = true) (m ++ [' ', c])
    rw [List.singleton_append] at hfirst
    rw [hfirst, Text.words_append_cons hm.ne_nil hm.notBlank (by decide)]
    exact List.mem_cons_of_mem _ List.mem_cons_self
  have hclass : (classed (c :: ' ' :: (m ++ [' ', c]))).label.hasClass m = true := by
    rw [Label.hasClass, classes_classed]
    simpa using hwords
  refine mark_eq_ok_iff.2 ⟨_, read?_written_classed hfaithful, rfl, ?_⟩
  rw [Fragment.addClass, Label.addClass, if_pos hclass]
  rfl

/-- A marker that is not there is written behind the class names that are. -/
theorem mark_behind (hm : IsMarker m) (hne : m ≠ ['x']) :
    mark (classed ['x']).written m = .ok (classed ('x' :: ' ' :: m)).written := by
  have hclass : (classed ['x']).label.hasClass m = false := by
    rw [Label.hasClass, classes_classed]
    have hwords : Text.words ['x'] = [['x']] := by decide
    simpa [hwords] using hne
  have hvalue : Label.appendClass ['x'] m = 'x' :: ' ' :: m := by
    rw [Label.appendClass_eq hm]
    rfl
  refine mark_eq_ok_iff.2 ⟨_, read?_written_classed ⟨by decide, by decide⟩, rfl, ?_⟩
  rw [Fragment.addClass, Label.addClass, hclass, if_neg Bool.false_ne_true, ← hvalue]
  rfl

/-- One of three letters is neither the first nor the last character of a text. -/
theorem exists_letter (m : Text) :
    ∃ c ∈ ['x', 'y', 'z'], m.head? ≠ some c ∧ m.getLast? ≠ some c := by
  by_contra hnone
  have hends : ∀ c ∈ ['x', 'y', 'z'], m.head? = some c ∨ m.getLast? = some c := by
    intro c hc
    by_contra hc'
    exact hnone ⟨c, hc, not_or.1 hc'⟩
  have hx := hends 'x' (by simp)
  have hy := hends 'y' (by simp)
  have hz := hends 'z' (by simp)
  rcases hx with hx | hx <;> rcases hy with hy | hy <;> rcases hz with hz | hz <;>
    simp_all

theorem not_mem_space (hm : IsMarker m) : ' ' ∉ m := fun h =>
  absurd (hm.notBlank _ h) (by decide)

/-- Behind another class name, a marker with a zero in it shows itself only in written form. -/
theorem not_shown_behind (hm : IsMarker m) (hnul : '\x00' ∈ m) (hs : ¬SurvivesWriting m) :
    Text.has m (classed ('x' :: ' ' :: m)).label.openingTag = false := by
  have hopening : (classed ('x' :: ' ' :: m)).label.openingTag =
      ['<', 'a'] ++ ' ' :: ("class=".toList ++ ['"', 'x'] ++ ' ' ::
        (m.flatMap escapedInAttribute ++ ['"', '>'])) := by
    have hx : escapedInAttribute 'x' = ['x'] := by decide
    have hspace : escapedInAttribute ' ' = [' '] := by decide
    rw [openingTag_classed, List.flatMap_cons, List.flatMap_cons, hx, hspace]
    simp
  rw [Text.has_eq_false_iff, hopening, Text.infix_append_cons_iff (not_mem_space hm),
    Text.infix_append_cons_iff (not_mem_space hm)]
  -- one of the three parts between the blanks, and only the last has a zero
  rintro (h | h | h)
  · exact absurd (h.subset hnul) (by decide)
  · exact absurd (h.subset hnul) (by decide)
  · rw [show ['"', '>'] = ['"'] ++ ['>'] from rfl, ← List.append_assoc,
      List.infix_concat_iff, List.infix_concat_iff, List.append_assoc] at h
    rcases h with h | h | h
    · exact not_suffix_written hnul (List.cons_ne_nil _ _) (by decide) h
    · exact not_suffix_written hnul (List.cons_ne_nil _ _) (by decide) h
    · exact hs h

/-- Between two class names of one letter, a marker that neither starts nor ends with the letter
shows itself only in written form. -/
theorem not_shown_between (hm : IsMarker m) {c : Char} (hself : escapedInAttribute c = [c])
    (hhead : m.head? ≠ some c) (hlast : m.getLast? ≠ some c) (hs : ¬SurvivesWriting m)
    (hp : ¬IsPunctuation m) :
    Text.has m (classed (c :: ' ' :: (m ++ [' ', c]))).label.openingTag = false := by
  obtain ⟨hclass, hend⟩ := not_or.1 hp
  have hname : ¬m <:+: ['<', 'a'] := by
    intro hi
    refine hs (survivesWriting_of_not_mem hm.notBlank (fun h => ?_) fun h => ?_)
    · exact absurd (hi.subset h) (by decide)
    · exact absurd (hi.subset h) (by decide)
  have hopening : (classed (c :: ' ' :: (m ++ [' ', c]))).label.openingTag =
      ['<', 'a'] ++ ' ' :: ("class=".toList ++ ['"'] ++ [c] ++ ' ' ::
        (m.flatMap escapedInAttribute ++ ' ' :: (c :: ['"', '>']))) := by
    have hspace : escapedInAttribute ' ' = [' '] := by decide
    rw [openingTag_classed]
    simp only [List.flatMap_cons, List.flatMap_append, List.flatMap_nil, hself, hspace]
    simp
  rw [Text.has_eq_false_iff, hopening, Text.infix_append_cons_iff (not_mem_space hm),
    Text.infix_append_cons_iff (not_mem_space hm), Text.infix_append_cons_iff (not_mem_space hm)]
  rintro (h | h | h | h)
  · exact hname h
  · exact hlast (Text.getLast?_of_infix_concat h hclass)
  · exact hs h
  · exact hhead (Text.head?_of_infix_cons h hend)

/-- A marker that does not survive writing and is no punctuation is hidden in some marked
markup. -/
theorem exists_hidden (hm : IsMarker m) (hs : ¬SurvivesWriting m) (hp : ¬IsPunctuation m) :
    ∃ (markup : Text) (root : Element), mark markup m = .ok root.written ∧
      Text.has m root.label.openingTag = false := by
  -- reading replaces zeros in the markup, so a marker that has one must be added by marking
  by_cases hnul : '\x00' ∈ m
  · have hne : m ≠ ['x'] := by
      rintro rfl
      exact absurd hnul (by decide)
    exact ⟨_, _, mark_behind hm hne, not_shown_behind hm hnul hs⟩
  · obtain ⟨c, hc, hhead, hlast⟩ := exists_letter m
    have hletters : ∀ c ∈ ['x', 'y', 'z'], (isBlank c = false ∧ c ≠ '\x00') ∧
        escapedInAttribute c = [c] := Text.forall_mem_of_all (by decide)
    obtain ⟨hplain, hself⟩ := hletters c hc
    exact ⟨_, _, mark_between hm hnul hplain, not_shown_between hm hself hhead hlast hs hp⟩

/-! ### Rendered markup -/

namespace HtmlShortcode

variable {s : HtmlShortcode}

/-- A signature takes some arguments: any that are not empty. -/
theorem exists_fill (signature : Signature) :
    ∃ args filled, signature.fill args = .ok filled := by
  let args : Arguments := ⟨signature.inputs.map fun input => (input.name, ['x']), []⟩
  have hnames : (args.values.map (·.1)).Nodup := by
    rw [List.map_map]
    exact signature.nodup_names
  refine ⟨args, _, Signature.fill_of_met fun input hi => ?_⟩
  rw [Arguments.get?_of_mem hnames (List.mem_map_of_mem hi)]
  exact input.not_unmet_some (by decide)

/-- The opening tag of what a shortcode renders has the marker as an attribute value is written, so
it shows a marker that occurs in its own written form. Any other marker, unless it is punctuation,
is not shown by what some template renders. -/
theorem convert_shows_marker (hb : s.Built) :
    (∀ args context F, s.convert args context = .ok F → ∃ root : Element, F = root.written ∧
      s.marker.flatMap escapedInAttribute <:+: root.label.openingTag ∧
      (SurvivesWriting s.marker → Text.has s.marker root.label.openingTag = true)) ∧
    (¬SurvivesWriting s.marker → ¬IsPunctuation s.marker →
      ∃ (template : Template) (args : Arguments) (root : Element),
        (∀ context, ({ s with template } : HtmlShortcode).convert args context =
          .ok root.written) ∧
        Text.has s.marker root.label.openingTag = false) := by
  constructor
  · intro args context F h
    obtain ⟨filled, markup, -, -, hmark⟩ := mark_of_convert h
    obtain ⟨f, -, -, rfl⟩ := mark_eq_ok_iff.1 hmark
    have hwritten := Label.infix_openingTag_addClass hb.marker f.root.label
    exact ⟨(f.addClass s.marker).root, rfl, hwritten,
      fun hs => Text.has_eq_true_iff.2 (hs.trans hwritten)⟩
  · intro hs hp
    obtain ⟨markup, root, hmark, hhidden⟩ := exists_hidden hb.marker hs hp
    obtain ⟨args, filled, hfill⟩ := exists_fill s.signature
    exact ⟨.computed fun _ _ => .ok markup, args, root,
      fun context => convert_of_mark hfill rfl hmark, hhidden⟩

/-- A shortcode whose name has an ampersand, and so has its marker. -/
def ampersand : HtmlShortcode :=
  { signature := ⟨⟨"a&b".toList, [], .positional⟩, by decide⟩
    template := .format "<b></b>".toList
    marker := "shortcode-a&b".toList
    paths := [] }

theorem ofSignature_ampersand :
    ofSignature ampersand.signature ampersand.template = .ok ampersand := by
  rfl

/-- A marker with an ampersand is hidden in some rendered markup. -/
theorem convert_shows_marker_ampersand :
    ∃ (template : Template) (args : Arguments) (root : Element),
      (∀ context, ({ ampersand with template } : HtmlShortcode).convert args context =
        .ok root.written) ∧
      Text.has "shortcode-a&b".toList root.label.openingTag = false := by
  have hhidden : ∀ t u : Text, Text.has t u = false → ¬t <:+: u :=
    fun t u h => Text.has_eq_false_iff.1 h
  refine (convert_shows_marker (built_of_ofSignature ofSignature_ampersand)).2
    (hhidden _ _ (by decide)) ?_
  exact not_or.2 ⟨hhidden _ _ (by decide), hhidden _ _ (by decide)⟩

/-- What the shortcode with the ampersand renders does not show its marker, and reversal leaves it
as it is. -/
theorem not_shown_ampersand :
    ampersand.convert {} .empty = .ok "<b class=\"shortcode-a&amp;b\"></b>".toList ∧
      ampersand.isReversible = true ∧
      Text.has ampersand.marker "<b class=\"shortcode-a&amp;b\">".toList = false ∧
      ampersand.reverse "<b class=\"shortcode-a&amp;b\"></b>".toList =
        .ok "<b class=\"shortcode-a&amp;b\"></b>".toList := by
  have hrender : ampersand.template.render ⟨[], []⟩ .empty = .ok "<b></b>".toList := by decide
  have hread : Fragment.read? "<b></b>".toList = some ⟨⟨⟨.html, "b", []⟩, []⟩, 1⟩ := rfl
  have hmark : mark "<b></b>".toList ampersand.marker =
      .ok "<b class=\"shortcode-a&amp;b\"></b>".toList := mark_of_read hread rfl rfl
  exact ⟨convert_of_mark rfl hrender hmark, by decide, by decide, rfl⟩

end HtmlShortcode

end Shortcodes
