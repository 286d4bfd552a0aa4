import Shortcodes.Proofs.Registry.Registration
import Shortcodes.Proofs.Signature.Filling
import Shortcodes.Proofs.Signature.Refusing
import Shortcodes.Proofs.Tag.Given

/-!
# Failures of expansion

Where all shortcodes that are registered are HTML shortcodes, each failure of a tag has a cause that
the shortcode of its name, the words and the context decide (`TagFails`), and a text fails as the
first of its tags that fails (`expandWith_fails`). An input that lacks its value keeps its shortcode
from rendering and is never reported by itself.
-/

namespace Shortcodes

namespace HtmlShortcode

variable {s : HtmlShortcode} {context : Context} {given : Given} {args : Arguments} {e : Failure}

/-! ### One shortcode -/

/-- Why what a tag gives is not rendered: it is refused as a whole, or an input lacks its value, or
the template has a fault, or what the template renders to is no single element. -/
inductive Fails (s : HtmlShortcode) (context : Context) (given : Given) : Failure → Prop
  | refused {e : Failure} (refused : s.signature.Refuses given e) : Fails s context given e
  | missing {input : Input} (accepted : s.signature.Accepts given)
      (first : Signature.FirstUnmet (s.signature.givenTo given) input) :
      Fails s context given (.rendering s.name (.missingInput s.name input.name))
  | template {bound : Arguments} {fault : TemplateFault}
      (binds : s.signature.bind given = .ok bound)
      (render : s.template.render bound context = .error fault) :
      Fails s context given (.rendering s.name (.template fault))
  | root {bound : Arguments} {markup : Text} {fault : RootFault}
      (binds : s.signature.bind given = .ok bound)
      (render : s.template.render bound context = .ok markup)
      (mark : Html.mark markup s.marker = .error fault) :
      Fails s context given (.rendering s.name (.root fault))

/-- Only a missing input is reported in another way. -/
theorem missingAsRendering_of_refuses (h : s.signature.Refuses given e) :
    missingAsRendering s.name e = e := by
  cases h with
  | keys | surplus | words | undeclared => rfl

theorem bind_eq_error_iff (hkeys : (given.keyed.map (·.1)).Nodup) :
    s.bind given = .error e ↔ s.signature.Refuses given e ∨ s.signature.Accepts given ∧
      ∃ input, Signature.FirstUnmet (s.signature.givenTo given) input ∧
        e = .rendering s.name (.missingInput s.name input.name) := by
  rw [bind, Except.mapError_eq_error_iff]
  constructor
  · rintro ⟨e, hbind, rfl⟩
    rcases (Signature.bind_eq_error_iff hkeys).1 hbind with
      hrefuses | ⟨haccepts, input, hfirst, rfl⟩
    · rw [missingAsRendering_of_refuses hrefuses]
      exact .inl hrefuses
    · exact .inr ⟨haccepts, input, hfirst, rfl⟩
  · rintro (hrefuses | ⟨haccepts, input, hfirst, rfl⟩)
    · exact ⟨e, Signature.bind_of_refuses hrefuses, missingAsRendering_of_refuses hrefuses⟩
    · exact ⟨_, (Signature.bind_eq_error_iff hkeys).2 (.inr ⟨haccepts, input, hfirst, rfl⟩), rfl⟩

theorem renderFilled_eq_error_iff : s.renderFilled args context = .error e ↔
    (∃ fault, s.template.render args context = .error fault ∧
        .rendering s.name (.template fault) = e) ∨
      ∃ markup, s.template.render args context = .ok markup ∧
        ∃ fault, Html.mark markup s.marker = .error fault ∧
          .rendering s.name (.root fault) = e := by
  rw [renderFilled, Except.bind_eq_error_iff, Except.mapError_eq_error_iff]
  simp only [Except.mapError_eq_ok_iff, Except.mapError_eq_error_iff]

/-- What is bound needs no filling. -/
theorem convert_of_bind (h : s.bind given = .ok args) :
    s.convert args context = s.renderFilled args context := by
  have hbound := Signature.complete_of_bind (bind_eq_ok_iff.1 h)
  rw [convert_eq, Signature.fill_of_complete hbound]
  rfl

/-- Binding and converting fail for the causes named, and for no other. -/
theorem fails_iff (hkeys : (given.keyed.map (·.1)).Nodup) : s.Fails context given e ↔
    s.bind given = .error e ∨
      ∃ args, s.bind given = .ok args ∧ s.convert args context = .error e := by
  constructor
  · intro h
    cases h with
    | refused refused => exact .inl ((bind_eq_error_iff hkeys).2 (.inl refused))
    | missing accepted first =>
      exact .inl ((bind_eq_error_iff hkeys).2 (.inr ⟨accepted, _, first, rfl⟩))
    | template binds render =>
      have hbind := bind_eq_ok_iff.2 binds
      refine .inr ⟨_, hbind, ?_⟩
      rw [convert_of_bind hbind, renderFilled_eq_error_iff]
      exact .inl ⟨_, render, rfl⟩
    | root binds render mark =>
      have hbind := bind_eq_ok_iff.2 binds
      refine .inr ⟨_, hbind, ?_⟩
      rw [convert_of_bind hbind, renderFilled_eq_error_iff]
      exact .inr ⟨_, render, _, mark, rfl⟩
  · rintro (hbind | ⟨args, hbind, hconvert⟩)
    · rcases (bind_eq_error_iff hkeys).1 hbind with hrefuses | ⟨haccepts, input, hfirst, rfl⟩
      · exact .refused hrefuses
      · exact .missing haccepts hfirst
    · rw [convert_of_bind hbind, renderFilled_eq_error_iff] at hconvert
      have hbound := bind_eq_ok_iff.1 hbind
      rcases hconvert with ⟨fault, hrender, rfl⟩ | ⟨markup, hrender, fault, hmark, rfl⟩
      · exact .template hbound hrender
      · exact .root hbound hrender hmark

theorem fails_missing_iff {name : Text} :
    s.Fails context given (.rendering s.name (.missingInput s.name name)) ↔
      s.signature.Accepts given ∧ ∃ input,
        Signature.FirstUnmet (s.signature.givenTo given) input ∧ input.name = name := by
  constructor
  · intro h
    cases h with
    | refused refused => cases refused
    | missing accepted first => exact ⟨accepted, _, first, rfl⟩
  · rintro ⟨accepted, input, first, rfl⟩
    exact .missing accepted first

theorem fails_template_iff {fault : TemplateFault} :
    s.Fails context given (.rendering s.name (.template fault)) ↔
      ∃ bound, s.signature.bind given = .ok bound ∧
        s.template.render bound context = .error fault := by
  constructor
  · intro h
    cases h with
    | refused refused => cases refused
    | template binds render => exact ⟨_, binds, render⟩
  · rintro ⟨bound, binds, render⟩
    exact .template binds render

theorem fails_root_iff {fault : RootFault} :
    s.Fails context given (.rendering s.name (.root fault)) ↔
      ∃ bound markup, s.signature.bind given = .ok bound ∧
        s.template.render bound context = .ok markup ∧
        Html.mark markup s.marker = .error fault := by
  constructor
  · intro h
    cases h with
    | refused refused => cases refused
    | root binds render mark => exact ⟨_, _, binds, render, mark⟩
  · rintro ⟨bound, markup, binds, render, mark⟩
    exact .root binds render mark

end HtmlShortcode

/-- The failures that a tag of this name can come to. All but those of its words name it. -/
inductive Failure.OfTag (name : Text) : Failure → Prop
  | unknownShortcode (source : Text) : OfTag name (.unknownShortcode name source)
  | badWords (fault : WordFault) : OfTag name (.badWords fault)
  | tooManyWords (count expected : Nat) : OfTag name (.tooManyWords name count expected)
  | unknownKeys (keys allowed : List Text) : OfTag name (.unknownKeys name keys allowed)
  | missingInput (input : Text) : OfTag name (.rendering name (.missingInput name input))
  | template (fault : TemplateFault) : OfTag name (.rendering name (.template fault))
  | root (fault : RootFault) : OfTag name (.rendering name (.root fault))

namespace Registry

variable {r : Registry} {taken : List HtmlShortcode} {context : Context} {tag : Tag} {e : Failure}

/-! ### One tag -/

/-- Why a tag is not rendered where these shortcodes are registered. -/
inductive TagFails (taken : List HtmlShortcode) (context : Context) (tag : Tag) : Failure → Prop
  | unknown (unnamed : tag.name ∉ taken.map HtmlShortcode.name) :
      TagFails taken context tag (.unknownShortcode tag.name tag.source)
  | badWords {s : HtmlShortcode} {fault : WordFault} (registered : s ∈ taken)
      (named : s.name = tag.name) (words : tag.given = .error fault) :
      TagFails taken context tag (.badWords fault)
  | fails {s : HtmlShortcode} {given : Given} {e : Failure} (registered : s ∈ taken)
      (named : s.name = tag.name) (words : tag.given = .ok given)
      (fails : s.Fails context given e) : TagFails taken context tag e

/-- The keys that a tag gives differ. -/
theorem nodup_keys_of_given {given : Given} (h : tag.given = .ok given) :
    (given.keyed.map (·.1)).Nodup := by
  obtain ⟨words, -, rfl⟩ := Except.map_eq_ok_iff.1 h
  exact Given.nodup_keys_ofWords words

theorem Holds.get?_html (h : r.Holds (taken.map HtmlShortcode.toShortcode)) {s : Shortcode} :
    r.get? tag.name = some s ↔
      ∃ html ∈ taken, html.name = tag.name ∧ html.toShortcode = s := by
  rw [h.get?_eq_some_iff, List.mem_map]
  constructor
  · rintro ⟨⟨html, hmem, rfl⟩, hname⟩
    exact ⟨html, hmem, hname, rfl⟩
  · rintro ⟨html, hmem, hname, rfl⟩
    exact ⟨⟨html, hmem, rfl⟩, hname⟩

theorem renderTag_eq_error_iff (h : r.Holds (taken.map HtmlShortcode.toShortcode)) :
    r.renderTag context tag = .error e ↔ TagFails taken context tag e := by
  rw [← renders_iff]
  constructor
  · intro hr
    generalize houtcome : (Except.error e : Except Failure Text) = outcome at hr
    cases hr with
    | unknown hname =>
      cases houtcome
      refine .unknown fun hmem => ?_
      obtain ⟨html, hhtml, hname'⟩ := List.mem_map.1 hmem
      rw [h.get?_html.2 ⟨html, hhtml, hname', rfl⟩] at hname
      cases hname
    | badWords hname hwords =>
      cases houtcome
      obtain ⟨html, hhtml, named, rfl⟩ := h.get?_html.1 hname
      exact .badWords hhtml named hwords
    | unbound hname hwords hbind =>
      cases houtcome
      obtain ⟨html, hhtml, named, rfl⟩ := h.get?_html.1 hname
      have hkeys := nodup_keys_of_given hwords
      exact .fails hhtml named hwords ((HtmlShortcode.fails_iff hkeys).2 (.inl hbind))
    | converted hname hwords hbind =>
      -- what is bound fails only as its conversion does
      obtain ⟨html, hhtml, named, rfl⟩ := h.get?_html.1 hname
      have hkeys := nodup_keys_of_given hwords
      have hconvert := (HtmlShortcode.fails_iff hkeys).2 (.inr ⟨_, hbind, houtcome.symm⟩)
      exact .fails hhtml named hwords hconvert
  · intro hfails
    cases hfails with
    | unknown unnamed =>
      refine .unknown ?_
      cases hname : r.get? tag.name with
      | none => rfl
      | some s =>
        obtain ⟨html, hhtml, named, rfl⟩ := h.get?_html.1 hname
        exact absurd (List.mem_map.2 ⟨html, hhtml, named⟩) unnamed
    | badWords registered named words =>
      exact .badWords (h.get?_html.2 ⟨_, registered, named, rfl⟩) words
    | fails registered named words fails =>
      have hname := h.get?_html.2 ⟨_, registered, named, rfl⟩
      have hkeys := nodup_keys_of_given words
      rcases (HtmlShortcode.fails_iff hkeys).1 fails with hbind | ⟨args, hbind, hconvert⟩
      · exact .unbound hname words hbind
      · rw [← hconvert]
        exact .converted hname words hbind

/-- A failure of a tag is of one of these kinds, and names the tag's shortcode. -/
theorem TagFails.ofTag (h : TagFails taken context tag e) : e.OfTag tag.name := by
  cases h with
  | unknown => exact .unknownShortcode _
  | badWords => exact .badWords _
  | fails _ named _ fails =>
    rw [← named]
    cases fails with
    | refused refused =>
      cases refused with
      | keys | undeclared => exact .unknownKeys _ _
      | surplus | words => exact .tooManyWords _ _
    | missing => exact .missingInput _
    | template => exact .template _
    | root => exact .root _

/-- Which shortcode a tag is for is settled by its name. -/
theorem Holds.html_eq (h : r.Holds (taken.map HtmlShortcode.toShortcode)) {s s' : HtmlShortcode}
    (hs : s ∈ taken) (hs' : s' ∈ taken) (hname : s.name = s'.name) : s = s' := by
  have hnodup : (taken.map HtmlShortcode.name).Nodup := by
    have := h.nodup
    rwa [List.map_map] at this
  exact List.inj_on_of_nodup_map hnodup hs hs' hname

/-- What a tag gives fails as its shortcode does on it. -/
theorem tagFails_iff (h : r.Holds (taken.map HtmlShortcode.toShortcode)) {s : HtmlShortcode}
    (registered : s ∈ taken) (named : s.name = tag.name) {given : Given}
    (words : tag.given = .ok given) : TagFails taken context tag e ↔ s.Fails context given e := by
  constructor
  · intro hfails
    cases hfails with
    | unknown unnamed => exact absurd (List.mem_map.2 ⟨s, registered, named⟩) unnamed
    | badWords _ _ words' =>
      rw [words] at words'
      cases words'
    | fails registered' named' words' fails =>
      rw [words] at words'
      cases words'
      rwa [h.html_eq registered registered' (named.trans named'.symm)]
  · exact .fails registered named words

/-! ### Texts -/

/-- Tags that all render have their texts. -/
theorem exists_forall₂_renders {ps : List Tag.Placed}
    (h : ∀ p ∈ ps, ∀ e, r.renderTag context p.tag ≠ .error e) :
    ∃ parts, List.Forall₂ (fun p part => r.Renders context p.tag (.ok part)) ps parts := by
  induction ps with
  | nil => exact ⟨[], .nil⟩
  | cons p ps ih =>
    obtain ⟨hp, hps⟩ := List.forall_mem_cons.1 h
    obtain ⟨parts, hparts⟩ := ih hps
    cases hpart : r.renderTag context p.tag with
    | error e => exact absurd hpart (hp e)
    | ok part => exact ⟨part :: parts, .cons (renders_iff.2 hpart) hparts⟩

/-- The first tag that fails decides. -/
theorem renderTags_fails_iff (h : r.Holds (taken.map HtmlShortcode.toShortcode))
    {ps : List Tag.Placed} : r.renderTags context ps = .error e ↔
      ∃ before p after, ps = before ++ p :: after ∧
        (∀ q ∈ before, ∀ e, ¬ TagFails taken context q.tag e) ∧
        TagFails taken context p.tag e := by
  rw [renderTags_eq_error_iff]
  constructor
  · rintro ⟨before, p, after, parts, hsplit, hbefore, hp⟩
    have hrendered : ∀ q ∈ before, ∀ e, ¬ TagFails taken context q.tag e := by
      refine ((List.forall₂_and_left _ _).1
        (hbefore.imp fun q part hq => ⟨fun e hfails => ?_, hq⟩)).1
      rw [← renderTag_eq_error_iff h, renders_iff.1 hq] at hfails
      cases hfails
    exact ⟨before, p, after, hsplit, hrendered, (renderTag_eq_error_iff h).1 (renders_iff.1 hp)⟩
  · rintro ⟨before, p, after, hsplit, hbefore, hp⟩
    obtain ⟨parts, hparts⟩ := exists_forall₂_renders fun q hq e he =>
      hbefore q hq e ((renderTag_eq_error_iff h).1 he)
    exact ⟨before, p, after, parts, hsplit, hparts, renders_iff.2 ((renderTag_eq_error_iff h).2 hp)⟩

/-- Where HTML shortcodes alone are registered, a text fails for want of any shortcode, or as the
first of its tags that fails. A tag that fails does so in one of the ways that `Failure.OfTag`
lists, so that a missing input is never reported by itself. It is what keeps the shortcode from
rendering exactly if the words suit the signature and the input is the first, in declaration order,
that must have a value and has none or an empty one. Otherwise rendering fails by the template or,
where that renders, by what it renders to. -/
theorem expandWith_fails (hr : Reachable r (taken.map HtmlShortcode.toShortcode))
    (context : Context) (t : Text) :
    (∀ e, r.expandWith context t = .error e ↔
      taken = [] ∧ e = .noShortcodes ∨ taken ≠ [] ∧ ∃ before p after,
        Tag.scan t = before ++ p :: after ∧
          (∀ q ∈ before, ∀ e, ¬ TagFails taken context q.tag e) ∧
          TagFails taken context p.tag e) ∧
      (∀ tag e, TagFails taken context tag e → e.OfTag tag.name) ∧
      ∀ s ∈ taken, ∀ tag given, s.name = tag.name → tag.given = .ok given →
        (∀ name, TagFails taken context tag (.rendering s.name (.missingInput s.name name)) ↔
          s.signature.Accepts given ∧ ∃ input,
            Signature.FirstUnmet (s.signature.givenTo given) input ∧ input.name = name) ∧
        (∀ fault, TagFails taken context tag (.rendering s.name (.template fault)) ↔
          ∃ bound, s.signature.bind given = .ok bound ∧
            s.template.render bound context = .error fault) ∧
        ∀ fault, TagFails taken context tag (.rendering s.name (.root fault)) ↔
          ∃ bound markup, s.signature.bind given = .ok bound ∧
            s.template.render bound context = .ok markup ∧
            Html.mark markup s.marker = .error fault := by
  have hholds := hr.holds
  refine ⟨fun e => ?_, fun tag e => TagFails.ofTag, fun s hs tag given named words => ?_⟩
  · by_cases hnone : taken = []
    · -- a registry without shortcodes does not look at the text
      have hempty : r.isEmpty = true := by
        rw [isEmpty, hholds.shortcodes_eq, hnone]
        rfl
      rw [expandWith, if_pos hempty]
      simp [hnone, eq_comm]
    · have hne : r.shortcodes ≠ [] := by
        rw [hholds.shortcodes_eq]
        exact mt List.map_eq_nil_iff.1 hnone
      rw [expandWith_eq_renderAll hne, renderAll_eq r context _ 0, Except.map_eq_error_iff,
        renderTags_fails_iff hholds]
      simp only [hnone, false_and, false_or, ne_eq, not_false_eq_true, true_and]
      rfl
  · -- the name leaves no other shortcode, so that what is left is about this one
    simp only [tagFails_iff hholds hs named words]
    exact ⟨fun _ => HtmlShortcode.fails_missing_iff, fun _ => HtmlShortcode.fails_template_iff,
      fun _ => HtmlShortcode.fails_root_iff⟩

/-- The first tag that fails decides: an image without a source before an unknown name, and the
other way round. -/
theorem expandWith_fails_image :
    let image : HtmlShortcode :=
      ⟨⟨⟨"img".toList, [{ name := "src".toList, required := true }, { name := "alt".toList }],
        .keyword {}⟩, by decide⟩,
        .format "<img src=\"\x7bsrc\x7d\" alt=\"\x7balt\x7d\">".toList, "shortcode-img".toList,
        [none, none]⟩
    let r : Registry := { shortcodes := [image.toShortcode] }
    Reachable r ([image].map HtmlShortcode.toShortcode) ∧
      r.expandWith .empty "[%img alt=x src='' %][%b%]".toList =
        .error (.rendering "img".toList (.missingInput "img".toList "src".toList)) ∧
      r.expandWith .empty "[%b%][%img alt=x src='' %]".toList =
        .error (.unknownShortcode ['b'] "[%b%]".toList) := by
  intro image r
  have hr : Reachable r ([image].map HtmlShortcode.toShortcode) := .listed rfl
  let tag : Tag := ⟨"img".toList, "alt=x src=''".toList, "[%img alt=x src='' %]".toList⟩
  let other : Tag := ⟨['b'], [], "[%b%]".toList⟩
  refine ⟨hr, ?_, ?_⟩
  · obtain ⟨herror, -, hcauses⟩ := expandWith_fails hr .empty "[%img alt=x src='' %][%b%]".toList
    obtain ⟨hmissing, -⟩ := hcauses image List.mem_cons_self tag
      ⟨[], [("alt".toList, ['x']), ("src".toList, [])]⟩ rfl (by decide)
    refine (herror _).2 (.inr ⟨List.cons_ne_nil _ _, [], ⟨tag, 0⟩, [⟨other, 21⟩], by decide,
      fun _ hq => absurd hq List.not_mem_nil,
      (hmissing _).2 ⟨?_, _, ⟨0, some [], rfl, ⟨rfl, ?_⟩, ?_⟩, rfl⟩⟩)
    · exact (Signature.accepts_keyword rfl).2 ⟨rfl, fun _ => by decide⟩
    · exact fun value hvalue => (Option.some.inj hvalue).symm
    · exact fun j hj => absurd hj (Nat.not_lt_zero j)
  · obtain ⟨herror, -⟩ := expandWith_fails hr .empty "[%b%][%img alt=x src='' %]".toList
    exact (herror _).2 (.inr ⟨List.cons_ne_nil _ _, [], ⟨other, 0⟩, [⟨tag, 5⟩], by decide,
      fun _ hq => absurd hq List.not_mem_nil, .unknown (by decide)⟩)

end Registry

end Shortcodes
