import Shortcodes.Proofs.Format.Filling
import Shortcodes.Proofs.Html.Anchor
import Shortcodes.Proofs.Html.Extent
import Shortcodes.Proofs.Registry.Expansion
import Shortcodes.Proofs.Shortcode.Built
import Shortcodes.Proofs.Shortcode.Reversal
import Shortcodes.Proofs.Signature.Positional
import Shortcodes.Registry
import Shortcodes.Shortcode.Html

/-!
# Links and back

The shortcode for links renders to a marked anchor (`convert_arguments`), and a marked anchor whose
values come back from markup unchanged is reversed to the canonical tag of these values
(`passages_marked`). Together they say how far a link comes back from its markup
(`reverse_convert`): what is lost is lost when the markup that was filled in is read for the first
time, so the second rendering is the same as the first.
-/

namespace Shortcodes

open Html Builder

namespace Link

/-- A link by its address and its text, given by position. -/
def declaration : Declaration :=
  ⟨"link".toList, [{ name := "url".toList, path := some "@href".toList },
    { name := "text".toList, path := some "text()".toList }], .positional⟩

/-- An anchor around the text. -/
def template : Template := .format "<a href=\"\x7burl\x7d\">\x7btext\x7d</a>".toList

/-- The shortcode for links, with the default marker. -/
def link : HtmlShortcode :=
  { signature := ⟨declaration, by decide⟩
    template
    marker := "shortcode-link".toList
    paths := [some ⟨"@href".toList, [(.child, .attribute "href".toList)]⟩,
      some ⟨"text()".toList, [(.child, .text)]⟩] }

theorem ofDeclaration_link : HtmlShortcode.ofDeclaration declaration template = .ok link := by
  rfl

/-- The arguments of a link. -/
def arguments (url text : Text) : Arguments :=
  ⟨[("url".toList, url), ("text".toList, text)], []⟩

theorem arguments_inj {url text url' text' : Text} :
    arguments url text = arguments url' text' ↔ url = url' ∧ text = text' := by
  simp [arguments]

theorem fill_arguments (url text : Text) :
    link.signature.fill (arguments url text) = .ok (arguments url text) := by
  rfl

theorem render_template (url text : Text) (context : Context) :
    template.render (arguments url text) context =
      .ok (anchorSource [("href".toList, escapeMarkup url)] (escapeMarkup text)) := by
  have hread : FormatReading.read "<a href=\"\x7burl\x7d\">\x7btext\x7d</a>".toList =
      ⟨"<a href=\"".toList.map .literal ++ [.placeholder "url".toList] ++
        "\">".toList.map .literal ++ [.placeholder "text".toList] ++
        "</a>".toList.map .literal, none⟩ := by
    decide
  have hurl : (arguments url text).answer? context (Text.trim "url".toList) = some url := rfl
  have htext : (arguments url text).answer? context (Text.trim "text".toList) = some text := rfl
  have hparts : FormatPart.fillAll (arguments url text) context
      ("<a href=\"".toList.map .literal ++ [.placeholder "url".toList] ++
        "\">".toList.map .literal ++ [.placeholder "text".toList] ++
        "</a>".toList.map .literal) =
      .ok (anchorSource [("href".toList, escapeMarkup url)] (escapeMarkup text)) := by
    rw [FormatPart.fillAll_append, FormatPart.fillAll_append, FormatPart.fillAll_append,
      FormatPart.fillAll_append, FormatPart.fillAll_literals, FormatPart.fillAll_literals,
      FormatPart.fillAll_literals, FormatPart.fillAll_placeholder hurl,
      FormatPart.fillAll_placeholder htext]
    simp [Except.bind, anchorSource, tagSource, attributeSource]
  rw [template, Template.render]
  simp only [hread, FormatReading.fill, hparts]
  rfl

/-- The anchor of a link before it is marked, and after. -/
def bare (url text : Text) : Element := anchor [("href", url)] text

@[inherit_doc bare]
def marked (url text : Text) : Element := anchor [("href", url), ("class", link.marker)] text

theorem sameUpToCase_href : Text.sameUpToCase "href".toList "href".toList = true := by decide

theorem sameUpToCase_href_class : Text.sameUpToCase "href".toList "class".toList = false := by
  decide

theorem sameUpToCase_class : Text.sameUpToCase "class".toList "class".toList = true := by decide

theorem words_marker : Text.words link.marker = [link.marker] := by decide

theorem hasClass_bare (url text : Text) : (bare url text).label.hasClass link.marker = false := by
  simp only [Label.hasClass, Label.classes, Label.attribute?, bare, anchor, htmlLabel, anchorTag,
    ownAttributes, List.map_cons, List.map_nil, List.find?_cons, sameUpToCase_href_class,
    List.find?_nil, Option.map_none, Option.getD_none, List.contains_nil]

theorem hasClass_marked (url text : Text) :
    (marked url text).label.hasClass link.marker = true := by
  simp only [Label.hasClass, Label.classes, Label.attribute?, marked, anchor, htmlLabel, anchorTag,
    ownAttributes, List.map_cons, List.map_nil, List.find?_cons, sameUpToCase_href_class,
    sameUpToCase_class, Option.map_some, words_marker, Option.getD_some]
  decide

theorem addClass_bare (url text : Text) :
    (bare url text).label.addClass link.marker = (marked url text).label := by
  rw [Label.addClass, hasClass_bare, if_neg Bool.false_ne_true]
  rfl

/-- What is rendered is read as the anchor with the values as markup gives them back. -/
theorem read?_rendered (url text : Text) :
    Fragment.read? (anchorSource [("href".toList, escapeMarkup url)] (escapeMarkup text)) =
      some ⟨bare (asAttribute url) (asContent text), 1⟩ := by
  have hnames : ∀ a ∈ [("href", url)], AttributeName a.1 := by
    intro a ha
    rw [List.mem_singleton.1 ha]
    exact attributeName_href
  rw [escapeMarkup_eq url, escapeMarkup_eq text]
  exact read?_coded codesAll_escapeMarkup (by decide) codesAll_escapeMarkup (by decide) hnames
    (List.nodup_singleton _) text

/-- Links are rendered to marked anchors. -/
theorem convert_arguments (url text : Text) (context : Context) :
    link.convert (arguments url text) context =
      .ok (marked (asAttribute url) (asContent text)).written := by
  have hwritten : (Fragment.addClass ⟨bare (asAttribute url) (asContent text), 1⟩
      link.marker).written = (marked (asAttribute url) (asContent text)).written := by
    simp only [Fragment.addClass, Fragment.written, addClass_bare]
    rfl
  exact HtmlShortcode.convert_of_mark (fill_arguments url text) (render_template url text context)
    (mark_of_read (read?_rendered url text) rfl hwritten)

/-! ### Reversal -/

/-- A marked anchor is read as itself when its values come back from markup unchanged. -/
theorem read?_written_marked {url text : Text} (hurl : Faithful url) (htext : Faithful text) :
    Fragment.read? (marked url text).written = some ⟨marked url text, 1⟩ := by
  have hnames : ∀ a ∈ [("href", url), ("class", link.marker)], AttributeName a.1 := by
    intro a ha
    rcases List.mem_pair.1 ha with rfl | rfl
    · exact attributeName_href
    · exact attributeName_class
  have hnodup : ([("href", url), ("class", link.marker)].map (·.1)).Nodup := by
    show ["href", "class"].Nodup
    decide
  refine read?_written_anchor hnames hnodup (fun a ha => ?_) htext
  rcases List.mem_pair.1 ha with rfl | rfl
  · exact hurl
  · exact ⟨by decide, by decide⟩

/-- The opening tag of a marked anchor. -/
def opening (url : Text) : Text :=
  '<' :: tagSource ['a'] [("href".toList, url.flatMap escapedInAttribute),
    ("class".toList, link.marker.flatMap escapedInAttribute)]

theorem openingTag_marked (url text : Text) :
    (marked url text).label.openingTag = opening url := by
  simp [marked, anchor, htmlLabel, anchorTag, ownAttributes, Label.openingTag, opening, tagSource,
    attributeSource, Attribute.written, Attribute.writtenName]

theorem isLoose_marked (url text : Text) : (marked url text).label.isLoose = true := by
  have hempty : (marked url text).label.isLoose =
      (anchor [("href", []), ("class", [])] []).label.isLoose := rfl
  rw [hempty]
  decide

/-- There is nothing but written text in a marked anchor. -/
theorem passable_marked (url text : Text) : (marked url text).Passable := by
  intro _
  have hraw : (marked url text).label.isRaw = false := by
    show Label.isRaw (htmlLabel (anchorTag [])) = false
    decide
  show Node.PassableAll _ _ (textNodes text)
  rw [hraw, textNodes]
  split
  · trivial
  · exact ⟨fun hin => absurd hin Bool.false_ne_true, trivial⟩

theorem isVoid_marked (url text : Text) : (marked url text).label.isVoid =
    LooseTag.standsAlone (marked url text).label.name.toList false := by
  show Label.isVoid (htmlLabel (anchorTag [])) = LooseTag.standsAlone "a".toList false
  decide

/-- The opening tag shows the marker. -/
theorem has_marker_opening (url : Text) : Text.has link.marker (opening url) = true := by
  have hmarker : link.marker.flatMap escapedInAttribute = link.marker := by decide
  rw [Text.has_eq_true_iff]
  refine ⟨'<' :: 'a' :: attributeSource ("href".toList, url.flatMap escapedInAttribute) ++
    " class=\"".toList, "\">".toList, ?_⟩
  rw [opening, hmarker]
  simp [tagSource, attributeSource]

theorem restoreAll_marked (url text : Text) :
    link.restoreAll (marked url text) = arguments url text := by
  have hurl : (⟨"@href".toList, [(.child, .attribute "href".toList)]⟩ : Lookup).value?
      (marked url text) = some url := by
    simp only [Lookup.value?, Lookup.follow, Lookup.reach, List.flatMap_cons, List.flatMap_nil,
      List.append_nil, List.findSome?_cons, Label.attribute?, marked, anchor, htmlLabel, anchorTag,
      ownAttributes, List.map_cons, List.find?_cons, sameUpToCase_href, Option.map_some]
  have htext : ((⟨"text()".toList, [(.child, .text)]⟩ : Lookup).value? (marked url text)).getD [] =
      text := by
    cases text with
    | nil => rfl
    | cons c text => rfl
  have hvalues : link.restoreAll (marked url text) =
      ⟨[("url".toList, ((⟨"@href".toList, [(.child, .attribute "href".toList)]⟩ : Lookup).value?
          (marked url text)).getD []),
        ("text".toList, ((⟨"text()".toList, [(.child, .text)]⟩ : Lookup).value?
          (marked url text)).getD [])], []⟩ := rfl
  rw [hvalues, hurl, htext]
  rfl

/-- A marked anchor is one passage, and the tag of its values takes its place. -/
theorem passages_marked {url text : Text} (hurl : Faithful url) (htext : Faithful text) :
    link.passages (marked url text).written =
      .ok [.claimed (marked url text).written (link.signature.canonical (arguments url text))] := by
  have hshown : Text.has link.marker (marked url text).label.openingTag = true := by
    rw [openingTag_marked]
    exact has_marker_opening url
  have hclaim : link.claim? (marked url text).written = some (marked url text) := by
    rw [HtmlShortcode.claim?, read?_written_marked hurl htext]
    exact if_pos (hasClass_marked url text)
  rw [HtmlShortcode.passages_written (isLoose_marked url text) (passable_marked url text)
    (isVoid_marked url text) hshown hclaim, HtmlShortcode.tagOf, restoreAll_marked]

theorem reverse_marked {url text : Text} (hurl : Faithful url) (htext : Faithful text) :
    link.reverse (marked url text).written =
      .ok (link.signature.canonical (arguments url text)) := by
  have hreversible : link.isReversible = true := by decide
  rw [HtmlShortcode.reverse, if_pos hreversible, passages_marked hurl htext]
  exact congrArg Except.ok (List.append_nil _)

/-- A link comes back from its markup as one tag that covers all of it. The tag binds to the values
as markup gives them back, which are the values of the link exactly when none of them has a carriage
return or a character whose code is zero, and it renders to the same markup again. -/
theorem reverse_convert (url text : Text) (context : Context) :
    HtmlShortcode.ofDeclaration declaration template = .ok link ∧
    ∃ markup tag given bound,
      link.convert (arguments url text) context = .ok markup ∧
      link.passages markup = .ok [.claimed markup tag.source] ∧
      link.reverse markup = .ok tag.source ∧
      Tag.scan tag.source = [⟨tag, 0⟩] ∧ tag.name = "link".toList ∧ tag.given = .ok given ∧
      link.bind given = .ok bound ∧
      (bound = arguments url text ↔ '\r' ∉ url ++ text ∧ '\x00' ∉ url ++ text) ∧
      ∀ r : Registry, r.get? "link".toList = some link.toShortcode →
        r.expandWith context tag.source = .ok markup := by
  refine ⟨ofDeclaration_link, ?_⟩
  have hurl := faithful_asAttribute url
  have htext := faithful_asContent text
  obtain ⟨tag, given, hread, hsource, hname, hgiven, hbind⟩ :=
    Signature.exists_read?_positional (s := link.signature) rfl
      (arguments (asAttribute url) (asContent text)) []
  rw [List.append_nil] at hread
  have hbound : link.bind given = .ok (arguments (asAttribute url) (asContent text)) := by
    have hoptional : ∀ input ∈ link.signature.inputs, input.required = false := by decide
    rw [HtmlShortcode.bind, hbind, Signature.resolved_eq_ok fun input hi hq => ?_]
    · rfl
    · rw [hoptional input hi] at hq
      cases hq
  have hsweep : Tag.sweep tag.source = [.tag tag] := by
    rw [hsource, Tag.sweep_of_read? hread]
    rfl
  refine ⟨(marked (asAttribute url) (asContent text)).written, tag, given,
    arguments (asAttribute url) (asContent text), convert_arguments url text context, ?_, ?_, ?_,
    hname, hgiven, hbound, ?_, ?_⟩
  · rw [hsource, passages_marked hurl htext]
  · rw [hsource, reverse_marked hurl htext]
  · rw [hsource, Tag.scan_of_read? hread]
    rfl
  · rw [arguments_inj, asAttribute_eq_self_iff, asContent_eq_self_iff]
    simp only [Faithful, List.mem_append, not_or]
    exact and_and_and_comm
  · intro r hr
    have hconvert : link.convert (arguments (asAttribute url) (asContent text)) context =
        .ok (marked (asAttribute url) (asContent text)).written := by
      rw [convert_arguments, asAttribute_eq_self_iff.2 hurl, asContent_eq_self_iff.2 htext]
    -- a registry that has the link is not empty
    have hempty : r.isEmpty = false := by
      rw [Registry.isEmpty]
      cases hs : r.shortcodes with
      | nil => rw [Registry.get?, hs] at hr; cases hr
      | cons s rest => rfl
    have htag : r.renderTag context tag =
        .ok (marked (asAttribute url) (asContent text)).written := by
      have hname' : r.get? tag.name = some link.toShortcode := by
        rw [hname]
        exact hr
      have hbound' : link.toShortcode.bind given = _ := hbound
      have hconvert' : link.toShortcode.convert _ context = _ := hconvert
      have hrenders : r.Renders context tag _ := .converted hname' hgiven hbound'
      rw [hconvert'] at hrenders
      exact Registry.renders_iff.1 hrenders
    rw [Registry.expandWith, hempty, if_neg Bool.false_ne_true, hsweep, Registry.renderAll,
      Registry.renderPiece, htag]
    exact congrArg Except.ok (List.append_nil _)

/-- A link whose values have what markup and tags would take for their own. -/
theorem reverse_convert_escaped :
    let url := "/?a=1&b=2".toList
    let text := "\"<%]".toList
    let markup := "<a href=\"/?a=1&amp;b=2\" class=\"shortcode-link\">\"&lt;%]</a>".toList
    let registry : Registry := { shortcodes := [link.toShortcode] }
    ∃ tag given, link.convert (arguments url text) .empty = .ok markup ∧
      link.reverse markup = .ok tag.source ∧ Tag.scan tag.source = [⟨tag, 0⟩] ∧
      tag.given = .ok given ∧ link.bind given = .ok (arguments url text) ∧
      registry.expandWith .empty tag.source = .ok markup := by
  intro url text markup registry
  obtain ⟨-, markup', tag, given, bound, hconvert, -, hreverse, hscan, -, hgiven, hbind, hiff,
    hexpand⟩ := reverse_convert url text .empty
  have hwritten : (marked (asAttribute url) (asContent text)).written = markup := by decide
  obtain rfl : markup' = markup := by
    rw [convert_arguments, hwritten] at hconvert
    exact (Except.ok.inj hconvert).symm
  rw [hiff.2 (by decide)] at hbind
  exact ⟨tag, given, hconvert, hreverse, hscan, hgiven, hbind, hexpand registry rfl⟩

end Link

end Shortcodes
