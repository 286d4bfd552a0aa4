import Shortcodes.Proofs.Html.FirstTag
import Shortcodes.Proofs.Html.Rereading.Steady

/-!
# Start tags that open one element

A start tag in the body may close what is open before its own element is opened: a block ends the
paragraph around it, an item the item before it. Where an element stands in none that its start tag
would close (`admits`), the tag opens it and does nothing else (`Steady.bodyStart_opens`), or adds it
if it has no content (`Steady.bodyStart_adds`).
-/

namespace Shortcodes.Html

namespace Builder

variable {b : Builder} {a : Arena} {cur : OpenElement} {stack around : List OpenElement}
  {tag : StartTag} {skip : Bool}

/-! ### What a start tag closes -/

/-- Elements that end the paragraph around them. -/
def endsParagraph : List String :=
  Names.block ++ Names.heading ++ ["pre", "listing", "form", "li", "dd", "dt", "hr", "xmp"]

/-- Whether the innermost open element meets a condition. -/
def innermost (p : OpenElement → Bool) (around : List OpenElement) : Bool :=
  (around.head?.map p).getD false

/-- Whether the innermost open element, inside a `ruby`, is one of those whose end tag may be left
out. -/
def endsInRuby (names : List String) (around : List OpenElement) : Bool :=
  inScopeWhere OpenElement.boundsScope (·.isHtml "ruby") around && innermost (·.isAnyOf names) around

/-- Names of elements, each with what around them has their start tags do more than open them. -/
def disturbing : List (List String × (List OpenElement → Bool)) :=
  [(endsParagraph, inScopeWhere OpenElement.boundsButtonScope (·.isHtml "p")),
   (Names.heading, innermost (·.isAnyOf Names.heading)),
   (["li"], fun around => (openItem? ["li"] around).isSome),
   (["dd", "dt"], fun around => (openItem? ["dd", "dt"] around).isSome),
   (["form"], fun around => around.any (·.isHtml "form")),
   (["a"], fun around => around.any (·.isHtml "a")),
   (["nobr"], inScopeWhere OpenElement.boundsScope (·.isHtml "nobr")),
   (["button"], inScopeWhere OpenElement.boundsScope (·.isHtml "button")),
   (["optgroup", "option"], innermost (·.isHtml "option")),
   (["rb", "rtc"], endsInRuby Names.impliedEnd),
   (["rp", "rt"], endsInRuby (Names.impliedEnd.filter (· != "rtc")))]

/-- Whether an HTML element of a name may stand among open elements, innermost first, without its
start tag doing more than opening it. -/
def admits (around : List OpenElement) (name : String) : Bool :=
  disturbing.all fun r => !(r.1.contains name && r.2 around)

theorem undisturbed {name : String} (h : admits around name = true) :
    ∀ r ∈ disturbing, r.1.contains name = true → r.2 around = false := by
  intro r hr hname
  have hrule := List.all_eq_true.1 h r hr
  rw [hname, Bool.true_and] at hrule
  simpa using hrule

/-- HTML elements that are not read like any other element with content. -/
def irregular : List String :=
  ["html", "body", "frameset", "image", "plaintext", "select", "table", "textarea", "math", "svg"] ++
    Names.metadata ++ Names.ignoredInBody ++ Names.void ++ Names.rawText

theorem not_beq_of_notMem {name other : String} {names : List String} (h : name ∉ names)
    (hother : other ∈ names) : ¬(name == other) = true := fun he =>
  h (beq_iff_eq.1 he ▸ hother)

theorem mem_of_mem_sinceBound {entries : List Formatting} {id : Nat}
    (h : (id, tag) ∈ sinceBound entries) : Formatting.element id tag ∈ entries := by
  induction entries with
  | nil => cases h
  | cons entry entries ih =>
    cases entry with
    | bound => cases h
    | element id' tag' =>
      rcases List.mem_cons.1 h with heq | h
      · cases heq
        exact List.mem_cons_self
      · exact List.mem_cons_of_mem _ (ih h)

namespace Steady

/-! ### Rules without effect -/

theorem closeParagraphInScope_eq (h : Steady stack a skip b)
    (hp : inScopeWhere OpenElement.boundsButtonScope (·.isHtml "p") stack = false) :
    b.closeParagraphInScope = b := by
  rw [closeParagraphInScope, paragraphInScope, h.stack_eq, hp, if_neg Bool.false_ne_true]

theorem atHtml_eq (h : Steady stack a skip b) (name : String) :
    b.atHtml name = innermost (·.isHtml name) stack := by
  rw [atHtml, h.stack_eq]
  rfl

theorem atAnyOf_eq (h : Steady stack a skip b) (names : List String) :
    b.atAnyOf names = innermost (·.isAnyOf names) stack := by
  rw [atAnyOf, h.stack_eq]
  rfl

theorem inScope_eq (h : Steady stack a skip b) (name : String) :
    b.inScope name = inScopeWhere OpenElement.boundsScope (·.isHtml name) stack := by
  rw [inScope, h.stack_eq]

theorem closeImplied_eq (h : Steady (cur :: stack) a skip b) {names : List String}
    (hnone : innermost (·.isAnyOf names) (cur :: stack) = false) : b.closeImplied names = b := by
  have hcur : cur.isAnyOf names = false := hnone
  rw [closeImplied, h.stack_eq, List.dropWhile_cons_of_neg (by simp [hcur]), ← h.stack_eq]

theorem closeImplied_eq_of_ruby (h : Steady (cur :: stack) a skip b) {names : List String}
    (hnone : endsInRuby names (cur :: stack) = false) :
    (if b.inScope "ruby" then b.closeImplied names else b) = b := by
  rw [endsInRuby, ← h.inScope_eq, Bool.and_eq_false_iff] at hnone
  rcases hnone with hnone | hnone
  · rw [hnone, if_neg Bool.false_ne_true]
  · rw [h.closeImplied_eq hnone, ite_self]

theorem closeOpenLink_eq (h : Steady stack a skip b)
    (hlink : stack.any (·.isHtml "a") = false) : b.closeOpenLink = b := by
  unfold closeOpenLink
  split
  · rfl
  · next id tag hfound =>
    have hname := List.find?_some hfound
    dsimp only at hname
    obtain ⟨e, he, -, hopen, -⟩ :=
      h.settled.exists_open (mem_of_mem_sinceBound (List.mem_of_find?_eq_some hfound))
    rw [beq_iff_eq.1 hname] at hopen
    exact absurd hopen (List.any_eq_false.1 hlink e he)

/-! ### Elements that are opened -/

/-- The element of a start tag is open, and nothing else has changed. -/
abbrev Opened (cur : OpenElement) (stack : List OpenElement) (a : Arena) (tag : StartTag)
    (skip : Bool) (c : Builder) : Prop :=
  Steady (opening a.size (htmlLabel tag) :: cur :: stack)
    (a.sprout cur.id (.element (htmlLabel tag) none)) skip c

/-- Elements that a state remembers in other ways than by their being open. -/
def marked : List String := "template" :: "form" :: Names.embedding

theorem isTemplate_htmlLabel (h : tag.name ≠ "template") : isTemplate (htmlLabel tag) = false := by
  simpa [isTemplate, htmlLabel] using h

theorem isHtml_opening (id : Nat) (tag : StartTag) (name : String) :
    (opening id (htmlLabel tag)).isHtml name = (tag.name == name) := rfl

theorem isAnyOf_opening (id : Nat) (tag : StartTag) (names : List String) :
    (opening id (htmlLabel tag)).isAnyOf names = names.contains tag.name := rfl

theorem insert (h : Steady (cur :: stack) a skip b) (hname : tag.name ∉ marked) :
    Opened cur stack a tag skip (b.insert tag) := by
  simp only [marked, List.mem_cons, not_or] at hname
  obtain ⟨htemplate, hform, hembedding⟩ := hname
  refine h.insertLabel (isTemplate_htmlLabel htemplate) ?_ ?_
  · rw [isHtml_opening, beq_eq_false_iff_ne]
    exact hform
  · rw [isAnyOf_opening]
    simpa using hembedding

theorem insertForm (h : Steady (cur :: stack) a skip b) (hname : tag.name = "form")
    (hp : inScopeWhere OpenElement.boundsButtonScope (·.isHtml "p") (cur :: stack) = false)
    (hforms : (cur :: stack).any (·.isHtml "form") = false) :
    Opened cur stack a tag skip (b.insertForm tag) := by
  have hlabel : isTemplate (htmlLabel tag) = false :=
    isTemplate_htmlLabel (by rw [hname]; decide)
  have hnoform : b.form = none := by
    rw [h.form_eq, Option.map_eq_none_iff, List.find?_eq_none]
    exact List.any_eq_false.1 hforms
  have htemplate : b.hasOpen "template" = false := by
    rw [hasOpen, h.stack_eq, h.template_eq]
  have hembedding : (opening a.size (htmlLabel tag)).isAnyOf Names.embedding = false := by
    rw [isAnyOf_opening, hname]
    decide
  have hfound : some a.size = ((opening a.size (htmlLabel tag) :: cur :: stack).find?
      (·.isHtml "form")).map (·.id) := by
    rw [List.find?_cons_of_pos (by rw [isHtml_opening, hname]; decide)]
    rfl
  have hpush := h.push hlabel (.other h.settled hembedding) hfound
  rw [h.insertLabel_eq hlabel] at hpush
  rw [Builder.insertForm, htemplate, hnoform, h.closeParagraphInScope_eq hp]
  dsimp only
  rw [h.insertLabel_eq hlabel]
  exact hpush

theorem insertItem_eq_insert (h : Steady (cur :: stack) a skip b)
    (hp : inScopeWhere OpenElement.boundsButtonScope (·.isHtml "p") (cur :: stack) = false)
    (hitem : openItem? (if tag.name == "li" then ["li"] else ["dd", "dt"]) (cur :: stack) = none) :
    b.insertItem tag = { b with framesetOk := false }.insert tag := by
  rw [← h.stack_eq] at hitem
  rw [Builder.insertItem]
  dsimp only
  rw [hitem]
  dsimp only
  rw [(h.with_framesetOk false).closeParagraphInScope_eq hp]

theorem insertButton_eq_insert (h : Steady (cur :: stack) a skip b)
    (hbutton : inScopeWhere OpenElement.boundsScope (·.isHtml "button") (cur :: stack) = false) :
    b.insertButton tag = { b.insert tag with framesetOk := false } := by
  rw [Builder.insertButton, h.inScope_eq, hbutton, if_neg Bool.false_ne_true,
    h.reopenFormatting_eq]

theorem insertUnbroken_eq_insertFormatting (h : Steady (cur :: stack) a skip b)
    (hnobr : inScopeWhere OpenElement.boundsScope (·.isHtml "nobr") (cur :: stack) = false) :
    b.insertUnbroken tag = b.insertFormatting tag := by
  rw [Builder.insertUnbroken, h.reopenFormatting_eq, h.inScope_eq, hnobr,
    if_neg Bool.false_ne_true]

/-- An element that holds a document of its own sets a bound. -/
theorem insertEmbedding (h : Steady (cur :: stack) a skip b)
    (hname : tag.name ∈ Names.embedding) :
    Opened cur stack a tag skip { (b.insert tag).pushBound with framesetOk := false } := by
  have hnone : ∀ name ∈ Names.embedding, name ≠ "template" ∧ name ≠ "form" := by decide
  have hlabel : isTemplate (htmlLabel tag) = false := isTemplate_htmlLabel (hnone _ hname).1
  have hform : (opening a.size (htmlLabel tag)).isHtml "form" = false := by
    rw [isHtml_opening, beq_eq_false_iff_ne]
    exact (hnone _ hname).2
  have hembedding : (opening a.size (htmlLabel tag)).isAnyOf Names.embedding = true := by
    rw [isAnyOf_opening]
    simpa using hname
  have hpush := h.push hlabel (.bound h.settled hembedding) (h.form_push hform)
  rw [h.insertLabel_eq hlabel] at hpush
  rw [pushBound, Builder.insert, h.insertLabel_eq hlabel]
  exact hpush.with_framesetOk false

/-! ### Start tags in the body -/

theorem forall_mem_ite {P : Builder → Prop} {c : Bool} {x : Builder} {rest : Option Builder}
    (hx : c = true → P x) (hrest : c = false → ∀ y ∈ rest, P y) :
    ∀ y ∈ (if c = true then some x else rest), P y := by
  cases c with
  | false => exact hrest rfl
  | true =>
    rintro y ⟨⟩
    exact hx rfl

/-- Elements right behind whose start tag a line break does not count. -/
def breaking : List String := ["pre", "listing"]

/-- Most elements are opened without a mark, and a line break behind their tags counts. -/
def isPlain (name : String) : Bool := !marked.contains name && !breaking.contains name

theorem insert_of_isPlain (h : Steady (cur :: stack) a false b) (hname : isPlain tag.name = true) :
    Opened cur stack a tag (breaking.contains tag.name) (b.insert tag) := by
  simp only [isPlain, Bool.and_eq_true, Bool.not_eq_true'] at hname
  rw [hname.2]
  refine h.insert fun hm => ?_
  rw [List.contains_iff_mem.2 hm] at hname
  cases hname.1

theorem blockStart? (h : Steady (cur :: stack) a false b) (hname : tag.name ∉ irregular)
    (hadmits : admits (cur :: stack) tag.name = true) :
    ∀ c ∈ b.blockStart? tag, Opened cur stack a tag (breaking.contains tag.name) c := by
  have hrules := undisturbed hadmits
  simp only [disturbing, List.forall_mem_cons] at hrules
  obtain ⟨hp, hheadings, hli, hdd, hforms, -⟩ := hrules
  have hclose : endsParagraph.contains tag.name = true → b.closeParagraphInScope = b :=
    fun hends => h.closeParagraphInScope_eq (hp hends)
  have hblock : ∀ name ∈ Names.block, endsParagraph.contains name = true ∧ isPlain name = true := by
    decide
  have hheading : ∀ name ∈ Names.heading,
      endsParagraph.contains name = true ∧ isPlain name = true := by decide
  have hregular : ∀ other ∈ irregular, ¬(tag.name == other) = true :=
    fun _ => not_beq_of_notMem hname
  unfold Builder.blockStart?
  dsimp only
  -- one case for each rule, in their order; an irregular name meets none of its own
  refine forall_mem_ite (fun hc => ?_) fun _ => forall_mem_ite (fun hc => ?_) fun _ =>
    forall_mem_ite (fun hc => ?_) fun _ => forall_mem_ite (fun hc => ?_) fun _ =>
    forall_mem_ite (fun hc => ?_) fun _ => forall_mem_ite (fun hc => ?_) fun _ =>
    forall_mem_ite (fun hc => ?_) fun _ => forall_mem_ite (fun hc => ?_) fun _ =>
    forall_mem_ite (fun hc => ?_) fun _ c hc => ?_
  · obtain ⟨hends, hplain⟩ := hblock _ (List.contains_iff_mem.1 hc)
    rw [hclose hends]
    exact h.insert_of_isPlain hplain
  · obtain ⟨hends, hplain⟩ := hheading _ (List.contains_iff_mem.1 hc)
    have hat : b.atAnyOf Names.heading = false :=
      (h.atAnyOf_eq _).trans (hheadings hc)
    rw [hclose hends, hat, if_neg Bool.false_ne_true]
    exact h.insert_of_isPlain hplain
  · have hpre : ∀ name, name = "pre" ∨ name = "listing" → endsParagraph.contains name = true ∧
        breaking.contains name = true ∧ name ∉ marked := by
      rintro name (rfl | rfl) <;> decide
    obtain ⟨hends, hbreaking, hm⟩ := hpre _ (by simpa using hc)
    rw [hclose hends, hbreaking]
    exact ((h.insert hm).with_skipBreak true).with_framesetOk false
  · have hform : tag.name = "form" := beq_iff_eq.1 hc
    have hbreaking : breaking.contains tag.name = false := by rw [hform]; decide
    rw [hbreaking]
    exact h.insertForm hform (hp (by rw [hform]; decide)) (hforms (by rw [hform]; decide))
  · have hname : tag.name = "li" ∨ tag.name = "dd" ∨ tag.name = "dt" := by
      simpa [or_assoc] using hc
    have hitems : ∀ name, name = "li" ∨ name = "dd" ∨ name = "dt" →
        endsParagraph.contains name = true ∧ isPlain name = true := by
      rintro name (rfl | rfl | rfl) <;> decide
    obtain ⟨hends, hplain⟩ := hitems _ hname
    have hitem : openItem? (if tag.name == "li" then ["li"] else ["dd", "dt"]) (cur :: stack) =
        none := by
      refine Option.not_isSome_iff_eq_none.1 (Bool.eq_false_iff.1 ?_)
      rcases hname with hname | hname | hname <;> rw [hname]
      · exact hli (by rw [hname]; decide)
      · exact hdd (by rw [hname]; decide)
      · exact hdd (by rw [hname]; decide)
    rw [insertItem_eq_insert h (hp hends) hitem]
    exact (h.with_framesetOk false).insert_of_isPlain hplain
  · exact absurd hc (hregular "plaintext" (by decide))
  · exact absurd hc (hregular "table" (by decide))
  · exact absurd hc (hregular "hr" (by decide))
  · exact absurd hc (hregular "xmp" (by decide))
  · cases hc

theorem inlineStart? (h : Steady (cur :: stack) a false b) (hname : tag.name ∉ irregular)
    (hadmits : admits (cur :: stack) tag.name = true) :
    ∀ c ∈ b.inlineStart? tag, Opened cur stack a tag (breaking.contains tag.name) c := by
  have hrules := undisturbed hadmits
  simp only [disturbing, List.forall_mem_cons] at hrules
  obtain ⟨-, -, -, -, -, hlinks, hnobrs, hbuttons, hoptions, hbases, htexts, -⟩ := hrules
  have hregular : ∀ other ∈ irregular, ¬(tag.name == other) = true :=
    fun _ => not_beq_of_notMem hname
  have hformatting : tag.name ∈ remembered →
      Opened cur stack a tag (breaking.contains tag.name) (b.insertFormatting tag) := by
    intro hm
    have hbreaking : ∀ name ∈ remembered, breaking.contains name = false := by decide
    rw [hbreaking _ hm]
    exact h.insertFormatting hm
  unfold Builder.inlineStart?
  dsimp only
  rw [h.reopenFormatting_eq]
  -- one case for each rule, in their order; an irregular name meets none of its own
  refine forall_mem_ite (fun hc => ?_) fun _ => forall_mem_ite (fun hc => ?_) fun _ =>
    forall_mem_ite (fun hc => ?_) fun _ => forall_mem_ite (fun hc => ?_) fun _ =>
    forall_mem_ite (fun hc => ?_) fun _ => forall_mem_ite (fun hc => ?_) fun _ =>
    forall_mem_ite (fun hc => ?_) fun _ => forall_mem_ite (fun hc => ?_) fun _ =>
    forall_mem_ite (fun hc => ?_) fun _ => forall_mem_ite (fun hc => ?_) fun _ =>
    forall_mem_ite (fun hc => ?_) fun _ => forall_mem_ite (fun hc => ?_) fun _ =>
    forall_mem_ite (fun hc => ?_) fun _ => forall_mem_ite (fun hc => ?_) fun _ =>
    forall_mem_ite (fun hc => ?_) fun _ => forall_mem_ite (fun hc => ?_) fun _ =>
    forall_mem_ite (fun hc => ?_) fun _ c hc => ?_
  · have hlink : tag.name = "a" := beq_iff_eq.1 hc
    rw [h.closeOpenLink_eq (hlinks (by rw [hlink]; decide)), h.reopenFormatting_eq]
    exact hformatting (by rw [hlink]; decide)
  · exact hformatting (List.mem_cons_of_mem _ (List.mem_cons_of_mem _ (List.contains_iff_mem.1 hc)))
  · have hnobr : tag.name = "nobr" := beq_iff_eq.1 hc
    rw [h.insertUnbroken_eq_insertFormatting (hnobrs (by rw [hnobr]; decide))]
    exact hformatting (by rw [hnobr]; decide)
  · have hbutton : tag.name = "button" := beq_iff_eq.1 hc
    rw [h.insertButton_eq_insert (hbuttons (by rw [hbutton]; decide))]
    exact (h.insert_of_isPlain (by rw [hbutton]; decide)).with_framesetOk false
  · have hbreaking : ∀ name ∈ Names.embedding, breaking.contains name = false := by decide
    have hm := List.contains_iff_mem.1 hc
    rw [hbreaking _ hm]
    exact h.insertEmbedding hm
  · have hvoid : ∀ name ∈ Names.inlineVoid, name ∈ irregular := by decide
    exact absurd (hvoid _ (List.contains_iff_mem.1 hc)) hname
  · exact absurd hc (hregular "image" (by decide))
  · have hvoid : ∀ name, name = "param" ∨ name = "source" ∨ name = "track" → name ∈ irregular := by
      rintro name (rfl | rfl | rfl) <;> decide
    exact absurd (hvoid tag.name (by simpa [or_assoc] using hc)) hname
  · exact absurd hc (hregular "textarea" (by decide))
  · exact absurd hc (hregular "iframe" (by decide))
  · have hraw : ∀ name, name = "noembed" ∨ name = "noscript" → name ∈ irregular := by
      rintro name (rfl | rfl) <;> decide
    exact absurd (hraw tag.name (by simpa using hc)) hname
  · exact absurd hc (hregular "select" (by decide))
  · have hnames : ∀ name, name = "optgroup" ∨ name = "option" →
        isPlain name = true ∧ ["optgroup", "option"].contains name = true := by
      rintro name (rfl | rfl) <;> decide
    obtain ⟨hplain, hrule⟩ := hnames tag.name (by simpa using hc)
    have hat : b.atHtml "option" = false := (h.atHtml_eq _).trans (hoptions hrule)
    rw [hat, if_neg Bool.false_ne_true, h.reopenFormatting_eq]
    exact h.insert_of_isPlain hplain
  · have hnames : ∀ name, name = "rb" ∨ name = "rtc" →
        isPlain name = true ∧ ["rb", "rtc"].contains name = true := by
      rintro name (rfl | rfl) <;> decide
    obtain ⟨hplain, hrule⟩ := hnames tag.name (by simpa using hc)
    rw [h.closeImplied_eq_of_ruby (hbases hrule)]
    exact h.insert_of_isPlain hplain
  · have hnames : ∀ name, name = "rp" ∨ name = "rt" →
        isPlain name = true ∧ ["rp", "rt"].contains name = true := by
      rintro name (rfl | rfl) <;> decide
    obtain ⟨hplain, hrule⟩ := hnames tag.name (by simpa using hc)
    rw [closeImpliedExcept, h.closeImplied_eq_of_ruby (htexts hrule)]
    exact h.insert_of_isPlain hplain
  · exact absurd hc (hregular "math" (by decide))
  · exact absurd hc (hregular "svg" (by decide))
  · cases hc

/-- Where it may stand, an element is opened by its start tag, and nothing else changes. -/
theorem bodyStart_opens (h : Steady (cur :: stack) a false b) (hname : tag.name ∉ irregular)
    (hadmits : admits (cur :: stack) tag.name = true) :
    Opened cur stack a tag (breaking.contains tag.name) (b.bodyStart tag).1 := by
  have hregular : ∀ other ∈ irregular, ¬(tag.name == other) = true :=
    fun _ => not_beq_of_notMem hname
  have hmetadata : ¬Names.metadata.contains tag.name = true := fun hc =>
    hname (List.mem_append_left _ (List.mem_append_left _ (List.mem_append_left _
      (List.mem_append_right _ (List.contains_iff_mem.1 hc)))))
  have hignored : ¬Names.ignoredInBody.contains tag.name = true := fun hc =>
    hname (List.mem_append_left _ (List.mem_append_left _ (List.mem_append_right _
      (List.contains_iff_mem.1 hc))))
  unfold bodyStart
  rw [if_neg (hregular "html" (by decide)), if_neg hmetadata, if_neg (hregular "body" (by decide)),
    if_neg (hregular "frameset" (by decide))]
  cases hblock : b.blockStart? tag with
  | some c => exact h.blockStart? hname hadmits c hblock
  | none =>
    cases hinline : b.inlineStart? tag with
    | some c => exact h.inlineStart? hname hadmits c hinline
    | none =>
      -- elements that are not plain have a rule of their own
      have hrule : ∀ name, isPlain name = false → name ∈ irregular ∨
          (Builder.blockStart? {} { name }).isSome = true ∨
            (Builder.inlineStart? {} { name }).isSome = true := by
        intro name hn
        have hall : ∀ name ∈ marked ++ breaking, name ∈ irregular ∨
            (Builder.blockStart? {} { name }).isSome = true ∨
              (Builder.inlineStart? {} { name }).isSome = true := by decide
        refine hall name (List.mem_append.2 ?_)
        simpa [isPlain, Bool.and_eq_false_iff, or_iff_not_imp_left] using hn
      have hplain : isPlain tag.name = true := by
        by_contra hn
        rcases hrule _ (Bool.eq_false_iff.2 hn) with hm | hsome | hsome
        · exact hname hm
        · rw [← isSome_blockStart? b, hblock] at hsome
          cases hsome
        · rw [← isSome_inlineStart? b, hinline] at hsome
          cases hsome
      dsimp only
      rw [if_neg hignored, h.reopenFormatting_eq]
      exact h.insert_of_isPlain hplain

/-! ### Start tags of elements without content -/

theorem insertClosed (h : Steady (cur :: stack) a skip b) (hname : tag.name ≠ "template") :
    Steady (cur :: stack) (a.sprout cur.id (.element (htmlLabel tag) none)) skip
      (b.insertClosed tag) :=
  h.insertLeaf (isTemplate_htmlLabel hname)

theorem insertVoid (h : Steady (cur :: stack) a skip b) (hname : tag.name ≠ "template") :
    Steady (cur :: stack) (a.sprout cur.id (.element (htmlLabel tag) none)) skip
      (b.insertVoid tag) := by
  unfold Builder.insertVoid
  dsimp only
  rw [h.reopenFormatting_eq]
  split
  · exact h.insertClosed hname
  · exact (h.insertClosed hname).with_framesetOk false

/-- Elements without content that run with the text and leave no mark. -/
def inlineClosed : List String := ["param", "source", "track"]

/-- Elements without content that belong into the head. -/
def metadataVoid : List String := ["base", "basefont", "bgsound", "link", "meta"]

/-- Elements without content that the body does not pass over. -/
def closedAtOnce : List String := "hr" :: Names.inlineVoid ++ inlineClosed ++ metadataVoid

theorem bodyStart_of_inlineVoid (b : Builder) (h : tag.name ∈ Names.inlineVoid) :
    b.bodyStart tag = (b.insertVoid tag).done := by
  obtain ⟨name, attributes, selfClosing⟩ := tag
  simp only [Names.inlineVoid, List.mem_cons, List.not_mem_nil, or_false] at h
  rcases h with rfl | rfl | rfl | rfl | rfl | rfl | rfl <;> rfl

theorem bodyStart_of_closed (b : Builder) (h : tag.name ∈ inlineClosed ++ metadataVoid) :
    b.bodyStart tag = (b.insertClosed tag).done := by
  obtain ⟨name, attributes, selfClosing⟩ := tag
  simp only [inlineClosed, metadataVoid, List.cons_append, List.nil_append, List.mem_cons,
    List.not_mem_nil, or_false] at h
  rcases h with rfl | rfl | rfl | rfl | rfl | rfl | rfl | rfl <;> rfl

theorem bodyStart_of_hr (b : Builder) (h : tag.name = "hr") :
    b.bodyStart tag =
      Builder.done { b.closeParagraphInScope.insertClosed tag with framesetOk := false } := by
  obtain ⟨name, attributes, selfClosing⟩ := tag
  obtain rfl : name = "hr" := h
  rfl

/-- Where it may stand, an element without content is added by its start tag, and nothing else
changes. -/
theorem bodyStart_adds (h : Steady (cur :: stack) a skip b) (hname : tag.name ∈ closedAtOnce)
    (hadmits : admits (cur :: stack) tag.name = true) :
    Steady (cur :: stack) (a.sprout cur.id (.element (htmlLabel tag) none)) skip
      (b.bodyStart tag).1 := by
  have htemplate : ∀ name ∈ closedAtOnce, name ≠ "template" := by decide
  have hrules := undisturbed hadmits
  simp only [disturbing, List.forall_mem_cons] at hrules
  obtain ⟨hp, -⟩ := hrules
  have hne := htemplate _ hname
  rw [closedAtOnce, List.append_assoc, List.cons_append, List.mem_cons, List.mem_append] at hname
  rcases hname with hhr | hinline | hclosed
  · rw [bodyStart_of_hr b hhr, h.closeParagraphInScope_eq (hp (by rw [hhr]; decide))]
    exact (h.insertClosed hne).with_framesetOk false
  · rw [bodyStart_of_inlineVoid b hinline]
    exact h.insertVoid hne
  · rw [bodyStart_of_closed b hclosed]
    exact h.insertClosed hne

end Steady

end Builder

end Shortcodes.Html
