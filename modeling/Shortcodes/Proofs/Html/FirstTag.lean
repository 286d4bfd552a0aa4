import Mathlib.Tactic.SplitIfs
import Shortcodes.Proofs.Html.Anchor
import Shortcodes.Proofs.Html.EmptyBody

/-!
# The element of the first tag

What a start tag at the start of a document comes to (`opened`). The tags of the document's own
parts and those that a body ignores leave nothing at the top level (`topLevelIds_opened_of_mem`).
Any other makes one element there, with the tag's classes (`placed_opened`), and from then on that
element stays in its part of the document (`Document.stands_finalState`).
-/

namespace Shortcodes.Html

namespace Builder

/-! ### From the start of a document -/

/-- The state after a start tag at the start of a document. -/
def opened (tag : StartTag) : Builder := accept {} (.startTag tag)

/-- The state in the empty head of a document. -/
def emptyHead : Builder :=
  { arena := headCells []
    mode := .inHead
    stack := [⟨2, .html, "head", false⟩, ⟨1, .html, "html", false⟩]
    head := some 2
    legacy := true }

/-- The state in the empty body of a document. -/
def emptyBody : Builder :=
  { arena := bodyCells []
    mode := .inBody
    stack := [⟨3, .html, "body", false⟩, ⟨1, .html, "html", false⟩]
    head := some 2
    legacy := true }

/-- The state in the empty root of a document. -/
def emptyRoot : Builder :=
  { arena := #[{ content := .document, children := [1] },
      { content := .element ⟨.html, "html", []⟩ none, parent := some 0 }]
    mode := .beforeHead
    stack := [⟨1, .html, "html", false⟩]
    legacy := true }

/-- The state behind the empty head of a document. -/
def behindHead : Builder :=
  { emptyHead with mode := .afterHead, stack := [⟨1, .html, "html", false⟩] }

theorem opened_eq_process (tag : StartTag) :
    opened tag = process 23 { legacy := true, mode := .beforeHtml } (.startTag tag) := by
  have hfirst : byMode {} (.startTag tag) =
      ({ legacy := true, mode := .beforeHtml }, some (.startTag tag)) := rfl
  show process (ruleBound {}) {} (.startTag tag) = _
  have hbound : ruleBound {} = 23 + 1 := rfl
  rw [hbound]
  exact process_again rfl hfirst 23

theorem opened_eq_process_emptyRoot {tag : StartTag} (hhtml : tag.name ≠ "html") :
    opened tag = process 22 emptyRoot (.startTag tag) := by
  have hroot : byMode { legacy := true, mode := .beforeHtml } (.startTag tag) =
      (emptyRoot, some (.startTag tag)) := if_neg (by simpa using hhtml)
  rw [opened_eq_process]
  exact process_again rfl hroot 22

/-- A tag that is not that of the root or the head meets the empty head. -/
theorem opened_eq_process_emptyHead {tag : StartTag} (hhtml : tag.name ≠ "html")
    (hhead : tag.name ≠ "head") : opened tag = process 21 emptyHead (.startTag tag) := by
  have hnext : emptyRoot.byMode (.startTag tag) = (emptyHead, some (.startTag tag)) := by
    show emptyRoot.beforeHead (.startTag tag) = _
    unfold beforeHead
    dsimp only
    rw [if_neg (by simpa using hhtml), if_neg (by simpa using hhead)]
    rfl
  rw [opened_eq_process_emptyRoot hhtml]
  exact process_again rfl hnext 21

/-- Whether the element of a tag stands in the head if nothing is before it. -/
def goesToHead (tag : StartTag) : Bool :=
  Names.metadata.contains tag.name || tag.name == "noscript"

theorem ne_of_goesToHead {tag : StartTag} (h : goesToHead tag = true) :
    tag.name ≠ "html" ∧ tag.name ≠ "head" := by
  unfold goesToHead at h
  constructor <;> intro he <;> rw [he] at h <;> exact absurd h (by decide)

theorem opened_eq_metadata {tag : StartTag} (h : goesToHead tag = true) :
    opened tag = emptyHead.metadata (.startTag tag) := by
  obtain ⟨hhtml, hhead⟩ := ne_of_goesToHead h
  rw [opened_eq_process_emptyHead hhtml hhead]
  refine process_done rfl ?_ 20
  show (if tag.name == "html" then _ else if goesToHead tag then _ else _) = _
  rw [if_neg (by simpa using hhtml), if_pos h]
  rfl

theorem bodyStart_snd (b : Builder) (tag : StartTag) : (b.bodyStart tag).2 = none := by
  unfold bodyStart mergeRoot
  split_ifs
  · rfl
  · rfl
  · rfl
  · rfl
  · rfl
  · split
    · rfl
    · split <;> rfl
  · split
    · rfl
    · split <;> rfl

/-- A tag that does not belong into the head meets what is behind it. -/
theorem opened_eq_process_behindHead {tag : StartTag} (hhtml : tag.name ≠ "html")
    (hhead : tag.name ≠ "head") (h : goesToHead tag = false) :
    opened tag = process 20 behindHead (.startTag tag) := by
  have hleave : emptyHead.byMode (.startTag tag) = (behindHead, some (.startTag tag)) := by
    show (if tag.name == "html" then _ else if goesToHead tag then _ else
      if tag.name == "head" then _ else _) = _
    rw [if_neg (by simpa using hhtml), h, if_neg Bool.false_ne_true, if_neg (by simpa using hhead)]
    rfl
  rw [opened_eq_process_emptyHead hhtml hhead]
  exact process_again rfl hleave 20

theorem metadata_eq_false {tag : StartTag} (h : goesToHead tag = false) :
    Names.metadata.contains tag.name = false := by
  unfold goesToHead at h
  exact (Bool.or_eq_false_iff.1 h).1

/-- The element of any other tag stands in the body. -/
theorem opened_eq_bodyStart {tag : StartTag} (hhtml : tag.name ≠ "html") (hhead : tag.name ≠ "head")
    (hbody : tag.name ≠ "body") (hframeset : tag.name ≠ "frameset") (h : goesToHead tag = false) :
    opened tag = (emptyBody.bodyStart tag).1 := by
  have hnext : behindHead.byMode (.startTag tag) = (emptyBody, some (.startTag tag)) := by
    show behindHead.afterHead (.startTag tag) = _
    unfold afterHead
    dsimp only
    rw [if_neg (by simpa using hhtml), if_neg (by simpa using hbody),
      if_neg (by simpa using hframeset), metadata_eq_false h, if_neg Bool.false_ne_true,
      if_neg (by simpa using hhead)]
    rfl
  have hdone : emptyBody.byMode (.startTag tag) = ((emptyBody.bodyStart tag).1, none) := by
    rw [← bodyStart_snd emptyBody tag]
    rfl
  calc opened tag
    _ = process 20 behindHead (.startTag tag) := opened_eq_process_behindHead hhtml hhead h
    _ = process 19 emptyBody (.startTag tag) := process_again rfl hnext 19
    _ = (emptyBody.bodyStart tag).1 := process_done rfl hdone 18

/-! ### What is at the top level -/

/-- Start tags that make no element at the top level of a document. -/
def placeless : List String := ["html", "head", "body", "frameset"] ++ Names.ignoredInBody

/-- Whether a start tag is one of a block depends on its name alone. -/
theorem isSome_blockStart? (b : Builder) (tag : StartTag) :
    (b.blockStart? tag).isSome = (blockStart? {} { name := tag.name }).isSome := by
  unfold blockStart?
  simp only [apply_ite Option.isSome, Option.isSome_some, Option.isSome_none]

theorem isSome_inlineStart? (b : Builder) (tag : StartTag) :
    (b.inlineStart? tag).isSome = (inlineStart? {} { name := tag.name }).isSome := by
  unfold inlineStart?
  simp only [apply_ite Option.isSome, Option.isSome_some, Option.isSome_none]

theorem isNone_of_ignored : ∀ name ∈ Names.ignoredInBody,
    (blockStart? {} { name }).isSome = false ∧ (inlineStart? {} { name }).isSome = false := by
  decide

theorem eq_none_of_ignored {tag : StartTag} (h : tag.name ∈ Names.ignoredInBody) (b : Builder) :
    b.blockStart? tag = none ∧ b.inlineStart? tag = none := by
  obtain ⟨hblock, hinline⟩ := isNone_of_ignored tag.name h
  rw [← isSome_blockStart? b tag] at hblock
  rw [← isSome_inlineStart? b tag] at hinline
  exact ⟨by simpa using hblock, by simpa using hinline⟩

theorem ne_of_ignored : ∀ name ∈ Names.ignoredInBody, name ≠ "html" ∧ name ≠ "body" ∧
    name ≠ "frameset" ∧ Names.metadata.contains name = false ∧ name ≠ "noscript" := by
  decide

/-- A tag that the body ignores leaves it empty. -/
theorem opened_of_ignored {tag : StartTag} (h : tag.name ∈ Names.ignoredInBody)
    (hhead : tag.name ≠ "head") : opened tag = emptyBody := by
  obtain ⟨hhtml, hbody, hframeset, hmetadata, hnoscript⟩ := ne_of_ignored tag.name h
  obtain ⟨hblock, hinline⟩ := eq_none_of_ignored h emptyBody
  have hgoes : goesToHead tag = false := by
    unfold goesToHead
    rw [hmetadata]
    simpa using hnoscript
  rw [opened_eq_bodyStart hhtml hhead hbody hframeset hgoes]
  unfold bodyStart
  rw [if_neg (by simpa using hhtml), hmetadata, if_neg Bool.false_ne_true,
    if_neg (by simpa using hbody), if_neg (by simpa using hframeset), hblock, hinline,
    if_pos (by simpa using h)]
  rfl

theorem topLevelIds_insert_behindHead {tag : StartTag} (hn : tag.name ≠ "template") :
    (behindHead.insert tag).arena.topLevelIds = [] := by
  unfold insert insertLabel insertLeaf createElement
  rw [if_neg (not_template hn)]
  rfl

/-- The second part of a document leaves nothing at the top level. -/
theorem topLevelIds_opened_of_part {tag : StartTag}
    (h : tag.name = "body" ∨ tag.name = "frameset") : (opened tag).arena.topLevelIds = [] := by
  have hne : ∀ name, name = "body" ∨ name = "frameset" → name ≠ "html" ∧ name ≠ "head" ∧
      name ≠ "template" ∧ (Names.metadata.contains name || name == "noscript") = false := by
    rintro name (rfl | rfl) <;> decide
  obtain ⟨hhtml, hhead, htemplate, hgoes⟩ := hne tag.name h
  have hdone : ∃ b : Builder, behindHead.byMode (.startTag tag) = (b, none) ∧
      b.arena = (behindHead.insert tag).arena := by
    show ∃ b : Builder, behindHead.afterHead (.startTag tag) = (b, none) ∧ _
    unfold afterHead
    dsimp only
    rw [if_neg (by simpa using hhtml)]
    split
    · exact ⟨_, rfl, rfl⟩
    · next hbody =>
      rw [if_pos (by simpa using h.resolve_left (by simpa using hbody))]
      exact ⟨_, rfl, rfl⟩
  obtain ⟨b, hb, harena⟩ := hdone
  rw [opened_eq_process_behindHead hhtml hhead hgoes, process_done rfl hb 19, harena]
  exact topLevelIds_insert_behindHead htemplate

theorem topLevelIds_opened_of_root {tag : StartTag} (h : tag.name = "html") :
    (opened tag).arena.topLevelIds = [] := by
  have hroot : byMode { legacy := true, mode := .beforeHtml } (.startTag tag) =
      Builder.done { insertRoot { legacy := true } tag.attributes with mode := .beforeHead } :=
    if_pos (by simpa using h)
  rw [opened_eq_process, process_done rfl hroot 22]
  rfl

theorem topLevelIds_opened_of_head {tag : StartTag} (h : tag.name = "head") :
    (opened tag).arena.topLevelIds = [] := by
  have hhtml : tag.name ≠ "html" := by
    rw [h]
    decide
  have hhead : emptyRoot.byMode (.startTag tag) = (emptyRoot.openHead tag).done := by
    show emptyRoot.beforeHead (.startTag tag) = _
    unfold beforeHead
    dsimp only
    rw [if_neg (by simpa using hhtml), if_pos (by simpa using h)]
  have hopen : emptyRoot.insertLeaf (htmlLabel tag) =
      ({ emptyRoot with arena := #[{ content := .document, children := [1] },
          { content := .element ⟨.html, "html", []⟩ none, parent := some 0, children := [2] },
          { content := .element (htmlLabel tag) none, parent := some 1 }] },
        ⟨2, .html, tag.name, false⟩) := by
    unfold insertLeaf createElement
    rw [if_neg (not_template (by rw [h]; decide))]
    rfl
  rw [opened_eq_process_emptyRoot hhtml, process_done rfl hhead 21]
  unfold openHead insertLabel
  rw [hopen]
  rfl

theorem topLevelIds_opened_of_mem {tag : StartTag} (h : tag.name ∈ placeless) :
    (opened tag).arena.topLevelIds = [] := by
  unfold placeless at h
  simp only [List.cons_append, List.nil_append, List.mem_cons] at h
  rcases h with hhtml | hhead | hbody | hframeset | h
  · exact topLevelIds_opened_of_root hhtml
  · exact topLevelIds_opened_of_head hhead
  · exact topLevelIds_opened_of_part (.inl hbody)
  · exact topLevelIds_opened_of_part (.inr hframeset)
  · by_cases hhead : tag.name = "head"
    · exact topLevelIds_opened_of_head hhead
    · rw [opened_of_ignored h hhead]
      rfl

theorem sunk_inHead (front : List OpenElement) {k : Nat}
    (hfront : front.map (·.id) = [k] ∨ front = []) : Sunk k 2 (front ++ emptyHead.stack) := by
  refine ⟨[], front ++ emptyHead.stack, rfl, List.forall_mem_nil _, ?_⟩
  rw [List.map_append]
  rcases hfront with hfront | rfl
  · rw [hfront]
    exact List.suffix_rfl
  · exact List.suffix_cons k _

theorem insertLeaf_emptyHead {l : Label}
    (hl : ¬(decide (l.space = .html) && l.name == "template") = true) :
    emptyHead.insertLeaf l =
      ({ emptyHead with arena := inHeadCells l }, ⟨3, l.space, l.name, statesHtml l⟩) := by
  unfold Builder.insertLeaf Builder.createElement
  rw [if_neg hl]
  rfl

theorem placed_insertClosed_emptyHead {tag : StartTag} (hn : tag.name ≠ "template") :
    Placed tag 3 2 (emptyHead.insertClosed tag) := by
  unfold insertClosed
  rw [insertLeaf_emptyHead (not_template hn)]
  exact ⟨_, ⟨standing_inHeadCells _, sunk_inHead [] (.inr rfl),
    fun _ _ hm => (by cases hm), fun _ hi => (by cases hi)⟩, rfl, fun _ => rfl⟩

theorem placed_insert_emptyHead {tag : StartTag} (hn : tag.name ≠ "template") :
    Placed tag 3 2 (emptyHead.insert tag) := by
  unfold insert insertLabel
  rw [insertLeaf_emptyHead (not_template hn)]
  exact ⟨_, ⟨standing_inHeadCells _, sunk_inHead [_] (.inl rfl),
    fun _ _ hm => (by cases hm), fun _ hi => (by cases hi)⟩, rfl, fun _ => rfl⟩

theorem insertLeaf_template {l : Label}
    (hl : (decide (l.space = .html) && l.name == "template") = true) :
    emptyHead.pushBound.insertLeaf l =
      ({ emptyHead.pushBound with arena := templateCells l },
        ⟨4, l.space, l.name, statesHtml l⟩) := by
  unfold Builder.insertLeaf Builder.createElement
  rw [if_pos hl]
  rfl

theorem placed_openTemplate_emptyHead {tag : StartTag} (hn : tag.name = "template") :
    Placed tag 4 2 (emptyHead.openTemplate tag) := by
  have hl : (decide ((htmlLabel tag).space = .html) &&
      (htmlLabel tag).name == "template") = true := by
    simpa [htmlLabel] using hn
  unfold openTemplate insert insertLabel
  rw [insertLeaf_template hl]
  refine ⟨_, ⟨standing_templateCells _, sunk_inHead [_] (.inl rfl), fun id t hm => ?_,
    fun _ hi => (by cases hi)⟩, rfl, fun _ => rfl⟩
  cases List.mem_singleton.1 hm

theorem placed_insertRaw_emptyHead {tag : StartTag} (hn : tag.name ≠ "template") (lexing : Lexing) :
    Placed tag 3 2 (emptyHead.insertRaw tag lexing) := placed_insert_emptyHead hn

/-- Metadata at the start of a document stands in its head. -/
theorem placed_metadata (tag : StartTag) :
    ∃ k, Placed tag k 2 (emptyHead.metadata (.startTag tag)) := by
  by_cases hn : tag.name = "template"
  · refine ⟨4, ?_⟩
    unfold metadata
    dsimp only
    rw [hn]
    exact placed_openTemplate_emptyHead hn
  · refine ⟨3, ?_⟩
    unfold metadata
    dsimp only
    refine of_ite (placed_insertRaw_emptyHead hn _) (of_ite (placed_insertRaw_emptyHead hn _) ?_)
    refine of_ite (placed_insertRaw_emptyHead hn _) ?_
    rw [if_neg (by simpa using hn)]
    exact placed_insertClosed_emptyHead hn

/-- The part of a document in which the element of a first tag stands: head or body. -/
def partOf (tag : StartTag) : Nat := if goesToHead tag then 2 else 3

/-- Any other tag makes the one element at the top level, with its classes. -/
theorem placed_opened {tag : StartTag} (h : tag.name ∉ placeless) :
    ∃ k, Placed tag k (partOf tag) (opened tag) := by
  unfold partOf
  unfold placeless at h
  simp only [List.cons_append, List.nil_append, List.mem_cons, not_or] at h
  obtain ⟨hhtml, hhead, hbody, hframeset, hignored⟩ := h
  by_cases hm : goesToHead tag = true
  · rw [if_pos hm, opened_eq_metadata hm]
    exact placed_metadata tag
  · have hgoes : goesToHead tag = false := by simpa using hm
    have hempty : InEmptyBody emptyBody := ⟨rfl, rfl, rfl, rfl, rfl⟩
    have htemplate : tag.name ≠ "template" := by
      intro he
      unfold goesToHead at hgoes
      rw [he] at hgoes
      exact absurd hgoes (by decide)
    refine ⟨4, ?_⟩
    rw [if_neg hm, opened_eq_bodyStart hhtml hhead hbody hframeset hgoes]
    -- a tag that no rule of the body takes is put in like any other element
    unfold bodyStart
    rw [if_neg (by simpa using hhtml), metadata_eq_false hgoes, if_neg Bool.false_ne_true,
      if_neg (by simpa using hbody), if_neg (by simpa using hframeset)]
    split
    · next c hc => exact hempty.blockStart? htemplate c hc
    · split
      · next c hc => exact hempty.inlineStart? htemplate c hc
      · rw [if_neg (by simpa using hignored)]
        exact hempty.insert htemplate

end Builder

open Builder

namespace Document

/-- The start tag at the start of a text. -/
def firstTag? (t : Text) : Option StartTag :=
  match (Token.nextData false (Token.prepare t)).1 with
  | [.startTag tag] => some tag
  | _ => none

theorem finalState_of_firstTag? {t : Text} {tag : StartTag} (h : firstTag? t = some tag) :
    ∃ fuel rest, finalState t = build fuel (opened tag) rest := by
  unfold firstTag? at h
  split at h
  · next first hfirst =>
    cases h
    have hne : Token.prepare t ≠ [] := by
      intro he
      rw [he] at hfirst
      cases hfirst
    obtain ⟨fuel, hfuel⟩ : ∃ fuel, (Token.prepare t).length = fuel + 1 :=
      ⟨(Token.prepare t).length - 1, by have := List.length_pos_iff.2 hne; omega⟩
    refine ⟨fuel, (Token.nextData false (Token.prepare t)).2, ?_⟩
    have hnext : Token.nextData false (Token.prepare t) =
      ([.startTag tag], (Token.nextData false (Token.prepare t)).2) := by rw [← hfirst]
    unfold finalState
    dsimp only
    rw [hfuel, build_of_nextData (b := {}) rfl hne hnext]
    rfl
  · cases h

theorem stands_build {k p : Nat} {label : Label} (fuel : Nat) {b : Builder} (t : Text)
    (h : Stands k p label b) : Stands k p label (build fuel b t) := by
  induction fuel generalizing b t with
  | zero => exact h.accept .stop
  | succ fuel ih =>
    cases t with
    | nil => exact h.accept .stop
    | cons c t =>
      refine ih _ (Stands.foldl (fun token hb => hb.accept token) _ ?_)
      exact h

/-- The element of the first tag of a text stays in its part of the document. -/
theorem stands_finalState {t : Text} {tag : StartTag} (h : firstTag? t = some tag) {k p : Nat}
    {label : Label} (hs : Stands k p label (opened tag)) : Stands k p label (finalState t) := by
  obtain ⟨fuel, rest, hfinal⟩ := finalState_of_firstTag? h
  rw [hfinal]
  exact stands_build fuel rest hs

end Document

end Shortcodes.Html
