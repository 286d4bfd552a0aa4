import Shortcodes.Proofs.Html.Comment
import Shortcodes.Proofs.Shortcode.Link
import Shortcodes.Proofs.Shortcode.Spans

/-!
# Reversal behind comments

Reversal passes over a comment that ends with `-->`, and what follows is reversed as it would be by
itself. A comment that markup ends in another way is, for reversal, not ended: what follows it up to
the next `-->`, or to the end of the text, stays as it is, elements with the marker among it
(`reverse_comment_iff`).
-/

namespace Shortcodes

open Html

namespace HtmlShortcode

variable {s : HtmlShortcode}

/-- A comment that is one loose tag is kept, and what follows it is reversed. -/
theorem reverse_of_at?_comment (hs : s.isReversible = true) {c rest : Text}
    (h : LooseTag.at? (c ++ rest) = some ⟨.comment, c, rest⟩) :
    s.reverse (c ++ rest) = (s.reverse rest).map (c ++ ·) := by
  have hkept : s.passage ⟨.comment, c, rest⟩ = .ok (.kept c, rest) := rfl
  rw [reverse, if_pos hs, reverse, if_pos hs, passages_of_some h hkept]
  cases s.passages rest <;> rfl

/-- A comment that ends with `-->` is passed over. -/
theorem reverse_closed_comment (hs : s.isReversible = true) {body : Text}
    (h : Token.IsComment ("<!--".toList ++ body ++ "-->".toList)) (t : Text) :
    s.reverse ("<!--".toList ++ body ++ "-->".toList ++ t) =
      (s.reverse t).map ("<!--".toList ++ body ++ "-->".toList ++ ·) := by
  obtain ⟨d, hd, htail⟩ := Token.isComment_iff.1 h
  rw [List.append_assoc, List.append_cancel_left_eq] at hd
  subst hd
  have hfree : ¬ ['-', '-', '>'] <:+: body := by
    rcases LooseTag.infix_cases htail with ⟨body', hbody, hfree⟩ | hnone
    · rwa [List.append_cancel_right hbody]
    · exact absurd ⟨body, [], by simp⟩ hnone
  exact reverse_of_at?_comment hs (LooseTag.at?_comment hfree t)

/-- A complete comment that ends in another way has no `-->` in it. -/
theorem exists_tail_of_not_closed {c : Text} (h : Token.IsComment c)
    (hc : ¬ ∃ body, c = "<!--".toList ++ body ++ "-->".toList) :
    ∃ d, c = "<!--".toList ++ d ∧ Token.CommentTail d ∧ ¬ ['-', '-', '>'] <:+: d := by
  obtain ⟨d, rfl, htail⟩ := Token.isComment_iff.1 h
  refine ⟨d, rfl, htail, ?_⟩
  rcases LooseTag.infix_cases htail with ⟨body, rfl, -⟩ | hnone
  · exact absurd ⟨body, (List.append_assoc _ _ _).symm⟩ hc
  · exact hnone

/-- What follows such a comment up to the next `-->` is kept with it. -/
theorem reverse_open_comment (hs : s.isReversible = true) {d front : Text}
    (h : Token.CommentTail d) (hd : ¬ ['-', '-', '>'] <:+: d)
    (hfront : ¬ ['-', '-', '>'] <:+: front) (back : Text) :
    s.reverse ("<!--".toList ++ d ++ (front ++ "-->".toList ++ back)) =
      (s.reverse back).map ("<!--".toList ++ d ++ (front ++ "-->".toList) ++ ·) := by
  have hat := LooseTag.at?_comment (LooseTag.not_infix_append h hd hfront) back
  have hreverse := reverse_of_at?_comment hs hat
  simpa only [String.reduceToList, List.append_assoc] using hreverse

/-- Without a next `-->` the whole text is kept. -/
theorem reverse_open_comment_of_none (hs : s.isReversible = true) {d t : Text}
    (h : Token.CommentTail d) (hd : ¬ ['-', '-', '>'] <:+: d) (ht : ¬ ['-', '-', '>'] <:+: t) :
    s.reverse ("<!--".toList ++ d ++ t) = .ok ("<!--".toList ++ d ++ t) := by
  have hat : LooseTag.at? ("<!--".toList ++ (d ++ t) ++ []) =
      some ⟨.comment, "<!--".toList ++ (d ++ t), []⟩ := by
    rw [List.append_nil]
    exact LooseTag.at?_unended (LooseTag.not_infix_append h hd ht)
  have hnil : s.reverse [] = .ok [] := by
    rw [reverse, if_pos hs]
    rfl
  have hreverse := reverse_of_at?_comment hs hat
  rw [hnil, List.append_nil, ← List.append_assoc] at hreverse
  rw [hreverse]
  exact congrArg Except.ok (List.append_nil _)

/-- A link that is reversed by itself. -/
theorem reverse_sampleLink :
    Link.link.reverse "<a href=\"x\" class=\"shortcode-link\">y</a>".toList =
      .ok "[%link x y %]".toList := by
  have hwritten : (Link.marked ['x'] ['y']).written =
      "<a href=\"x\" class=\"shortcode-link\">y</a>".toList := by decide
  have hcanonical : Link.link.signature.canonical (Link.arguments ['x'] ['y']) =
      "[%link x y %]".toList := by decide
  have hreverse : Link.link.reverse (Link.marked ['x'] ['y']).written = _ :=
    Link.reverse_marked (by decide) (by decide)
  rwa [hwritten, hcanonical] at hreverse

/-- Exactly the complete comments that end with `-->` are passed over by every shortcode, whatever
follows. Any other complete comment is kept together with what follows it up to the next `-->`, if
there is one, and with all that follows otherwise. -/
theorem reverse_comment_iff {c : Text} (h : Token.IsComment c) :
    ((∀ s : HtmlShortcode, s.isReversible = true →
        ∀ t, s.reverse (c ++ t) = (s.reverse t).map (c ++ ·)) ↔
      ∃ body, c = "<!--".toList ++ body ++ "-->".toList) ∧
    ((¬ ∃ body, c = "<!--".toList ++ body ++ "-->".toList) →
      ∀ s : HtmlShortcode, s.isReversible = true →
        (∀ front back, ¬ "-->".toList <:+: front →
          s.reverse (c ++ (front ++ "-->".toList ++ back)) =
            (s.reverse back).map (c ++ (front ++ "-->".toList) ++ ·)) ∧
        ∀ t, ¬ "-->".toList <:+: t → s.reverse (c ++ t) = .ok (c ++ t)) := by
  refine ⟨⟨fun hall => ?_, ?_⟩, fun hc s hs => ?_⟩
  · by_contra hc
    obtain ⟨d, rfl, htail, hd⟩ := exists_tail_of_not_closed h hc
    -- a link behind the comment would become a tag, and it is kept
    have hs : Link.link.isReversible = true := by decide
    have hlink := hall Link.link hs "<a href=\"x\" class=\"shortcode-link\">y</a>".toList
    rw [reverse_open_comment_of_none hs htail hd (by decide), reverse_sampleLink] at hlink
    exact absurd (List.append_cancel_left (Except.ok.inj hlink)) (by decide)
  · rintro ⟨body, rfl⟩ s hs t
    exact reverse_closed_comment hs h t
  · obtain ⟨d, rfl, htail, hd⟩ := exists_tail_of_not_closed h hc
    exact ⟨fun front back hfront => reverse_open_comment hs htail hd hfront back,
      fun t ht => reverse_open_comment_of_none hs htail hd ht⟩

/-- A comment that ends with `-->`, and one that ends with `--!>` and goes on for reversal. -/
theorem reverse_comment_iff_link :
    let closed := "<!-- > --->".toList
    let other := "<!---!- --!>".toList
    let markup := "<a href=\"x\" class=\"shortcode-link\">y</a>".toList
    Token.IsComment closed ∧ Token.IsComment other ∧
      Link.link.reverse (closed ++ markup) = .ok (closed ++ "[%link x y %]".toList) ∧
      Link.link.reverse (other ++ (markup ++ "-->".toList ++ markup)) =
        .ok (other ++ (markup ++ "-->".toList) ++ "[%link x y %]".toList) := by
  intro closed other markup
  have hclosed : Token.IsComment closed := by
    have hends : Token.Ends " > -".toList "-->".toList := ⟨by decide, by decide⟩
    exact Token.isComment_iff.2 ⟨" > --->".toList, rfl, .marked hends (by decide) (by decide)⟩
  have hother : Token.IsComment other := by
    have hends : Token.Ends "-!- ".toList "--!>".toList := ⟨by decide, by decide⟩
    exact Token.isComment_iff.2 ⟨"-!- --!>".toList, rfl, .marked hends (by decide) (by decide)⟩
  have hs : Link.link.isReversible = true := by decide
  refine ⟨hclosed, hother, ?_, ?_⟩
  · rw [(reverse_comment_iff hclosed).1.2 ⟨" > -".toList, by decide⟩ _ hs, reverse_sampleLink]
    rfl
  · have hopen : ¬ ∃ body, other = "<!--".toList ++ body ++ "-->".toList := by
      rintro ⟨body, hbody⟩
      have hend : "-->".toList <:+ other := ⟨_, hbody.symm⟩
      exact absurd hend (by decide)
    rw [((reverse_comment_iff hother).2 hopen _ hs).1 _ _ (by decide), reverse_sampleLink]
    rfl

/-- A link behind a comment that ends at once is kept, since reversal takes it for a part of the
comment. -/
theorem not_forall_reverse_comment :
    Token.IsComment "<!-->".toList ∧ Link.link.isReversible = true ∧
      Link.link.reverse ("<!-->".toList ++ "<a href=\"x\" class=\"shortcode-link\">y</a>".toList) =
        .ok ("<!-->".toList ++ "<a href=\"x\" class=\"shortcode-link\">y</a>".toList) ∧
      ¬ ∀ (s : HtmlShortcode) (c : Text), s.isReversible = true → Token.IsComment c →
        ∀ t, s.reverse (c ++ t) = (s.reverse t).map (c ++ ·) := by
  have hcomment : Token.IsComment "<!-->".toList :=
    Token.isComment_iff.2 ⟨['>'], rfl, .bracket⟩
  have hs : Link.link.isReversible = true := by decide
  have hkept := reverse_open_comment_of_none hs .bracket (d := ['>'])
    (t := "<a href=\"x\" class=\"shortcode-link\">y</a>".toList) (by decide) (by decide)
  refine ⟨hcomment, hs, hkept, fun hall => ?_⟩
  have hlink := hall Link.link "<!-->".toList hs hcomment
    "<a href=\"x\" class=\"shortcode-link\">y</a>".toList
  rw [reverse_sampleLink] at hlink
  exact absurd (List.append_cancel_left (Except.ok.inj (hkept.symm.trans hlink))) (by decide)

end HtmlShortcode

end Shortcodes
