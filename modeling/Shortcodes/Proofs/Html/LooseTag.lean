import Shortcodes.Html.LooseTag
import Shortcodes.Proofs.Text

/-!
# The extent of loose tags

A loose tag and what follows it make up the text it stands in (`at?_eq_some`), and so do the element
that an opening tag begins and what follows that (`extent?_eq_some`). Opening and closing tags end
with their bracket, and elements with that of their last tag (`getLast?_of_extent?`).
-/

namespace Shortcodes.Html

namespace LooseTag

/-! ### What follows -/

theorem suffix_of_cut? {p t front rest : Text} (h : Text.cut? p t = some (front, rest)) :
    rest <:+ t := by
  rw [Text.eq_of_cut? h]
  exact List.suffix_append _ _

theorem suffix_of_name? {t name tail : Text} (h : name? t = some (name, tail)) : tail <:+ t := by
  unfold name? at h
  split at h
  · cases h
  · split at h
    · cases h
      exact (List.dropWhile_suffix _).trans (List.suffix_cons _ _)
    · cases h

theorem suffix_of_afterValue? {t rest : Text} (h : afterValue? t = some rest) : rest <:+ t := by
  have hdrop : t.dropWhile isBlank <:+ t := List.dropWhile_suffix _
  unfold afterValue? at h
  split at h
  · next after hafter =>
    obtain ⟨⟨front, tail⟩, hcut, rfl⟩ := Option.map_eq_some_iff.1 h
    rw [hafter] at hdrop
    exact ((suffix_of_cut? hcut).trans (List.suffix_cons _ _)).trans hdrop
  · next after hafter =>
    obtain ⟨⟨front, tail⟩, hcut, rfl⟩ := Option.map_eq_some_iff.1 h
    rw [hafter] at hdrop
    exact ((suffix_of_cut? hcut).trans (List.suffix_cons _ _)).trans hdrop
  · next c after _ _ hafter =>
    rw [hafter] at hdrop
    split at h
    · cases h
      exact ((List.dropWhile_suffix _).trans (List.suffix_cons _ _)).trans hdrop
    · cases h
  · cases h

/-- The attributes of an opening tag and its end: what follows stands behind a bracket. -/
theorem bracket_suffix_of_afterAttributes? {fuel : Nat} {t rest : Text} {selfClosing : Bool}
    (h : afterAttributes? fuel t = some (selfClosing, rest)) : '>' :: rest <:+ t := by
  induction fuel generalizing t with
  | zero => cases h
  | succ fuel ih =>
    have hdrop : t.dropWhile isBlank <:+ t := List.dropWhile_suffix _
    unfold afterAttributes? at h
    split at h
    · cases h
    · next after hafter =>
      cases h
      rwa [hafter] at hdrop
    · next after hafter =>
      cases h
      rw [hafter] at hdrop
      exact (List.suffix_cons _ _).trans hdrop
    · next c after _ _ hafter =>
      rw [hafter] at hdrop
      -- an attribute is passed over, with its value if it has one
      have htail : after.dropWhile isAttributeChar <:+ t :=
        ((List.dropWhile_suffix _).trans (List.suffix_cons c after)).trans hdrop
      split at h
      · dsimp only at h
        split at h
        · next value hvalue =>
          obtain ⟨tail, hafterValue, hattributes⟩ := Option.bind_eq_some_iff.1 h
          have hblank : (after.dropWhile isAttributeChar).dropWhile isBlank <:+
            after.dropWhile isAttributeChar := List.dropWhile_suffix _
          rw [hvalue] at hblank
          have hvalueTail := (suffix_of_afterValue? hafterValue).trans (List.suffix_cons '=' value)
          exact (ih hattributes).trans ((hvalueTail.trans hblank).trans htail)
        · exact (ih h).trans htail
      · cases h

theorem suffix_of_afterAttributes? {fuel : Nat} {t rest : Text} {selfClosing : Bool}
    (h : afterAttributes? fuel t = some (selfClosing, rest)) : rest <:+ t :=
  (List.suffix_cons _ _).trans (bracket_suffix_of_afterAttributes? h)

theorem afterComment_suffix (t : Text) : afterComment t <:+ t := by
  unfold afterComment
  split
  · next hcut => exact suffix_of_cut? hcut
  · exact List.nil_suffix

/-! ### Tags and elements -/

/-- A loose tag begins with its bracket and is followed by the rest of the text. -/
theorem at?_eq_some {t : Text} {seen : Sighting} (h : at? t = some seen) :
    seen.source ++ seen.rest = t ∧ ∃ more, seen.source = '<' :: more := by
  -- what a branch leaves is an end of what is behind the bracket
  have hseen : ∀ {after rest : Text}, rest <:+ after →
      ('<' :: after).take (('<' :: after).length - rest.length) ++ rest = '<' :: after ∧
        ∃ more, ('<' :: after).take (('<' :: after).length - rest.length) = '<' :: more := by
    intro after rest hrest
    refine ⟨List.suffix_iff_eq_append.1 (hrest.trans (List.suffix_cons '<' after)), ?_⟩
    have hlength := hrest.length_le
    rw [List.length_cons, Nat.succ_sub hlength, List.take_succ_cons]
    exact ⟨_, rfl⟩
  unfold at? at h
  dsimp only at h
  split at h
  · next rest =>
    cases h
    have hcomment : afterComment rest <:+ '!' :: '-' :: '-' :: rest :=
      (afterComment_suffix rest).trans (List.suffix_append ['!', '-', '-'] rest)
    exact hseen hcomment
  · next rest =>
    split at h
    · next name tail hname =>
      have htail := suffix_of_name? hname
      split at h
      · next after hafter =>
        cases h
        have hdrop : tail.dropWhile isBlank <:+ tail := List.dropWhile_suffix _
        rw [hafter] at hdrop
        have hclosing : after <:+ '/' :: rest :=
          (((List.suffix_cons _ _).trans hdrop).trans htail).trans (List.suffix_cons _ _)
        exact hseen hclosing
      · cases h
    · cases h
  · next rest _ _ =>
    split at h
    · next name tail hname =>
      obtain ⟨⟨selfClosing, after⟩, hafter, rfl⟩ := Option.map_eq_some_iff.1 h
      exact hseen ((suffix_of_afterAttributes? hafter).trans (suffix_of_name? hname))
    · cases h
  · cases h

/-- What follows a loose tag stands behind a bracket, unless the tag is a comment. -/
theorem bracket_suffix_of_at? {t : Text} {seen : Sighting} (h : at? t = some seen)
    (hc : seen.tag ≠ .comment) : '>' :: seen.rest <:+ t := by
  unfold at? at h
  dsimp only at h
  split at h
  · cases h
    exact absurd rfl hc
  · next rest =>
    split at h
    · next name tail hname =>
      split at h
      · next after hafter =>
        cases h
        have hdrop : tail.dropWhile isBlank <:+ tail := List.dropWhile_suffix _
        rw [hafter] at hdrop
        exact (hdrop.trans (suffix_of_name? hname)).trans (List.suffix_append ['<', '/'] rest)
      · cases h
    · cases h
  · next rest _ _ =>
    split at h
    · next name tail hname =>
      obtain ⟨⟨selfClosing, after⟩, hafter, rfl⟩ := Option.map_eq_some_iff.1 h
      have htail := (bracket_suffix_of_afterAttributes? hafter).trans (suffix_of_name? hname)
      exact htail.trans (List.suffix_cons '<' rest)
    · cases h
  · cases h

/-- A loose tag ends with its bracket, unless it is a comment. -/
theorem getLast?_source_of_at? {t : Text} {seen : Sighting} (h : at? t = some seen)
    (hc : seen.tag ≠ .comment) : seen.source.getLast? = some '>' := by
  obtain ⟨front, hfront⟩ := bracket_suffix_of_at? h hc
  have happend := (at?_eq_some h).1
  rw [← hfront, List.append_cons] at happend
  rw [List.append_cancel_right happend, List.getLast?_concat]

/-- Only a closing tag can bring the depth to zero. -/
theorem ne_comment_of_depthAfter {name : Text} {depth : Nat} {tag : LooseTag} (hd : depth ≠ 0)
    (h : depthAfter name depth tag = 0) : tag ≠ .comment := by
  rintro rfl
  exact hd h

/-- An element ends with the bracket of its closing tag. -/
theorem getLast?_of_closeFrom? {name t front tail : Text} {fuel depth : Nat} (hd : depth ≠ 0)
    (h : closeFrom? name fuel depth t = some (front, tail)) : front.getLast? = some '>' := by
  induction fuel generalizing t front depth with
  | zero => cases h
  | succ fuel ih =>
    cases t with
    | nil => cases h
    | cons c rest =>
      unfold closeFrom? at h
      split at h
      · obtain ⟨⟨front', tail'⟩, hclose, heq⟩ := Option.map_eq_some_iff.1 h
        cases heq
        rw [List.getLast?_cons, ih hd hclose]
        rfl
      · next seen hseen =>
        dsimp only at h
        split at h
        · next hzero =>
          cases h
          -- a comment does not change the depth, so that this is a tag and ends with its bracket
          exact getLast?_source_of_at? hseen (ne_comment_of_depthAfter hd hzero)
        · next hdepth =>
          obtain ⟨⟨front', tail'⟩, hclose, heq⟩ := Option.map_eq_some_iff.1 h
          cases heq
          rw [List.getLast?_append, ih hdepth hclose]
          rfl

theorem closeFrom?_eq_some {name t front tail : Text} {fuel depth : Nat}
    (h : closeFrom? name fuel depth t = some (front, tail)) : front ++ tail = t := by
  induction fuel generalizing t front depth with
  | zero => cases h
  | succ fuel ih =>
    cases t with
    | nil => cases h
    | cons c rest =>
      unfold closeFrom? at h
      split at h
      · obtain ⟨⟨front', tail'⟩, hclose, heq⟩ := Option.map_eq_some_iff.1 h
        cases heq
        rw [List.cons_append, ih hclose]
      · next seen hseen =>
        have happend := (at?_eq_some hseen).1
        dsimp only at h
        split at h
        · cases h
          exact happend
        · obtain ⟨⟨front', tail'⟩, hclose, heq⟩ := Option.map_eq_some_iff.1 h
          cases heq
          rw [List.append_assoc, ih hclose, happend]

end LooseTag

/-- What an opening tag spans begins with the tag and is followed by the rest of the text. -/
theorem Sighting.extent?_eq_some {seen : Sighting} {candidate tail : Text}
    (h : seen.extent? = some (candidate, tail)) :
    candidate ++ tail = seen.source ++ seen.rest ∧ ∃ more, candidate = seen.source ++ more := by
  unfold Sighting.extent? at h
  split at h
  · split at h
    · cases h
      exact ⟨rfl, [], (List.append_nil _).symm⟩
    · obtain ⟨⟨front, tail'⟩, hclose, heq⟩ := Option.map_eq_some_iff.1 h
      cases heq
      have hfront := LooseTag.closeFrom?_eq_some hclose
      exact ⟨by rw [List.append_assoc, hfront], front, rfl⟩
  · cases h

/-- What an opening tag spans ends with a bracket. -/
theorem Sighting.getLast?_of_extent? {t : Text} {seen : Sighting} {candidate tail : Text}
    (hseen : LooseTag.at? t = some seen) (h : seen.extent? = some (candidate, tail)) :
    candidate.getLast? = some '>' := by
  unfold Sighting.extent? at h
  split at h
  · next name selfClosing htag =>
    split at h
    · cases h
      exact LooseTag.getLast?_source_of_at? hseen (by simp [htag])
    · obtain ⟨⟨front, tail'⟩, hclose, heq⟩ := Option.map_eq_some_iff.1 h
      cases heq
      rw [List.getLast?_append, LooseTag.getLast?_of_closeFrom? Nat.one_ne_zero hclose]
      rfl
  · cases h

end Shortcodes.Html
