import Shortcodes.Proofs.Html.Extent
import Shortcodes.Proofs.Html.LooseTag
import Shortcodes.Proofs.Outcome
import Shortcodes.Shortcode.Html

/-!
# What reversal goes through

Reversal splits a text into passages: put together they are the text (`passages_eq_ok`). It puts a
tag only in the place of markup that an opening tag with the marker begins and whose root, as it is
read, has the marker as a class (`Claims`). A written element that it can go through and claims is
one passage, if it knows whether the element is void (`passages_written`).
-/

namespace Shortcodes

open Html

namespace HtmlShortcode

/-- Reversal puts `tag` in the place of `markup`: an opening tag that shows the marker begins the
markup, the fragment that is read from it has the marker as a class, and the tag is that of the
fragment's root. -/
structure Claims (s : HtmlShortcode) (f : Fragment) (markup tag : Text) : Prop where
  opening : ∃ name selfClosing source tail more, markup = source ++ more ∧
    LooseTag.at? (markup ++ tail) = some ⟨.opening name selfClosing, source, more ++ tail⟩ ∧
    Text.has s.marker source = true
  read : Fragment.read? markup = some f
  hasClass : f.hasClass s.marker = true
  tag_eq : tag = s.tagOf f.root

variable {s : HtmlShortcode}

theorem claim?_eq_some {markup : Text} {root : Element} (h : s.claim? markup = some root) :
    ∃ f, Fragment.read? markup = some f ∧ f.hasClass s.marker = true ∧ root = f.root := by
  unfold claim? at h
  split at h
  · next f hread =>
    split at h
    · next hclass =>
      cases h
      exact ⟨f, hread, hclass, rfl⟩
    · cases h
  · cases h

/-- What is sighted with a marker and claimed as a whole is replaced by its tag. -/
theorem passage_of_claim {seen : Sighting} {name candidate rest : Text} {root : Element}
    {selfClosing : Bool} (htag : seen.tag = .opening name selfClosing)
    (hshown : Text.has s.marker seen.source = true)
    (hextent : seen.extent? = some (candidate, rest)) (hclaim : s.claim? candidate = some root) :
    s.passage seen = .ok (.claimed candidate (s.tagOf root), rest) := by
  rw [passage]
  simp only [htag, hshown, hextent, hclaim, Bool.not_true, Bool.false_eq_true, if_false]

/-- What is sighted with a marker and is the shortcode's, but is not closed, makes reversal fail. -/
theorem passage_of_unclosed {seen : Sighting} {name : Text} {root : Element} {selfClosing : Bool}
    (htag : seen.tag = .opening name selfClosing) (hshown : Text.has s.marker seen.source = true)
    (hextent : seen.extent? = none) (hclaim : s.claim? seen.source = some root) :
    s.passage seen = .error (.unclosedMarkup s.name seen.source) := by
  rw [passage]
  simp only [htag, hshown, hextent, hclaim, Bool.not_true, Bool.false_eq_true, if_false]

/-- A loose tag is kept, or it shows the marker and its extent is claimed. -/
theorem passage_cases {seen : Sighting} {p : Passage} {rest : Text}
    (h : s.passage seen = .ok (p, rest)) :
    (p = .kept seen.source ∧ rest = seen.rest) ∨
      ∃ name selfClosing candidate root, seen.tag = .opening name selfClosing ∧
        Text.has s.marker seen.source = true ∧ seen.extent? = some (candidate, rest) ∧
        s.claim? candidate = some root ∧ p = .claimed candidate (s.tagOf root) := by
  have hkept : .ok (Passage.kept seen.source, seen.rest) = (.ok (p, rest) : Except Failure _) →
      p = .kept seen.source ∧ rest = seen.rest := by
    intro heq
    cases heq
    exact ⟨rfl, rfl⟩
  unfold passage at h
  dsimp only at h
  split at h
  · next name selfClosing htag =>
    split at h
    · exact .inl (hkept h)
    · next hshown =>
      split at h
      · next candidate tail hextent =>
        split at h
        · next root hclaim =>
          cases h
          exact .inr ⟨name, selfClosing, candidate, root, htag, by simpa using hshown, hextent,
            hclaim, rfl⟩
        · exact .inl (hkept h)
      -- without an extent the tag alone decides between failing and being kept
      · split at h
        · cases h
        · exact .inl (hkept h)
  · exact .inl (hkept h)

/-- One passage and what follows it make up the text at a loose tag. -/
theorem passage_eq_ok {t rest : Text} {seen : Sighting} {p : Passage}
    (hseen : LooseTag.at? t = some seen) (h : s.passage seen = .ok (p, rest)) :
    p.source ++ rest = t ∧ p.source ≠ [] ∧
      ∀ markup tag, p = .claimed markup tag → ∃ f, s.Claims f markup tag := by
  obtain ⟨happend, bracket, hbracket⟩ := LooseTag.at?_eq_some hseen
  obtain ⟨rfl, rfl⟩ | ⟨name, selfClosing, candidate, root, htag, hshown, hextent, hclaim, rfl⟩ :=
    passage_cases h
  · refine ⟨happend, ?_, fun markup tag he => by cases he⟩
    show seen.source ≠ []
    rw [hbracket]
    exact List.cons_ne_nil _ _
  · obtain ⟨hcandidate, more, hmore⟩ := Sighting.extent?_eq_some hextent
    obtain ⟨f, hread, hclass, rfl⟩ := claim?_eq_some hclaim
    refine ⟨hcandidate.trans happend, ?_, fun markup tag he => ?_⟩
    · show candidate ≠ []
      rw [hmore, hbracket]
      exact List.cons_ne_nil _ _
    · cases he
      -- the candidate begins with the opening tag, so the tag is also sighted in front of it
      have hrest : seen.rest = more ++ rest := by
        rw [hmore, List.append_assoc] at hcandidate
        exact (List.append_cancel_left hcandidate).symm
      have hat : LooseTag.at? (candidate ++ rest) =
          some ⟨.opening name selfClosing, seen.source, more ++ rest⟩ := by
        rw [hcandidate, happend, hseen, ← htag, ← hrest]
      exact ⟨f, ⟨name, selfClosing, seen.source, rest, more, hmore, hat, hshown⟩, hread, hclass,
        rfl⟩

theorem passagesUpTo_eq_ok {fuel : Nat} {t : Text} {ps : List Passage} (hf : t.length ≤ fuel)
    (h : s.passagesUpTo fuel t = .ok ps) :
    ps.flatMap Passage.source = t ∧
      ∀ markup tag, .claimed markup tag ∈ ps → ∃ f, s.Claims f markup tag := by
  induction fuel generalizing t ps with
  | zero =>
    cases h
    exact ⟨(List.length_eq_zero_iff.1 (Nat.le_zero.1 hf)).symm, fun _ _ hm => by cases hm⟩
  | succ fuel ih =>
    cases t with
    | nil =>
      cases h
      exact ⟨rfl, fun _ _ hm => by cases hm⟩
    | cons c t =>
      unfold passagesUpTo at h
      split at h
      · obtain ⟨ps', hrest, h⟩ := Except.bind_eq_ok_iff.1 h
        cases h
        obtain ⟨hsource, hclaims⟩ := ih (Nat.le_of_succ_le_succ hf) hrest
        refine ⟨congrArg (c :: ·) hsource, fun markup tag hm => ?_⟩
        rcases List.mem_cons.1 hm with he | hm
        · cases he
        · exact hclaims markup tag hm
      · next seen hseen =>
        obtain ⟨⟨p, tail⟩, hpassage, h⟩ := Except.bind_eq_ok_iff.1 h
        obtain ⟨ps', hrest, h⟩ := Except.bind_eq_ok_iff.1 h
        cases h
        -- a passage is not empty, so what follows it is shorter
        obtain ⟨happend, hne, hp⟩ := passage_eq_ok hseen hpassage
        have hpos := List.length_pos_iff.2 hne
        have hlength := congrArg List.length happend
        rw [List.length_append, List.length_cons] at hlength
        have htail : tail.length ≤ fuel := by
          rw [List.length_cons] at hf
          omega
        obtain ⟨hsource, hclaims⟩ := ih htail hrest
        refine ⟨?_, fun markup tag hm => ?_⟩
        · rw [List.flatMap_cons, hsource, happend]
        · rcases List.mem_cons.1 hm with he | hm
          · exact hp markup tag he.symm
          · exact hclaims markup tag hm

/-- The passages of a text make it up, and what becomes a tag is claimed. -/
theorem passages_eq_ok {t : Text} {ps : List Passage} (h : s.passages t = .ok ps) :
    ps.flatMap Passage.source = t ∧
      ∀ markup tag, .claimed markup tag ∈ ps → ∃ f, s.Claims f markup tag :=
  passagesUpTo_eq_ok (Nat.le_refl _) h

/-- A text that one passage takes whole. -/
theorem passages_of_passage {t : Text} {seen : Sighting} {p : Passage}
    (hseen : LooseTag.at? t = some seen) (h : s.passage seen = .ok (p, [])) :
    s.passages t = .ok [p] := by
  cases t with
  | nil => cases hseen
  | cons c t =>
    have hend : ∀ fuel, s.passagesUpTo fuel [] = .ok [] := by
      intro fuel
      cases fuel <;> rfl
    rw [passages, List.length_cons, passagesUpTo, hseen]
    simp only [Bind.bind, Except.bind, h, hend]
    rfl

/-- A passage that fails at the start of a text. -/
theorem passages_of_error {t : Text} {seen : Sighting} {e : Failure}
    (hseen : LooseTag.at? t = some seen) (h : s.passage seen = .error e) :
    s.passages t = .error e := by
  cases t with
  | nil => cases hseen
  | cons c t =>
    rw [passages, List.length_cons, passagesUpTo, hseen]
    simp only [Bind.bind, Except.bind, h]

/-! ### Written elements -/

/-- A written element that ends the text begins with its opening tag. -/
theorem at?_written {e : Element} (h : e.label.isLoose = true) :
    LooseTag.at? e.written = some (e.sighting []) := by
  have hat := Element.at?_written h []
  rwa [List.append_nil] at hat

/-- A written element is taken whole if it is claimed and can be gone through, and reversal knows
whether it is void. -/
theorem passages_written {e root : Element} (hloose : e.label.isLoose = true)
    (hpass : e.Passable)
    (hknown : e.label.isVoid = LooseTag.standsAlone e.label.name.toList false)
    (hshown : Text.has s.marker e.label.openingTag = true)
    (hclaim : s.claim? e.written = some root) :
    s.passages e.written = .ok [.claimed e.written (s.tagOf root)] := by
  have hextent := (Element.extent?_eq_iff hloose hpass []).2 hknown
  exact passages_of_passage (at?_written hloose) (passage_of_claim rfl hshown hextent hclaim)

/-- Reversal fails on a claimed void element that it does not know. -/
theorem passages_written_unknown {e root : Element} (hloose : e.label.isLoose = true)
    (hvoid : e.label.isVoid = true)
    (halone : LooseTag.standsAlone e.label.name.toList false = false)
    (hshown : Text.has s.marker e.label.openingTag = true)
    (hclaim : s.claim? e.written = some root) :
    s.passages e.written = .error (.unclosedMarkup s.name e.written) := by
  -- nothing is written behind the opening tag of a void element
  have hsource : (e.sighting []).source = e.written := by
    rw [Element.written_eq, Element.writtenRest, if_pos hvoid, List.append_nil]
    rfl
  have hpassage := passage_of_unclosed rfl hshown (Element.extent?_eq_none hvoid halone)
    (hsource ▸ hclaim)
  rw [hsource] at hpassage
  exact passages_of_error (at?_written hloose) hpassage

/-! ### Reversed texts -/

theorem reverse_eq_ok {t r : Text} (h : s.reverse t = .ok r) :
    ∃ ps, s.passages t = .ok ps ∧ ps.flatMap Passage.result = r := by
  unfold reverse at h
  split at h
  · exact Except.map_eq_ok_iff.1 h
  · cases h

theorem isReversible_of_reverse {t r : Text} (h : s.reverse t = .ok r) : s.isReversible = true := by
  unfold reverse at h
  split at h
  · assumption
  · cases h

end HtmlShortcode

end Shortcodes
