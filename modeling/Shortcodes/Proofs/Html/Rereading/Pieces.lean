import Shortcodes.Proofs.Html.Anchor
import Shortcodes.Proofs.Html.Extent

/-!
# Pieces of written markup as tokens

Opening tags, closing tags, comments and the characters of texts are each read as one token, which
says what was written (`Label.nextData_openingTag`, `Token.nextData_comment`). A builder goes over
such a piece in one step, whatever follows it (`Reads`), and over one piece after another.
-/

namespace Shortcodes.Html

/-! ### Tags -/

/-- Whether an attribute is read as it is written: nothing ends its name early, and its value comes
back. -/
def Attribute.isLegible (a : Attribute) : Bool :=
  Token.isLegibleName a.writtenName && decide (Faithful a.value)

namespace Label

variable {l : Label}

/-- The start tag as which the written opening tag is read. -/
def sourceTag (l : Label) : StartTag :=
  { name := Token.nameOf l.name.toList
    attributes := l.attributes.map fun a => (Token.nameOf a.writtenName, a.value) }

/-- Whether the tags of an element are read as they are written. -/
def isLegible (l : Label) : Bool :=
  Token.isTagName l.name.toList && l.attributes.all Attribute.isLegible &&
    decide (l.sourceTag.attributes.map (·.1)).Nodup

theorem map_withoutNul {t : Text} (h : Faithful t) : t.map withoutNul = t := by
  have hsame := asAttribute_eq_self_iff.2 h
  rwa [asAttribute, normalizeBreaks_eq_self h.1] at hsame

theorem withAttributes_sourceOf (h : l.isLegible = true) :
    Token.withAttributes [] (l.attributes.map sourceOf) = l.sourceTag.attributes := by
  simp only [isLegible, Bool.and_eq_true, List.all_eq_true, decide_eq_true_eq] at h
  obtain ⟨⟨-, hattributes⟩, hnodup⟩ := h
  have hnames : ((l.attributes.map sourceOf).map fun a => Token.nameOf a.1) =
      l.sourceTag.attributes.map (·.1) := by
    rw [sourceTag, List.map_map, List.map_map]
    rfl
  rw [Token.withAttributes_of_nodup (by rwa [List.map_nil, List.nil_append, hnames]),
    List.nil_append, List.map_map, sourceTag]
  refine List.map_congr_left fun a ha => ?_
  have hvalue : Faithful a.value := of_decide_eq_true (Bool.and_eq_true_iff.1 (hattributes a ha)).2
  have hdecode : Reference.decode (a.value.flatMap escapedInAttribute) = a.value := by
    rw [decode_flatMap codesAll_escapedInAttribute, map_withoutNul hvalue]
  simp only [Function.comp, sourceOf, hdecode]

theorem nextData_openingTag (h : l.isLegible = true) (foreign : Bool) (rest : Text) :
    Token.nextData foreign (l.openingTag ++ rest) = ([.startTag l.sourceTag], rest) := by
  have hlegible := h
  simp only [isLegible, Bool.and_eq_true, List.all_eq_true] at hlegible
  obtain ⟨⟨hname, hattributes⟩, -⟩ := hlegible
  have hsources : ∀ a ∈ l.attributes.map sourceOf, Token.Legible a := by
    intro a ha
    obtain ⟨b, hb, rfl⟩ := List.mem_map.1 ha
    exact ⟨(Bool.and_eq_true_iff.1 (hattributes b hb)).1,
      codesAll_escapedInAttribute.not_mem (by decide) (by decide) b.value⟩
  rw [openingTag_eq, Token.nextData_tagSource hname hsources, withAttributes_sourceOf h]
  rfl

theorem nextData_closingTag (h : l.isLegible = true) (foreign : Bool) (rest : Text) :
    Token.nextData foreign (l.closingTag ++ rest) = ([.endTag l.sourceTag.name], rest) := by
  simp only [isLegible, Bool.and_eq_true] at h
  exact Token.nextData_closingTag h.1.1 foreign rest

end Label

/-! ### Comments -/

namespace Token

/-- Whether a comment is read as it is written. -/
def isLegibleComment (content : Text) : Bool :=
  decide (Faithful content) && readComment (content ++ ['-', '-', '>']) == (content, [])

theorem commentBody_cons {c d e f : Char} (u : Text) (h : ¬(c = '-' ∧ d = '-' ∧ e = '>'))
    (h' : ¬(c = '-' ∧ d = '-' ∧ e = '!' ∧ f = '>')) :
    commentBody (c :: d :: e :: f :: u) =
      (c :: (commentBody (d :: e :: f :: u)).1, (commentBody (d :: e :: f :: u)).2) := by
  rw [commentBody]
  · intro rest hc he
    simp only [List.cons.injEq] at he
    exact h ⟨hc, he.1, he.2.1⟩
  · intro rest hc he
    simp only [List.cons.injEq] at he
    exact h' ⟨hc, he.1, he.2.1, he.2.2.1⟩
  · intro _ he
    cases he
  · intro _ he
    cases he
  · intro _ he
    cases he

/-- A comment that ends where it was meant to ends there whatever follows. -/
theorem commentBody_append {content : Text}
    (h : commentBody (content ++ ['-', '-', '>']) = (content, [])) (rest : Text) :
    commentBody (content ++ ['-', '-', '>'] ++ rest) = (content, rest) := by
  induction content with
  | nil => rfl
  | cons c content ih =>
    -- three more characters are there to look at
    obtain ⟨d, e, f, u, hu⟩ : ∃ d e f u, content ++ ['-', '-', '>'] = d :: e :: f :: u := by
      rcases content with _ | ⟨x, _ | ⟨y, _ | ⟨z, content⟩⟩⟩
      · exact ⟨_, _, _, _, rfl⟩
      · exact ⟨_, _, _, _, rfl⟩
      · exact ⟨_, _, _, _, rfl⟩
      · exact ⟨_, _, _, _, rfl⟩
    rw [List.cons_append, hu] at h
    have hends : ¬(c = '-' ∧ d = '-' ∧ e = '>') := by
      rintro ⟨rfl, rfl, rfl⟩
      cases h
    have hends' : ¬(c = '-' ∧ d = '-' ∧ e = '!' ∧ f = '>') := by
      rintro ⟨rfl, rfl, rfl, rfl⟩
      cases h
    rw [commentBody_cons u hends hends', ← hu, Prod.mk.injEq] at h
    have hbody := ih (Prod.ext (List.cons.inj h.1).2 h.2)
    rw [hu] at hbody
    rw [List.cons_append, List.cons_append, hu, List.cons_append, List.cons_append,
      List.cons_append, commentBody_cons _ hends hends']
    rw [List.cons_append, List.cons_append, List.cons_append] at hbody
    rw [hbody]

theorem readComment_append {content : Text}
    (h : readComment (content ++ ['-', '-', '>']) = (content, [])) (rest : Text) :
    readComment (content ++ ['-', '-', '>'] ++ rest) = (content, rest) := by
  -- only the first two characters can end a comment early
  rcases content with _ | ⟨c, _ | ⟨d, content⟩⟩
  · rfl
  · by_cases hc : c = '>'
    · subst hc
      cases h
    · have hbody : ∀ rest, readComment (c :: '-' :: '-' :: '>' :: rest) =
          commentBody (c :: '-' :: '-' :: '>' :: rest) := by
        intro rest
        rw [readComment]
        · rintro _ he
          exact hc (List.cons.inj he).1
        · rintro _ he
          exact absurd (List.cons.inj (List.cons.inj he).2).1 (by decide)
      have h' : commentBody ([c] ++ ['-', '-', '>']) = ([c], []) := (hbody []).symm.trans h
      exact (hbody rest).trans (commentBody_append h' rest)
  · have hbody : ∀ rest, readComment (c :: d :: (content ++ ['-', '-', '>'] ++ rest)) =
        commentBody (c :: d :: (content ++ ['-', '-', '>'] ++ rest)) := by
      intro rest
      rw [readComment]
      · rintro _ he
        obtain rfl := (List.cons.inj he).1
        cases h
      · rintro _ he
        obtain rfl := (List.cons.inj he).1
        obtain rfl := (List.cons.inj (List.cons.inj he).2).1
        cases h
    have hsame := hbody []
    rw [List.append_nil] at hsame
    have h' : commentBody (c :: d :: content ++ ['-', '-', '>']) = (c :: d :: content, []) :=
      hsame.symm.trans h
    exact (hbody rest).trans (commentBody_append h' rest)

theorem replaceNul_eq_self {t : Text} (h : Faithful t) : replaceNul t = t := Label.map_withoutNul h

/-- A written comment is read as one. -/
theorem nextData_comment {content : Text} (h : isLegibleComment content = true) (foreign : Bool)
    (rest : Text) :
    nextData foreign ("<!--".toList ++ content ++ "-->".toList ++ rest) =
      ([comment content], rest) := by
  simp only [isLegibleComment, Bool.and_eq_true, decide_eq_true_eq, beq_iff_eq] at h
  have hstart : "<!--".toList ++ content ++ "-->".toList ++ rest =
      '<' :: '!' :: (['-', '-'] ++ (content ++ ['-', '-', '>'] ++ rest)) := by
    simp
  have hnext : nextDeclaration foreign (['-', '-'] ++ (content ++ ['-', '-', '>'] ++ rest)) =
      ([comment (replaceNul content)], rest) := by
    rw [nextDeclaration, Text.after?_append]
    simp only [readComment_append h.2 rest]
  rw [replaceNul_eq_self h.1] at hnext
  rw [hstart]
  exact hnext

end Token

/-! ### Reading on -/

namespace Document

variable {b c d : Builder} {s t : Text} {bare bare' : Bool}

/-- A text that does not begin with a byte order mark. -/
def Unmarked (t : Text) : Prop := t.head? ≠ some '\ufeff'

/-- The builder goes from one state to another over a piece of markup, whatever follows it, but for
a byte order mark if the piece is `bare`. -/
def Reads (bare : Bool) (b : Builder) (t : Text) (c : Builder) : Prop :=
  ∀ rest fuel, (bare = true → Unmarked rest) → (t ++ rest).length ≤ fuel →
    ∃ fuel', rest.length ≤ fuel' ∧ build fuel b (t ++ rest) = build fuel' c rest

theorem reads_nil (b : Builder) : Reads bare b [] b := fun _ fuel _ hfuel => ⟨fuel, hfuel, rfl⟩

theorem Reads.append (h : Reads bare b s c) (h' : Reads bare' c t d)
    (hbare : bare = true → Unmarked t ∧ (t = [] → bare' = true)) : Reads bare' b (s ++ t) d := by
  intro rest fuel hrest hfuel
  rw [List.append_assoc] at hfuel ⊢
  have hnext : bare = true → Unmarked (t ++ rest) := by
    intro hb
    obtain ⟨ht, hnil⟩ := hbare hb
    cases t with
    | nil => exact hrest (hnil rfl)
    | cons x t => exact ht
  obtain ⟨m, hm, hs⟩ := h (t ++ rest) fuel hnext hfuel
  obtain ⟨n, hn, ht⟩ := h' rest m hrest hm
  exact ⟨n, hn, hs.trans ht⟩

theorem Reads.trans (h : Reads false b s c) (h' : Reads bare c t d) : Reads bare b (s ++ t) d :=
  h.append h' fun hb => absurd hb Bool.false_ne_true

theorem build_of_next {lexing lexing' : Lexing} {token : Token} {rest : Text} (ht : t ≠ [])
    (hb : b.lexing = lexing) (h : Token.next b.inForeign lexing t = ⟨[token], lexing', rest⟩)
    (fuel : Nat) :
    build (fuel + 1) b t = build fuel (Builder.accept { b with lexing := lexing' } token) rest := by
  rw [← hb] at h
  rw [build, h]
  · rfl
  · exact ht

/-- A piece that is one token is gone over in one step. -/
theorem reads_of_nextData {token : Token} (hb : b.lexing = .data) (ht : t ≠ [])
    (h : ∀ rest, Token.nextData b.inForeign (t ++ rest) = ([token], rest)) :
    Reads bare b t (b.accept token) := by
  intro rest fuel _ hfuel
  rw [List.length_append] at hfuel
  have hpos := List.length_pos_iff.2 ht
  obtain ⟨n, rfl⟩ : ∃ n, fuel = n + 1 := ⟨fuel - 1, by omega⟩
  refine ⟨n, by omega, ?_⟩
  rw [build_of_nextData hb (List.append_ne_nil_of_left_ne_nil ht rest) (h rest)]
  rfl

end Document

end Shortcodes.Html
