import Shortcodes.Html.Fragment
import Shortcodes.Proofs.Html.OpeningTag
import Shortcodes.Proofs.Html.Reference

/-!
# Reading and writing an anchor

An anchor with nothing but text in it goes through the builder in three steps: its start tag opens
the document around it (`accept_anchorTag`), each character of its content joins one text
(`accept_char_inAnchor`, `build_inAnchor`) and its end tag changes nothing (`arena_close`). What is
read is the anchor with its values decoded (`read?_anchorSource`), and that is written in the same
form again (`written_anchor`).
-/

namespace Shortcodes.Html

namespace Builder

/-- The start tag of an anchor. -/
def anchorTag (attributes : List (String × Text)) : StartTag := ⟨"a", attributes, false⟩

/-- The cells of an anchor in its document, with the cells below it. -/
def anchorCells (attributes : List (String × Text)) (children : List Nat) : Arena :=
  #[{ content := .document, children := [1] },
    { content := .element ⟨.html, "html", []⟩ none, parent := some 0, children := [2, 3] },
    { content := .element ⟨.html, "head", []⟩ none, parent := some 1 },
    { content := .element ⟨.html, "body", []⟩ none, parent := some 1, children := [4] },
    { content := .element (htmlLabel (anchorTag attributes)) none, parent := some 3, children }]

/-- The cells of an anchor with a text, the last character first. -/
def anchorArena (attributes : List (String × Text)) : (reversed : Text) → Arena
  | [] => anchorCells attributes []
  | c :: cs => (anchorCells attributes [5]).push { content := .text (c :: cs), parent := some 4 }

/-- The state in an anchor at the start of a document, behind a text. -/
def inAnchor (attributes : List (String × Text)) (framesetOk : Bool) (reversed : Text) : Builder :=
  { arena := anchorArena attributes reversed
    mode := .inBody
    stack := [⟨4, .html, "a", false⟩, ⟨3, .html, "body", false⟩, ⟨1, .html, "html", false⟩]
    formatting := [.element 4 (anchorTag attributes)]
    head := some 2
    framesetOk
    legacy := true }

theorem accept_anchorTag (attributes : List (String × Text)) :
    Builder.accept {} (.startTag (anchorTag attributes)) = inAnchor attributes true [] := by
  rfl

theorem accept_char_nul {c : Char} (h : c.toNat = 0) (attributes : List (String × Text))
    (framesetOk : Bool) (reversed : Text) :
    (inAnchor attributes framesetOk reversed).accept (.char c) =
      inAnchor attributes framesetOk reversed := by
  have : c = '\x00' := Char.toNat_inj.1 h
  subst this
  rfl

theorem reopenFormatting_inAnchor (attributes : List (String × Text)) (framesetOk : Bool)
    (reversed : Text) :
    (inAnchor attributes framesetOk reversed).reopenFormatting =
      inAnchor attributes framesetOk reversed := rfl

theorem insertChar_inAnchor (attributes : List (String × Text)) (framesetOk : Bool)
    (reversed : Text) (c : Char) :
    (inAnchor attributes framesetOk reversed).insertChar c =
      inAnchor attributes framesetOk (c :: reversed) := by
  cases reversed with
  | nil => rfl
  | cons d reversed => rfl

theorem inBody_inAnchor {c : Char} (h : c.toNat ≠ 0) (attributes : List (String × Text))
    (framesetOk : Bool) (reversed : Text) :
    (inAnchor attributes framesetOk reversed).inBody (.char c) =
      (inAnchor attributes (framesetOk && Token.isSpace c) (c :: reversed)).done := by
  unfold inBody
  dsimp only
  rw [if_neg h, reopenFormatting_inAnchor]
  cases Token.isSpace c with
  | true =>
    rw [if_pos rfl, insertChar_inAnchor, Bool.and_true]
  | false =>
    rw [if_neg Bool.false_ne_true, Bool.and_false]
    exact congrArg done (insertChar_inAnchor attributes false reversed c)

theorem process_again {b c : Builder} {t t' : Token} (hf : b.isForeign t = false)
    (hm : b.byMode t = (c, some t')) (fuel : Nat) :
    process (fuel + 1) b t = process fuel c t' := by
  rw [process, hf, if_neg Bool.false_ne_true, hm]

theorem process_done {b c : Builder} {t : Token} (hf : b.isForeign t = false)
    (hm : b.byMode t = (c, none)) (fuel : Nat) : process (fuel + 1) b t = c := by
  rw [process, hf, if_neg Bool.false_ne_true, hm]

theorem accept_char_inAnchor {c : Char} (h : c.toNat ≠ 0) (attributes : List (String × Text))
    (framesetOk : Bool) (reversed : Text) :
    (inAnchor attributes framesetOk reversed).accept (.char c) =
      inAnchor attributes (framesetOk && Token.isSpace c) (c :: reversed) := by
  have hbody : (inAnchor attributes framesetOk reversed).byMode (.char c) =
      (inAnchor attributes (framesetOk && Token.isSpace c) (c :: reversed), none) :=
    inBody_inAnchor h attributes framesetOk reversed
  exact process_done rfl hbody 29

/-- The end tag of the anchor and the end of the markup leave the tree as it is. -/
theorem arena_close (attributes : List (String × Text)) (framesetOk : Bool) (reversed : Text) :
    (((inAnchor attributes framesetOk reversed).accept (.endTag "a")).accept .stop).arena =
      anchorArena attributes reversed := by
  cases reversed with
  | nil => rfl
  | cons c reversed => rfl

end Builder

open Builder

namespace Document

theorem build_nil (fuel : Nat) (b : Builder) : build fuel b [] = b.accept .stop := by
  cases fuel with
  | zero => rfl
  | succ n => rfl

theorem build_of_nextData {b : Builder} {t rest : Text} {tokens : List Token}
    (hb : b.lexing = .data) (ht : t ≠ [])
    (h : Token.nextData b.inForeign t = (tokens, rest)) (fuel : Nat) :
    build (fuel + 1) b t = build fuel (tokens.foldl Builder.accept b) rest := by
  have hnext : Token.next b.inForeign b.lexing t = ⟨tokens, .data, rest⟩ := by
    rw [hb, Token.next, h]
  rw [build, hnext, ← hb]
  exact ht

/-- Content in which each character is shown is added to the anchor's text, but for characters
whose code is zero. -/
theorem build_inAnchor {esc : Char → Text} (h : CodesAll esc) (hlt : esc '<' ≠ ['<'])
    (attributes : List (String × Text)) (t rest : Text) (framesetOk : Bool) (reversed : Text)
    {fuel : Nat} (hf : (t.flatMap esc ++ rest).length ≤ fuel) :
    ∃ framesetOk' fuel', rest.length ≤ fuel' ∧
      build fuel (inAnchor attributes framesetOk reversed) (t.flatMap esc ++ rest) =
        build fuel' (inAnchor attributes framesetOk' ((withoutNuls t).reverse ++ reversed))
          rest := by
  induction t generalizing framesetOk reversed fuel with
  | nil => exact ⟨framesetOk, fuel, hf, rfl⟩
  | cons c t ih =>
    have hpos := (h c).length_pos
    rw [List.flatMap_cons, List.append_assoc, List.length_append] at hf
    obtain ⟨n, rfl⟩ : ∃ n, fuel = n + 1 := ⟨fuel - 1, by omega⟩
    have hne : esc c ++ (t.flatMap esc ++ rest) ≠ [] :=
      List.append_ne_nil_of_left_ne_nil (List.length_pos_iff.1 hpos) _
    have hc : '<' ∉ esc c := by
      have := h.not_mem (by decide) hlt [c]
      rwa [List.flatMap_singleton] at this
    have hstep := build_of_nextData (b := inAnchor attributes framesetOk reversed) rfl hne
      (nextData_coded (h c) hc _ _) n
    have hrest : (t.flatMap esc ++ rest).length ≤ n := by omega
    rw [List.flatMap_cons, List.append_assoc, hstep, List.foldl_cons, List.foldl_nil]
    -- a null character is dropped, any other is put behind the text
    by_cases hc : c.toNat = 0
    · obtain ⟨ok, m, hm, hb⟩ := ih framesetOk reversed hrest
      refine ⟨ok, m, hm, ?_⟩
      rw [accept_char_nul hc, hb, withoutNuls_cons_nul hc]
    · obtain ⟨ok, m, hm, hb⟩ := ih (framesetOk && Token.isSpace c) (c :: reversed) hrest
      refine ⟨ok, m, hm, ?_⟩
      rw [accept_char_inAnchor hc, hb, withoutNuls_cons hc]
      simp

end Document

/-- An anchor with its attributes, as they stand, and its content. -/
def anchorSource (attributes : List (Text × Text)) (content : Text) : Text :=
  '<' :: tagSource ['a'] attributes ++ content ++ ['<', '/', 'a', '>']

/-- The nodes of a text. -/
def textNodes (t : Text) : List Node := if t = [] then [] else [.text t]

/-- The element of an anchor that holds nothing but text. -/
def anchor (attributes : List (String × Text)) (content : Text) : Element :=
  ⟨htmlLabel (anchorTag attributes), textNodes content⟩

theorem toNodes_anchorArena (attributes : List (String × Text)) (reversed : Text) :
    (anchorArena attributes reversed).toNodes ((anchorArena attributes reversed).size + 1)
        ((anchorArena attributes reversed).cell 0).children =
      [.element ⟨.html, "html", []⟩ [.element ⟨.html, "head", []⟩ [],
        .element ⟨.html, "body", []⟩ [(anchor attributes reversed.reverse).node]]] := by
  cases reversed with
  | nil => rfl
  | cons c reversed =>
    have hne : (c :: reversed).reverse ≠ [] := by simp
    rw [anchor, textNodes, if_neg hne]
    rfl

/-- An attribute with its line breaks written alike. -/
def withBreaks (a : Text × Text) : Text × Text := (a.1, Token.normalizeBreaks a.2)

theorem normalizeBreaks_attributeSource {a : Text × Text} (h : '\r' ∉ a.1) (rest : Text) :
    Token.normalizeBreaks (attributeSource a ++ rest) =
      attributeSource (withBreaks a) ++ Token.normalizeBreaks rest := by
  have hname : '\r' ∉ ' ' :: a.1 ++ ['=', '"'] := by simp [h]
  have hsource : ∀ v rest : Text, attributeSource (a.1, v) ++ rest =
      (' ' :: a.1 ++ ['=', '"']) ++ (v ++ '"' :: rest) :=
    fun v rest => by simp [attributeSource]
  have hleft : attributeSource a ++ rest = _ := hsource a.2 rest
  have hquote : ('"' :: rest).head? ≠ some '\n' := by
    rw [List.head?_cons, ne_eq, Option.some.injEq]
    decide
  have hvalue : Token.normalizeBreaks (a.2 ++ '"' :: rest) =
      Token.normalizeBreaks a.2 ++ '"' :: Token.normalizeBreaks rest := by
    rw [normalizeBreaks_append_of_head hquote, normalizeBreaks_cons (by decide)]
  rw [hleft, normalizeBreaks_append hname, hvalue, withBreaks, hsource]

theorem prepare_anchorSource {attributes : List (Text × Text)} (h : ∀ a ∈ attributes, '\r' ∉ a.1)
    (content : Text) :
    Token.prepare (anchorSource attributes content) =
      anchorSource (attributes.map withBreaks) (Token.normalizeBreaks content) := by
  have hattributes : ∀ rest : Text,
      Token.normalizeBreaks (attributes.flatMap attributeSource ++ rest) =
        (attributes.map withBreaks).flatMap attributeSource ++ Token.normalizeBreaks rest := by
    intro rest
    induction attributes with
    | nil => rfl
    | cons a attributes ih =>
      rw [List.flatMap_cons, List.append_assoc,
        normalizeBreaks_attributeSource (h a List.mem_cons_self),
        ih fun b hb => h b (List.mem_cons_of_mem a hb), List.map_cons, List.flatMap_cons,
        List.append_assoc]
  have hsource : ∀ (attributes : List (Text × Text)) (content : Text),
      anchorSource attributes content =
        ['<', 'a'] ++ (attributes.flatMap attributeSource ++ (['>'] ++ (content ++
          ['<', '/', 'a', '>']))) :=
    fun attributes content => by simp [anchorSource, tagSource]
  -- the closing tag does not begin with the second half of a line break
  have hend : (['<', '/', 'a', '>'] : Text).head? ≠ some '\n' := by decide
  have hmark : Token.withoutMark (anchorSource attributes content) =
      anchorSource attributes content := rfl
  rw [Token.prepare, hmark, hsource, hsource, normalizeBreaks_append (by decide), hattributes,
    normalizeBreaks_append (by decide), normalizeBreaks_append_of_head hend]
  rfl

theorem Quotable.withBreaks {a : Text × Text} (h : Quotable a) : Quotable (withBreaks a) := by
  refine ⟨h.ne_nil, h.name, fun hm => ?_⟩
  rcases mem_of_mem_normalizeBreaks hm with hv | he
  · exact h.value hv
  · revert he; decide

/-- The cells of an anchor with text. -/
theorem Document.arena_finalState {esc : Char → Text} (hesc : CodesAll esc) (hlt : esc '<' ≠ ['<'])
    {attributes : List (Text × Text)} (h : ∀ a ∈ attributes, Quotable a ∧ '\r' ∉ a.1) (t : Text) :
    (finalState (anchorSource attributes (t.flatMap esc))).arena =
      anchorArena (Token.withAttributes [] (attributes.map withBreaks))
        (withoutNuls (Token.normalizeBreaks t)).reverse := by
  have hquotable : ∀ a ∈ attributes.map withBreaks, Quotable a := by
    intro a ha
    obtain ⟨b, hb, rfl⟩ := List.mem_map.1 ha
    exact (h b hb).1.withBreaks
  have hclose : Token.nextData false ['<', '/', 'a', '>'] = ([.endTag "a"], []) := rfl
  have hname : Token.nameOf ['a'] = "a" := rfl
  rw [finalState, prepare_anchorSource fun a ha => (h a ha).2, normalizeBreaks_flatMap hesc]
  generalize attributes.map withBreaks = attributes at hquotable ⊢
  generalize Token.normalizeBreaks t = t
  have hopen := Token.nextData_tagSource (show Token.isTagName ['a'] = true from rfl)
    (fun a ha => (hquotable a ha).legible) false (t.flatMap esc ++ ['<', '/', 'a', '>'])
  rw [List.cons_append, hname] at hopen
  -- the opening tag, the content and the closing tag, one after the other
  rw [anchorSource, List.append_assoc, List.cons_append, List.length_cons,
    build_of_nextData (b := {}) rfl (List.cons_ne_nil '<' _) hopen, List.foldl_cons,
    List.foldl_nil]
  have hfuel : (t.flatMap esc ++ ['<', '/', 'a', '>']).length ≤
      (tagSource ['a'] attributes ++ (t.flatMap esc ++ ['<', '/', 'a', '>'])).length :=
    (List.sublist_append_right _ _).length_le
  obtain ⟨framesetOk, m, hm, hb⟩ := build_inAnchor hesc hlt (Token.withAttributes [] attributes) t
    ['<', '/', 'a', '>'] true [] hfuel
  have hanchor := accept_anchorTag (Token.withAttributes [] attributes)
  rw [anchorTag] at hanchor
  rw [hanchor, hb, List.append_nil]
  obtain ⟨n, rfl⟩ : ∃ n, m = n + 1 := ⟨m - 1, by simp at hm; omega⟩
  rw [build_of_nextData
      (b := inAnchor (Token.withAttributes [] attributes) framesetOk (withoutNuls t).reverse) rfl
      (List.cons_ne_nil '<' _) hclose, List.foldl_cons, List.foldl_nil, build_nil, arena_close]

theorem read?_anchorSource {esc : Char → Text} (hesc : CodesAll esc) (hlt : esc '<' ≠ ['<'])
    {attributes : List (Text × Text)} (h : ∀ a ∈ attributes, Quotable a ∧ '\r' ∉ a.1) (t : Text) :
    Fragment.read? (anchorSource attributes (t.flatMap esc)) =
      some ⟨anchor (Token.withAttributes [] (attributes.map withBreaks))
        (withoutNuls (Token.normalizeBreaks t)), 1⟩ := by
  have hread : Document.read (anchorSource attributes (t.flatMap esc)) =
      [.element ⟨.html, "html", []⟩ [.element ⟨.html, "head", []⟩ [],
        .element ⟨.html, "body", []⟩ [(anchor (Token.withAttributes [] (attributes.map withBreaks))
          (withoutNuls (Token.normalizeBreaks t))).node]]] := by
    rw [Document.read, Document.arena_finalState hesc hlt h, toNodes_anchorArena,
      List.reverse_reverse]
  rw [Fragment.read?, hread]
  rfl

/-- A name that both readers of tags take for the name of an attribute. -/
structure AttributeName (name : String) : Prop where
  ne_nil : name.toList ≠ []
  chars : ∀ c ∈ name.toList,
    Token.endsAttributeName c = false ∧ LooseTag.isAttributeChar c = true
  nameOf_eq : Token.nameOf name.toList = name

theorem attributeName_href : AttributeName "href" :=
  ⟨by decide, Text.forall_mem_of_all (by decide), by decide⟩

theorem attributeName_class : AttributeName "class" :=
  ⟨by decide, Text.forall_mem_of_all (by decide), by decide⟩

/-- An anchor that shows each character of its values and of its text is read as the anchor, and
nothing stands beside it. -/
theorem read?_coded {escValue esc : Char → Text} (hvalue : CodesAll escValue)
    (hquote : escValue '"' ≠ ['"']) (hesc : CodesAll esc) (hlt : esc '<' ≠ ['<'])
    {attributes : List (String × Text)} (hnames : ∀ a ∈ attributes, AttributeName a.1)
    (hnodup : (attributes.map (·.1)).Nodup) (content : Text) :
    Fragment.read? (anchorSource (attributes.map fun a => (a.1.toList, a.2.flatMap escValue))
        (content.flatMap esc)) =
      some ⟨anchor (attributes.map fun a => (a.1, asAttribute a.2)) (asContent content), 1⟩ := by
  have hquotable : ∀ b ∈ attributes.map fun a => (a.1.toList, a.2.flatMap escValue),
      Quotable b ∧ '\r' ∉ b.1 := by
    intro b hb
    obtain ⟨a, ha, rfl⟩ := List.mem_map.1 hb
    have hname := hnames a ha
    refine ⟨⟨hname.ne_nil, hname.chars, hvalue.not_mem (by decide) hquote a.2⟩, fun hm => ?_⟩
    exact absurd (hname.chars _ hm).1 (by decide)
  have hvalues : Token.withAttributes []
      ((attributes.map fun a => (a.1.toList, a.2.flatMap escValue)).map withBreaks) =
        attributes.map fun a => (a.1, asAttribute a.2) := by
    have hmap : ((attributes.map fun a => (a.1.toList, a.2.flatMap escValue)).map withBreaks).map
        (fun a => Token.nameOf a.1) = attributes.map (·.1) := by
      rw [List.map_map, List.map_map]
      exact List.map_congr_left fun a ha => (hnames a ha).nameOf_eq
    rw [Token.withAttributes_of_nodup (by rwa [hmap]), List.nil_append, List.map_map, List.map_map]
    refine List.map_congr_left fun a ha => ?_
    -- line breaks and references do not disturb each other
    have hdecode : Reference.decode (Token.normalizeBreaks (a.2.flatMap escValue)) =
        asAttribute a.2 := by
      rw [normalizeBreaks_flatMap hvalue, decode_flatMap hvalue, asAttribute]
    simp only [Function.comp, withBreaks, (hnames a ha).nameOf_eq, hdecode]
  rw [read?_anchorSource hesc hlt hquotable, hvalues]
  rfl

theorem written_anchor (attributes : List (String × Text)) (content : Text) :
    (anchor attributes content).written =
      anchorSource (attributes.map fun a => (a.1.toList, a.2.flatMap escapedInAttribute))
        (content.flatMap escapedInText) := by
  have hopening : (htmlLabel (anchorTag attributes)).openingTag = '<' :: tagSource ['a']
      (attributes.map fun a => (a.1.toList, a.2.flatMap escapedInAttribute)) := by
    have hwritten : ∀ a : String × Text,
        Attribute.written { name := a.1, value := a.2 } =
          attributeSource (a.1.toList, a.2.flatMap escapedInAttribute) := by
      intro a
      simp [Attribute.written, Attribute.writtenName, attributeSource]
    simp only [Label.openingTag, htmlLabel, anchorTag, ownAttributes, tagSource,
      List.flatMap_map, hwritten]
    rfl
  have hclosing : (htmlLabel (anchorTag attributes)).closingTag = ['<', '/', 'a', '>'] := by
    simp [htmlLabel, anchorTag, Label.closingTag]
  have hvoid : (htmlLabel (anchorTag attributes)).isVoid = false := rfl
  have hcontent : Node.writtenAll (htmlLabel (anchorTag attributes)).isRaw (textNodes content) =
      content.flatMap escapedInText := by
    cases content with
    | nil => rfl
    | cons c cs =>
      rw [textNodes, if_neg (List.cons_ne_nil c cs), Node.writtenAll, Node.writtenAll,
        List.append_nil]
      rfl
  rw [Element.written, Element.node, anchor, Node.written, hvoid, if_neg Bool.false_ne_true,
    hopening, hcontent, hclosing, anchorSource]

/-- An anchor is read as itself when its values and its text come back from markup unchanged. -/
theorem read?_written_anchor {attributes : List (String × Text)}
    (hnames : ∀ a ∈ attributes, AttributeName a.1) (hnodup : (attributes.map (·.1)).Nodup)
    (hvalues : ∀ a ∈ attributes, Faithful a.2) {content : Text} (hcontent : Faithful content) :
    Fragment.read? (anchor attributes content).written = some ⟨anchor attributes content, 1⟩ := by
  have hsame : (attributes.map fun a => (a.1, asAttribute a.2)) = attributes := by
    refine (List.map_congr_left fun a ha => ?_).trans (List.map_id _)
    rw [asAttribute_eq_self_iff.2 (hvalues a ha)]
    rfl
  have hread := read?_coded codesAll_escapedInAttribute (by decide) codesAll_escapedInText
    (by decide) hnames hnodup content
  rw [hsame, asContent_eq_self_iff.2 hcontent] at hread
  rw [written_anchor]
  exact hread

end Shortcodes.Html
