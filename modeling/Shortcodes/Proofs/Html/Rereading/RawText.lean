import Shortcodes.Proofs.Html.Rereading.Accepting

/-!
# Elements that hold one text

In some elements everything up to their end tag is text. What they hold is read character by
character, each told apart from an end tag by what follows it (`Spelled`), and the end tag leads back
to the rules that held before. Some of them show their characters by references, others show them as
they stand, and a script must not seem to open a comment.
-/

namespace Shortcodes.Html

namespace Token

/-! ### Characters before an end tag -/

/-- The closing tag of a name. -/
def closing (name : String) : Text := ['<', '/'] ++ name.toList ++ ['>']

/-- Each character of a text is read as such where the closing text stands behind it. -/
def Spelled (lexing : Lexing) (esc : Char → Text) (closing : Text) : Text → Prop
  | [] => True
  | c :: t => Spelled lexing esc closing t ∧ ∀ foreign rest,
      next foreign lexing (esc c ++ (t.flatMap esc ++ (closing ++ rest))) =
        ⟨[char c], lexing, t.flatMap esc ++ (closing ++ rest)⟩

/-- Whether no end tag of a name begins in a text that its closing tag follows. -/
def endsNowhere (name : String) : Text → Bool
  | [] => true
  | c :: t => (endTagAt? name (c :: t ++ closing name)).isNone && endsNowhere name t

/-- Behind the mark of an end tag, its name decides, with the character that follows it. -/
theorem endTagAt?_mark (name : String) (t : Text) :
    endTagAt? name ('<' :: '/' :: t) =
      if Text.lowerAscii (t.take name.toList.length) = name.toList then
        ((t.drop name.toList.length).head?.filter endsTagName).map fun _ =>
          (readAttributes? (t.length + 1) [] (t.drop name.toList.length)).map (·.2.2)
      else none := by
  rw [endTagAt?]
  cases t.drop name.toList.length with
  | nil => rfl
  | cons d u =>
    rw [List.head?_cons, Option.filter_some]
    split
    · dsimp only
      cases endsTagName d <;> rfl
    · rfl

/-- Whether an end tag begins is seen from as many characters as its closing tag has. -/
theorem endTagAt?_append {name : String} {u : Text} (hlength : name.toList.length + 3 ≤ u.length)
    (h : endTagAt? name u = none) (rest : Text) : endTagAt? name (u ++ rest) = none := by
  rcases u with _ | ⟨x, _ | ⟨y, t⟩⟩
  · simp at hlength
  · simp at hlength
  · by_cases hmark : x = '<' ∧ y = '/'
    · obtain ⟨rfl, rfl⟩ := hmark
      simp only [List.length_cons] at hlength
      have hdrop : (t.drop name.toList.length ++ rest).head? = (t.drop name.toList.length).head? :=
        List.head?_append_of_ne_nil _ (by simp; omega)
      rw [List.cons_append, List.cons_append, endTagAt?_mark,
        List.take_append_of_le_length (by omega), List.drop_append_of_le_length (by omega), hdrop]
      rw [endTagAt?_mark] at h
      split at h
      · next hname =>
        rw [if_pos hname, Option.map_eq_none_iff]
        exact Option.map_eq_none_iff.1 h
      · next hname => exact if_neg hname
    · rw [List.cons_append, List.cons_append, endTagAt?]
      intro rest' he
      simp only [List.cons.injEq] at he
      exact hmark ⟨he.1, he.2.1⟩

theorem endTagAt?_closing {name : String} (h : Text.lowerAscii name.toList = name.toList)
    (rest : Text) : endTagAt? name (closing name ++ rest) = some (some rest) := by
  have hsource : closing name ++ rest = '<' :: '/' :: (name.toList ++ '>' :: rest) := by
    simp [closing]
  rw [hsource, endTagAt?_mark, List.take_left, List.drop_left, if_pos h]
  rfl

theorem rawChar_eq {c : Char} (h : c.toNat ≠ 0) : rawChar c = char c := by
  rw [rawChar, if_neg h]

theorem toNat_ne_zero {c : Char} {t : Text} (h : Faithful t) (hc : c ∈ t) : c.toNat ≠ 0 := by
  intro h0
  refine h.2 ?_
  rwa [show '\x00' = c from (Char.toNat_inj.1 h0).symm]

theorem faithful_tail {c : Char} {t : Text} (h : Faithful (c :: t)) : Faithful t :=
  ⟨fun hm => h.1 (List.mem_cons_of_mem c hm), fun hm => h.2 (List.mem_cons_of_mem c hm)⟩

theorem flatMap_self (t : Text) : t.flatMap (fun c => [c]) = t := List.flatMap_singleton' t

theorem length_closing (name : String) : (closing name).length = name.toList.length + 3 := by
  simp [closing]

/-- Where no end tag begins, none is seen whatever follows the closing tag. -/
theorem endTagAt?_of_endsNowhere {name : String} {c : Char} {t : Text}
    (h : endsNowhere name (c :: t) = true) (rest : Text) :
    endTagAt? name (c :: (t ++ (closing name ++ rest))) = none := by
  rw [endsNowhere, Bool.and_eq_true, Option.isNone_iff_eq_none] at h
  have hlength : name.toList.length + 3 ≤ (c :: t ++ closing name).length := by
    rw [List.length_append, length_closing]
    omega
  have hnone := endTagAt?_append hlength h.1 rest
  rwa [List.append_assoc, List.cons_append] at hnone

theorem spelled_raw {name : String} {t : Text} (hfaithful : Faithful t)
    (h : endsNowhere name t = true) : Spelled (.raw name) (fun c => [c]) (closing name) t := by
  induction t with
  | nil => trivial
  | cons c t ih =>
    have hrest := h
    rw [endsNowhere, Bool.and_eq_true] at hrest
    refine ⟨ih (faithful_tail hfaithful) hrest.2, fun foreign rest => ?_⟩
    rw [flatMap_self, List.singleton_append, next, nextRawEnd?, endTagAt?_of_endsNowhere h,
      rawChar_eq (toNat_ne_zero hfaithful List.mem_cons_self)]
    rfl

theorem endTagAt?_eq_none {name : String} {c : Char} (h : c ≠ '<') (t : Text) :
    endTagAt? name (c :: t) = none := by
  rw [endTagAt?]
  rintro rest he
  exact h (List.cons.inj he).1

/-- A character that is shown in text with references is read as itself. -/
theorem next_referring {form : Text} {c : Char} (hform : Coded form c) (hbracket : '<' ∉ form)
    (hc : c.toNat ≠ 0) (name : String) (foreign : Bool) (rest : Text) :
    next foreign (.referring name) (form ++ rest) = ⟨[char c], .referring name, rest⟩ := by
  cases hform with
  | plain hamp =>
    have hlt : c ≠ '<' := fun he => hbracket (by rw [he]; exact List.mem_cons_self)
    rw [List.singleton_append, next, nextRawEnd?, endTagAt?_eq_none hlt, rawChar_eq hc]
    · rfl
    · exact hamp
  | reference hm =>
    rw [List.cons_append, next]
    simp only [read?_of_mem_references hm]
    rfl

theorem spelled_referring {t : Text} (hfaithful : Faithful t) (name : String) (ending : Text) :
    Spelled (.referring name) escapedInText ending t := by
  induction t with
  | nil => trivial
  | cons c t ih =>
    refine ⟨ih (faithful_tail hfaithful), fun foreign rest => ?_⟩
    have hbracket : '<' ∉ escapedInText c := by
      have hnot := codesAll_escapedInText.not_mem (d := '<') (by decide) (by decide) [c]
      rwa [List.flatMap_singleton] at hnot
    exact next_referring (codesAll_escapedInText c) hbracket
      (toNat_ne_zero hfaithful List.mem_cons_self) name foreign _

/-- A comment that seems to open in front of a bracket opens before it. -/
theorem after?_of_not_infix {c : Char} {t : Text} (h : ¬"<!--".toList <:+: c :: t) (u : Text) :
    Text.after? "<!--".toList (c :: (t ++ '<' :: u)) = none := by
  have hmark : "<!--".toList = ['<', '!', '-', '-'] := rfl
  rw [hmark] at h
  rw [hmark, Text.after?_eq_none_iff]
  intro hsplit
  rcases t with _ | ⟨d, _ | ⟨e, _ | ⟨f, t⟩⟩⟩
  · simp [List.cons_prefix_cons] at hsplit
  · simp [List.cons_prefix_cons] at hsplit
  · simp [List.cons_prefix_cons] at hsplit
  · refine h (List.IsPrefix.isInfix ?_)
    simpa [List.cons_prefix_cons] using hsplit

/-- A script is read as it stands if it has neither an end tag nor what seems to be a comment. -/
theorem spelled_script {t : Text} (hfaithful : Faithful t) (h : endsNowhere "script" t = true)
    (hcomment : ¬"<!--".toList <:+: t) :
    Spelled (.script .plain) (fun c => [c]) (closing "script") t := by
  induction t with
  | nil => trivial
  | cons c t ih =>
    have hrest := h
    rw [endsNowhere, Bool.and_eq_true] at hrest
    refine ⟨ih (faithful_tail hfaithful) hrest.2 fun hm => hcomment (List.infix_cons hm),
      fun foreign rest => ?_⟩
    have hopens : Text.after? "<!--".toList (c :: (t ++ (closing "script" ++ rest))) = none := by
      have hsource : closing "script" ++ rest =
          '<' :: ('/' :: ("script".toList ++ '>' :: rest)) := by simp [closing]
      rw [hsource]
      exact after?_of_not_infix hcomment _
    have hend : nextScriptEnd? (c :: (t ++ (closing "script" ++ rest))) = none := by
      rw [nextScriptEnd?, nextRawEnd?, endTagAt?_of_endsNowhere h]
      rfl
    rw [flatMap_self, List.singleton_append, next, nextScript]
    simp only [hend, hopens]
    rw [rawChar_eq (toNat_ne_zero hfaithful List.mem_cons_self)]
    rfl

/-! ### End tags -/

theorem nextRawEnd?_closing {name : String} (h : Text.lowerAscii name.toList = name.toList)
    (rest : Text) : nextRawEnd? name (closing name ++ rest) = some ⟨[endTag name], .data, rest⟩ := by
  rw [nextRawEnd?, endTagAt?_closing h]

theorem closing_append (name : String) (rest : Text) :
    closing name ++ rest = '<' :: '/' :: (name.toList ++ '>' :: rest) := by
  simp [closing]

theorem next_raw_closing {name : String} (h : Text.lowerAscii name.toList = name.toList)
    (foreign : Bool) (rest : Text) :
    next foreign (.raw name) (closing name ++ rest) = ⟨[endTag name], .data, rest⟩ := by
  have hend := nextRawEnd?_closing h rest
  rw [closing_append] at hend ⊢
  rw [next, hend, Option.getD_some]

theorem next_referring_closing {name : String} (h : Text.lowerAscii name.toList = name.toList)
    (foreign : Bool) (rest : Text) :
    next foreign (.referring name) (closing name ++ rest) = ⟨[endTag name], .data, rest⟩ := by
  have hend := nextRawEnd?_closing h rest
  rw [closing_append] at hend ⊢
  rw [next, hend, Option.getD_some]
  intro he
  exact absurd he (by decide)

/-- Behind a script a byte order mark would not count. -/
theorem next_script_closing {rest : Text} (hrest : rest.head? ≠ some '\ufeff') (foreign : Bool) :
    next foreign (.script .plain) (closing "script" ++ rest) =
      ⟨[endTag "script"], .data, rest⟩ := by
  have hmark : withoutMark rest = rest := by
    rw [withoutMark]
    rintro t rfl
    exact hrest rfl
  have hend : nextScriptEnd? (closing "script" ++ rest) = some ⟨[endTag "script"], .data, rest⟩ := by
    rw [nextScriptEnd?, nextRawEnd?_closing (by decide), Option.map_some, hmark]
  rw [closing_append] at hend ⊢
  rw [next, nextScript]
  simp only [hend]

end Token

/-! ### Elements that hold one text -/

/-- HTML elements whose content is one text. -/
def textual : List String :=
  ["iframe", "noembed", "noframes", "noscript", "script", "style", "textarea", "title", "xmp"]

/-- Elements that hold one text with references. -/
def referring : List String := ["textarea", "title"]

/-- How the content of an element is read that holds one text. -/
def contentLexing (name : String) : Lexing :=
  if referring.contains name then .referring name
  else if name == "script" then .script .plain
  else .raw name

/-- How the characters of such a text are written. -/
def contentEscape (name : String) (c : Char) : Text :=
  if referring.contains name then escapedInText c else [c]

/-- Whether a text comes back as the content of an element that holds one text. -/
def isContent (name : String) (t : Text) : Bool :=
  decide (Faithful t) && (referring.contains name ||
    Token.endsNowhere name t && (name != "script" || !Text.has "<!--".toList t))

theorem spelled_of_isContent {name : String} {t : Text} (h : isContent name t = true) :
    Token.Spelled (contentLexing name) (contentEscape name) (Token.closing name) t := by
  rw [isContent, Bool.and_eq_true, decide_eq_true_eq] at h
  obtain ⟨hfaithful, h⟩ := h
  cases hrefer : referring.contains name with
  | true =>
    have hlexing : contentLexing name = .referring name := if_pos hrefer
    have hescape : contentEscape name = escapedInText := funext fun c => if_pos hrefer
    rw [hlexing, hescape]
    exact Token.spelled_referring hfaithful name _
  | false =>
    rw [hrefer, Bool.false_or, Bool.and_eq_true] at h
    obtain ⟨hends, hcomment⟩ := h
    have hescape : contentEscape name = fun c => [c] := by
      funext c
      rw [contentEscape, hrefer, if_neg Bool.false_ne_true]
    rw [contentLexing, hrefer, if_neg Bool.false_ne_true, hescape]
    cases hscript : name == "script" with
    | true =>
      obtain rfl := beq_iff_eq.1 hscript
      rw [if_pos rfl]
      refine Token.spelled_script hfaithful hends (Text.has_eq_false_iff.1 ?_)
      simpa using hcomment
    | false =>
      rw [if_neg Bool.false_ne_true]
      exact Token.spelled_raw hfaithful hends

theorem contentEscape_ne_nil (name : String) (c : Char) : contentEscape name c ≠ [] := by
  rw [contentEscape]
  split
  · exact List.length_pos_iff.1 (codesAll_escapedInText c).length_pos
  · exact List.cons_ne_nil c []

theorem next_closing {name : String} (hname : name ∈ textual) {rest : Text}
    (hrest : name = "script" → Document.Unmarked rest) (foreign : Bool) :
    Token.next foreign (contentLexing name) (Token.closing name ++ rest) =
      ⟨[.endTag name], .data, rest⟩ := by
  have hlower : ∀ name ∈ textual, Text.lowerAscii name.toList = name.toList := by decide
  rw [contentLexing]
  split
  · exact Token.next_referring_closing (hlower _ hname) foreign rest
  · split
    · next hscript =>
      obtain rfl := beq_iff_eq.1 hscript
      exact Token.next_script_closing (hrest rfl) foreign
    · exact Token.next_raw_closing (hlower _ hname) foreign rest

namespace Builder

variable {b c : Builder} {a : Arena} {cur e : OpenElement} {stack : List OpenElement}
  {tag : StartTag} {skip : Bool} {resume : Mode} {lexing : Lexing}

/-- A state in an element that holds one text; afterwards the rules of a mode hold again. -/
def inContent (resume : Mode) (lexing : Lexing) (c : Builder) : Builder :=
  { c with mode := .text, resumeMode := resume, lexing }

theorem insertChar_inContent (c : Builder) (x : Char) :
    (inContent resume lexing c).insertChar x = inContent resume lexing (c.insertChar x) := by
  have hplace : (inContent resume lexing c).placeIn (inContent resume lexing c).current =
      c.placeIn c.current := rfl
  rw [insertChar, insertChar, hplace]
  cases c.placeIn c.current with
  | last parent => rfl
  | beforeTable table otherwise =>
    dsimp only
    rw [apply_ite (inContent resume lexing)]
    rfl

namespace Steady

/-- What a state in such an element is, once a line break counts again. -/
theorem isForeign_inContent (h : Steady (e :: stack) a skip c) (hhtml : e.space = .html) (t : Token) :
    (inContent resume lexing { c with skipBreak := false }).isForeign t = false :=
  isForeign_of_html (show (inContent resume lexing { c with skipBreak := false }).stack = e :: stack
    from h.stack_eq) hhtml t

/-- A character joins what the element holds. -/
theorem accept_inContent (h : Steady (e :: stack) a skip c) (hhtml : e.space = .html) {x : Char}
    (hbreak : skip = true → x ≠ '\n') :
    ∃ d, (inContent resume lexing c).accept (.char x) = inContent resume lexing d ∧
      Steady (e :: stack) (a.appendChar e.id x) false d := by
  have hrule : rule (inContent resume lexing { c with skipBreak := false }) (.char x) =
      (inContent resume lexing (insertChar { c with skipBreak := false } x)).done := by
    rw [rule, h.isForeign_inContent hhtml, if_neg Bool.false_ne_true, ← insertChar_inContent]
    rfl
  refine ⟨_, accept_char_of_rule (fun hb => hbreak (h.skipBreak_eq.symm.trans hb)) hrule, ?_⟩
  have hsteady := h.with_skipBreak false
  rw [hsteady.insertChar_eq]
  exact hsteady.with_arena (Arena.grows_appendChar hsteady.lt_size x)

/-- The end tag closes the element and gives the rules back. -/
theorem accept_ending (h : Steady (e :: stack) a skip c) (hhtml : e.space = .html) (name : String) :
    accept (inContent resume .data c) (.endTag name) =
      { c with stack, mode := resume, resumeMode := resume, skipBreak := false } := by
  have hlexing : c.lexing = .data := h.lexing_eq
  have hrule : rule (inContent resume .data { c with skipBreak := false }) (.endTag name) =
      Builder.done { c with stack, mode := resume, resumeMode := resume, skipBreak := false } := by
    rw [rule, h.isForeign_inContent hhtml, if_neg Bool.false_ne_true]
    show Builder.done { pop (inContent resume .data { c with skipBreak := false }) with
      mode := resume } = _
    rw [pop]
    show Builder.done { c with
      stack := c.stack.tail, mode := resume, resumeMode := resume, skipBreak := false,
      lexing := .data } = _
    rw [h.stack_eq, ← hlexing]
    rfl
  exact accept_of_rule rfl hrule

/-! #### Start tags -/

theorem insertRaw_eq (h : Steady (cur :: stack) a skip b) (hname : tag.name ∉ marked) :
    b.insertRaw tag lexing = inContent .inBody lexing (b.insert tag) := by
  have hmode := (h.insert hname).mode_eq
  rw [insertRaw, inContent]
  rw [hmode]

/-- The start tag of an element that holds one text opens it and changes how text is read. -/
theorem bodyStart_textual (h : Steady (cur :: stack) a false b) (hname : tag.name ∈ textual)
    (hadmits : admits (cur :: stack) tag.name = true) :
    ∃ c, b.bodyStart tag = (inContent .inBody (contentLexing tag.name) c).done ∧
      Opened cur stack a tag (tag.name == "textarea") c := by
  have hmarked : ∀ name ∈ textual, name ∉ marked := by decide
  have hnot := hmarked _ hname
  have hrules := undisturbed hadmits
  simp only [disturbing, List.forall_mem_cons] at hrules
  obtain ⟨hp, -⟩ := hrules
  have hframeset := h.with_framesetOk false
  have hskip := (h.with_skipBreak true).with_framesetOk false
  obtain ⟨name, attributes, selfClosing⟩ := tag
  simp only [textual, List.mem_cons, List.not_mem_nil, or_false] at hname
  rcases hname with rfl | rfl | rfl | rfl | rfl | rfl | rfl | rfl | rfl
  · exact ⟨_, congrArg done (hframeset.insertRaw_eq hnot), hframeset.insert hnot⟩
  · exact ⟨_, congrArg done (h.insertRaw_eq hnot), h.insert hnot⟩
  · exact ⟨_, congrArg done (h.insertRaw_eq hnot), h.insert hnot⟩
  · exact ⟨_, congrArg done (h.insertRaw_eq hnot), h.insert hnot⟩
  · exact ⟨_, congrArg done (h.insertRaw_eq hnot), h.insert hnot⟩
  · exact ⟨_, congrArg done (h.insertRaw_eq hnot), h.insert hnot⟩
  · exact ⟨_, congrArg done (hskip.insertRaw_eq hnot), hskip.insert hnot⟩
  · exact ⟨_, congrArg done (h.insertRaw_eq hnot), h.insert hnot⟩
  · -- the only one of them that ends a paragraph
    refine ⟨_, congrArg done ?_, hframeset.insert hnot⟩
    rw [h.closeParagraphInScope_eq (hp rfl), h.reopenFormatting_eq]
    exact hframeset.insertRaw_eq hnot

/-! #### Content -/

open Document

/-- What stands in the element is read as one text, and the end tag closes the element. -/
theorem reads_content (h : Steady (e :: stack) a skip c) {name : String}
    (he : e.isHtml name = true) (hname : name ∈ textual) {t : Text}
    (hspelled : Token.Spelled (contentLexing name) (contentEscape name) (Token.closing name) t)
    (hbreak : skip = true → t.head? ≠ some '\n') :
    ∃ d, Reads (name == "script") (inContent .inBody (contentLexing name) c)
        (t.flatMap (contentEscape name) ++ Token.closing name) d ∧
      Steady stack (t.foldl (fun a x => a.appendChar e.id x) a) false d := by
  have hisname : e.space = .html ∧ e.name = name := by
    simpa [OpenElement.isHtml, Bool.and_eq_true] using he
  induction t generalizing a skip c with
  | nil =>
    have hunmarked : ∀ name ∈ textual, isUnmarked name = true := by decide
    -- the closing tag ends the text
    have hclosed := h.closed (by rw [hisname.2]; exact hunmarked _ hname)
    refine ⟨{ c with stack, mode := .inBody, resumeMode := .inBody, skipBreak := false }, ?_,
      { hclosed with mode_eq := rfl, skipBreak_eq := rfl }⟩
    intro rest fuel hrest hfuel
    have hunmarked : name = "script" → Unmarked rest := fun hs => hrest (beq_iff_eq.2 hs)
    have hnext := next_closing hname hunmarked
      (inContent .inBody (contentLexing name) c).inForeign
    rw [List.flatMap_nil, List.nil_append] at hfuel ⊢
    rw [List.length_append, Token.length_closing] at hfuel
    obtain ⟨n, rfl⟩ : ∃ n, fuel = n + 1 := ⟨fuel - 1, by omega⟩
    refine ⟨n, by omega, ?_⟩
    rw [← h.accept_ending hisname.1 name]
    exact build_of_next (by simp [Token.closing]) rfl hnext n
  | cons x t ih =>
    obtain ⟨hspelled, hnext⟩ := hspelled
    -- one character is read; only the first one can be a line break that is skipped
    obtain ⟨d, hd, hsteady⟩ : ∃ d, (inContent .inBody (contentLexing name) c).accept (.char x) =
        inContent .inBody (contentLexing name) d ∧
          Steady (e :: stack) (a.appendChar e.id x) false d :=
      h.accept_inContent hisname.1 fun hskip hx => hbreak hskip (by rw [hx]; rfl)
    obtain ⟨f, hread, hf⟩ := ih hsteady hspelled fun hskip => absurd hskip Bool.false_ne_true
    refine ⟨f, fun rest fuel hrest hfuel => ?_, hf⟩
    rw [List.flatMap_cons, List.append_assoc, List.append_assoc] at hfuel ⊢
    have hpos := List.length_pos_iff.2 (contentEscape_ne_nil name x)
    rw [List.length_append] at hfuel
    obtain ⟨n, rfl⟩ : ∃ n, fuel = n + 1 := ⟨fuel - 1, by omega⟩
    obtain ⟨m, hm, hbuild⟩ := hread rest n hrest (by rw [List.append_assoc]; omega)
    rw [List.append_assoc] at hbuild
    refine ⟨m, hm, Eq.trans ?_ hbuild⟩
    rw [← hd]
    exact build_of_next (List.append_ne_nil_of_left_ne_nil (contentEscape_ne_nil name x) _) rfl
      (hnext _ rest) n

/-- An element that holds one text is read from its opening tag to its closing tag. -/
theorem reads_textual (h : Steady (cur :: stack) a skip b) {label : Label}
    (hlegible : label.isLegible = true) (hlabel : htmlLabel label.sourceTag = label)
    (hname : label.name ∈ textual) (hadmits : admits (cur :: stack) label.name = true)
    (hforeign : isForeign { stack := [cur] } (.startTag label.sourceTag) = false) {t : Text}
    (hcontent : isContent label.name t = true)
    (hbreak : label.name = "textarea" → t.head? ≠ some '\n') :
    ∃ c, Reads (label.name == "script") b
        (label.openingTag ++ t.flatMap (contentEscape label.name) ++ label.closingTag) c ∧
      Steady (cur :: stack) (t.foldl (fun a' x => a'.appendChar a.size x)
        (a.sprout cur.id (.element label none))) false c := by
  have hsteady := h.with_skipBreak false
  have hspelled := spelled_of_isContent hcontent
  have hisname := name_sourceTag hlabel
  have htextual : label.sourceTag.name ∈ textual := by rwa [hisname]
  obtain ⟨c, hstart, hopened⟩ := hsteady.bodyStart_textual htextual (by rwa [hisname])
  rw [Opened, hlabel, hisname] at hopened
  have hhtml : label.space = .html := by rw [← hlabel]; rfl
  have hopen : (opening a.size label).isHtml label.name = true := by
    rw [OpenElement.isHtml, opening, hhtml]
    simp
  have hrule : rule { b with skipBreak := false } (.startTag label.sourceTag) =
      (inContent .inBody (contentLexing label.name) c, none) := by
    rw [hsteady.rule_eq_inBody ((hsteady.isForeign_eq _).trans hforeign)]
    show Builder.bodyStart _ _ = _
    rw [hstart, hisname]
    rfl
  have hopening : Reads false b label.openingTag
      (inContent .inBody (contentLexing label.name) c) := by
    rw [← accept_of_rule rfl hrule]
    exact reads_of_nextData h.lexing_eq (by simp [Label.openingTag])
      fun rest => Label.nextData_openingTag hlegible _ rest
  -- the tag opens the element and changes the lexing, and the content is read in that
  obtain ⟨d, hread, hd⟩ := hopened.reads_content hopen hname hspelled fun hskip =>
    hbreak (beq_iff_eq.1 hskip)
  refine ⟨d, ?_, hd⟩
  rw [List.append_assoc]
  exact hopening.trans hread

end Steady

end Builder

end Shortcodes.Html
