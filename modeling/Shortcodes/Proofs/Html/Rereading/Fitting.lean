import Shortcodes.Proofs.Html.Rereading.Foreign
import Shortcodes.Proofs.Html.Rereading.RawText

/-!
# Trees that are read as they are written

Whether a node comes back where its written form is read depends on the open elements around it: a
list in a paragraph would end the paragraph, a link in a link would close it (`fits`). Where every
node of a tree fits and its texts stand apart, the builder goes over the written form as over a
piece that needs no repair, and what it adds to the cells is the tree (`Steady.reads_node`).
-/

namespace Shortcodes.Html

/-! ### Where nodes stand -/

namespace OpenElement

/-- An open element without its number. -/
def anonymous (e : OpenElement) : OpenElement := { e with id := 0 }

end OpenElement

namespace Builder

variable {cur : OpenElement} {around stack : List OpenElement} {tag : StartTag}

/-- Elements that a line break may not begin. -/
def unbroken : List String := "textarea" :: Steady.breaking

/-- Whether a line break stands at the start of nodes. -/
def startsWithBreak (nodes : List Node) : Bool :=
  (nodes.head?.bind Node.text?).any fun t => t.head? == some '\n'

/-- Whether a node is an HTML script. -/
def isScript : Node → Bool
  | .element label _ => decide (label.space = .html) && label.name == "script"
  | _ => false

/-- The text that nodes are, if they are nothing else. -/
def soleText? : List Node → Option Text
  | [] => some []
  | [.text t] => some t
  | _ => none

mutual

/-- Whether a node comes back where its written form is read in an element, with other elements
around that one. -/
def fits (cur : OpenElement) (around : List OpenElement) : Node → Bool
  | .element label children =>
    label.isLegible && decide (labelIn cur label.sourceTag = label) &&
      if label.space = .html then
        admits (cur :: around) label.name &&
          if Steady.closedAtOnce.contains label.name then children.isEmpty
          else !(unbroken.contains label.name && startsWithBreak children) &&
            if textual.contains label.name then
              (soleText? children).any (isContent label.name)
            else
              !irregular.contains label.name && fitsAll (opening 0 label) (cur :: around) children
      else
        !(meetsForeign cur label.sourceTag && leavesForeign label.sourceTag) &&
          fitsAll (opening 0 label) (cur :: around) children
  | .text t => decide (Faithful t)
  | .comment t => Token.isLegibleComment t

/-- Whether this holds of nodes that stand there one after the other. Right behind a script a byte
order mark would be lost. -/
def fitsAll (cur : OpenElement) (around : List OpenElement) : List Node → Bool
  | [] => true
  | n :: rest => fits cur around n && fitsAll cur around rest &&
    !(isScript n && (Node.writtenAll false rest).head? == some '\ufeff')

end

/-! ### Numbers do not matter -/

theorem inScopeWhere_anonymous {bounds wanted : OpenElement → Bool}
    (hbounds : ∀ e, bounds e.anonymous = bounds e) (hwanted : ∀ e, wanted e.anonymous = wanted e)
    (around : List OpenElement) :
    inScopeWhere bounds wanted (around.map OpenElement.anonymous) =
      inScopeWhere bounds wanted around := by
  induction around with
  | nil => rfl
  | cons e around ih => rw [List.map_cons, inScopeWhere, inScopeWhere, hbounds, hwanted, ih]

theorem innermost_anonymous {p : OpenElement → Bool} (hp : ∀ e, p e.anonymous = p e)
    (around : List OpenElement) :
    innermost p (around.map OpenElement.anonymous) = innermost p around := by
  cases around with
  | nil => rfl
  | cons e around => exact hp e

theorem any_anonymous {p : OpenElement → Bool} (hp : ∀ e, p e.anonymous = p e)
    (around : List OpenElement) :
    (around.map OpenElement.anonymous).any p = around.any p := by
  rw [List.any_map]
  exact congrArg (around.any ·) (funext hp)

theorem openItem?_anonymous (closes : List String) (around : List OpenElement) :
    openItem? closes (around.map OpenElement.anonymous) = openItem? closes around := by
  induction around with
  | nil => rfl
  | cons e around ih =>
    rw [List.map_cons, openItem?, openItem?, ih]
    rfl

theorem admits_anonymous (around : List OpenElement) (name : String) :
    admits (around.map OpenElement.anonymous) name = admits around name := by
  have hruby : ∀ names, endsInRuby names (around.map OpenElement.anonymous) =
      endsInRuby names around := by
    intro names
    rw [endsInRuby, endsInRuby, inScopeWhere_anonymous (fun _ => rfl) fun _ => rfl,
      innermost_anonymous fun _ => rfl]
  have hrules : ∀ r ∈ disturbing, r.2 (around.map OpenElement.anonymous) = r.2 around := by
    simp only [disturbing, List.forall_mem_cons]
    refine ⟨?_, ?_, ?_, ?_, ?_, ?_, ?_, ?_, ?_, hruby _, hruby _, List.forall_mem_nil _⟩
    · exact inScopeWhere_anonymous (fun _ => rfl) (fun _ => rfl) around
    · exact innermost_anonymous (fun _ => rfl) around
    · exact congrArg Option.isSome (openItem?_anonymous _ around)
    · exact congrArg Option.isSome (openItem?_anonymous _ around)
    · exact any_anonymous (fun _ => rfl) around
    · exact any_anonymous (fun _ => rfl) around
    · exact inScopeWhere_anonymous (fun _ => rfl) (fun _ => rfl) around
    · exact inScopeWhere_anonymous (fun _ => rfl) (fun _ => rfl) around
    · exact innermost_anonymous (fun _ => rfl) around
  rw [admits, admits, Bool.eq_iff_iff, List.all_eq_true, List.all_eq_true]
  exact forall₂_congr fun r hr => by rw [hrules r hr]

/-! ### Elements that fit -/

variable {label : Label} {children : List Node}

theorem fits_element (h : fits cur around (.element label children) = true) :
    label.isLegible = true ∧ labelIn cur label.sourceTag = label ∧
      ((label.space = .html ∧ admits (cur :: around) label.name = true ∧
          (label.name ∈ Steady.closedAtOnce ∧ children = [] ∨
            (label.name ∈ unbroken → startsWithBreak children = false) ∧
              (label.name ∈ textual ∧
                  (∃ t, soleText? children = some t ∧ isContent label.name t = true) ∨
                label.name ∉ irregular ∧
                  fitsAll (opening 0 label) (cur :: around) children = true))) ∨
        label.space ≠ .html ∧
          (meetsForeign cur label.sourceTag = true → leavesForeign label.sourceTag = false) ∧
          fitsAll (opening 0 label) (cur :: around) children = true) := by
  simp only [fits, Bool.and_eq_true, decide_eq_true_eq] at h
  obtain ⟨⟨hlegible, hlabel⟩, h⟩ := h
  refine ⟨hlegible, hlabel, ?_⟩
  split at h
  · next hhtml =>
    simp only [Bool.and_eq_true] at h
    obtain ⟨hadmits, h⟩ := h
    refine .inl ⟨hhtml, hadmits, ?_⟩
    split at h
    · next hvoid => exact .inl ⟨List.contains_iff_mem.1 hvoid, List.isEmpty_iff.1 h⟩
    · simp only [Bool.and_eq_true, Bool.not_eq_true', Bool.and_eq_false_iff] at h
      obtain ⟨hbreak, h⟩ := h
      refine .inr ⟨fun hm => ?_, ?_⟩
      · rw [List.contains_iff_mem.2 hm] at hbreak
        simpa using hbreak
      · split at h
        · next htextual =>
          exact .inl ⟨List.contains_iff_mem.1 htextual, by simpa [Option.any_eq_true] using h⟩
        · simp only [Bool.and_eq_true, Bool.not_eq_true'] at h
          exact .inr ⟨by simpa using h.1, h.2⟩
  · next hspace =>
    simp only [Bool.and_eq_true, Bool.not_eq_true', Bool.and_eq_false_iff] at h
    refine .inr ⟨hspace, fun hforeign => ?_, h.2⟩
    rw [hforeign] at h
    simpa using h.1

theorem void_of_closedAtOnce : ∀ name ∈ Steady.closedAtOnce, name ∈ Names.void := by decide

theorem ne_script_of_closedAtOnce : ∀ name ∈ Steady.closedAtOnce, name ≠ "script" := by decide

theorem void_of_textual : ∀ name ∈ textual, name ∉ Names.void := by decide

theorem regular_of_not_irregular {name : String} (h : name ∉ irregular) :
    name ∉ Names.void ∧ name ∉ Names.rawText ∧ name ≠ "script" := by
  refine ⟨fun hm => h ?_, fun hm => h (List.mem_append_right _ hm), fun he => h ?_⟩
  · exact List.mem_append_left _ (List.mem_append_right _ hm)
  · rw [he]
    decide

theorem isVoid_of_mem (hspace : label.space = .html) (h : label.name ∈ Names.void) :
    label.isVoid = true := by
  rw [Label.isVoid, hspace, List.contains_iff_mem.2 h]
  rfl

theorem isVoid_of_not_mem (h : label.name ∉ Names.void) : label.isVoid = false := by
  rw [Label.isVoid, List.contains_eq_mem, decide_eq_false h, Bool.and_false]

theorem isRaw_of_not_mem (h : label.name ∉ Names.rawText) : label.isRaw = false := by
  rw [Label.isRaw, List.contains_eq_mem, decide_eq_false h, Bool.and_false]

theorem eq_of_soleText? {t : Text} (h : soleText? children = some t) :
    children = [] ∧ t = [] ∨ children = [.text t] := by
  unfold soleText? at h
  split at h
  · cases h
    exact .inl ⟨rfl, rfl⟩
  · cases h
    exact .inr rfl
  · cases h

/-- What an element holds is written as its text. -/
theorem writtenAll_of_soleText? {t : Text} (hname : label.name ∈ textual)
    (hhtml : label.space = .html) (h : soleText? children = some t) :
    Node.writtenAll label.isRaw children = t.flatMap (contentEscape label.name) := by
  have hraw : ∀ name ∈ textual, Names.rawText.contains name = !referring.contains name := by decide
  rcases eq_of_soleText? h with ⟨rfl, rfl⟩ | rfl
  · rfl
  · have hescape : ∀ c, contentEscape label.name c =
        if label.isRaw then [c] else escapedInText c := by
      intro c
      rw [Label.isRaw, hhtml, hraw _ hname, contentEscape]
      cases referring.contains label.name <;> rfl
    rw [funext hescape, Node.writtenAll, Node.writtenAll, List.append_nil, Node.written]
    cases label.isRaw with
    | true => exact (List.flatMap_singleton' t).symm
    | false => rfl

theorem plantAll_of_soleText? {t : Text} (h : soleText? children = some t) (a : Arena)
    (parent : Nat) :
    a.plantAll parent children = t.foldl (fun a x => a.appendChar parent x) a := by
  rcases eq_of_soleText? h with ⟨rfl, rfl⟩ | rfl <;> rfl

theorem head?_of_soleText? {t : Text} (h : soleText? children = some t)
    (hbreak : startsWithBreak children = false) : t.head? ≠ some '\n' := by
  rcases eq_of_soleText? h with ⟨rfl, rfl⟩ | rfl
  · exact Option.some_ne_none _ ∘ Eq.symm
  · simpa [startsWithBreak, Node.text?] using hbreak

namespace Steady

variable {b : Builder} {a : Arena} {skip : Bool}

open Document

/-! ### Elements with what is in them -/

theorem unmarked_closingTag (label : Label) : Unmarked label.closingTag := by
  simp [Unmarked, Label.closingTag]

/-- An element is read whole if its content is read between its tags. -/
theorem reads_between {c d e : Builder} {s : Text} (hopening : Reads false b label.openingTag c)
    (hcontent : Reads true c s d) (hclosing : Reads false d label.closingTag e) :
    Reads false b (label.openingTag ++ s ++ label.closingTag) e :=
  (hopening.trans hcontent).append hclosing fun _ =>
    ⟨unmarked_closingTag label, fun h => absurd h (by simp [Label.closingTag])⟩

/-- An HTML element without rules of its own is read if its content is. -/
theorem reads_regular (h : Steady (cur :: stack) a skip b) (hlegible : label.isLegible = true)
    (hlabel : htmlLabel label.sourceTag = label) (hname : label.name ∉ irregular)
    (hadmits : admits (cur :: stack) label.name = true)
    (hforeign : meetsForeign cur label.sourceTag = false) {s : Text} {a' : Arena}
    (hcontent : ∀ c, Steady (opening a.size label :: cur :: stack)
        (a.sprout cur.id (.element label none)) (breaking.contains label.name) c →
      ∃ d skip', Reads true c s d ∧ Steady (opening a.size label :: cur :: stack) a' skip' d) :
    ∃ c, Reads false b (label.openingTag ++ s ++ label.closingTag) c ∧
      Steady (cur :: stack) a' false c := by
  have hhtml : label.space = .html := by rw [← hlabel]; rfl
  have hopen : (opening a.size label).isHtml label.name = true := by
    rw [OpenElement.isHtml, opening, hhtml]
    simp
  obtain ⟨c, hopening, hc⟩ := h.reads_openingTag hlegible hlabel hname hadmits hforeign
  obtain ⟨d, skip', hread, hd⟩ := hcontent c hc
  obtain ⟨e, hclosing, he⟩ := hd.reads_closingTag hopen hlegible hlabel hname hadmits
  exact ⟨e, reads_between hopening hread hclosing, he⟩

/-- An element outside HTML is read if its content is. -/
theorem reads_foreign (h : Steady (cur :: stack) a skip b) (hlegible : label.isLegible = true)
    (hlabel : labelIn cur label.sourceTag = label) (hspace : label.space ≠ .html)
    (hleaves : meetsForeign cur label.sourceTag = true → leavesForeign label.sourceTag = false)
    {s : Text} {a' : Arena}
    (hcontent : ∀ c, Steady (opening a.size label :: cur :: stack)
        (a.sprout cur.id (.element label none)) false c →
      ∃ d skip', Reads true c s d ∧ Steady (opening a.size label :: cur :: stack) a' skip' d) :
    ∃ c, Reads false b (label.openingTag ++ s ++ label.closingTag) c ∧
      Steady (cur :: stack) a' false c := by
  obtain ⟨c, hopening, hc⟩ := h.reads_foreignOpening hlegible hlabel hspace hleaves
  obtain ⟨d, skip', hread, hd⟩ := hcontent c hc
  obtain ⟨e, hclosing, he⟩ := hd.reads_foreignClosing ⟨rfl, rfl⟩ hlegible hlabel hspace hleaves
  exact ⟨e, reads_between hopening hread hclosing, he⟩

/-! ### Nodes -/

mutual

/-- The written form of a node that fits is read as the node. -/
theorem reads_node (n : Node) {b : Builder} {a : Arena} {skip : Bool} {cur : OpenElement}
    {stack : List OpenElement} (h : Steady (cur :: stack) a skip b)
    (hfits : fits cur.anonymous (stack.map OpenElement.anonymous) n = true)
    (htidy : n.tidy = true) (hskip : skip = true → startsWithBreak [n] = false) :
    ∃ c, Reads (isScript n) b (n.written false) c ∧
      Steady (cur :: stack) (a.plant cur.id n) false c := by
  cases n with
  | text t =>
    have hne : t ≠ [] := by simpa [Node.tidy] using htidy
    exact h.reads_text (of_decide_eq_true hfits) hne fun hs =>
      by simpa [startsWithBreak, Node.text?] using hskip hs
  | comment t => exact h.reads_comment hfits
  | element label children =>
    obtain ⟨hlegible, hlabel, ⟨hhtml, hadmits, hkind⟩ | ⟨hspace, hleaves, hchildren⟩⟩ :=
      fits_element hfits
    · have hadmits : admits (cur :: stack) label.name = true :=
        (admits_anonymous (cur :: stack) label.name).symm.trans hadmits
      obtain ⟨hforeign, hlabel⟩ : meetsForeign cur label.sourceTag = false ∧
          htmlLabel label.sourceTag = label := eq_htmlLabel_of_labelIn hlabel hhtml
      have hscript : isScript (.element label children) = (label.name == "script") := by
        rw [isScript, hhtml]
        exact Bool.true_and _
      rw [hscript, Node.written]
      -- the kinds of element: closed at once, with text as content, and with any children
      rcases hkind with ⟨hname, rfl⟩ | ⟨hbreak, ⟨hname, t, hsole, hcontent⟩ | ⟨hname, hchildren⟩⟩
      · rw [isVoid_of_mem hhtml (void_of_closedAtOnce _ hname), if_pos rfl,
          beq_false_of_ne (ne_script_of_closedAtOnce _ hname)]
        exact h.reads_voidTag hlegible hlabel hname hadmits hforeign
      · rw [isVoid_of_not_mem (void_of_textual _ hname), if_neg Bool.false_ne_true,
          writtenAll_of_soleText? hname hhtml hsole, Arena.plant, plantAll_of_soleText? hsole]
        exact h.reads_textual hlegible hlabel hname hadmits hforeign hcontent fun he =>
          head?_of_soleText? hsole (hbreak (by rw [he]; decide))
      · obtain ⟨hvoid, hraw, hne⟩ := regular_of_not_irregular hname
        rw [isVoid_of_not_mem hvoid, if_neg Bool.false_ne_true, isRaw_of_not_mem hraw,
          beq_false_of_ne hne]
        exact h.reads_regular hlegible hlabel hname hadmits hforeign fun c hc =>
          hc.reads_nodes children hchildren htidy fun hs =>
            hbreak (List.mem_cons_of_mem _ (List.contains_iff_mem.1 hs))
    · have hvoid : label.isVoid = false := by rw [Label.isVoid, decide_eq_false hspace]; rfl
      have hraw : label.isRaw = false := by rw [Label.isRaw, decide_eq_false hspace]; rfl
      have hscript : isScript (.element label children) = false := by
        rw [isScript, decide_eq_false hspace, Bool.false_and]
      rw [hscript, Node.written, hvoid, if_neg Bool.false_ne_true, hraw]
      exact h.reads_foreign hlegible hlabel hspace hleaves fun c hc =>
        hc.reads_nodes children hchildren htidy fun hs => absurd hs Bool.false_ne_true

/-- The written form of nodes that fit is read as the nodes. -/
theorem reads_nodes (nodes : List Node) {b : Builder} {a : Arena} {skip : Bool} {cur : OpenElement}
    {stack : List OpenElement} (h : Steady (cur :: stack) a skip b)
    (hfits : fitsAll cur.anonymous (stack.map OpenElement.anonymous) nodes = true)
    {behindText : Bool} (htidy : Node.tidyAll behindText nodes = true)
    (hskip : skip = true → startsWithBreak nodes = false) :
    ∃ c skip', Reads true b (Node.writtenAll false nodes) c ∧
      Steady (cur :: stack) (a.plantAll cur.id nodes) skip' c := by
  cases nodes with
  | nil => exact ⟨b, skip, reads_nil b, h⟩
  | cons n rest =>
    simp only [fitsAll, Bool.and_eq_true, Bool.not_eq_true', Bool.and_eq_false_iff] at hfits
    obtain ⟨⟨hn, hrest⟩, hbare⟩ := hfits
    obtain ⟨-, htidyn, htidyrest⟩ := Node.tidyAll_cons.1 htidy
    obtain ⟨c, hread, hc⟩ := h.reads_node n hn htidyn hskip
    obtain ⟨d, skip', hreads, hd⟩ := hc.reads_nodes rest hrest htidyrest
      fun hs => absurd hs Bool.false_ne_true
    refine ⟨d, skip', hread.append hreads fun hscript => ⟨?_, fun _ => rfl⟩, hd⟩
    rw [hscript] at hbare
    simpa [Unmarked] using hbare

end

end Steady

end Builder

end Shortcodes.Html
