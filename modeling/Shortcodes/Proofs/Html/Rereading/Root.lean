import Shortcodes.Proofs.Html.Rereading.Fitting

/-!
# A written root read as a document

The written form of an element has no line breaks of other systems, and begins with a bracket, so
that it is lexed as it stands (`prepare_written`). At the start of a document its first tag leads
into the empty body, and from there an element that fits is read as the only node at the top level
(`read?_written`).
-/

namespace Shortcodes.Html

/-! ### Line breaks -/

theorem CodesAll.not_mem_flatMap {esc : Char → Text} (h : CodesAll esc) {d : Char}
    (hd : ∀ r ∈ references, d ∉ '&' :: r.1) {t : Text} (ht : d ∉ t) : d ∉ t.flatMap esc := by
  intro hm
  obtain ⟨c, hc, hm⟩ := List.mem_flatMap.1 hm
  exact ht (((h c).eq_of_mem hd hm).2 ▸ hc)

theorem not_mem_references : ∀ r ∈ references, '\r' ∉ '&' :: r.1 := by decide

namespace Token

theorem not_mem_of_isTagName {name : Text} (h : isTagName name = true) : '\r' ∉ name := fun hm =>
  absurd (endsTagName_of_isTagName h _ hm) (by decide)

theorem not_mem_of_isLegibleName {name : Text} (h : isLegibleName name = true) : '\r' ∉ name := by
  cases name with
  | nil => cases h
  | cons c cs =>
    simp only [isLegibleName, Bool.and_eq_true, Bool.not_eq_true', List.all_eq_true] at h
    intro hm
    rcases List.mem_cons.1 hm with rfl | hm
    · exact absurd h.1 (by decide)
    · exact absurd (h.2 _ hm) (by decide)

end Token

namespace Label

variable {l : Label}

theorem not_mem_written {a : Attribute} (h : a.isLegible = true) : '\r' ∉ a.written := by
  rw [Attribute.isLegible, Bool.and_eq_true, decide_eq_true_eq] at h
  have hname := Token.not_mem_of_isLegibleName h.1
  have hvalue := codesAll_escapedInAttribute.not_mem_flatMap not_mem_references h.2.1
  simp [Attribute.written, hname, hvalue]

theorem not_mem_openingTag (h : l.isLegible = true) : '\r' ∉ l.openingTag := by
  simp only [isLegible, Bool.and_eq_true, List.all_eq_true] at h
  obtain ⟨⟨hname, hattributes⟩, -⟩ := h
  have hnot := Token.not_mem_of_isTagName hname
  have hwritten : '\r' ∉ l.attributes.flatMap Attribute.written := by
    intro hm
    obtain ⟨a, ha, hm⟩ := List.mem_flatMap.1 hm
    exact not_mem_written (hattributes a ha) hm
  simp [openingTag, hnot, hwritten]

theorem not_mem_closingTag (h : l.isLegible = true) : '\r' ∉ l.closingTag := by
  simp only [isLegible, Bool.and_eq_true] at h
  simp [closingTag, Token.not_mem_of_isTagName h.1.1]

end Label

namespace Builder

variable {cur : OpenElement} {around : List OpenElement} {label : Label} {children : List Node}

theorem not_mem_text {t : Text} (h : '\r' ∉ t) (raw : Bool) : '\r' ∉ (Node.text t).written raw := by
  rw [Node.written]
  cases raw with
  | true => exact h
  | false => exact codesAll_escapedInText.not_mem_flatMap not_mem_references h

theorem not_mem_element (h : label.isLegible = true)
    (hchildren : '\r' ∉ Node.writtenAll label.isRaw children) (raw : Bool) :
    '\r' ∉ (Node.element label children).written raw := by
  rw [Node.written]
  split
  · exact Label.not_mem_openingTag h
  · simp [Label.not_mem_openingTag h, hchildren, Label.not_mem_closingTag h]

mutual

/-- No written form of a node that fits has a carriage return. -/
theorem not_mem_written (n : Node) {cur : OpenElement} {around : List OpenElement}
    (h : fits cur around n = true) (raw : Bool) : '\r' ∉ n.written raw := by
  cases n with
  | text t =>
    have hfaithful : Faithful t := of_decide_eq_true h
    exact not_mem_text hfaithful.1 raw
  | comment t =>
    have hcomment : Token.isLegibleComment t = true := h
    rw [Token.isLegibleComment, Bool.and_eq_true, decide_eq_true_eq] at hcomment
    simp [Node.written, hcomment.1.1]
  | element label children =>
    obtain ⟨hlegible, -, ⟨-, -, hkind⟩ | ⟨-, -, hchildren⟩⟩ := fits_element h
    · refine not_mem_element hlegible ?_ raw
      rcases hkind with ⟨-, rfl⟩ | ⟨-, ⟨-, t, hsole, hcontent⟩ | ⟨-, hchildren⟩⟩
      · exact List.not_mem_nil
      · rw [isContent, Bool.and_eq_true, decide_eq_true_eq] at hcontent
        rcases eq_of_soleText? hsole with ⟨rfl, -⟩ | rfl
        · exact List.not_mem_nil
        · simpa [Node.writtenAll] using not_mem_text hcontent.1.1 label.isRaw
      · exact not_mem_writtenAll children hchildren label.isRaw
    · exact not_mem_element hlegible (not_mem_writtenAll children hchildren label.isRaw) raw

theorem not_mem_writtenAll (nodes : List Node) {cur : OpenElement} {around : List OpenElement}
    (h : fitsAll cur around nodes = true) (raw : Bool) : '\r' ∉ Node.writtenAll raw nodes := by
  cases nodes with
  | nil => exact List.not_mem_nil
  | cons n rest =>
    simp only [fitsAll, Bool.and_eq_true] at h
    rw [Node.writtenAll, List.mem_append, not_or]
    exact ⟨not_mem_written n h.1.1 raw, not_mem_writtenAll rest h.1.2 raw⟩

end

/-! ### From the start of a document -/

/-- The body and the root of a document, innermost first, without their numbers. -/
def documentBody : OpenElement := { id := 0, space := .html, name := "body" }

def documentRoot : OpenElement := { id := 0, space := .html, name := "html" }

theorem steady_emptyBody : Steady emptyBody.stack (bodyCells []) false emptyBody where
  mode_eq := rfl
  lexing_eq := rfl
  stack_eq := rfl
  arena_eq := rfl
  skipBreak_eq := rfl
  fostering_eq := rfl
  templateModes_eq := rfl
  template_eq := by decide
  form_eq := rfl
  settled := .other (.other .nil rfl) rfl
  rooted := ⟨by decide, by decide, by decide⟩

/-- Names of elements that do not stand in the body when a document begins with them. -/
def outsideBody : List String :=
  ["html", "head", "body", "frameset", "noscript"] ++ Names.metadata

theorem opened_eq_accept {tag : StartTag} (h : tag.name ∉ outsideBody) :
    opened tag = emptyBody.accept (.startTag tag) := by
  simp only [outsideBody, List.cons_append, List.nil_append, List.mem_cons, not_or] at h
  obtain ⟨hhtml, hhead, hbody, hframeset, hnoscript, hmetadata⟩ := h
  have hgoes : goesToHead tag = false := by
    rw [goesToHead, List.contains_eq_mem, decide_eq_false hmetadata, beq_false_of_ne hnoscript]
    rfl
  rw [opened_eq_bodyStart hhtml hhead hbody hframeset hgoes]
  refine (accept_of_rule rfl ?_).symm
  show emptyBody.bodyStart tag = _
  rw [← bodyStart_snd emptyBody tag]

/-- Markup that begins with the tag of an element of the body is read as in the empty body. -/
theorem build_openingTag {l : Label} (hlegible : l.isLegible = true)
    (hname : l.sourceTag.name ∉ outsideBody) (s : Text) (fuel : Nat) :
    Document.build (fuel + 1) {} (l.openingTag ++ s) =
      Document.build (fuel + 1) emptyBody (l.openingTag ++ s) := by
  have hne : l.openingTag ++ s ≠ [] := by simp [Label.openingTag]
  rw [Document.build_of_nextData rfl hne (Label.nextData_openingTag hlegible _ s),
    Document.build_of_nextData rfl hne (Label.nextData_openingTag hlegible _ s)]
  exact congrArg (Document.build fuel · s) (opened_eq_accept hname)

/-- The end of the markup changes nothing. -/
theorem Steady.arena_accept_stop {cur : OpenElement} {stack : List OpenElement} {a : Arena}
    {skip : Bool} {b : Builder} (h : Steady (cur :: stack) a skip b) (hhtml : cur.space = .html) :
    (b.accept .stop).arena = a := by
  have hsteady := h.with_skipBreak false
  have hrule : rule { b with skipBreak := false } .stop = ({ b with skipBreak := false }, none) := by
    rw [hsteady.rule_eq_inBody (isForeign_of_html hsteady.stack_eq hhtml .stop),
      inBody_stop hsteady.templateModes_eq]
    rfl
  rw [accept_of_rule rfl hrule]
  exact h.arena_eq

end Builder

namespace Arena

/-- The tree of a document with one node in its body. -/
theorem toNodes_of_adds {a : Arena} {n : Node} (h : (Builder.bodyCells []).Adds 3 [4] [n] a) :
    a.toNodes (a.size + 1) (a.cell 0).children =
      [.element ⟨.html, "html", []⟩
        [.element ⟨.html, "head", []⟩ [], .element ⟨.html, "body", []⟩ [n]]] := by
  have hsize : 4 ≤ a.size := h.size_le
  obtain ⟨m, hm⟩ : ∃ m, a.size = m + 3 := ⟨a.size - 3, by omega⟩
  have hnode : a.toNodes (m + 2) [4] = [n] := by
    refine h.toNodes_eq a (fun _ _ _ => rfl) _ ?_
    have hfour : (Builder.bodyCells []).size = 4 := rfl
    omega
  -- the cells that were there are those of the empty body
  have h0 : a.cell 0 = (Builder.bodyCells []).cell 0 := h.cell_eq 0 (by decide) (by decide)
  have h1 : a.cell 1 = (Builder.bodyCells []).cell 1 := h.cell_eq 1 (by decide) (by decide)
  have h2 : a.cell 2 = (Builder.bodyCells []).cell 2 := h.cell_eq 2 (by decide) (by decide)
  have hhead : a.nodeOf? (m + 2) (a.cell 2) = some (.element ⟨.html, "head", []⟩ []) := by
    rw [h2]
    rfl
  have hbody : a.nodeOf? (m + 2) (a.cell 3) = some (.element ⟨.html, "body", []⟩ [n]) := by
    rw [h.cell_parent, ← hnode]
    rfl
  have hparts : a.toNodes (m + 3) [2, 3] =
      [.element ⟨.html, "head", []⟩ [], .element ⟨.html, "body", []⟩ [n]] := by
    rw [toNodes_succ, List.filterMap_cons, hhead, List.filterMap_cons, hbody]
    rfl
  have hroot : a.nodeOf? (m + 3) (a.cell 1) = some (.element ⟨.html, "html", []⟩
      [.element ⟨.html, "head", []⟩ [], .element ⟨.html, "body", []⟩ [n]]) := by
    rw [h1, ← hparts]
    rfl
  rw [h0, hm, toNodes_succ]
  show List.filterMap _ [1] = _
  rw [List.filterMap_cons, hroot]
  rfl

end Arena

/-! ### Roots -/

namespace Element

/-- Whether an element comes back, as the only node at the top level, where its written form is read
as a document. -/
def comesBack (e : Element) : Bool :=
  e.node.tidy && !Builder.outsideBody.contains e.label.sourceTag.name &&
    Builder.fits Builder.documentBody [Builder.documentRoot] e.node

variable {e : Element}

theorem comesBack_iff : e.comesBack = true ↔ e.node.tidy = true ∧
    e.label.sourceTag.name ∉ Builder.outsideBody ∧
      Builder.fits Builder.documentBody [Builder.documentRoot] e.node = true := by
  simp [comesBack, and_assoc]

/-- An element is written with its opening tag first. -/
theorem exists_written_eq (e : Element) : ∃ s, e.written = e.label.openingTag ++ s := by
  rw [written, node, Node.written]
  split
  · exact ⟨[], (List.append_nil _).symm⟩
  · exact ⟨_, List.append_assoc _ _ _⟩

theorem prepare_written (h : e.comesBack = true) : Token.prepare e.written = e.written := by
  obtain ⟨-, -, hfits⟩ := comesBack_iff.1 h
  have hbreaks : '\r' ∉ e.written := Builder.not_mem_written e.node hfits false
  have hmark : Token.withoutMark e.written = e.written := by
    obtain ⟨s, hs⟩ := e.exists_written_eq
    rw [hs, Token.withoutMark]
    intro rest hw
    exact absurd (List.cons.inj hw).1 (by decide)
  rw [Token.prepare, hmark, normalizeBreaks_eq_self hbreaks]

/-- The cells of a document that is read from the written form of a root. -/
theorem arena_finalState (h : e.comesBack = true) :
    (Document.finalState e.written).arena = (Builder.bodyCells []).plant 3 e.node := by
  obtain ⟨htidy, hname, hfits⟩ := comesBack_iff.1 h
  obtain ⟨c, hread, hc⟩ := Builder.steady_emptyBody.reads_node e.node hfits htidy
    fun hs => absurd hs Bool.false_ne_true
  obtain ⟨s, hs⟩ := e.exists_written_eq
  have hlegible := (Builder.fits_element hfits).1
  obtain ⟨n, hn⟩ : ∃ n, e.written.length = n + 1 :=
    Nat.exists_eq_succ_of_ne_zero (by rw [hs]; simp [Label.openingTag])
  have hstart : Document.build (n + 1) {} e.written =
      Document.build (n + 1) Builder.emptyBody e.written := by
    rw [hs]
    exact Builder.build_openingTag hlegible hname s n
  obtain ⟨fuel, -, hbuild⟩ := hread [] (n + 1) (fun _ => by simp [Document.Unmarked])
    (by rw [List.append_nil]; exact Nat.le_of_eq hn)
  rw [List.append_nil] at hbuild
  have hfinal : Document.finalState e.written = c.accept .stop := by
    rw [Document.finalState, prepare_written h]
    rw [hn, hstart, ← Document.build_nil fuel c, ← hbuild]
    rfl
  rw [hfinal]
  exact hc.arena_accept_stop rfl

/-- A root whose parts fit is read from its written form. -/
theorem read?_written (h : e.comesBack = true) : Fragment.read? e.written = some ⟨e, 1⟩ := by
  obtain ⟨htidy, -, -⟩ := comesBack_iff.1 h
  have hadds : (Builder.bodyCells []).Adds 3 [4] [e.node] ((Builder.bodyCells []).plant 3 e.node) :=
    Arena.adds_plant e.node (by decide) htidy fun hends => absurd hends (by decide)
  have hdocument := Arena.toNodes_of_adds hadds
  rw [← arena_finalState h] at hdocument
  rw [Fragment.read?, Document.read]
  rw [hdocument]
  rfl

end Element

end Shortcodes.Html
