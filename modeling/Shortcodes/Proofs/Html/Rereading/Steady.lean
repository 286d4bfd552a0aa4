import Shortcodes.Html.Builder.Modes
import Shortcodes.Proofs.Html.Rereading.Planting

/-!
# States that need no repair

While markup is read that needs no repair, the rules of the body hold and every formatting element
that is remembered is still open (`Settled`), so that none is ever opened again. `Steady` says so of
a state, with the open elements and the cells it has; new nodes then go to the end of the children
of the innermost open element, which is what the lemmas here say of each change of a state.
-/

namespace Shortcodes.Html

namespace Builder

variable {b : Builder} {a : Arena} {e cur : OpenElement} {stack : List OpenElement}
  {entries : List Formatting} {tag : StartTag}

/-! ### Remembered formatting -/

/-- Elements that are remembered when they are opened. -/
def remembered : List String := "a" :: "nobr" :: Names.formatting

/-- Each formatting element that is remembered is open, in the same order, and the bounds are those
of the open elements that set one. -/
inductive Settled : List Formatting → List OpenElement → Prop
  | nil : Settled [] []
  | other {entries : List Formatting} {stack : List OpenElement} {e : OpenElement}
      (h : Settled entries stack) (he : e.isAnyOf Names.embedding = false) :
      Settled entries (e :: stack)
  | entry {entries : List Formatting} {stack : List OpenElement} {e : OpenElement} {tag : StartTag}
      (h : Settled entries stack) (he : e.isHtml tag.name = true)
      (htag : tag.name ∈ remembered) : Settled (.element e.id tag :: entries) (e :: stack)
  | bound {entries : List Formatting} {stack : List OpenElement} {e : OpenElement}
      (h : Settled entries stack) (he : e.isAnyOf Names.embedding = true) :
      Settled (.bound :: entries) (e :: stack)

namespace Settled

theorem exists_open (h : Settled entries stack) {id : Nat} {tag : StartTag}
    (hm : Formatting.element id tag ∈ entries) :
    ∃ e ∈ stack, e.id = id ∧ e.isHtml tag.name = true ∧ tag.name ∈ remembered := by
  induction h with
  | nil => cases hm
  | other _ _ ih =>
    obtain ⟨e, he, hopen⟩ := ih hm
    exact ⟨e, List.mem_cons_of_mem _ he, hopen⟩
  | @entry entries stack e tag' h he htag ih =>
    rcases List.mem_cons.1 hm with heq | hm
    · cases heq
      exact ⟨e, List.mem_cons_self, rfl, he, htag⟩
    · obtain ⟨e, he, hopen⟩ := ih hm
      exact ⟨e, List.mem_cons_of_mem _ he, hopen⟩
  | bound _ _ ih =>
    rcases List.mem_cons.1 hm with heq | hm
    · cases heq
    · obtain ⟨e, he, hopen⟩ := ih hm
      exact ⟨e, List.mem_cons_of_mem _ he, hopen⟩

theorem not_embedding {name : String} (he : e.isHtml name = true) (hname : name ∈ remembered) :
    e.isAnyOf Names.embedding = false := by
  have hnone : ∀ name ∈ remembered, Names.embedding.contains name = false := by decide
  rw [OpenElement.isHtml, Bool.and_eq_true, beq_iff_eq] at he
  rw [OpenElement.isAnyOf, he.2, hnone _ hname, Bool.and_false]

theorem eraseP (h : Settled entries stack) (id : Nat) :
    Settled (entries.eraseP (isEntry id)) stack := by
  induction h with
  | nil => exact .nil
  | other _ he ih => exact .other ih he
  | entry h he htag ih =>
    rw [List.eraseP_cons]
    cases isEntry id _ with
    | true => exact .other h (not_embedding he htag)
    | false => exact .entry ih he htag
  | bound _ he ih =>
    rw [List.eraseP_cons_of_neg (by simp [isEntry])]
    exact .bound ih he

/-- The first entry need not be opened again. -/
theorem takeWhile_eq_nil (h : Settled b.formatting b.stack) :
    (b.formatting.takeWhile fun e => !b.isSettled e) = [] := by
  cases hentries : b.formatting with
  | nil => rfl
  | cons entry entries =>
    rw [hentries] at h
    rw [List.takeWhile_cons_of_neg]
    cases entry with
    | bound => simp [isSettled]
    | element id tag =>
      obtain ⟨e, he, hid, -⟩ := h.exists_open List.mem_cons_self
      simp only [isSettled, Bool.not_eq_true', List.any_eq_true, decide_eq_true_eq,
        Bool.not_eq_false]
      exact ⟨e, he, hid⟩

end Settled

/-! ### Open elements and their cells -/

/-- The open elements have cells, younger ones further inside, and their content goes directly below
them. -/
structure Rooted (stack : List OpenElement) (a : Arena) : Prop where
  descending : stack.Pairwise fun e f => f.id < e.id
  lt_size : ∀ e ∈ stack, e.id < a.size
  host_eq : ∀ e ∈ stack, a.host e.id = e.id

namespace Rooted

theorem grows (h : Rooted stack a) {a' : Arena} (hgrows : a.Grows a') : Rooted stack a' where
  descending := h.descending
  lt_size := fun e he => Nat.lt_of_lt_of_le (h.lt_size e he) hgrows.size_le
  host_eq := fun e he => (hgrows.host_eq _ (h.lt_size e he)).trans (h.host_eq e he)

theorem cons (h : Rooted stack a) {parent : Nat} (hp : parent < a.size) {label : Label}
    (he : e.id = a.size) : Rooted (e :: stack) (a.sprout parent (.element label none)) where
  descending := List.pairwise_cons.2 ⟨fun f hf => he ▸ h.lt_size f hf, h.descending⟩
  lt_size := by
    rw [Arena.size_sprout, List.forall_mem_cons]
    exact ⟨by omega, fun f hf => Nat.lt_succ_of_lt (h.lt_size f hf)⟩
  host_eq := by
    rw [List.forall_mem_cons]
    refine ⟨?_, (h.grows (Arena.grows_sprout hp _)).host_eq⟩
    rw [Arena.host, he, Arena.content_sprout hp]

theorem tail (h : Rooted (e :: stack) a) : Rooted stack a where
  descending := (List.pairwise_cons.1 h.descending).2
  lt_size := fun f hf => h.lt_size f (List.mem_cons_of_mem e hf)
  host_eq := fun f hf => h.host_eq f (List.mem_cons_of_mem e hf)

end Rooted

/-! ### Steady states -/

/-- A state in the body, with the open elements `stack` and the cells `a`, in which nothing waits to
be repaired; `skip` if a line break at once would be left out. -/
structure Steady (stack : List OpenElement) (a : Arena) (skip : Bool) (b : Builder) : Prop where
  mode_eq : b.mode = .inBody
  lexing_eq : b.lexing = .data
  stack_eq : b.stack = stack
  arena_eq : b.arena = a
  skipBreak_eq : b.skipBreak = skip
  fostering_eq : b.fostering = false
  templateModes_eq : b.templateModes = []
  template_eq : stack.any (·.isHtml "template") = false
  form_eq : b.form = (stack.find? (·.isHtml "form")).map (·.id)
  settled : Settled b.formatting stack
  rooted : Rooted stack a

/-- The open element of a label, with its number. -/
def opening (id : Nat) (label : Label) : OpenElement :=
  ⟨id, label.space, label.name, statesHtml label⟩

namespace Steady

variable {skip : Bool} {label : Label}

theorem with_skipBreak (h : Steady stack a skip b) (skipBreak : Bool) :
    Steady stack a skipBreak { b with skipBreak } :=
  { h with skipBreak_eq := rfl }

theorem with_framesetOk (h : Steady stack a skip b) (framesetOk : Bool) :
    Steady stack a skip { b with framesetOk } :=
  { h with }

theorem with_arena (h : Steady stack a skip b) {a' : Arena} (hgrows : a.Grows a') :
    Steady stack a' skip { b with arena := a' } :=
  { h with arena_eq := rfl, rooted := h.rooted.grows hgrows }

theorem with_formatting (h : Steady stack a skip b) (hsettled : Settled entries stack) :
    Steady stack a skip { b with formatting := entries } :=
  { h with settled := hsettled }

theorem current_eq (h : Steady (cur :: stack) a skip b) : b.current = cur := by
  rw [current, h.stack_eq]
  rfl

theorem lt_size (h : Steady (cur :: stack) a skip b) : cur.id < a.size :=
  h.rooted.lt_size cur List.mem_cons_self

/-! #### New nodes -/

theorem placeIn_eq (h : Steady (cur :: stack) a skip b) : b.placeIn b.current = .last cur.id := by
  rw [placeIn, h.current_eq, h.fostering_eq, h.arena_eq,
    h.rooted.host_eq cur List.mem_cons_self]
  rfl

theorem insertChar_eq (h : Steady (cur :: stack) a skip b) (c : Char) :
    b.insertChar c = { b with arena := a.appendChar cur.id c } := by
  rw [insertChar, h.placeIn_eq, h.arena_eq]

theorem insertComment_eq (h : Steady (cur :: stack) a skip b) (content : Text) :
    b.insertComment content = { b with arena := a.sprout cur.id (.comment content) } := by
  rw [insertComment, h.placeIn_eq, h.arena_eq]
  rfl

/-- Whether an element is one whose content goes elsewhere. -/
def isTemplate (label : Label) : Bool := decide (label.space = .html) && label.name == "template"

theorem insertLeaf_eq (h : Steady (cur :: stack) a skip b) (hlabel : isTemplate label = false) :
    b.insertLeaf label =
      ({ b with arena := a.sprout cur.id (.element label none) }, opening a.size label) := by
  have hcreate : b.createElement label =
      ({ b with arena := (a.create (.element label none)).1 }, opening a.size label) := by
    rw [isTemplate] at hlabel
    rw [createElement, hlabel, h.arena_eq]
    rfl
  have hplace := (h.with_arena (Arena.grows_create a (.element label none))).placeIn_eq
  rw [insertLeaf, hcreate]
  dsimp only
  rw [hplace]
  rfl

theorem insertLabel_eq (h : Steady (cur :: stack) a skip b) (hlabel : isTemplate label = false) :
    b.insertLabel label =
      ({ b with
          arena := a.sprout cur.id (.element label none)
          stack := opening a.size label :: b.stack },
        opening a.size label) := by
  rw [insertLabel, h.insertLeaf_eq hlabel]

/-- An element that has nothing in it is added. -/
theorem insertLeaf (h : Steady (cur :: stack) a skip b) (hlabel : isTemplate label = false) :
    Steady (cur :: stack) (a.sprout cur.id (.element label none)) skip (b.insertLeaf label).1 := by
  rw [h.insertLeaf_eq hlabel]
  exact h.with_arena (Arena.grows_sprout h.lt_size _)

/-- An element is opened, with what is then remembered. -/
theorem push (h : Steady (cur :: stack) a skip b) (hlabel : isTemplate label = false)
    {entries : List Formatting} (hsettled : Settled entries (opening a.size label :: cur :: stack))
    {form : Option Nat} (hform : form =
      ((opening a.size label :: cur :: stack).find? (·.isHtml "form")).map (·.id)) :
    Steady (opening a.size label :: cur :: stack) (a.sprout cur.id (.element label none)) skip
      { (b.insertLabel label).1 with formatting := entries, form } := by
  rw [h.insertLabel_eq hlabel]
  have htemplate : (opening a.size label).isHtml "template" = false := hlabel
  exact { h with
    stack_eq := congrArg (opening a.size label :: ·) h.stack_eq
    arena_eq := rfl
    template_eq := by rw [List.any_cons, htemplate, h.template_eq]; rfl
    form_eq := hform
    settled := hsettled
    rooted := h.rooted.cons h.lt_size rfl }

theorem form_push (h : Steady (cur :: stack) a skip b) (hform : e.isHtml "form" = false) :
    b.form = ((e :: cur :: stack).find? (·.isHtml "form")).map (·.id) := by
  rw [List.find?_cons_of_neg (by simp [hform]), h.form_eq]

/-- An element is opened that is remembered in no other way than by being open. -/
theorem insertLabel (h : Steady (cur :: stack) a skip b) (hlabel : isTemplate label = false)
    (hform : (opening a.size label).isHtml "form" = false)
    (hembedding : (opening a.size label).isAnyOf Names.embedding = false) :
    Steady (opening a.size label :: cur :: stack) (a.sprout cur.id (.element label none)) skip
      (b.insertLabel label).1 := by
  have hpush := h.push hlabel (.other h.settled hembedding) (h.form_push hform)
  rwa [h.insertLabel_eq hlabel] at hpush ⊢

/-! #### Formatting -/

theorem reopenFormatting_eq (h : Steady stack a skip b) : b.reopenFormatting = b := by
  have hsettled : Settled b.formatting b.stack := by
    rw [h.stack_eq]
    exact h.settled
  rw [reopenFormatting, hsettled.takeWhile_eq_nil]
  rfl

theorem forget (h : Steady stack a skip b) (id : Nat) : Steady stack a skip (b.forget id) :=
  h.with_formatting (h.settled.eraseP id)

theorem makeRoom (h : Steady stack a skip b) (tag : StartTag) :
    Steady stack a skip (b.makeRoom tag) := by
  unfold Builder.makeRoom
  dsimp only
  split
  · split
    · exact h.forget _
    · exact h
  · exact h

/-- A formatting element is opened. -/
theorem insertFormatting (h : Steady (cur :: stack) a skip b) (htag : tag.name ∈ remembered) :
    Steady (opening a.size (htmlLabel tag) :: cur :: stack)
      (a.sprout cur.id (.element (htmlLabel tag) none)) skip (b.insertFormatting tag) := by
  have hnone : ∀ name ∈ remembered, name ≠ "template" ∧ name ≠ "form" := by decide
  have hlabel : isTemplate (htmlLabel tag) = false := by
    simp [isTemplate, htmlLabel, (hnone _ htag).1]
  have hform : (opening a.size (htmlLabel tag)).isHtml "form" = false := by
    simp [OpenElement.isHtml, opening, htmlLabel, (hnone _ htag).2]
  have hname : (opening a.size (htmlLabel tag)).isHtml tag.name = true := by
    simp [OpenElement.isHtml, opening, htmlLabel]
  have hroom := h.makeRoom tag
  have hpush := hroom.push hlabel (.entry hroom.settled hname htag) (hroom.form_push hform)
  rw [hroom.insertLabel_eq hlabel] at hpush
  rw [Builder.insertFormatting]
  dsimp only
  rw [hroom.insertLabel_eq hlabel]
  exact hpush

end Steady

end Builder

end Shortcodes.Html
