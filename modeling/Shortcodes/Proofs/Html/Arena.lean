import Shortcodes.Html.Arena

/-!
# Elements that stay in the document

What each change of an arena does to a cell (`cell_change`, `cell_create`), and that no change of
the kinds that reading markup makes takes an element out of the part of the document in which it
stands, as long as only younger nodes are moved (`Standing`).
-/

namespace Shortcodes.Html.Arena

/-! ### Cells -/

theorem cell_change (a : Arena) (id i : Nat) (f : Cell → Cell) :
    (a.change id f).cell i = if i = id ∧ i < a.size then f (a.cell i) else a.cell i := by
  unfold change cell
  rw [Array.getD_eq_getD_getElem?, Array.getD_eq_getD_getElem?, Array.getElem?_modify]
  by_cases hi : i < a.size
  · rw [Array.getElem?_eq_getElem hi]
    by_cases he : i = id
    · subst he
      simp [hi]
    · simp [he, hi, Ne.symm he]
  · rw [Array.getElem?_eq_none (Nat.le_of_not_lt hi)]
    simp [hi]

theorem size_change (a : Arena) (id : Nat) (f : Cell → Cell) : (a.change id f).size = a.size :=
  Array.size_modify

theorem cell_create (a : Arena) (content : Content) (i : Nat) :
    (a.create content).1.cell i = if i = a.size then { content } else a.cell i := by
  unfold create cell
  rw [Array.getD_eq_getD_getElem?, Array.getD_eq_getD_getElem?, Array.getElem?_push]
  split
  · rfl
  · rfl

theorem size_create (a : Arena) (content : Content) : (a.create content).1.size = a.size + 1 :=
  Array.size_push _

/-- The label of the element that a cell holds. -/
def labelOf? (c : Cell) : Option Label :=
  match c.content with
  | .element label _ => some label
  | _ => none

theorem label?_eq (a : Arena) (i : Nat) : a.label? i = labelOf? (a.cell i) := by
  unfold label? labelOf?
  cases (a.cell i).content <;> rfl

theorem label?_change (a : Arena) (id i : Nat) (f : Cell → Cell) :
    (a.change id f).label? i =
      if i = id ∧ i < a.size then labelOf? (f (a.cell i)) else a.label? i := by
  rw [label?_eq, label?_eq, cell_change]
  split <;> rfl

theorem label?_create_of_lt (a : Arena) (content : Content) {i : Nat} (h : i < a.size) :
    (a.create content).1.label? i = a.label? i := by
  rw [label?_eq, label?_eq, cell_create, if_neg (Nat.ne_of_lt h)]

/-! ### An element that stays where it is -/

/-- The element `k` stands in the part `p` of the document, and in nothing else. The root is the
cell 1; whether the part is still one of its children is left open. -/
structure Standing (k p : Nat) (label : Label) (a : Arena) : Prop where
  root_lt : 1 < p
  part_lt : p < k
  lt_size : k < a.size
  root_mem : 1 ∈ (a.cell 0).children
  mem : k ∈ (a.cell p).children
  eq_part : ∀ i, k ∈ (a.cell i).children → i = p
  eq_root : ∀ i, p ∈ (a.cell i).children → i = 1
  root_isElement : (a.label? 1).isSome
  part_isElement : (a.label? p).isSome
  label_eq : a.label? k = some label

namespace Standing

variable {k p : Nat} {label : Label} {a : Arena}

/-- A change of one cell that takes neither the root nor the element from where they stand, puts
neither the element nor its part elsewhere and leaves the labels that count. -/
theorem change (h : Standing k p label a) {id : Nat} {f : Cell → Cell}
    (hroot : id = 0 → 1 ∈ (f (a.cell 0)).children)
    (hmem : id = p → k ∈ (f (a.cell p)).children)
    (hnew : ∀ c, c = p ∨ c = k → c ∈ (f (a.cell id)).children → c ∈ (a.cell id).children)
    (hlabel : id = k → labelOf? (f (a.cell k)) = labelOf? (a.cell k))
    (helement : (labelOf? (a.cell id)).isSome → (labelOf? (f (a.cell id))).isSome) :
    Standing k p label (a.change id f) := by
  -- no cell gets the element or its part as a new child
  have hsub : ∀ c, c = p ∨ c = k → ∀ i, c ∈ ((a.change id f).cell i).children →
      c ∈ (a.cell i).children := by
    intro c hc i hi
    rw [cell_change] at hi
    split at hi
    · next he => exact he.1 ▸ hnew c hc (he.1 ▸ hi)
    · exact hi
  have hsome : ∀ i, (a.label? i).isSome → ((a.change id f).label? i).isSome := by
    intro i hi
    rw [label?_change]
    split
    · next he =>
      rw [label?_eq] at hi
      exact he.1 ▸ helement (he.1 ▸ hi)
    · exact hi
  refine ⟨h.root_lt, h.part_lt, by rw [size_change]; exact h.lt_size, ?_, ?_,
    fun i hi => h.eq_part i (hsub k (.inr rfl) i hi),
    fun i hi => h.eq_root i (hsub p (.inl rfl) i hi), hsome 1 h.root_isElement,
    hsome p h.part_isElement, ?_⟩
  · rw [cell_change]
    split
    · next he => exact hroot he.1.symm
    · exact h.root_mem
  · rw [cell_change]
    split
    · next he => exact hmem he.1.symm
    · exact h.mem
  · rw [label?_change]
    split
    · next he => rw [hlabel he.1.symm, ← label?_eq, h.label_eq]
    · exact h.label_eq

/-- A change of a cell's children alone. -/
theorem change_children (h : Standing k p label a) (id : Nat) {f : List Nat → List Nat}
    (hkeep : ∀ l c, c = 1 ∨ c = k → c ∈ l → c ∈ f l)
    (hnew : ∀ l c, c = p ∨ c = k → c ∈ f l → c ∈ l) :
    Standing k p label (a.change id fun c => { c with children := f c.children }) :=
  h.change (fun _ => hkeep _ 1 (.inl rfl) h.root_mem) (fun _ => hkeep _ k (.inr rfl) h.mem)
    (fun c hc hm => hnew _ c hc hm) (fun _ => rfl) fun hi => hi

/-- A change of a cell that leaves its children. -/
theorem change_content (h : Standing k p label a) {id : Nat} {f : Cell → Cell}
    (hchildren : ∀ c, (f c).children = c.children)
    (hlabel : id = k → labelOf? (f (a.cell k)) = labelOf? (a.cell k))
    (helement : (labelOf? (a.cell id)).isSome → (labelOf? (f (a.cell id))).isSome) :
    Standing k p label (a.change id f) := by
  refine h.change (fun _ => ?_) (fun _ => ?_) (fun c _ hm => ?_) hlabel helement
  · rw [hchildren]
    exact h.root_mem
  · rw [hchildren]
    exact h.mem
  · rwa [hchildren] at hm

theorem change_parent (h : Standing k p label a) (id : Nat) (parent : Option Nat) :
    Standing k p label (a.change id fun c => { c with parent }) :=
  h.change_content (fun _ => rfl) (fun _ => rfl) fun hi => hi

theorem create (h : Standing k p label a) (content : Content) :
    Standing k p label (a.create content).1 := by
  have hsize := h.lt_size
  have hpart := h.part_lt
  have hlt := h.root_lt
  have hsub : ∀ c i, c ∈ ((a.create content).1.cell i).children → c ∈ (a.cell i).children := by
    intro c i hi
    rw [cell_create] at hi
    split at hi
    · cases hi
    · exact hi
  refine ⟨hlt, hpart, by rw [size_create]; omega, ?_, ?_, fun i hi => h.eq_part i (hsub k i hi),
    fun i hi => h.eq_root i (hsub p i hi), ?_, ?_, ?_⟩
  · rw [cell_create, if_neg (by omega)]
    exact h.root_mem
  · rw [cell_create, if_neg (by omega)]
    exact h.mem
  · rw [label?_create_of_lt _ _ (by omega)]
    exact h.root_isElement
  · rw [label?_create_of_lt _ _ (by omega)]
    exact h.part_isElement
  · rw [label?_create_of_lt _ _ hsize]
    exact h.label_eq

/-- A younger node is put behind a node's children. -/
theorem append (h : Standing k p label a) (parent : Nat) {child : Nat} (hc : k < child) :
    Standing k p label (a.append parent child) := by
  have hpart := h.part_lt
  refine (h.change_children parent (fun l c _ hm => List.mem_append_left _ hm)
    fun l c hck hm => ?_).change_parent child (some parent)
  rcases List.mem_append.1 hm with hl | hl
  · exact hl
  · have := List.mem_singleton.1 hl
    omega

theorem mem_putBefore {child mark c : Nat} {l : List Nat} :
    c ∈ putBefore child mark l ↔ c = child ∨ c ∈ l := by
  induction l with
  | nil => simp [putBefore]
  | cons x l ih =>
    rw [putBefore]
    split
    · rw [List.mem_cons]
    · rw [List.mem_cons, List.mem_cons, ih]
      exact or_left_comm

/-- A younger node is put before another. -/
theorem insertBefore (h : Standing k p label a) (sibling : Nat) {child : Nat} (hc : k < child) :
    Standing k p label (a.insertBefore sibling child) := by
  have hpart := h.part_lt
  unfold Arena.insertBefore
  split
  · exact h
  · next parent _ =>
    refine (h.change_children parent (fun l c _ hm => mem_putBefore.2 (.inr hm))
      fun l c hck hm => ?_).change_parent child (some parent)
    rcases mem_putBefore.1 hm with rfl | hl
    · omega
    · exact hl

/-- A node that is neither the root nor the element is taken out. -/
theorem detach (h : Standing k p label a) {child : Nat} (hroot : child ≠ 1) (hself : child ≠ k) :
    Standing k p label (a.detach child) := by
  unfold Arena.detach
  split
  · exact h
  · next parent _ =>
    refine (h.change_children parent (fun l c hc hm => ?_)
      fun l c _ hm => List.mem_of_mem_erase hm).change_parent child none
    refine (List.mem_erase_of_ne ?_).2 hm
    rcases hc with rfl | rfl
    · exact Ne.symm hroot
    · exact Ne.symm hself

theorem extendText (h : Standing k p label a) (id : Nat) (c : Char) :
    Standing k p label (a.extendText id c) := by
  unfold Arena.extendText
  refine h.change_content (fun cell => ?_) (fun _ => ?_) fun hi => ?_
  · cases cell.content <;> rfl
  · unfold labelOf?
    cases hcontent : (a.cell k).content <;> simp [hcontent]
  · revert hi
    unfold labelOf?
    cases hcontent : (a.cell id).content <;> simp [hcontent]

theorem appendNew (h : Standing k p label a) (parent : Nat) (content : Content) :
    Standing k p label ((a.create content).1.append parent (a.create content).2) :=
  (h.create content).append parent h.lt_size

theorem appendChar (h : Standing k p label a) (parent : Nat) (c : Char) :
    Standing k p label (a.appendChar parent c) := by
  unfold Arena.appendChar
  split
  · next last _ =>
    split
    · exact h.extendText last c
    · exact h.appendNew parent (.text [c])
  · exact h.appendNew parent (.text [c])

theorem insertCharBefore (h : Standing k p label a) (sibling : Nat) (c : Char) :
    Standing k p label (a.insertCharBefore sibling c) := by
  have hnew : Standing k p label ((a.create (.text [c])).1.insertBefore sibling
      (a.create (.text [c])).2) :=
    (h.create (.text [c])).insertBefore sibling h.lt_size
  unfold Arena.insertCharBefore
  split
  · next before _ =>
    split
    · exact h.extendText before c
    · exact hnew
  · exact hnew

/-- The children of a younger node move. -/
theorem moveChildren (h : Standing k p label a) {source : Nat} (hs : k < source) (target : Nat) :
    Standing k p label (a.moveChildren source target) := by
  have hroot := h.root_lt
  have hpart := h.part_lt
  have hmoved : ∀ c, c = p ∨ c = k → c ∉ (a.cell source).children := by
    rintro c (rfl | rfl) hm
    · have := h.eq_root source hm
      omega
    · have := h.eq_part source hm
      omega
  -- new parents change nothing that counts
  have hparents : ∀ (l : List Nat) {a : Arena}, Standing k p label a →
      Standing k p label
        (l.foldl (fun a id => a.change id fun c => { c with parent := some target }) a) := by
    intro l
    induction l with
    | nil => exact fun h => h
    | cons id l ih => exact fun h => ih (h.change_parent id (some target))
  have hcleared : Standing k p label
      (((a.cell source).children.foldl
        (fun a id => a.change id fun c => { c with parent := some target }) a).change source
          fun c => { c with children := [] }) :=
    (hparents _ h).change (fun he => by omega) (fun he => by omega) (fun c _ hm => by cases hm)
      (fun he => by omega) fun hi => hi
  exact hcleared.change_children target (fun l c _ hm => List.mem_append_left _ hm)
    fun l c hc hm => (List.mem_append.1 hm).resolve_right (hmoved c hc)

/-- Attributes are added to a node other than the element. -/
theorem addMissing (h : Standing k p label a) {id : Nat} (hid : id ≠ k)
    (attributes : List Attribute) : Standing k p label (a.addMissing id attributes) := by
  refine h.change_content (fun c => ?_) (fun he => absurd he hid) fun hi => ?_
  · cases c.content <;> rfl
  · unfold labelOf? at hi ⊢
    cases hcontent : (a.cell id).content <;> simp [hcontent] at hi ⊢

end Standing

end Shortcodes.Html.Arena
