import Shortcodes.Proofs.Html.TopLevel

/-!
# Trees put into an arena

Markup that needs no repair puts its nodes into the arena one by one, each at the end of the
children of the innermost open element (`plant`). Nodes that were there keep their cells, but for
that element, which gets new children (`Adds`); and what the new cells become is the tree that was
put in, as long as its texts are not empty and do not stand side by side (`adds_plantAll`).
-/

namespace Shortcodes.Html

namespace Arena

variable {a b : Arena} {parent i : Nat}

/-- The cells with a new one at the end of another's children. -/
def sprout (a : Arena) (parent : Nat) (content : Content) : Arena :=
  (a.create content).1.append parent a.size

mutual

/-- The cells with a node, and all that is below it, put at the end of another's children. -/
def plant (a : Arena) (parent : Nat) : Node → Arena
  | .element label children => plantAll (a.sprout parent (.element label none)) a.size children
  | .text t => t.foldl (fun a c => a.appendChar parent c) a
  | .comment t => a.sprout parent (.comment t)

/-- The cells with nodes put at the end of another's children, one after the other. -/
def plantAll (a : Arena) (parent : Nat) : List Node → Arena
  | [] => a
  | n :: rest => plantAll (plant a parent n) parent rest

end

/-! ### New cells -/

theorem size_sprout (a : Arena) (parent : Nat) (content : Content) :
    (a.sprout parent content).size = a.size + 1 := by
  rw [sprout, append, size_change, size_change, size_create]

theorem cell_sprout (hp : parent < a.size) (content : Content) (i : Nat) :
    (a.sprout parent content).cell i =
      if i = a.size then { content, parent := some parent }
      else if i = parent then
        { a.cell parent with children := (a.cell parent).children ++ [a.size] }
      else a.cell i := by
  rw [sprout, append, cell_change, cell_change, cell_create, size_change, size_create]
  by_cases hi : i = a.size
  · rw [if_pos ⟨hi, by omega⟩, if_neg (by omega), if_pos hi, if_pos hi]
  · rw [if_neg fun h => hi h.1, if_neg hi]
    by_cases hip : i = parent
    · rw [if_pos ⟨hip, by omega⟩, if_pos hip, if_neg hi, hip]
    · rw [if_neg fun h => hip h.1, if_neg hi, if_neg hip]

/-! ### Cells that stay -/

/-- No cell is lost, and the content of a node goes where it went. -/
structure Grows (a b : Arena) : Prop where
  size_le : a.size ≤ b.size
  host_eq : ∀ i < a.size, b.host i = a.host i

theorem host_eq_of_content {a b : Arena} (h : (b.cell i).content = (a.cell i).content) :
    b.host i = a.host i := by
  rw [host, host, h]

theorem grows_create (a : Arena) (content : Content) : a.Grows (a.create content).1 := by
  refine ⟨by rw [size_create]; exact Nat.le_succ _, fun i hi => host_eq_of_content ?_⟩
  rw [cell_create, if_neg (Nat.ne_of_lt hi)]

theorem grows_sprout (hp : parent < a.size) (content : Content) :
    a.Grows (a.sprout parent content) := by
  refine ⟨by rw [size_sprout]; exact Nat.le_succ _, fun i hi => host_eq_of_content ?_⟩
  rw [cell_sprout hp, if_neg (Nat.ne_of_lt hi)]
  split
  · next he => rw [he]
  · rfl

theorem grows_extendText (a : Arena) (id : Nat) (c : Char) : a.Grows (a.extendText id c) := by
  have hsize : (a.extendText id c).size = a.size := size_change a id _
  refine ⟨Nat.le_of_eq hsize.symm, fun i _ => ?_⟩
  rw [host, host, extendText, cell_change]
  by_cases hi : i = id ∧ i < a.size
  · rw [if_pos hi]
    cases hcontent : (a.cell i).content <;> simp [hcontent]
  · rw [if_neg hi]

theorem appendChar_eq (a : Arena) (parent : Nat) (c : Char) :
    a.appendChar parent c =
      if (a.cell parent).children.getLast?.any a.isText then
        a.extendText ((a.cell parent).children.getLast?.getD 0) c
      else a.sprout parent (.text [c]) := by
  rw [appendChar]
  cases (a.cell parent).children.getLast? <;> rfl

theorem grows_appendChar (hp : parent < a.size) (c : Char) : a.Grows (a.appendChar parent c) := by
  rw [appendChar_eq]
  split
  · exact grows_extendText a _ c
  · exact grows_sprout hp _

end Arena

/-! ### Texts apart -/

namespace Node

/-- Whether a node is a text. -/
def isText (n : Node) : Bool := n.text?.isSome

mutual

/-- Whether in a tree no text is empty and none stands right behind another. -/
def tidy : Node → Bool
  | .element _ children => tidyAll false children
  | .text t => !t.isEmpty
  | .comment _ => true

/-- Whether this holds of nodes, `behindText` if a text stands right before them. -/
def tidyAll (behindText : Bool) : List Node → Bool
  | [] => true
  | n :: rest => !(behindText && n.isText) && tidy n && tidyAll n.isText rest

end

theorem tidyAll_cons {behindText : Bool} {n : Node} {rest : List Node} :
    tidyAll behindText (n :: rest) = true ↔
      (behindText = true → n.isText = false) ∧ n.tidy = true ∧
        tidyAll n.isText rest = true := by
  rw [tidyAll]
  cases behindText <;> simp [and_assoc]

end Node

namespace Arena

variable {a b : Arena} {parent : Nat}

/-- Whether the last child of a node is a text. -/
def endsInText (a : Arena) (parent : Nat) : Bool :=
  (a.cell parent).children.getLast?.any a.isText

theorem ext {a b : Arena} (hsize : a.size = b.size) (hcell : ∀ i, a.cell i = b.cell i) : a = b := by
  refine Array.ext hsize fun i hi hi' => ?_
  have hget : ∀ {d : Arena} (h : i < d.size), d[i] = d.cell i := by
    intro d h
    rw [cell, Array.getD_eq_getD_getElem?, Array.getElem?_eq_getElem h, Option.getD_some]
  rw [hget hi, hget hi', hcell]

/-- A character joins a text that was put in last. -/
theorem extendText_sprout (hp : parent < a.size) (reversed : Text) (c : Char) :
    (a.sprout parent (.text reversed)).extendText a.size c =
      a.sprout parent (.text (c :: reversed)) := by
  refine ext ?_ fun i => ?_
  · rw [extendText, size_change, size_sprout, size_sprout]
  · rw [extendText, cell_change, cell_sprout hp, cell_sprout hp, size_sprout]
    by_cases hi : i = a.size
    · rw [if_pos ⟨hi, by omega⟩, if_pos hi, if_pos hi]
    · rw [if_neg fun h => hi h.1, if_neg hi, if_neg hi]

theorem endsInText_of_children {ids : List Nat} {i : Nat}
    (h : (a.cell parent).children = ids ++ [i]) : a.endsInText parent = a.isText i := by
  rw [endsInText, h, List.getLast?_concat, Option.any_some]

theorem children_sprout (hp : parent < a.size) (content : Content) :
    ((a.sprout parent content).cell parent).children = (a.cell parent).children ++ [a.size] := by
  rw [cell_sprout hp, if_neg (Nat.ne_of_lt hp), if_pos rfl]

theorem content_sprout (hp : parent < a.size) (content : Content) :
    ((a.sprout parent content).cell a.size).content = content := by
  rw [cell_sprout hp, if_pos rfl]

/-- Text that is not put behind a text is one new cell. -/
theorem appendText_eq_sprout {t : Text} (ht : t ≠ []) (hp : parent < a.size)
    (hends : a.endsInText parent = false) :
    t.foldl (fun a c => a.appendChar parent c) a = a.sprout parent (.text t.reverse) := by
  -- each character after the first joins the text
  have hjoin : ∀ t reversed : Text,
      t.foldl (fun a c => a.appendChar parent c) (a.sprout parent (.text reversed)) =
        a.sprout parent (.text (t.reverse ++ reversed)) := by
    intro t
    induction t with
    | nil => exact fun _ => rfl
    | cons c t ih =>
      intro reversed
      have hlast : (a.sprout parent (.text reversed)).appendChar parent c =
          a.sprout parent (.text (c :: reversed)) := by
        have htext : (a.sprout parent (.text reversed)).isText a.size = true := by
          rw [isText, content_sprout hp]
        rw [appendChar_eq, children_sprout hp, List.getLast?_concat, Option.any_some, if_pos htext,
          Option.getD_some, extendText_sprout hp]
      rw [List.foldl_cons, hlast, ih, List.reverse_cons, List.append_assoc, List.singleton_append]
  cases t with
  | nil => exact absurd rfl ht
  | cons c t =>
    have hfirst : a.appendChar parent c = a.sprout parent (.text [c]) := by
      rw [appendChar_eq, ← endsInText, hends, if_neg Bool.false_ne_true]
    rw [List.foldl_cons, hfirst, hjoin, List.reverse_cons]

/-! ### What new cells become -/

/-- The cells have become those with new nodes behind a node's children: nothing else that was
there has changed, and wherever the new cells stay as they are, they become the nodes. -/
structure Adds (a : Arena) (parent : Nat) (ids : List Nat) (nodes : List Node) (b : Arena) :
    Prop where
  size_le : a.size ≤ b.size
  cell_parent : b.cell parent = { a.cell parent with children := (a.cell parent).children ++ ids }
  cell_eq : ∀ i < a.size, i ≠ parent → b.cell i = a.cell i
  toNodes_eq : ∀ c : Arena, (∀ i, a.size ≤ i → i < b.size → c.cell i = b.cell i) →
    ∀ fuel, b.size - a.size < fuel → c.toNodes fuel ids = nodes

theorem adds_nil (a : Arena) (parent : Nat) : a.Adds parent [] [] a where
  size_le := Nat.le_refl _
  cell_parent := by rw [List.append_nil]
  cell_eq := fun _ _ _ => rfl
  toNodes_eq := by
    intro c _ fuel hfuel
    cases fuel with
    | zero => omega
    | succ fuel => rfl

theorem Adds.append {c : Arena} {ids ids' : List Nat} {nodes nodes' : List Node}
    (h : a.Adds parent ids nodes b) (h' : b.Adds parent ids' nodes' c) (hp : parent < a.size) :
    a.Adds parent (ids ++ ids') (nodes ++ nodes') c where
  size_le := Nat.le_trans h.size_le h'.size_le
  cell_parent := by rw [h'.cell_parent, h.cell_parent, List.append_assoc]
  cell_eq := by
    intro i hi hne
    rw [h'.cell_eq i (Nat.lt_of_lt_of_le hi h.size_le) hne, h.cell_eq i hi hne]
  toNodes_eq := by
    intro d hd fuel hfuel
    have hsize := h.size_le
    have hsize' := h'.size_le
    have hfront : d.toNodes fuel ids = nodes := by
      refine h.toNodes_eq d (fun i hi hlt => ?_) fuel (by omega)
      rw [hd i hi (by omega), h'.cell_eq i hlt (by omega)]
    have hback : d.toNodes fuel ids' = nodes' :=
      h'.toNodes_eq d (fun i hi hlt => hd i (by omega) hlt) fuel (by omega)
    obtain ⟨n, rfl⟩ : ∃ n, fuel = n + 1 := ⟨fuel - 1, by omega⟩
    rw [toNodes_succ] at hfront hback ⊢
    rw [List.filterMap_append, hfront, hback]

/-- A new cell that has nothing below it. -/
theorem adds_sprout (hp : parent < a.size) {content : Content} {n : Node}
    (hn : ∀ (c : Arena) (fuel : Nat) (parent : Option Nat),
      c.nodeOf? fuel { content, parent } = some n) :
    a.Adds parent [a.size] [n] (a.sprout parent content) where
  size_le := (grows_sprout hp content).size_le
  cell_parent := by rw [cell_sprout hp, if_neg (Nat.ne_of_lt hp), if_pos rfl]
  cell_eq := by
    intro i hi hne
    rw [cell_sprout hp, if_neg (Nat.ne_of_lt hi), if_neg hne]
  toNodes_eq := by
    intro c hc fuel hfuel
    obtain ⟨m, rfl⟩ : ∃ m, fuel = m + 1 := ⟨fuel - 1, by omega⟩
    have hcell := hc a.size (Nat.le_refl _) (by rw [size_sprout]; exact Nat.lt_succ_self _)
    rw [cell_sprout hp, if_pos rfl] at hcell
    rw [toNodes_succ, List.filterMap_cons, hcell, hn]
    rfl

/-- A new element with what was then put into it. -/
theorem Adds.element {label : Label} {ids : List Nat} {children : List Node}
    (hp : parent < a.size)
    (h : (a.sprout parent (.element label none)).Adds a.size ids children b) :
    a.Adds parent [a.size] [.element label children] b where
  size_le := Nat.le_trans (grows_sprout hp _).size_le h.size_le
  cell_parent := by
    have hne : parent ≠ a.size := Nat.ne_of_lt hp
    rw [h.cell_eq parent (by rw [size_sprout]; omega) hne, cell_sprout hp, if_neg hne, if_pos rfl]
  cell_eq := by
    intro i hi hne
    have hsize : i ≠ a.size := Nat.ne_of_lt hi
    rw [h.cell_eq i (by rw [size_sprout]; omega) hsize, cell_sprout hp, if_neg hsize, if_neg hne]
  toNodes_eq := by
    intro c hc fuel hfuel
    have hsize := h.size_le
    rw [size_sprout] at hsize
    obtain ⟨m, rfl⟩ : ∃ m, fuel = m + 1 := ⟨fuel - 1, by omega⟩
    have hchildren : c.toNodes m ids = children := by
      refine h.toNodes_eq c (fun i hi hlt => hc i ?_ hlt) m ?_ <;> rw [size_sprout] at * <;> omega
    have hcell := hc a.size (Nat.le_refl _) (by omega)
    rw [h.cell_parent, cell_sprout hp, if_pos rfl, List.nil_append] at hcell
    have hnode : c.nodeOf? m (c.cell a.size) = some (.element label children) := by
      rw [hcell, ← hchildren]
      rfl
    rw [toNodes_succ, List.filterMap_cons, hnode]
    rfl

/-- The last child is a text if the last node that was put in is one. -/
theorem Adds.endsInText {n : Node} {i : Nat} (h : a.Adds parent [i] [n] b) :
    b.endsInText parent = n.isText := by
  have hnodes := h.toNodes_eq b (fun _ _ _ => rfl) (b.size - a.size + 1) (Nat.lt_succ_self _)
  rw [toNodes_succ, List.filterMap_cons, List.filterMap_nil] at hnodes
  have hchildren : (b.cell parent).children = (a.cell parent).children ++ [i] := by
    rw [h.cell_parent]
  rw [endsInText_of_children hchildren, isText]
  unfold nodeOf? at hnodes
  cases hcontent : (b.cell i).content with
  | document =>
    rw [hcontent] at hnodes
    cases hnodes
  | _ =>
    rw [hcontent] at hnodes
    cases hnodes
    rfl

mutual

theorem adds_plant (n : Node) {a : Arena} {parent : Nat} (hp : parent < a.size)
    (htidy : n.tidy = true) (hends : a.endsInText parent = true → n.isText = false) :
    a.Adds parent [a.size] [n] (a.plant parent n) := by
  cases n with
  | element label children =>
    have hempty : (a.sprout parent (.element label none)).endsInText a.size = false := by
      rw [Arena.endsInText, cell_sprout hp, if_pos rfl]
      rfl
    have hlt : a.size < (a.sprout parent (.element label none)).size := by
      rw [size_sprout]
      exact Nat.lt_succ_self _
    obtain ⟨ids, h⟩ := adds_plantAll children hlt (by rw [hempty]; exact htidy)
    exact h.element hp
  | text t =>
    have hne : t ≠ [] := by simpa [Node.tidy] using htidy
    have hends' : a.endsInText parent = false := by
      cases he : a.endsInText parent with
      | false => rfl
      | true => cases hends he
    rw [plant, appendText_eq_sprout hne hp hends']
    refine adds_sprout hp fun c fuel _ => ?_
    show some (Node.text t.reverse.reverse) = _
    rw [List.reverse_reverse]
  | comment t => exact adds_sprout hp fun _ _ _ => rfl

/-- Nodes without empty texts, and without texts side by side, are what the new cells become. -/
theorem adds_plantAll (nodes : List Node) {a : Arena} {parent : Nat} (hp : parent < a.size)
    (htidy : Node.tidyAll (a.endsInText parent) nodes = true) :
    ∃ ids, a.Adds parent ids nodes (a.plantAll parent nodes) := by
  cases nodes with
  | nil => exact ⟨[], adds_nil a parent⟩
  | cons n rest =>
    obtain ⟨hends, hn, hrest⟩ := Node.tidyAll_cons.1 htidy
    have hfirst := adds_plant n hp hn hends
    rw [← hfirst.endsInText] at hrest
    obtain ⟨ids, h⟩ := adds_plantAll rest (Nat.lt_of_lt_of_le hp hfirst.size_le) hrest
    exact ⟨a.size :: ids, hfirst.append h hp⟩

end

end Arena

end Shortcodes.Html
