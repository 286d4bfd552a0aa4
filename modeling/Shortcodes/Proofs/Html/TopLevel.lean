import Shortcodes.Html.Fragment
import Shortcodes.Proofs.Html.Standing.Modes

/-!
# The top level of a document

A fragment counts the nodes at the top level of the tree that an arena becomes. Here they are told
apart as cells (`topLevelIds`), so that an element which is there can be told from another one with
the same label. An element that stands in a part of the document is alone at the top level if one
node is there and the part is still in its place (`Standing.topLevelIds_eq_iff`).
-/

namespace Shortcodes.Html

namespace Arena

/-- The elements among cells. -/
def elementIds (a : Arena) (ids : List Nat) : List Nat :=
  ids.filter fun id => (labelOf? (a.cell id)).isSome

/-- Whether a cell counts at the top level. -/
def counts (c : Cell) : Bool :=
  match c.content with
  | .element _ _ => true
  | .text reversed => !Text.allBlank reversed.reverse
  | _ => false

/-- The cells at the top level of a document: those that count, directly below the parts of the
root. -/
def topLevelIds (a : Arena) : List Nat :=
  (a.elementIds (a.cell 0).children).flatMap fun root =>
    (a.elementIds (a.cell root).children).flatMap fun part =>
      (a.cell part).children.filter fun id => counts (a.cell id)

/-! ### Cells and nodes -/

/-- The node that a cell becomes. -/
def nodeOf? (a : Arena) (fuel : Nat) (c : Cell) : Option Node :=
  match c.content with
  | .document => none
  | .element label _ => some (.element label (a.toNodes fuel c.children))
  | .text reversed => some (.text reversed.reverse)
  | .comment t => some (.comment t)

theorem toNodes_succ (a : Arena) (fuel : Nat) (ids : List Nat) :
    a.toNodes (fuel + 1) ids = ids.filterMap fun id => a.nodeOf? fuel (a.cell id) := rfl

theorem element?_nodeOf? (a : Arena) (fuel : Nat) (c : Cell) :
    (a.nodeOf? fuel c).bind Node.element? =
      (labelOf? c).map fun label => ⟨label, a.toNodes fuel c.children⟩ := by
  unfold nodeOf? labelOf?
  cases c.content <;> rfl

theorem filter_nodeOf? (a : Arena) (fuel : Nat) (c : Cell) :
    (a.nodeOf? fuel c).filter Fragment.counts =
      if counts c then a.nodeOf? fuel c else none := by
  unfold nodeOf? counts
  cases c.content with
  | text reversed =>
    show (if !Text.allBlank reversed.reverse then _ else _) = _
    rfl
  | _ => rfl

theorem isSome_nodeOf? (a : Arena) (fuel : Nat) {c : Cell} (h : counts c = true) :
    (a.nodeOf? fuel c).isSome := by
  unfold nodeOf?
  unfold counts at h
  cases hcontent : c.content with
  | document =>
    rw [hcontent] at h
    cases h
  | _ => rfl

theorem flatMap_elements {α : Type} (a : Arena) (fuel : Nat) {f : Element → List α}
    {g : Nat → List α} (h : ∀ id label, f ⟨label, a.toNodes fuel (a.cell id).children⟩ = g id)
    (ids : List Nat) :
    (Fragment.elements (a.toNodes (fuel + 1) ids)).flatMap f = (a.elementIds ids).flatMap g := by
  unfold Fragment.elements elementIds
  rw [toNodes_succ, List.filterMap_filterMap]
  induction ids with
  | nil => rfl
  | cons id ids ih =>
    have hnode := element?_nodeOf? a fuel (a.cell id)
    rw [List.filter_cons]
    cases hlabel : labelOf? (a.cell id) with
    | none =>
      rw [hlabel, Option.map_none] at hnode
      rw [List.filterMap_cons, hnode]
      exact ih
    | some label =>
      rw [hlabel, Option.map_some] at hnode
      rw [List.filterMap_cons, hnode, List.flatMap_cons, h, ih]
      rfl

theorem filter_toNodes (a : Arena) (fuel : Nat) (ids : List Nat) :
    (a.toNodes (fuel + 1) ids).filter Fragment.counts =
      (ids.filter fun id => counts (a.cell id)).filterMap fun id => a.nodeOf? fuel (a.cell id) := by
  rw [toNodes_succ, List.filter_filterMap, List.filterMap_filter]
  simp only [filter_nodeOf?]

theorem topLevelNodes_toNodes (a : Arena) (fuel : Nat) :
    Fragment.topLevelNodes (a.toNodes (fuel + 3) (a.cell 0).children) =
      a.topLevelIds.filterMap fun id => a.nodeOf? fuel (a.cell id) := by
  unfold Fragment.topLevelNodes topLevelIds
  rw [List.filterMap_flatMap]
  refine flatMap_elements a (fuel + 2) (fun root label => ?_) _
  rw [List.filterMap_flatMap]
  exact flatMap_elements a (fuel + 1) (fun part label => filter_toNodes a fuel _) _

theorem mem_topLevelIds {a : Arena} {id : Nat} :
    id ∈ a.topLevelIds ↔ ∃ root part, root ∈ a.elementIds (a.cell 0).children ∧
      part ∈ a.elementIds (a.cell root).children ∧ id ∈ (a.cell part).children ∧
      counts (a.cell id) = true := by
  unfold topLevelIds
  simp only [List.mem_flatMap, List.mem_filter]
  constructor
  · rintro ⟨root, hroot, part, hpart, hid⟩
    exact ⟨root, part, hroot, hpart, hid⟩
  · rintro ⟨root, part, hroot, hpart, hid⟩
    exact ⟨root, hroot, part, hpart, hid⟩

/-- As many nodes stand at the top level of the tree as cells at that of the arena. -/
theorem length_filterMap_topLevelIds (a : Arena) (fuel : Nat) :
    (a.topLevelIds.filterMap fun id => a.nodeOf? fuel (a.cell id)).length =
      a.topLevelIds.length := by
  rw [List.filterMap_length_eq_length]
  intro id hid
  obtain ⟨root, part, -, -, -, hcounts⟩ := mem_topLevelIds.1 hid
  exact isSome_nodeOf? a fuel hcounts

namespace Standing

variable {k p : Nat} {label : Label} {a : Arena}

theorem counts_self (h : Standing k p label a) : counts (a.cell k) = true := by
  have hlabel := h.label_eq
  rw [label?_eq] at hlabel
  unfold labelOf? at hlabel
  unfold counts
  split at hlabel
  · next hcontent => rw [hcontent]
  · cases hlabel

/-- The element becomes one with its label. -/
theorem nodeOf?_self (h : Standing k p label a) (fuel : Nat) :
    a.nodeOf? fuel (a.cell k) = some (.element label (a.toNodes fuel (a.cell k).children)) := by
  have hlabel := h.label_eq
  rw [label?_eq] at hlabel
  unfold labelOf? at hlabel
  unfold nodeOf?
  split at hlabel
  · next hcontent =>
    cases hlabel
    rw [hcontent]
  · cases hlabel

/-- The element is at the top level if its part is still a child of the root. -/
theorem mem_topLevelIds_iff (h : Standing k p label a) :
    k ∈ a.topLevelIds ↔ p ∈ (a.cell 1).children := by
  have hroot := h.root_isElement
  have hpart := h.part_isElement
  rw [label?_eq] at hroot hpart
  rw [mem_topLevelIds]
  constructor
  · rintro ⟨root, part, -, hp, hk, -⟩
    unfold elementIds at hp
    have hp := (List.mem_filter.1 hp).1
    rw [h.eq_part part hk] at hp
    rwa [h.eq_root root hp] at hp
  · intro hp
    exact ⟨1, p, List.mem_filter.2 ⟨h.root_mem, hroot⟩, List.mem_filter.2 ⟨hp, hpart⟩, h.mem,
      h.counts_self⟩

/-- The element is all there is at the top level if one node is there and its part is still a
child of the root. -/
theorem topLevelIds_eq_iff (h : Standing k p label a) :
    a.topLevelIds = [k] ↔ a.topLevelIds.length = 1 ∧ p ∈ (a.cell 1).children := by
  rw [← h.mem_topLevelIds_iff]
  constructor
  · intro he
    rw [he]
    exact ⟨rfl, List.mem_singleton_self k⟩
  · rintro ⟨hlength, hk⟩
    obtain ⟨i, hi⟩ := List.length_eq_one_iff.1 hlength
    rw [hi] at hk ⊢
    rw [List.mem_singleton.1 hk]

end Standing

end Arena

end Shortcodes.Html
