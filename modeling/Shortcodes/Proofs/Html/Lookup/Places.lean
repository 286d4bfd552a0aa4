import Mathlib.Data.List.Lex
import Shortcodes.Html.Node

/-!
# Places in a tree

An element below another one stands at an address, which says by index which child to go to at each
level. Addresses are ordered as the document is: an element stands in front of what is below it,
and with all of that in front of its later siblings (`append_lt_append`). The elements below an
element are those at its places (`filterMap_places`), which are listed in that order
(`pairwise_places`).
-/

namespace Shortcodes.Html

/-- Where an element stands below another one: the index of a child for each level. -/
abbrev Address := List Nat

/-! ### The order of the document -/

namespace Address

theorem le_append (a b : Address) : a ≤ a ++ b := by
  cases b with
  | nil => rw [List.append_nil]
  | cons i b =>
    refine le_of_lt ?_
    have h : a ++ [] < a ++ i :: b := List.Lex.append_left (· < ·) List.Lex.nil a
    rwa [List.append_nil] at h

theorem append_lt_append_left {b c : Address} (a : Address) (h : b < c) : a ++ b < a ++ c :=
  List.Lex.append_left (· < ·) h a

/-- What is below an element stands in front of what is below a later one that is not below it. -/
theorem append_lt_append {a b : Address} (h : a < b) (hnot : ¬ a <+: b) (p q : Address) :
    a ++ p < b ++ q := by
  have hlex : List.Lex (· < ·) a b := h
  clear h
  induction hlex with
  | nil => exact absurd List.nil_prefix hnot
  | rel hlt => exact List.Lex.rel hlt
  | cons _ ih => exact List.Lex.cons (ih fun hp => hnot (List.cons_prefix_cons.2 ⟨rfl, hp⟩))

end Address

/-! ### What stands at an address -/

/-- The element at an address below an element. -/
def Element.at? : Element → Address → Option Element
  | e, [] => some e
  | e, i :: a => (e.children[i]?.bind Node.element?).bind fun child => child.at? a

@[simp] theorem Element.at?_nil (e : Element) : e.at? [] = some e := rfl

theorem Element.at?_append (e : Element) (a b : Address) :
    e.at? (a ++ b) = (e.at? a).bind fun below => below.at? b := by
  induction a generalizing e with
  | nil => rfl
  | cons i a ih =>
    simp only [List.cons_append, at?]
    cases e.children[i]?.bind Node.element? with
    | none => rfl
    | some child => exact ih child

namespace Node

/-- The element at an address that begins with an index among nodes. -/
def lookAt (nodes : List Node) : Address → Option Element
  | [] => none
  | i :: a => (nodes[i]?.bind element?).bind fun child => child.at? a

mutual

/-- The addresses of the elements in a node, its own included. -/
def places : Node → List Address
  | element _ children => [] :: placesOfAll 0 children
  | _ => []

/-- The addresses of the elements among nodes and below them, where the first node has the index
`i`. -/
def placesOfAll (i : Nat) : List Node → List Address
  | [] => []
  | n :: rest => (places n).map (i :: ·) ++ placesOfAll (i + 1) rest

end

theorem exists_eq_cons_of_mem_placesOfAll {a : Address} {nodes : List Node} {i : Nat}
    (h : a ∈ placesOfAll i nodes) : ∃ j b, i ≤ j ∧ a = j :: b := by
  induction nodes generalizing i with
  | nil => cases h
  | cons n rest ih =>
    rw [placesOfAll, List.mem_append, List.mem_map] at h
    rcases h with ⟨b, -, rfl⟩ | h
    · exact ⟨i, b, le_rfl, rfl⟩
    · obtain ⟨j, b, hj, rfl⟩ := ih h
      exact ⟨j, b, Nat.le_of_succ_le hj, rfl⟩

/-! ### The order of the places -/

mutual

theorem pairwise_places : (n : Node) → (places n).Pairwise (· < ·)
  | element _ children => by
    rw [places, List.pairwise_cons]
    refine ⟨fun a ha => ?_, pairwise_placesOfAll children 0⟩
    obtain ⟨j, b, -, rfl⟩ := exists_eq_cons_of_mem_placesOfAll ha
    exact List.Lex.nil
  | text _ => List.Pairwise.nil
  | comment _ => List.Pairwise.nil

theorem pairwise_placesOfAll : (nodes : List Node) → (i : Nat) →
    (placesOfAll i nodes).Pairwise (· < ·)
  | [], _ => List.Pairwise.nil
  | n :: rest, i => by
    rw [placesOfAll, List.pairwise_append, List.pairwise_map]
    refine ⟨(pairwise_places n).imp List.Lex.cons, pairwise_placesOfAll rest (i + 1), ?_⟩
    intro a ha b hb
    obtain ⟨a, -, rfl⟩ := List.mem_map.1 ha
    obtain ⟨j, b, hj, rfl⟩ := exists_eq_cons_of_mem_placesOfAll hb
    exact List.Lex.rel hj

end

/-! ### The elements at the places -/

mutual

theorem mem_places : (n : Node) → (a : Address) →
    (a ∈ places n ↔ (n.element?.bind fun e => e.at? a).isSome)
  | element label children, a => by
    cases a with
    | nil => simp [places, element?]
    | cons i a =>
      have h := mem_placesOfAll children 0 (i :: a)
      simpa [places, element?, Element.at?, lookAt] using h
  | text _, a => by simp [places, element?]
  | comment _, a => by simp [places, element?]

theorem mem_placesOfAll : (nodes : List Node) → (i : Nat) → (a : Address) →
    (a ∈ placesOfAll i nodes ↔ ∃ j b, a = (i + j) :: b ∧ (lookAt nodes (j :: b)).isSome)
  | [], i, a => by simp [placesOfAll, lookAt]
  | n :: rest, i, a => by
    have hfirst := mem_places n
    have hrest := mem_placesOfAll rest (i + 1) a
    rw [placesOfAll, List.mem_append, List.mem_map, hrest]
    constructor
    · rintro (⟨b, hb, rfl⟩ | ⟨j, b, rfl, hb⟩)
      · exact ⟨0, b, rfl, (hfirst b).1 hb⟩
      · exact ⟨j + 1, b, by rw [Nat.add_right_comm, Nat.add_assoc], hb⟩
    · rintro ⟨j, b, rfl, hb⟩
      cases j with
      | zero => exact .inl ⟨b, (hfirst b).2 hb, rfl⟩
      | succ j => exact .inr ⟨j, b, by rw [Nat.add_right_comm, Nat.add_assoc], hb⟩

end

theorem lookAt_append_length (front : List Node) (n : Node) (rest : List Node) (a : Address) :
    lookAt (front ++ n :: rest) (front.length :: a) = n.element?.bind fun e => e.at? a := by
  rw [lookAt, List.getElem?_append_right le_rfl, Nat.sub_self]
  rfl

mutual

theorem filterMap_places : (n : Node) →
    (places n).filterMap (fun a => n.element?.bind fun e => e.at? a) =
      n.element?.toList ++ descendants n
  | element label children => by
    have h := filterMap_placesOfAll children []
    have hbelow : (placesOfAll 0 children).filterMap (Element.at? ⟨label, children⟩) =
        descendantsOfAll children := by
      refine Eq.trans (List.filterMap_congr fun a ha => ?_) h
      obtain ⟨j, b, -, rfl⟩ := exists_eq_cons_of_mem_placesOfAll ha
      rfl
    rw [places, descendants, element?, Option.toList_some, List.filterMap_cons]
    simpa using hbelow
  | text _ => rfl
  | comment _ => rfl

theorem filterMap_placesOfAll : (nodes front : List Node) →
    (placesOfAll front.length nodes).filterMap (lookAt (front ++ nodes)) = descendantsOfAll nodes
  | [], _ => rfl
  | n :: rest, front => by
    have hfirst := filterMap_places n
    have hrest := filterMap_placesOfAll rest (front ++ [n])
    rw [List.length_append, List.length_singleton, List.append_assoc,
      List.singleton_append] at hrest
    rw [placesOfAll, List.filterMap_append, hrest, List.filterMap_map]
    have hlook : (lookAt (front ++ n :: rest)) ∘ (front.length :: ·) =
        fun a => n.element?.bind fun e => e.at? a :=
      funext fun a => lookAt_append_length front n rest a
    rw [hlook, hfirst]
    cases n <;> rfl

end

/-- Only the address of the node itself has one index when the node's is put in front. -/
theorem filter_map_places (n : Node) (i : Nat) :
    ((places n).map (i :: ·)).filter (·.length = 1) = if n.element?.isSome then [[i]] else [] := by
  cases n with
  | element label children =>
    have hbelow : ((placesOfAll 0 children).map (i :: ·)).filter (·.length = 1) = [] := by
      refine List.filter_eq_nil_iff.2 fun a ha => ?_
      obtain ⟨b, hb, rfl⟩ := List.mem_map.1 ha
      obtain ⟨j, c, -, rfl⟩ := exists_eq_cons_of_mem_placesOfAll hb
      simp
    simp [places, element?, hbelow]
  | text _ => rfl
  | comment _ => rfl

theorem filterMap_filter_placesOfAll (nodes front : List Node) :
    ((placesOfAll front.length nodes).filter (·.length = 1)).filterMap (lookAt (front ++ nodes)) =
      nodes.filterMap element? := by
  induction nodes generalizing front with
  | nil => rfl
  | cons n rest ih =>
    have hrest := ih (front ++ [n])
    rw [List.length_append, List.length_singleton, List.append_assoc,
      List.singleton_append] at hrest
    rw [placesOfAll, List.filter_append, List.filterMap_append, hrest, filter_map_places]
    cases n with
    | element label children =>
      have hlook := lookAt_append_length front (element label children) rest []
      rw [element?, Option.bind_some, Element.at?_nil] at hlook
      simp [element?, hlook]
    | text _ => rfl
    | comment _ => rfl

end Node

namespace Element

/-- The addresses of the elements below an element. -/
def places (e : Element) : List Address := Node.placesOfAll 0 e.children

/-- The addresses of the elements directly below an element. -/
def childPlaces (e : Element) : List Address := e.places.filter (·.length = 1)

theorem pairwise_places (e : Element) : e.places.Pairwise (· < ·) :=
  Node.pairwise_placesOfAll e.children 0

theorem mem_places {e : Element} {a : Address} :
    a ∈ e.places ↔ a ≠ [] ∧ (e.at? a).isSome := by
  rw [places, Node.mem_placesOfAll]
  constructor
  · rintro ⟨j, b, rfl, h⟩
    rw [Nat.zero_add]
    exact ⟨List.cons_ne_nil _ _, h⟩
  · rintro ⟨hne, h⟩
    obtain ⟨j, b, rfl⟩ := List.exists_cons_of_ne_nil hne
    exact ⟨j, b, by rw [Nat.zero_add], h⟩

theorem filterMap_places (e : Element) : e.places.filterMap e.at? = e.descendants := by
  refine Eq.trans (List.filterMap_congr fun a ha => ?_) (Node.filterMap_placesOfAll e.children [])
  obtain ⟨j, b, -, rfl⟩ := Node.exists_eq_cons_of_mem_placesOfAll ha
  rfl

theorem mem_childPlaces {e : Element} {a : Address} :
    a ∈ e.childPlaces ↔ (∃ i, a = [i]) ∧ (e.at? a).isSome := by
  rw [childPlaces, List.mem_filter, mem_places, decide_eq_true_eq, List.length_eq_one_iff]
  constructor
  · rintro ⟨⟨-, h⟩, i, rfl⟩
    exact ⟨⟨i, rfl⟩, h⟩
  · rintro ⟨⟨i, rfl⟩, h⟩
    exact ⟨⟨List.cons_ne_nil _ _, h⟩, i, rfl⟩

theorem filterMap_childPlaces (e : Element) : e.childPlaces.filterMap e.at? = e.childElements := by
  refine Eq.trans (List.filterMap_congr fun a ha => ?_)
    (Node.filterMap_filter_placesOfAll e.children [])
  obtain ⟨⟨i, rfl⟩, -⟩ := mem_childPlaces.1 ha
  rfl

end Element

end Shortcodes.Html
