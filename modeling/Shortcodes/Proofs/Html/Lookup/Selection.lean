import Mathlib.Data.Set.Card
import Mathlib.Order.Bounds.Basic
import Shortcodes.Proofs.Html.Lookup.Places
import Shortcodes.Proofs.Html.Lookup.Reading

/-!
# What a path selects

A step goes from an element to a set of elements (`target`), and a path selects what its steps go
to, one after the other, from the root (`selected`). The same sets are listed in the order of the
document (`targets`, `mem_targets`, `pairwise_targets`), and looking up a value goes through these
lists (`follow_filterMap`).
-/

namespace Shortcodes.Html.Lookup

/-! ### Selected elements -/

section

variable (root : Element)

/-- The addresses at which an element of a name stands; none stands for any name. -/
def withName (name : Option Text) : Set Address :=
  {a | ∃ e, root.at? a = some e ∧ named name e = true}

/-- The addresses below an element: one level below on the axis of children, any on the other. -/
def below (axis : Axis) (a : Address) : Set Address :=
  match axis with
  | .child => {b | ∃ i, b = a ++ [i]}
  | .descendant => {b | ∃ p ≠ [], b = a ++ p}

/-- An element itself; on the axis of descendants, also those below it. -/
def around (axis : Axis) (a : Address) : Set Address :=
  match axis with
  | .child => {a}
  | .descendant => {b | a <+: b ∧ (root.at? b).isSome}

/-- The member at a position in the order of the document, counted from 1; all of them without a
position. -/
def nth (position : Option Nat) (S : Set Address) : Set Address :=
  match position with
  | none => S
  | some n => {b ∈ S | (S ∩ Set.Iio b).ncard + 1 = n}

/-- Where a step goes from an element. A step that gives a value goes to the elements that have
one. -/
def target : Axis × LookupStep → Address → Set Address
  | (axis, .element name position), a => nth position (below axis a ∩ withName root name)
  | (axis, .current), a => around root axis a
  | (axis, .attribute name), a =>
    {b ∈ around root axis a | ∃ e, root.at? b = some e ∧ (e.label.attribute? name).isSome}
  | (axis, .text), a => {b ∈ around root axis a | ∃ e, root.at? b = some e ∧ e.directTexts ≠ []}

/-- Where steps go from a set of elements. -/
def selectedFrom : List (Axis × LookupStep) → Set Address → Set Address
  | [], A => A
  | s :: rest, A => selectedFrom rest {b | ∃ a ∈ A, b ∈ target root s a}

/-- The elements that a path selects. -/
def selected (path : Lookup) : Set Address := selectedFrom root path.steps {[]}

end

end Lookup

/-- What an element gives to a step that is the last one. -/
def LookupStep.value? : LookupStep → Element → Option Text
  | .attribute name, e => e.label.attribute? name
  | .text, e => e.directTexts.head?
  | _, e => some e.textContent

namespace Lookup

/-- The value of an element to the last of some steps. -/
def valueAt? (root : Element) (steps : List (Axis × LookupStep)) (a : Address) : Option Text :=
  steps.getLast?.bind fun s => (root.at? a).bind s.2.value?

/-! ### The same as lists -/

section

variable (root : Element)

/-- The addresses of the elements below an element, in order. -/
def listBelow (axis : Axis) (a : Address) : List Address :=
  match root.at? a with
  | none => []
  | some e =>
    (match axis with
      | .child => e.childPlaces
      | .descendant => e.places).map (a ++ ·)

/-- The addresses of an element and those that the axis goes to below it, in order. -/
def listAround (axis : Axis) (a : Address) : List Address :=
  match axis with
  | .child => [a]
  | .descendant => a :: listBelow root .descendant a

/-- Where a step goes from an element, in order. -/
def targets : Axis × LookupStep → Address → List Address
  | (axis, .element name position), a =>
    atPosition position ((listBelow root axis a).filter fun b => (root.at? b).any (named name))
  | (axis, .current), a => listAround root axis a
  | (axis, .attribute name), a =>
    (listAround root axis a).filter fun b =>
      ((root.at? b).bind (LookupStep.attribute name).value?).isSome
  | (axis, .text), a =>
    (listAround root axis a).filter fun b => ((root.at? b).bind LookupStep.text.value?).isSome

/-- Where steps go from a list of elements, in the order in which they get there. -/
def gather : List (Axis × LookupStep) → List Address → List Address
  | [], A => A
  | s :: rest, A => gather rest (A.flatMap (targets root s))

end

variable {root : Element}

theorem mem_listBelow {axis : Axis} {a b : Address} (h : (root.at? a).isSome) :
    b ∈ listBelow root axis a ↔ b ∈ below axis a ∧ (root.at? b).isSome := by
  obtain ⟨e, he⟩ := Option.isSome_iff_exists.1 h
  have hat : ∀ p, root.at? (a ++ p) = e.at? p := fun p => by rw [Element.at?_append, he]; rfl
  rw [listBelow, he]
  cases axis with
  | child =>
    simp only [List.mem_map, Element.mem_childPlaces, below, Set.mem_ofPred_eq]
    constructor
    · rintro ⟨_, ⟨⟨i, rfl⟩, hi⟩, rfl⟩
      exact ⟨⟨i, rfl⟩, by rwa [hat]⟩
    · rintro ⟨⟨i, rfl⟩, hi⟩
      exact ⟨[i], ⟨⟨i, rfl⟩, by rwa [hat] at hi⟩, rfl⟩
  | descendant =>
    simp only [List.mem_map, Element.mem_places, below, Set.mem_ofPred_eq]
    constructor
    · rintro ⟨p, ⟨hne, hp⟩, rfl⟩
      exact ⟨⟨p, hne, rfl⟩, by rwa [hat]⟩
    · rintro ⟨⟨p, hne, rfl⟩, hp⟩
      exact ⟨p, ⟨hne, by rwa [hat] at hp⟩, rfl⟩

theorem mem_listAround {axis : Axis} {a b : Address} (h : (root.at? a).isSome) :
    b ∈ listAround root axis a ↔ b ∈ around root axis a := by
  cases axis with
  | child => simp [listAround, around]
  | descendant =>
    rw [listAround, List.mem_cons, mem_listBelow h]
    constructor
    · rintro (rfl | ⟨⟨p, -, rfl⟩, hp⟩)
      · exact ⟨List.prefix_rfl, h⟩
      · exact ⟨List.prefix_append _ _, hp⟩
    · rintro ⟨⟨p, rfl⟩, hp⟩
      cases p with
      | nil => exact .inl (List.append_nil a)
      | cons i p => exact .inr ⟨⟨i :: p, List.cons_ne_nil _ _, rfl⟩, hp⟩

theorem pairwise_listBelow (axis : Axis) (a : Address) :
    (listBelow root axis a).Pairwise (· < ·) := by
  rw [listBelow]
  split
  · exact List.Pairwise.nil
  · next e _ =>
    rw [List.pairwise_map]
    cases axis with
    | child => exact (e.pairwise_places.filter _).imp (Address.append_lt_append_left a)
    | descendant => exact e.pairwise_places.imp (Address.append_lt_append_left a)

theorem prefix_of_mem_listBelow {axis : Axis} {a b : Address} (h : b ∈ listBelow root axis a) :
    ∃ p ≠ [], b = a ++ p := by
  cases ha : root.at? a with
  | none => simp [listBelow, ha] at h
  | some e =>
    have hbelow := ((mem_listBelow (by rw [ha]; rfl)).1 h).1
    cases axis with
    | child =>
      obtain ⟨i, rfl⟩ := hbelow
      exact ⟨[i], List.cons_ne_nil _ _, rfl⟩
    | descendant => exact hbelow

theorem pairwise_listAround (axis : Axis) (a : Address) :
    (listAround root axis a).Pairwise (· < ·) := by
  cases axis with
  | child => exact List.pairwise_singleton _ _
  | descendant =>
    refine List.Pairwise.cons (fun b hb => ?_) (pairwise_listBelow .descendant a)
    obtain ⟨p, hne, rfl⟩ := prefix_of_mem_listBelow hb
    exact (Address.le_append a p).lt_of_ne fun h => hne (List.self_eq_append_right.1 h)

/-! ### Positions -/

theorem ncard_inter_Iio {front back : List Address} {b : Address}
    (h : (front ++ b :: back).Pairwise (· < ·)) :
    ({a | a ∈ front ++ b :: back} ∩ Set.Iio b).ncard = front.length := by
  obtain ⟨hfront, hback, hcross⟩ := List.pairwise_append.1 h
  have hset : {a | a ∈ front ++ b :: back} ∩ Set.Iio b = (front.toFinset : Set Address) := by
    ext a
    simp only [Set.mem_inter_iff, Set.mem_ofPred_eq, List.mem_append, List.mem_cons, Set.mem_Iio,
      List.coe_toFinset]
    constructor
    · rintro ⟨hm | rfl | hm, hlt⟩
      · exact hm
      · exact absurd hlt (lt_irrefl _)
      · exact absurd hlt ((List.pairwise_cons.1 hback).1 a hm).asymm
    · exact fun hm => ⟨.inl hm, hcross a hm b (.head _)⟩
  rw [hset, Set.ncard_coe_finset, List.toFinset_card_of_nodup (hfront.imp ne_of_lt)]

theorem mem_atPosition {l : List Address} (h : l.Pairwise (· < ·)) {position : Option Nat}
    (hpos : position ≠ some 0) {b : Address} :
    b ∈ atPosition position l ↔ b ∈ nth position {a | a ∈ l} := by
  cases position with
  | none => rfl
  | some n =>
    have hn : 0 < n := Nat.pos_of_ne_zero fun h0 => hpos (congrArg some h0)
    rw [atPosition, List.take_one, List.head?_drop, Option.mem_toList, nth]
    -- in a list in order, as many stand before an element as are less than it
    constructor
    · intro hb
      have hm : b ∈ l := List.mem_of_getElem? hb
      obtain ⟨front, back, rfl⟩ := List.append_of_mem hm
      have hlen : n - 1 = front.length := by
        refine (List.getElem?_inj (List.getElem?_eq_some_iff.1 hb).1 (h.imp ne_of_lt)).1 ?_
        rw [hb]
        simp
      refine ⟨hm, ?_⟩
      rw [ncard_inter_Iio h]
      omega
    · rintro ⟨hm, hcard⟩
      obtain ⟨front, back, rfl⟩ := List.append_of_mem hm
      rw [ncard_inter_Iio h] at hcard
      have hlen : n - 1 = front.length := by omega
      rw [hlen]
      simp

theorem atPosition_sublist {α : Type} (position : Option Nat) (l : List α) :
    (atPosition position l).Sublist l := by
  cases position with
  | none => exact List.Sublist.refl l
  | some n => exact (List.take_sublist _ _).trans (List.drop_sublist _ _)

/-! ### The lists and the sets -/

/-- Whether the position of a step, if it has one, can be counted from one. -/
def Positive (step : LookupStep) : Prop := ∀ name, step ≠ .element name (some 0)

theorem mem_targets {s : Axis × LookupStep} (hs : Positive s.2) {a b : Address}
    (h : (root.at? a).isSome) : b ∈ targets root s a ↔ b ∈ target root s a := by
  obtain ⟨axis, step⟩ := s
  cases step with
  | element name position =>
    have hset : {c | c ∈ (listBelow root axis a).filter fun c => (root.at? c).any (named name)} =
        below axis a ∩ withName root name := by
      ext c
      simp only [Set.mem_ofPred_eq, List.mem_filter, mem_listBelow h, Set.mem_inter_iff, withName,
        Option.any_eq_true]
      constructor
      · rintro ⟨⟨hc, -⟩, hname⟩
        exact ⟨hc, hname⟩
      · rintro ⟨hc, e, he, hname⟩
        exact ⟨⟨hc, by rw [he]; rfl⟩, e, he, hname⟩
    have hposition : position ≠ some 0 := fun h0 => hs name (by rw [h0])
    rw [targets, mem_atPosition ((pairwise_listBelow axis a).filter _) hposition, hset, target]
  | current => exact mem_listAround h
  | _ =>
    rw [targets, List.mem_filter, mem_listAround h, target, Option.isSome_bind]
    simp [LookupStep.value?, Option.any_eq_true]

theorem pairwise_targets (s : Axis × LookupStep) (a : Address) :
    (targets root s a).Pairwise (· < ·) := by
  obtain ⟨axis, step⟩ := s
  cases step with
  | element name position =>
    exact ((pairwise_listBelow axis a).filter _).sublist (atPosition_sublist _ _)
  | current => exact pairwise_listAround axis a
  | _ => exact (pairwise_listAround axis a).filter _

theorem isSome_of_mem_around {axis : Axis} {a b : Address} (h : (root.at? a).isSome)
    (hb : b ∈ around root axis a) : (root.at? b).isSome := by
  cases axis with
  | child => rwa [Set.mem_singleton_iff.1 hb]
  | descendant => exact hb.2

theorem nth_subset (position : Option Nat) (S : Set Address) : nth position S ⊆ S := by
  cases position with
  | none => exact fun _ hb => hb
  | some _ => exact fun _ hb => hb.1

/-- A step goes to elements of the tree. -/
theorem isSome_of_mem_target {s : Axis × LookupStep} {a b : Address} (h : (root.at? a).isSome)
    (hb : b ∈ target root s a) : (root.at? b).isSome := by
  obtain ⟨axis, step⟩ := s
  cases step with
  | element name position =>
    obtain ⟨-, e, he, -⟩ := nth_subset _ _ hb
    rw [he]
    rfl
  | current => exact isSome_of_mem_around h hb
  | _ => exact isSome_of_mem_around h hb.1

theorem prefix_of_mem_around {axis : Axis} {a b : Address} (hb : b ∈ around root axis a) :
    a <+: b := by
  cases axis with
  | child => rw [Set.mem_singleton_iff.1 hb]
  | descendant => exact hb.1

theorem prefix_of_mem_below {axis : Axis} {a b : Address} (hb : b ∈ below axis a) : a <+: b := by
  cases axis with
  | child =>
    obtain ⟨i, rfl⟩ := hb
    exact List.prefix_append a [i]
  | descendant =>
    obtain ⟨p, -, rfl⟩ := hb
    exact List.prefix_append a p

/-- A step goes to an element itself or to elements below it. -/
theorem prefix_of_mem_target {s : Axis × LookupStep} {a b : Address} (hb : b ∈ target root s a) :
    a <+: b := by
  obtain ⟨axis, step⟩ := s
  cases step with
  | element name position => exact prefix_of_mem_below (nth_subset _ _ hb).1
  | current => exact prefix_of_mem_around hb
  | _ => exact prefix_of_mem_around hb.1

/-! ### Looking up by addresses -/

theorem filterMap_atPosition {l : List Address} (h : ∀ a ∈ l, (root.at? a).isSome)
    (position : Option Nat) :
    (atPosition position l).filterMap root.at? = atPosition position (l.filterMap root.at?) := by
  cases position with
  | none => rfl
  | some n =>
    obtain ⟨g, hg⟩ : ∃ g : Address → Element, ∀ a ∈ l, root.at? a = some (g a) := by
      refine ⟨fun a => (root.at? a).getD default, fun a ha => ?_⟩
      obtain ⟨e, he⟩ := Option.isSome_iff_exists.1 (h a ha)
      simp only [he, Option.getD_some]
    have hall : l.filterMap root.at? = l.map g := List.filterMap_eq_map_iff_forall_eq_some.2 hg
    have htaken : (atPosition (some n) l).filterMap root.at? = (atPosition (some n) l).map g :=
      List.filterMap_eq_map_iff_forall_eq_some.2 fun a ha =>
        hg a ((atPosition_sublist (some n) l).subset ha)
    rw [hall, htaken, atPosition, atPosition, List.map_take, List.map_drop]

theorem filterMap_map_append {a : Address} {e : Element} (h : root.at? a = some e)
    (l : List Address) : (l.map (a ++ ·)).filterMap root.at? = l.filterMap e.at? := by
  rw [List.filterMap_map]
  refine List.filterMap_congr fun p _ => ?_
  rw [Function.comp_apply, Element.at?_append, h, Option.bind_some]

theorem filterMap_listAround {a : Address} {e : Element} (h : root.at? a = some e) (axis : Axis) :
    (listAround root axis a).filterMap root.at? = reach axis e := by
  cases axis with
  | child => simp [listAround, reach, h]
  | descendant =>
    rw [listAround, List.filterMap_cons, h, listBelow, h]
    simp only [reach, filterMap_map_append h, Element.filterMap_places]

theorem filterMap_listBelow {a : Address} {e : Element} (h : root.at? a = some e) (axis : Axis) :
    (listBelow root axis a).filterMap root.at? =
      match axis with
      | .child => e.childElements
      | .descendant => e.descendants := by
  rw [listBelow, h]
  cases axis with
  | child => simp only [filterMap_map_append h, Element.filterMap_childPlaces]
  | descendant => simp only [filterMap_map_append h, Element.filterMap_places]

theorem filterMap_targets_element {a : Address} {e : Element} (h : root.at? a = some e)
    (axis : Axis) (name : Option Text) (position : Option Nat) :
    (targets root (axis, .element name position) a).filterMap root.at? =
      go axis name position e := by
  have hfilter : ∀ l : List Address,
      (l.filter fun b => (root.at? b).any (named name)).filterMap root.at? =
        (l.filterMap root.at?).filter (named name) := fun l => by
    rw [List.filterMap_filter, List.filter_filterMap]
    refine List.filterMap_congr fun b _ => ?_
    cases root.at? b with
    | none => rfl
    | some e => simp [Option.filter]
  have hsome : ∀ b ∈ (listBelow root axis a).filter fun b => (root.at? b).any (named name),
      (root.at? b).isSome := fun b hb => by
    obtain ⟨e, he, -⟩ := (Option.any_eq_true _ _).1 (List.mem_filter.1 hb).2
    rw [he]
    rfl
  rw [targets, filterMap_atPosition hsome, hfilter, filterMap_listBelow h]
  cases axis <;> rfl

theorem filterMap_targets_current {a : Address} {e : Element} (h : root.at? a = some e)
    (axis : Axis) : (targets root (axis, .current) a).filterMap root.at? = reach axis e :=
  filterMap_listAround h axis

theorem filterMap_flatMap_at? {A : List Address} (h : ∀ a ∈ A, (root.at? a).isSome)
    {t : Address → List Address} {f : Element → List Element}
    (ht : ∀ a e, root.at? a = some e → (t a).filterMap root.at? = f e) :
    (A.flatMap t).filterMap root.at? = (A.filterMap root.at?).flatMap f := by
  induction A with
  | nil => rfl
  | cons a A ih =>
    obtain ⟨e, he⟩ := Option.isSome_iff_exists.1 (h a (.head _))
    rw [List.flatMap_cons, List.filterMap_append, ht a e he, ih fun b hb => h b (.tail _ hb),
      List.filterMap_cons, he, List.flatMap_cons]

theorem findSome?_filterMap_at? (l : List Address) (f : Element → Option Text) :
    (l.filterMap root.at?).findSome? f =
      (l.filter fun b => ((root.at? b).bind f).isSome).head?.bind fun b => (root.at? b).bind f := by
  induction l with
  | nil => rfl
  | cons a l ih =>
    cases he : root.at? a with
    | none => simpa [he] using ih
    | some e =>
      cases hv : f e with
      | none => simpa [he, hv] using ih
      | some v => simp [he, hv]

end Lookup

end Shortcodes.Html
