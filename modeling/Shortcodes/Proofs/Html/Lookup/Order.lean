import Shortcodes.Proofs.Html.Lookup.Selection

/-!
# The order in which a path selects

A look-up keeps its elements in the order of its routes (`IsRoute`): first come those of the first
element that the first step goes to, whatever they are. The value is that of the first route
(`value?_of_read`). It is also that of the first selected element of the document, unless a step to
children starts from elements that are below one another (`Orderly`); then an element that is
reached from the inner one can stand in front of one that is reached from the outer one
(`not_forall_first`).
-/

namespace Shortcodes.Html.Lookup

/-! ### Steps of a path -/

/-- Steps as a path has them: at least one, those that give a value last, and positions counted
from one. -/
inductive Sound : List (Axis × LookupStep) → Prop
  | last {s : Axis × LookupStep} (hpos : Positive s.2) : Sound [s]
  | cons {s : Axis × LookupStep} {rest : List (Axis × LookupStep)} (hpos : Positive s.2)
      (hvalue : s.2.isValue = false) (hrest : Sound rest) : Sound (s :: rest)

theorem SpellsStep.positive {t : Text} {step : LookupStep} (h : SpellsStep t step) :
    Positive step := fun _ h0 => absurd (h.counts h0).1 (lt_irrefl 0)

theorem sound_cons {t : Text} {axis : Axis} {step : LookupStep} {rest : List (Axis × LookupStep)}
    (hstep : SpellsStep t step) (hlast : step.isValue = true → rest = [])
    (hrest : rest = [] ∨ Sound rest) : Sound ((axis, step) :: rest) := by
  rcases hrest with rfl | hrest
  · exact .last hstep.positive
  · refine .cons hstep.positive ?_ hrest
    rw [← Bool.not_eq_true]
    intro hvalue
    rw [hlast hvalue] at hrest
    cases hrest

theorem SpellsRest.sound {t : Text} {steps : List (Axis × LookupStep)} (h : SpellsRest t steps) :
    steps = [] ∨ Sound steps := by
  induction h with
  | nil => exact .inl rfl
  | cons hstep hlast _ ih => exact .inr (sound_cons hstep hlast ih)

theorem Spells.sound {t : Text} {steps : List (Axis × LookupStep)} (h : Spells t steps) :
    Sound steps := by
  cases h with
  | child hstep hlast hrest => exact sound_cons hstep hlast hrest.sound
  | descendant hstep hlast hrest => exact sound_cons hstep hlast hrest.sound

theorem Sound.positive {steps : List (Axis × LookupStep)} (h : Sound steps) :
    ∀ s ∈ steps, Positive s.2 := by
  induction h with
  | last hpos => exact List.forall_mem_singleton.2 hpos
  | cons hpos _ _ ih => exact List.forall_mem_cons.2 ⟨hpos, ih⟩

variable {root : Element}

/-! ### What is gathered -/

theorem isSome_of_mem_flatMap {s : Axis × LookupStep} (hs : Positive s.2) {A : List Address}
    (hA : ∀ a ∈ A, (root.at? a).isSome) : ∀ b ∈ A.flatMap (targets root s),
    (root.at? b).isSome := by
  intro b hb
  obtain ⟨a, ha, hb⟩ := List.mem_flatMap.1 hb
  exact isSome_of_mem_target (hA a ha) ((mem_targets hs (hA a ha)).1 hb)

theorem setOf_mem_flatMap {s : Axis × LookupStep} (hs : Positive s.2) {A : List Address}
    (hA : ∀ a ∈ A, (root.at? a).isSome) :
    {b | b ∈ A.flatMap (targets root s)} = {b | ∃ a ∈ {a | a ∈ A}, b ∈ target root s a} := by
  ext b
  simp only [Set.mem_ofPred_eq, List.mem_flatMap]
  exact exists_congr fun a => and_congr_right fun ha => mem_targets hs (hA a ha)

/-- What is gathered is what is selected. -/
theorem mem_gather {steps : List (Axis × LookupStep)} (hpos : ∀ s ∈ steps, Positive s.2)
    {A : List Address} (hA : ∀ a ∈ A, (root.at? a).isSome) {b : Address} :
    b ∈ gather root steps A ↔ b ∈ selectedFrom root steps {a | a ∈ A} := by
  induction steps generalizing A with
  | nil => rfl
  | cons s rest ih =>
    have hs : Positive s.2 := hpos s (.head _)
    rw [gather, selectedFrom, ← setOf_mem_flatMap hs hA,
      ih (fun s' hs' => hpos s' (.tail _ hs')) (isSome_of_mem_flatMap hs hA)]

theorem head?_filterMap_at? {A : List Address} (hA : ∀ a ∈ A, (root.at? a).isSome)
    {α : Type} (f : Element → α) :
    (A.filterMap root.at?).head?.map f =
      A.head?.bind fun a => (root.at? a).bind fun e => some (f e) := by
  cases A with
  | nil => rfl
  | cons a A =>
    obtain ⟨e, he⟩ := Option.isSome_iff_exists.1 (hA a (.head _))
    simp [he]

/-- A look-up gives the value of the first element gathered. -/
theorem follow_filterMap {steps : List (Axis × LookupStep)} (h : Sound steps) {A : List Address}
    (hA : ∀ a ∈ A, (root.at? a).isSome) :
    follow steps (A.filterMap root.at?) =
      (gather root steps A).head?.bind (valueAt? root steps) := by
  induction h generalizing A with
  | @last s hpos =>
    obtain ⟨axis, step⟩ := s
    have hsome := isSome_of_mem_flatMap hpos hA
    -- only the last step reads a value, the steps before it go from element to element
    cases step with
    | element name position =>
      rw [follow, follow, ← filterMap_flatMap_at? hA fun a e he =>
        filterMap_targets_element he axis name position]
      exact head?_filterMap_at? hsome Element.textContent
    | current =>
      rw [follow, follow, ← filterMap_flatMap_at? hA fun a e he => filterMap_targets_current he axis]
      exact head?_filterMap_at? hsome Element.textContent
    | _ =>
      rw [follow, ← filterMap_flatMap_at? hA fun a e he => filterMap_listAround he axis,
        findSome?_filterMap_at?, List.filter_flatMap]
      rfl
  | @cons s rest hpos hvalue hrest ih =>
    obtain ⟨axis, step⟩ := s
    have hsome := isSome_of_mem_flatMap hpos hA
    have hlast : valueAt? root ((axis, step) :: rest) = valueAt? root rest := by
      cases hrest <;> rfl
    rw [gather, hlast, ← ih hsome]
    cases step with
    | element name position =>
      rw [follow, filterMap_flatMap_at? hA fun a e he =>
        filterMap_targets_element he axis name position]
    | current =>
      rw [follow, filterMap_flatMap_at? hA fun a e he => filterMap_targets_current he axis]
    | _ => cases hvalue

/-- Everything gathered has a value. -/
theorem isSome_valueAt? {steps : List (Axis × LookupStep)} (h : Sound steps) {A : List Address}
    (hA : ∀ a ∈ A, (root.at? a).isSome) {b : Address} (hb : b ∈ gather root steps A) :
    (valueAt? root steps b).isSome := by
  induction h generalizing A with
  | @last s hpos =>
    obtain ⟨a, ha, hb⟩ := List.mem_flatMap.1 hb
    have htarget := (mem_targets hpos (hA a ha)).1 hb
    obtain ⟨e, he⟩ := Option.isSome_iff_exists.1 (isSome_of_mem_target (hA a ha) htarget)
    obtain ⟨axis, step⟩ := s
    simp only [valueAt?, List.getLast?_singleton, Option.bind_some, he]
    cases step with
    | element name position => rfl
    | current => rfl
    | _ =>
      obtain ⟨-, e', he', hvalue⟩ := htarget
      rw [he] at he'
      cases he'
      simpa [LookupStep.value?] using hvalue
  | @cons s rest hpos _ hrest ih =>
    have hlast : valueAt? root (s :: rest) = valueAt? root rest := by
      cases hrest <;> rfl
    rw [hlast]
    exact ih (isSome_of_mem_flatMap hpos hA) hb

/-! ### Routes -/

/-- A way through steps from an element: where each step goes. -/
inductive IsRoute (root : Element) : Address → List (Axis × LookupStep) → List Address → Prop
  | nil (a : Address) : IsRoute root a [] []
  | cons {a b : Address} {s : Axis × LookupStep} {rest : List (Axis × LookupStep)}
      {route : List Address} (hstep : b ∈ target root s a) (hrest : IsRoute root b rest route) :
      IsRoute root a (s :: rest) (b :: route)

/-- The routes through steps from an element, in order. -/
def routes (root : Element) : List (Axis × LookupStep) → Address → List (List Address)
  | [], _ => [[]]
  | s :: rest, a => (targets root s a).flatMap fun b => (routes root rest b).map (b :: ·)

theorem mem_routes {steps : List (Axis × LookupStep)} (hpos : ∀ s ∈ steps, Positive s.2)
    {a : Address} (ha : (root.at? a).isSome) {route : List Address} :
    route ∈ routes root steps a ↔ IsRoute root a steps route := by
  induction steps generalizing a route with
  | nil =>
    rw [routes, List.mem_singleton]
    constructor
    · rintro rfl
      exact .nil a
    · rintro ⟨⟩
      rfl
  | cons s rest ih =>
    have hs : Positive s.2 := hpos s (.head _)
    have ih' : ∀ {b route}, b ∈ target root s a →
        (route ∈ routes root rest b ↔ IsRoute root b rest route) := fun hb =>
      ih (fun s' hs' => hpos s' (.tail _ hs')) (isSome_of_mem_target ha hb)
    simp only [routes, List.mem_flatMap, List.mem_map, mem_targets hs ha]
    constructor
    · rintro ⟨b, hb, route, hroute, rfl⟩
      exact .cons hb ((ih' hb).1 hroute)
    · rintro ⟨⟩
      next b route hb hroute => exact ⟨b, hb, route, (ih' hb).2 hroute, rfl⟩

theorem pairwise_routes (steps : List (Axis × LookupStep)) (a : Address) :
    (routes root steps a).Pairwise (· < ·) := by
  induction steps generalizing a with
  | nil => exact List.pairwise_singleton _ _
  | cons s rest ih =>
    rw [routes, List.pairwise_flatMap]
    refine ⟨fun b _ => List.pairwise_map.2 ((ih b).imp List.Lex.cons), ?_⟩
    refine (pairwise_targets s a).imp fun hlt route hroute route' hroute' => ?_
    obtain ⟨route, -, rfl⟩ := List.mem_map.1 hroute
    obtain ⟨route', -, rfl⟩ := List.mem_map.1 hroute'
    exact List.Lex.rel hlt

/-- What is gathered are the ends of the routes, in their order. -/
theorem gather_eq_flatMap_routes (steps : List (Axis × LookupStep)) (A : List Address) :
    gather root steps A = A.flatMap fun a => (routes root steps a).map (·.getLastD a) := by
  induction steps generalizing A with
  | nil => simp [gather, routes]
  | cons s rest ih =>
    rw [gather, ih, List.flatMap_assoc]
    refine List.flatMap_congr fun a _ => ?_
    rw [routes, List.map_flatMap]
    refine List.flatMap_congr fun b _ => ?_
    rw [List.map_map]
    exact List.map_congr_left fun route _ => (List.getLastD_cons (a := a)).symm

theorem head?_eq_some_iff_isLeast {α : Type} [LinearOrder α] {l : List α}
    (h : l.Pairwise (· < ·)) {a : α} : l.head? = some a ↔ IsLeast {b | b ∈ l} a := by
  cases l with
  | nil => simp [IsLeast]
  | cons b l =>
    rw [List.head?_cons, Option.some_inj]
    have hleast : IsLeast {c | c ∈ b :: l} b := by
      refine ⟨.head _, fun c hc => ?_⟩
      rcases List.mem_cons.1 hc with rfl | hc
      · exact le_rfl
      · exact ((List.pairwise_cons.1 h).1 c hc).le
    constructor
    · rintro rfl
      exact hleast
    · exact fun ha => hleast.unique ha

/-! ### Tidy lists -/

section

variable {α β : Type} [LinearOrder α] [LinearOrder β]

/-- Every item of a list stands in front of it already, or behind all that stand there. -/
inductive Tidy : List α → Prop
  | nil : Tidy []
  | concat {l : List α} {x : α} (h : Tidy l) (hx : x ∈ l ∨ ∀ y ∈ l, y ≤ x) : Tidy (l ++ [x])

theorem Tidy.singleton (x : α) : Tidy [x] := .concat .nil (.inr (List.forall_mem_nil _))

theorem Tidy.append {l m : List α} (hl : Tidy l) (hm : m.Pairwise (· < ·))
    (h : ∀ x ∈ m, x ∈ l ∨ ∀ y ∈ l, y ≤ x) : Tidy (l ++ m) := by
  induction m using List.reverseRecOn with
  | nil => rwa [List.append_nil]
  | append_singleton m x ih =>
    obtain ⟨hm, -, hlt⟩ := List.pairwise_append.1 hm
    rw [← List.append_assoc]
    refine .concat (ih hm fun y hy => h y (List.mem_append_left _ hy)) ?_
    refine (h x (List.mem_append_right _ (.head _))).imp (List.mem_append_left _) fun hle y hy => ?_
    rcases List.mem_append.1 hy with hy | hy
    · exact hle y hy
    · exact (hlt y hy x (.head _)).le

/-- A tidy list stays tidy when each item is replaced by a list in order, if what comes of a later
item comes of an earlier one already, or stands behind all that comes of it. -/
theorem Tidy.flatMap {l : List α} (hl : Tidy l) {f : α → List β}
    (hf : ∀ c ∈ l, (f c).Pairwise (· < ·))
    (h : ∀ y ∈ l, ∀ c ∈ l, y ≤ c → ∀ x ∈ f c, x ∈ f y ∨ ∀ z ∈ f y, z ≤ x) :
    Tidy (l.flatMap f) := by
  induction hl with
  | nil => exact .nil
  | @concat l c hl hc ih =>
    have hmem : ∀ y ∈ l, y ∈ l ++ [c] := fun y hy => List.mem_append_left _ hy
    have hlast : c ∈ l ++ [c] := List.mem_append_right _ (.head _)
    rw [List.flatMap_append, List.flatMap_singleton]
    refine (ih (fun y hy => hf y (hmem y hy)) fun y hy d hd =>
      h y (hmem y hy) d (hmem d hd)).append (hf c hlast) fun x hx => ?_
    rcases hc with hc | hc
    · exact .inl (List.mem_flatMap.2 ⟨c, hc, hx⟩)
    · by_cases hx' : x ∈ l.flatMap f
      · exact .inl hx'
      · refine .inr fun z hz => ?_
        obtain ⟨y, hy, hz⟩ := List.mem_flatMap.1 hz
        rcases h y (hmem y hy) c hlast (hc y hy) x hx with hin | hle
        · exact absurd (List.mem_flatMap.2 ⟨y, hy, hin⟩) hx'
        · exact hle z hz

/-- A tidy list begins with its least item. -/
theorem Tidy.isLeast {l : List α} (hl : Tidy l) {a : α} (h : l.head? = some a) :
    IsLeast {b | b ∈ l} a := by
  refine ⟨List.mem_of_head? h, ?_⟩
  induction hl with
  | nil => cases h
  | @concat l x hl hx ih =>
    intro b hb
    rcases l with _ | ⟨y, l⟩
    · cases h
      exact (List.mem_singleton.1 hb).ge
    · have hhead : (y :: l).head? = some a := h
      rcases List.mem_append.1 hb with hb | hb
      · exact ih hhead hb
      · rw [List.mem_singleton.1 hb]
        rcases hx with hx | hx
        · exact ih hhead hx
        · exact hx a (List.mem_of_head? hhead)

end

/-! ### The order of the document -/

/-- Whether a step keeps the order of the document although one element it starts from is below
another: what it goes to from the lower one comes behind all that it goes to from the other. -/
def Keeps (root : Element) (s : Axis × LookupStep) (A : Set Address) : Prop :=
  ∀ a ∈ A, ∀ b ∈ A, a <+: b → a ≠ b → ∀ x ∈ target root s a, ∀ y ∈ target root s b, x ≤ y

/-- Whether all steps to children keep the order of the document. -/
def OrderlyFrom (root : Element) (steps : List (Axis × LookupStep)) (A : Set Address) : Prop :=
  ∀ front back name position, steps = front ++ (.child, .element name position) :: back →
    Keeps root (.child, .element name position) (selectedFrom root front A)

/-- Whether all steps of a path to children keep the order of the document. -/
def Orderly (root : Element) (path : Lookup) : Prop := OrderlyFrom root path.steps {[]}

theorem OrderlyFrom.tail {s : Axis × LookupStep} {rest : List (Axis × LookupStep)}
    {A : Set Address} (h : OrderlyFrom root (s :: rest) A) :
    OrderlyFrom root rest {b | ∃ a ∈ A, b ∈ target root s a} := by
  rintro front back name position rfl
  exact h (s :: front) back name position rfl

theorem finite_below {a : Address} (ha : (root.at? a).isSome) (axis : Axis) (name : Option Text) :
    (below axis a ∩ withName root name).Finite := by
  refine (List.finite_toSet (listBelow root axis a)).subset fun b hb => ?_
  obtain ⟨e, he, -⟩ := hb.2
  exact (mem_listBelow ha).2 ⟨hb.1, by rw [he]; rfl⟩

theorem around_subset {y c : Address} (h : y <+: c) :
    around root .descendant c ⊆ around root .descendant y := fun _ hb => ⟨h.trans hb.1, hb.2⟩

theorem below_subset {y c : Address} (h : y <+: c) : below .descendant c ⊆ below .descendant y := by
  rintro _ ⟨p, hne, rfl⟩
  obtain ⟨q, rfl⟩ := h
  exact ⟨q ++ p, List.append_ne_nil_of_right_ne_nil _ hne, List.append_assoc _ _ _⟩

theorem mem_nth_or_le {S T : Set Address} (hT : T.Finite) (hsub : S ⊆ T) {position : Option Nat}
    {x : Address} (hx : x ∈ nth position S) :
    x ∈ nth position T ∨ ∀ z ∈ nth position T, z ≤ x := by
  cases position with
  | none => exact .inl (hsub hx)
  | some n =>
    refine .inr fun z hz => le_of_not_gt fun hlt => ?_
    -- if `x` stood in front of `z`, more members of `T` than of `S` would stand in front of them
    have hlt' : (S ∩ Set.Iio x).ncard < (T ∩ Set.Iio z).ncard := by
      refine Set.ncard_lt_ncard ?_ (hT.subset Set.inter_subset_left)
      refine Set.ssubset_iff_exists.2 ⟨fun b hb => ⟨hsub hb.1, hb.2.trans hlt⟩, x, ⟨?_, ?_⟩⟩
      · exact ⟨hsub hx.1, hlt⟩
      · exact fun hb => lt_irrefl x hb.2
    have hcard := hx.2.trans hz.2.symm
    omega

/-- What a step goes to from a later element it goes to from an earlier one already, or it stands
behind all that comes of the earlier one. -/
theorem mem_target_or_le {s : Axis × LookupStep} {A : Set Address} {a b x : Address} (ha : a ∈ A)
    (hb : b ∈ A) (hsome : (root.at? a).isSome) (hab : a ≤ b)
    (hkeeps : ∀ name position, s = (.child, .element name position) → Keeps root s A)
    (hx : x ∈ target root s b) : x ∈ target root s a ∨ ∀ z ∈ target root s a, z ≤ x := by
  rcases eq_or_ne a b with rfl | hne
  · exact .inl hx
  by_cases hpre : a <+: b
  swap
  · -- all below the one stands in front of all below the other
    refine .inr fun z hz => ?_
    obtain ⟨p, rfl⟩ := prefix_of_mem_target hz
    obtain ⟨q, rfl⟩ := prefix_of_mem_target hx
    exact (Address.append_lt_append (hab.lt_of_ne hne) hpre p q).le
  obtain ⟨axis, step⟩ := s
  have haround : ∀ {z : Address}, z ∈ around root .child a → x ∈ around root .child b → z ≤ x := by
    rintro z rfl rfl
    exact hab
  cases axis with
  | child =>
    cases step with
    | element name position =>
      exact .inr fun z hz => hkeeps name position rfl a ha b hb hpre hne z hz x hx
    | current => exact .inr fun z hz => haround hz hx
    | _ => exact .inr fun z hz => haround hz.1 hx.1
  | descendant =>
    cases step with
    | element name position =>
      refine mem_nth_or_le (finite_below hsome .descendant name) ?_ hx
      exact Set.inter_subset_inter_left _ (below_subset hpre)
    | current => exact .inl (around_subset hpre hx)
    | _ => exact .inl ⟨around_subset hpre hx.1, hx.2⟩

/-- What is gathered is tidy if all steps keep the order of the document. -/
theorem tidy_gather {steps : List (Axis × LookupStep)} (hpos : ∀ s ∈ steps, Positive s.2)
    {A : List Address} (hA : ∀ a ∈ A, (root.at? a).isSome) (htidy : Tidy A)
    (h : OrderlyFrom root steps {a | a ∈ A}) : Tidy (gather root steps A) := by
  induction steps generalizing A with
  | nil => exact htidy
  | cons s rest ih =>
    have hs : Positive s.2 := hpos s (.head _)
    refine ih (fun s' hs' => hpos s' (.tail _ hs')) (isSome_of_mem_flatMap hs hA) ?_ ?_
    · refine htidy.flatMap (fun c _ => pairwise_targets s c) fun y hy c hc hyc x hx => ?_
      rw [mem_targets hs (hA c hc)] at hx
      simp only [mem_targets hs (hA y hy)]
      refine mem_target_or_le (A := {a | a ∈ A}) hy hc (hA y hy) hyc ?_ hx
      rintro name position rfl
      exact h [] rest name position rfl
    · rw [setOf_mem_flatMap hs hA]
      exact h.tail

/-! ### Paths that keep to one level -/

theorem exists_length_target {s : Axis × LookupStep} (h : s.1 = .child) :
    ∃ k, ∀ a b, b ∈ target root s a → b.length = a.length + k := by
  obtain ⟨axis, step⟩ := s
  cases h
  cases step with
  | element name position =>
    refine ⟨1, fun a b hb => ?_⟩
    obtain ⟨i, rfl⟩ := (nth_subset _ _ hb).1
    exact List.length_append
  | current => exact ⟨0, fun a b hb => congrArg List.length (Set.mem_singleton_iff.1 hb)⟩
  | _ => exact ⟨0, fun a b hb => congrArg List.length (Set.mem_singleton_iff.1 hb.1)⟩

theorem exists_length_selectedFrom {steps : List (Axis × LookupStep)}
    (h : ∀ s ∈ steps, s.1 = .child) {A : Set Address} {n : Nat} (hA : ∀ a ∈ A, a.length = n) :
    ∃ m, ∀ b ∈ selectedFrom root steps A, b.length = m := by
  induction steps generalizing A n with
  | nil => exact ⟨n, hA⟩
  | cons s rest ih =>
    obtain ⟨k, hk⟩ := exists_length_target (h s (.head _))
    refine ih (fun s' hs' => h s' (.tail _ hs')) (n := n + k) ?_
    rintro b ⟨a, ha, hb⟩
    rw [hk a b hb, hA a ha]

/-- A path in which no step to children comes behind `//` is orderly: all that such a step starts
from is on one level. -/
theorem orderly_of_level {path : Lookup}
    (h : ∀ front back name position, path.steps = front ++ (.child, .element name position) :: back →
      ∀ s ∈ front, s.1 = .child) : Orderly root path := by
  intro front back name position hsplit a ha b hb hpre hne
  obtain ⟨m, hm⟩ := exists_length_selectedFrom (h front back name position hsplit)
    (A := {[]}) (n := 0) fun c hc => by rw [Set.mem_singleton_iff.1 hc, List.length_nil]
  exact absurd (hpre.eq_of_length ((hm a ha).trans (hm b hb).symm)) hne

/-! ### The value of a path -/

theorem isSome_at?_root : ∀ a ∈ [([] : Address)], (root.at? a).isSome := fun a ha => by
  rw [List.mem_singleton.1 ha]
  rfl

theorem setOf_mem_gather {path : Lookup} (h : Sound path.steps) :
    {b | b ∈ gather root path.steps [[]]} = selected root path := by
  ext b
  rw [Set.mem_ofPred_eq, mem_gather h.positive isSome_at?_root, selected]
  simp

theorem value?_eq_bind {path : Lookup} (h : Sound path.steps) (root : Element) :
    path.value? root = (gather root path.steps [[]]).head?.bind (valueAt? root path.steps) :=
  follow_filterMap h isSome_at?_root

theorem value?_eq_none_iff {path : Lookup} (h : Sound path.steps) :
    path.value? root = none ↔ selected root path = ∅ := by
  rw [value?_eq_bind h, ← setOf_mem_gather h]
  cases hg : gather root path.steps [[]] with
  | nil => simp
  | cons b l =>
    have hb : b ∈ gather root path.steps [[]] := by
      rw [hg]
      exact .head _
    obtain ⟨v, hv⟩ := Option.isSome_iff_exists.1 (isSome_valueAt? h isSome_at?_root hb)
    have hne : {c | c ∈ b :: l} ≠ ∅ := Set.nonempty_iff_ne_empty.1 ⟨b, List.mem_cons_self⟩
    simp only [List.head?_cons, Option.bind_some, hv, reduceCtorEq, false_iff]
    exact hne

theorem head?_gather_of_isRoute {path : Lookup} (h : Sound path.steps) {a : Address} :
    (gather root path.steps [[]]).head? = some a ↔
      ∃ route, IsLeast {r | IsRoute root [] path.steps r} route ∧ route.getLastD [] = a := by
  have hset : {r | r ∈ routes root path.steps []} = {r | IsRoute root [] path.steps r} := by
    ext r
    exact mem_routes h.positive rfl
  rw [gather_eq_flatMap_routes, List.flatMap_singleton, List.head?_map, Option.map_eq_some_iff]
  simp only [head?_eq_some_iff_isLeast (pairwise_routes path.steps []), hset]

theorem head?_gather_of_orderly {path : Lookup} (h : Sound path.steps) (horderly : Orderly root path)
    {a : Address} :
    (gather root path.steps [[]]).head? = some a ↔ IsLeast (selected root path) a := by
  have htidy : Tidy (gather root path.steps [[]]) := by
    refine tidy_gather h.positive isSome_at?_root (.singleton _) ?_
    rw [show {a | a ∈ [([] : Address)]} = {[]} by ext; simp]
    exact horderly
  rw [← setOf_mem_gather h]
  refine ⟨htidy.isLeast, fun hleast => ?_⟩
  cases hhead : (gather root path.steps [[]]).head? with
  | none =>
    have hmem := hleast.1
    rw [List.head?_eq_none_iff.1 hhead] at hmem
    cases hmem
  | some b => rw [(htidy.isLeast hhead).unique hleast]

/-- The value that a path selects in an element is that of its first route; there is none exactly
if the path selects no element. It is the value of the first selected element of the document if
the path is orderly in the element. -/
theorem value?_of_read {source : Text} {path : Lookup} (h : read source = .ok path)
    (root : Element) :
    (path.value? root = none ↔ selected root path = ∅) ∧
    (∀ v, path.value? root = some v ↔
      ∃ route, IsLeast {r | IsRoute root [] path.steps r} route ∧
        valueAt? root path.steps (route.getLastD []) = some v) ∧
    (Orderly root path → ∀ v, path.value? root = some v ↔
      ∃ a, IsLeast (selected root path) a ∧ valueAt? root path.steps a = some v) := by
  have hsound : Sound path.steps := (read_eq_ok_iff.1 h).2.sound
  refine ⟨value?_eq_none_iff hsound, fun v => ?_, fun horderly v => ?_⟩
  · rw [value?_eq_bind hsound, Option.bind_eq_some_iff]
    constructor
    · rintro ⟨a, ha, hv⟩
      obtain ⟨route, hroute, rfl⟩ := (head?_gather_of_isRoute hsound).1 ha
      exact ⟨route, hroute, hv⟩
    · rintro ⟨route, hroute, hv⟩
      exact ⟨_, (head?_gather_of_isRoute hsound).2 ⟨route, hroute, rfl⟩, hv⟩
  · rw [value?_eq_bind hsound, Option.bind_eq_some_iff]
    simp only [head?_gather_of_orderly hsound horderly]

/-- The element `<div><b><b><i>1</i></b><i>2</i></b></div>`. -/
def nested : Element :=
  ⟨⟨.html, "div", []⟩,
    [.element ⟨.html, "b", []⟩
      [.element ⟨.html, "b", []⟩ [.element ⟨.html, "i", []⟩ [.text ['1']]],
        .element ⟨.html, "i", []⟩ [.text ['2']]]]⟩

/-- Elements below one another on the way to descendants: the value is the one that comes first. -/
theorem value?_of_read_nested :
    ∃ path, read "//b//i".toList = .ok path ∧ path.value? nested = some ['1'] ∧
      ∃ a, IsLeast (selected nested path) a ∧ valueAt? nested path.steps a = some ['1'] := by
  let path : Lookup := ⟨"//b//i".toList,
    [(.descendant, .element (some ['b']) none), (.descendant, .element (some ['i']) none)]⟩
  have horderly : Orderly nested path := by
    refine orderly_of_level fun front back name position hsplit => ?_
    have hmem : (Axis.child, LookupStep.element name position) ∈ path.steps := by
      rw [hsplit]
      exact List.mem_append_right _ (.head _)
    simp [path] at hmem
  have hread : read "//b//i".toList = .ok path := rfl
  have hvalue : path.value? nested = some ['1'] := rfl
  exact ⟨path, hread, hvalue, ((value?_of_read hread nested).2.2 horderly ['1']).1 hvalue⟩

/-- A look-up need not give the value of the first selected element: children of the outer `b` come
before those of the inner one, which stand in front of them. -/
theorem not_forall_first :
    ¬ ∀ source path root v, read source = .ok path → path.value? root = some v →
      ∃ a, IsLeast (selected root path) a ∧ valueAt? root path.steps a = some v := by
  intro h
  let path : Lookup := ⟨"//b/i".toList,
    [(.descendant, .element (some ['b']) none), (.child, .element (some ['i']) none)]⟩
  have hread : read "//b/i".toList = .ok path := rfl
  obtain ⟨a, hleast, hvalue⟩ := h _ path nested ['2'] hread rfl
  rw [← setOf_mem_gather (read_eq_ok_iff.1 hread).2.sound,
    show gather nested path.steps [[]] = [[0, 1], [0, 0, 0]] from rfl] at hleast
  have hle : a ≤ [0, 0, 0] := hleast.2 (.tail _ (.head _))
  rcases List.mem_cons.1 hleast.1 with rfl | hm
  · exact absurd hle (by decide)
  · rw [List.mem_singleton.1 hm] at hvalue
    cases hvalue

end Shortcodes.Html.Lookup
