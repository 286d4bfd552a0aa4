import Mathlib.Data.List.Sort
import Shortcodes.Proofs.Shortcode.Link

/-!
# The spans that reversal rewrites

Reversal looks at the loose tags of a text from the left and passes over those that begin inside of
an earlier tag or of markup that it took (`Sites`). The opening tags among them whose candidate is
the shortcode's begin its spans. The result is the text with the tags of all spans in their places,
unless one of them is not closed: then reversal fails with the first such one (`reverse_rewrites`).
-/

namespace Shortcodes

open Html

/-- A stretch of a text, and the tag that is to take its place. -/
structure Span where
  /-- The number of characters in front of it. -/
  start : Nat
  markup : Text
  tag : Text
  /-- Whether the markup is all of its element. -/
  closed : Bool

namespace Span

/-- The number of characters up to its end. -/
def stop (p : Span) : Nat := p.start + p.markup.length

/-- The same span in a text that stands further back. -/
def shift (by_ : Nat) (p : Span) : Span := { p with start := p.start + by_ }

/-- The text from place `last` on, with the tags of spans in their places. -/
def spliceFrom (t : Text) : (last : Nat) → List Span → Text
  | last, [] => t.drop last
  | last, p :: ps => (t.drop last).take (p.start - last) ++ p.tag ++ spliceFrom t p.stop ps

/-- The text with the tags of spans in their places. -/
def splice (t : Text) (spans : List Span) : Text := spliceFrom t 0 spans

theorem stop_shift (n : Nat) (p : Span) : (shift n p).stop = p.stop + n :=
  Nat.add_right_comm p.start n p.markup.length

theorem drop_add_length (front t : Text) (i : Nat) :
    (front ++ t).drop (i + front.length) = t.drop i := by
  rw [Nat.add_comm, List.drop_append]
  simp

theorem spliceFrom_append (front t : Text) (last : Nat) (spans : List Span) :
    spliceFrom (front ++ t) (last + front.length) (spans.map (shift front.length)) =
      spliceFrom t last spans := by
  induction spans generalizing last with
  | nil => exact drop_add_length front t last
  | cons p ps ih =>
    have hstart : (shift front.length p).start - (last + front.length) = p.start - last := by
      simp only [shift]
      omega
    rw [List.map_cons, spliceFrom, spliceFrom, drop_add_length, hstart, stop_shift, ih]
    rfl

/-- What stands in front of all spans stays. -/
theorem splice_append (front t : Text) (spans : List Span) :
    splice (front ++ t) (spans.map (shift front.length)) = front ++ splice t spans := by
  cases spans with
  | nil => rfl
  | cons p ps =>
    have htake : (front ++ t).take (p.start + front.length) = front ++ t.take p.start := by
      rw [Nat.add_comm, List.take_length_add_append]
    rw [splice, splice, List.map_cons, spliceFrom, spliceFrom, stop_shift, spliceFrom_append]
    simp only [List.drop_zero, Nat.sub_zero, shift, htake, List.append_assoc]

/-- A span at the start of a text. -/
theorem splice_span (markup t tag : Text) (closed : Bool) (spans : List Span) :
    splice (markup ++ t) (⟨0, markup, tag, closed⟩ :: spans.map (shift markup.length)) =
      tag ++ splice t spans := by
  have hrest := spliceFrom_append markup t 0 spans
  rw [splice, spliceFrom, stop]
  simp only [hrest]
  rfl

end Span

namespace HtmlShortcode

variable {s : HtmlShortcode}

/-! ### What counts in a text -/

/-- The markup that an opening tag begins: its element, or the tag alone if nothing closes it. -/
def candidate (seen : Sighting) : Text := (seen.extent?.map (·.1)).getD seen.source

/-- The root of the markup that a loose tag begins, if it is an opening tag that shows the marker and
the root has the marker as a class. -/
def owned? (s : HtmlShortcode) (seen : Sighting) : Option Element :=
  match seen.tag with
  | .opening _ _ => if Text.has s.marker seen.source then s.claim? (candidate seen) else none
  | _ => none

/-- What a loose tag takes of the text: the markup that it begins, if that is the shortcode's, and
else itself. -/
def taken (s : HtmlShortcode) (seen : Sighting) : Text :=
  if (s.owned? seen).isSome then candidate seen else seen.source

/-- A loose tag begins at place `i`, and not inside of what the loose tag at an earlier one of the
sites takes. -/
def Counts (s : HtmlShortcode) (t : Text) (sites : List Nat) (i : Nat) : Prop :=
  (∃ seen, LooseTag.at? (t.drop i) = some seen) ∧
    ∀ j ∈ sites, j < i → ∀ seen, LooseTag.at? (t.drop j) = some seen →
      j + (s.taken seen).length ≤ i

/-- The places of the loose tags that count, from the left. -/
structure Sites (s : HtmlShortcode) (t : Text) (sites : List Nat) : Prop where
  sorted : sites.Pairwise (· < ·)
  mem_iff : ∀ i, i ∈ sites ↔ s.Counts t sites i

/-- The places of the loose tags that count, at most `fuel` steps far. -/
def sitesUpTo (s : HtmlShortcode) : (fuel : Nat) → Text → List Nat
  | 0, _ => []
  | _ + 1, [] => []
  | fuel + 1, c :: rest =>
    match LooseTag.at? (c :: rest) with
    | none => (s.sitesUpTo fuel rest).map (· + 1)
    | some seen =>
      let n := (s.taken seen).length
      0 :: (s.sitesUpTo fuel ((c :: rest).drop n)).map (· + n)

/-- The places of the loose tags that count. -/
def sites (s : HtmlShortcode) (t : Text) : List Nat := s.sitesUpTo t.length t

/-- The span that the loose tag at a place begins, if the markup there is the shortcode's. -/
def spanAt? (s : HtmlShortcode) (t : Text) (i : Nat) : Option Span :=
  (LooseTag.at? (t.drop i)).bind fun seen => (s.owned? seen).map fun root =>
    ⟨i, candidate seen, s.tagOf root, seen.extent?.isSome⟩

/-- The spans of a text, from the left. -/
def spans (s : HtmlShortcode) (t : Text) : List Span := (s.sites t).filterMap (s.spanAt? t)

/-! ### One loose tag -/

theorem owned?_eq_some_iff {seen : Sighting} {root : Element} :
    s.owned? seen = some root ↔ ∃ name selfClosing, seen.tag = .opening name selfClosing ∧
      Text.has s.marker seen.source = true ∧ s.claim? (candidate seen) = some root := by
  rw [owned?]
  split
  · next name selfClosing htag =>
    split
    · next hshown => simp [htag, hshown]
    · next hshown => simp [hshown]
  · next htag =>
    simp only [reduceCtorEq, false_iff]
    rintro ⟨name, selfClosing, he, -⟩
    exact htag name selfClosing he

theorem candidate_of_extent? {seen : Sighting} {markup rest : Text}
    (h : seen.extent? = some (markup, rest)) : candidate seen = markup := by
  rw [candidate, h]
  rfl

theorem candidate_of_none {seen : Sighting} (h : seen.extent? = none) :
    candidate seen = seen.source := by
  rw [candidate, h]
  rfl

/-- What a loose tag takes begins with the tag and is followed by the rest of the text. -/
theorem exists_taken {t : Text} {seen : Sighting} (h : LooseTag.at? t = some seen) :
    t = s.taken seen ++ t.drop (s.taken seen).length ∧
      ∃ more, s.taken seen = seen.source ++ more := by
  have hsplit : ∀ {u rest : Text}, u ++ rest = t → t = u ++ t.drop u.length := by
    rintro u rest rfl
    rw [List.drop_left]
  have happend := (LooseTag.at?_eq_some h).1
  have hself : t = seen.source ++ t.drop seen.source.length ∧
      ∃ more, seen.source = seen.source ++ more :=
    ⟨hsplit happend, [], (List.append_nil _).symm⟩
  rw [taken]
  split
  · cases hextent : seen.extent? with
    | none => rwa [candidate_of_none hextent]
    | some found =>
      obtain ⟨markup, rest⟩ := found
      obtain ⟨hmarkup, more, hmore⟩ := Sighting.extent?_eq_some hextent
      rw [candidate_of_extent? hextent]
      exact ⟨hsplit (hmarkup.trans happend), more, hmore⟩
  · exact hself

theorem taken_ne_nil {t : Text} {seen : Sighting} (h : LooseTag.at? t = some seen) :
    s.taken seen ≠ [] := by
  obtain ⟨-, more, hmore⟩ := exists_taken (s := s) h
  obtain ⟨bracket, hbracket⟩ := (LooseTag.at?_eq_some h).2
  rw [hmore, hbracket]
  exact List.cons_ne_nil _ _

/-- A text is gone through character by character, except that a loose tag takes its part at
once. -/
theorem walkInduction (s : HtmlShortcode) {motive : Text → Prop} (nil : motive [])
    (plain : ∀ c t, LooseTag.at? (c :: t) = none → motive t → motive (c :: t))
    (site : ∀ seen t, LooseTag.at? (s.taken seen ++ t) = some seen → motive t →
      motive (s.taken seen ++ t)) (t : Text) : motive t := by
  induction hn : t.length using Nat.strong_induction_on generalizing t with
  | _ n ih =>
    subst hn
    cases hseen : LooseTag.at? t with
    | none =>
      cases t with
      | nil => exact nil
      | cons c t => exact plain c t hseen (ih _ (by simp) t rfl)
    | some seen =>
      obtain ⟨happend, -⟩ := exists_taken (s := s) hseen
      have hpos := List.length_pos_iff.2 (taken_ne_nil (s := s) hseen)
      have hlength := congrArg List.length happend
      rw [List.length_append] at hlength
      rw [happend] at hseen ⊢
      exact site seen _ hseen (ih _ (by omega) _ rfl)

/-! ### The sites -/

theorem sitesUpTo_eq_sites {fuel : Nat} {t : Text} (h : t.length ≤ fuel) :
    s.sitesUpTo fuel t = s.sites t := by
  -- any two amounts that reach to the end of the text are compared, along the walk
  suffices hall : ∀ t n m, t.length ≤ n → t.length ≤ m → s.sitesUpTo n t = s.sitesUpTo m t from
    hall _ _ _ h le_rfl
  have hnil : ∀ n, s.sitesUpTo n [] = [] := by
    intro n
    cases n <;> rfl
  intro t
  induction t using s.walkInduction with
  | nil => exact fun n m _ _ => by rw [hnil, hnil]
  | plain c t hnone ih =>
    intro n m hn hm
    cases n with
    | zero => simp at hn
    | succ n =>
      cases m with
      | zero => simp at hm
      | succ m =>
        rw [List.length_cons] at hn hm
        rw [sitesUpTo, sitesUpTo, hnone]
        simp only [ih n m (by omega) (by omega)]
  | site seen t hseen ih =>
    intro n m hn hm
    obtain ⟨c, u, hu⟩ := List.exists_cons_of_ne_nil (taken_ne_nil (s := s) hseen)
    have hdrop : (c :: (u ++ t)).drop (s.taken seen).length = t := by
      rw [← List.cons_append, ← hu, List.drop_left]
    rw [List.length_append, hu, List.length_cons] at hn hm
    rw [hu, List.cons_append] at hseen ⊢
    cases n with
    | zero => omega
    | succ n =>
      cases m with
      | zero => omega
      | succ m =>
        rw [sitesUpTo, sitesUpTo, hseen]
        simp only [hdrop, ih n m (by omega) (by omega)]

theorem sites_of_none {c : Char} {t : Text} (h : LooseTag.at? (c :: t) = none) :
    s.sites (c :: t) = (s.sites t).map (· + 1) := by
  rw [sites, List.length_cons, sitesUpTo, h]
  rfl

theorem sites_of_some {seen : Sighting} {t : Text}
    (h : LooseTag.at? (s.taken seen ++ t) = some seen) :
    s.sites (s.taken seen ++ t) =
      0 :: (s.sites t).map (· + (s.taken seen).length) := by
  obtain ⟨c, u, hu⟩ := List.exists_cons_of_ne_nil (taken_ne_nil (s := s) h)
  have hdrop : (c :: (u ++ t)).drop (s.taken seen).length = t := by
    rw [← List.cons_append, ← hu, List.drop_left]
  have hlength : t.length ≤ (u ++ t).length := by simp
  have hcons : s.taken seen ++ t = c :: (u ++ t) := by rw [hu, List.cons_append]
  rw [hcons] at h ⊢
  rw [sites, List.length_cons, sitesUpTo, h]
  simp only [hdrop, sitesUpTo_eq_sites hlength]

/-- What counts behind a part of a text does not hang on that part. -/
theorem counts_shift (front : Text) {t : Text} {sites : List Nat} {i : Nat} :
    s.Counts (front ++ t) (sites.map (· + front.length)) (i + front.length) ↔
      s.Counts t sites i := by
  simp only [Counts, Span.drop_add_length, List.forall_mem_map, Nat.add_lt_add_iff_right,
    Nat.add_right_comm _ front.length, Nat.add_le_add_iff_right]

theorem sites_sorted_shift {sites : List Nat} (h : sites.Pairwise (· < ·)) (n : Nat) :
    (sites.map (· + n)).Pairwise (· < ·) :=
  h.map _ fun _ _ hlt => Nat.add_lt_add_right hlt n

theorem mem_shift_iff {sites : List Nat} {i n : Nat} : i + n ∈ sites.map (· + n) ↔ i ∈ sites := by
  simp

theorem sites_sites (s : HtmlShortcode) (t : Text) : s.Sites t (s.sites t) := by
  induction t using s.walkInduction with
  | nil =>
    refine ⟨List.Pairwise.nil, fun i => ?_⟩
    have hnone : LooseTag.at? [] = none := rfl
    simp [sites, sitesUpTo, Counts, hnone]
  | plain c t hnone ih =>
    rw [sites_of_none hnone]
    refine ⟨sites_sorted_shift ih.sorted 1, fun i => ?_⟩
    cases i with
    | zero => simp [Counts, hnone]
    | succ i =>
      have hshift : s.Counts (c :: t) ((s.sites t).map (· + 1)) (i + 1) ↔
          s.Counts t (s.sites t) i := counts_shift [c]
      rw [mem_shift_iff, hshift, ih.mem_iff]
  | site seen t hseen ih =>
    have hpos := List.length_pos_iff.2 (taken_ne_nil (s := s) hseen)
    rw [sites_of_some hseen]
    refine ⟨?_, fun i => ?_⟩
    · rw [List.pairwise_cons]
      refine ⟨fun j hj => ?_, sites_sorted_shift ih.sorted _⟩
      obtain ⟨k, -, rfl⟩ := List.mem_map.1 hj
      omega
    · rcases Nat.lt_or_ge i (s.taken seen).length with hlt | hge
      -- in what the first tag takes only its own place counts
      · have hmem : i ∉ (s.sites t).map (· + (s.taken seen).length) := by
          intro hi
          obtain ⟨k, -, rfl⟩ := List.mem_map.1 hi
          omega
        simp only [List.mem_cons, hmem, or_false]
        constructor
        · rintro rfl
          exact ⟨⟨seen, hseen⟩, fun j _ hj => absurd hj (Nat.not_lt_zero j)⟩
        · rintro ⟨-, hfree⟩
          by_contra hne
          have hstop := hfree 0 List.mem_cons_self (Nat.pos_of_ne_zero hne) seen hseen
          omega
      · obtain ⟨k, rfl⟩ := Nat.exists_eq_add_of_le' hge
        have hne : k + (s.taken seen).length ≠ 0 := by omega
        rw [List.mem_cons, mem_shift_iff, ih.mem_iff, ← counts_shift (s.taken seen),
          or_iff_right hne]
        refine and_congr_right fun _ => ?_
        rw [List.forall_mem_cons]
        refine (and_iff_right fun _ first hfirst => ?_).symm
        obtain rfl := Option.some.inj (hseen.symm.trans hfirst)
        omega

/-- The sites of a text are determined. -/
theorem Sites.unique {t : Text} {a b : List Nat} (ha : s.Sites t a) (hb : s.Sites t b) : a = b := by
  refine ha.sorted.eq_of_mem_iff hb.sorted fun i => ?_
  induction i using Nat.strong_induction_on with
  | _ i ih =>
    rw [ha.mem_iff, hb.mem_iff, Counts, Counts]
    refine and_congr_right fun _ => forall_congr' fun j => ?_
    constructor
    · exact fun h hj hlt => h ((ih j hlt).2 hj) hlt
    · exact fun h hj hlt => h ((ih j hlt).1 hj) hlt

/-! ### The spans -/

theorem spanAt?_append (front t : Text) (i : Nat) :
    s.spanAt? (front ++ t) (i + front.length) = (s.spanAt? t i).map (Span.shift front.length) := by
  rw [spanAt?, spanAt?, Span.drop_add_length, Option.map_bind]
  simp only [Function.comp_def, Option.map_map]
  rfl

theorem filterMap_spanAt?_shift (front t : Text) (sites : List Nat) :
    (sites.map (· + front.length)).filterMap (s.spanAt? (front ++ t)) =
      (sites.filterMap (s.spanAt? t)).map (Span.shift front.length) := by
  rw [List.filterMap_map, List.map_filterMap]
  exact List.filterMap_congr fun i _ => spanAt?_append front t i

theorem spans_of_none {c : Char} {t : Text} (h : LooseTag.at? (c :: t) = none) :
    s.spans (c :: t) = (s.spans t).map (Span.shift 1) := by
  rw [spans, sites_of_none h]
  exact filterMap_spanAt?_shift [c] t (s.sites t)

theorem spans_of_some {seen : Sighting} {t : Text}
    (h : LooseTag.at? (s.taken seen ++ t) = some seen) :
    s.spans (s.taken seen ++ t) =
      ((s.owned? seen).map fun root =>
        ⟨0, candidate seen, s.tagOf root, seen.extent?.isSome⟩).toList ++
          (s.spans t).map (Span.shift (s.taken seen).length) := by
  have hfirst : s.spanAt? (s.taken seen ++ t) 0 = (s.owned? seen).map fun root =>
      ⟨0, candidate seen, s.tagOf root, seen.extent?.isSome⟩ := by
    rw [spanAt?, List.drop_zero, h]
    rfl
  rw [spans, sites_of_some h, List.filterMap_cons, hfirst, filterMap_spanAt?_shift]
  cases s.owned? seen <;> rfl

theorem mem_spans_iff {t : Text} {p : Span} :
    p ∈ s.spans t ↔ s.Counts t (s.sites t) p.start ∧ ∃ seen name selfClosing f,
      LooseTag.at? (t.drop p.start) = some seen ∧ seen.tag = .opening name selfClosing ∧
        Text.has s.marker seen.source = true ∧ p.markup = candidate seen ∧
        Fragment.read? p.markup = some f ∧ f.hasClass s.marker = true ∧
        p.tag = s.tagOf f.root ∧ p.closed = seen.extent?.isSome := by
  rw [spans, List.mem_filterMap]
  constructor
  · rintro ⟨i, hi, hspan⟩
    obtain ⟨seen, hseen, hspan⟩ := Option.bind_eq_some_iff.1 hspan
    obtain ⟨root, hroot, rfl⟩ := Option.map_eq_some_iff.1 hspan
    obtain ⟨name, selfClosing, htag, hshown, hclaim⟩ := owned?_eq_some_iff.1 hroot
    obtain ⟨f, hread, hclass, rfl⟩ := claim?_eq_some hclaim
    exact ⟨(s.sites_sites t).mem_iff i |>.1 hi, seen, name, selfClosing, f, hseen, htag, hshown, rfl,
      hread, hclass, rfl, rfl⟩
  · rintro ⟨hcounts, seen, name, selfClosing, f, hseen, htag, hshown, hmarkup, hread, hclass, htagOf,
      hclosed⟩
    refine ⟨p.start, (s.sites_sites t).mem_iff _ |>.2 hcounts, ?_⟩
    have hclaim : s.claim? (candidate seen) = some f.root := by
      rw [claim?, ← hmarkup, hread]
      exact if_pos hclass
    have howned := owned?_eq_some_iff.2 ⟨name, selfClosing, htag, hshown, hclaim⟩
    rw [spanAt?, hseen, Option.bind_some, howned, Option.map_some, ← hmarkup, ← htagOf, ← hclosed]

/-- A span is what the loose tag at its start takes. -/
theorem markup_eq_taken {t : Text} {i : Nat} {p : Span} (h : s.spanAt? t i = some p) :
    ∃ seen, LooseTag.at? (t.drop i) = some seen ∧ p.start = i ∧ p.markup = s.taken seen := by
  obtain ⟨seen, hseen, hspan⟩ := Option.bind_eq_some_iff.1 h
  obtain ⟨root, hroot, rfl⟩ := Option.map_eq_some_iff.1 hspan
  refine ⟨seen, hseen, rfl, ?_⟩
  rw [taken, hroot]
  rfl

/-- The spans of a text stand in it side by side. -/
theorem pairwise_spans (s : HtmlShortcode) (t : Text) :
    (s.spans t).Pairwise fun p q => p.stop ≤ q.start := by
  have hsites := s.sites_sites t
  have hcounts : ∀ i ∈ s.sites t, s.Counts t (s.sites t) i := fun i => (hsites.mem_iff i).1
  refine List.pairwise_filterMap.2 ((List.Pairwise.and_mem.1 hsites.sorted).imp ?_)
  rintro i j ⟨hi, hj, hlt⟩ p hp q hq
  obtain ⟨seen, hseen, rfl, hmarkup⟩ := markup_eq_taken hp
  obtain ⟨-, -, rfl, -⟩ := markup_eq_taken hq
  rw [Span.stop, hmarkup]
  exact (hcounts _ hj).2 _ hi hlt seen hseen

theorem drop_of_mem_spans {t : Text} {p : Span} (h : p ∈ s.spans t) : p.markup <+: t.drop p.start := by
  obtain ⟨i, -, hspan⟩ := List.mem_filterMap.1 h
  obtain ⟨seen, hseen, rfl, hmarkup⟩ := markup_eq_taken hspan
  rw [hmarkup]
  exact ⟨_, (exists_taken hseen).1.symm⟩

/-! ### Passages -/

theorem passage_of_not_owned {seen : Sighting} (h : s.owned? seen = none) :
    s.passage seen = .ok (.kept seen.source, seen.rest) := by
  rw [owned?] at h
  rw [passage]
  split
  · next name selfClosing htag =>
    rw [htag] at h
    dsimp only at h
    split
    · rfl
    · next hshown =>
      rw [if_pos (by simpa using hshown)] at h
      split
      · next markup rest hextent =>
        rw [candidate_of_extent? hextent] at h
        rw [h]
      · next hextent =>
        rw [candidate_of_none hextent] at h
        rw [h]
  · rfl

theorem passagesUpTo_eq_passages {fuel : Nat} {t : Text} (h : t.length ≤ fuel) :
    s.passagesUpTo fuel t = s.passages t := by
  -- any two amounts that reach to the end of the text are compared, by induction on the first
  suffices hall : ∀ n m t, t.length ≤ n → t.length ≤ m →
      s.passagesUpTo n t = s.passagesUpTo m t from hall _ _ t h le_rfl
  intro n
  induction n with
  | zero =>
    intro m t hn _
    rw [List.length_eq_zero_iff.1 (Nat.le_zero.1 hn)]
    cases m <;> rfl
  | succ n ih =>
    intro m t hn hm
    cases t with
    | nil => cases m <;> rfl
    | cons c t =>
      cases m with
      | zero => simp at hm
      | succ m =>
        rw [List.length_cons] at hn hm
        rw [passagesUpTo, passagesUpTo]
        cases hseen : LooseTag.at? (c :: t) with
        | none => simp only [ih m t (by omega) (by omega)]
        | some seen =>
          dsimp only
          cases hpassage : s.passage seen with
          | error e => rfl
          | ok found =>
            obtain ⟨p, tail⟩ := found
            obtain ⟨happend, hne, -⟩ := passage_eq_ok hseen hpassage
            have hpos := List.length_pos_iff.2 hne
            have hlength := congrArg List.length happend
            rw [List.length_append, List.length_cons] at hlength
            simp only [Bind.bind, Except.bind, ih m tail (by omega) (by omega)]

theorem passages_of_none {c : Char} {t : Text} (h : LooseTag.at? (c :: t) = none) :
    s.passages (c :: t) = (s.passages t).map (.kept [c] :: ·) := by
  rw [passages, List.length_cons, passagesUpTo, h]
  rfl

theorem passages_of_some {t tail : Text} {seen : Sighting} {p : Passage}
    (h : LooseTag.at? t = some seen) (hp : s.passage seen = .ok (p, tail)) :
    s.passages t = (s.passages tail).map (p :: ·) := by
  obtain ⟨happend, hne, -⟩ := passage_eq_ok h hp
  have hpos := List.length_pos_iff.2 hne
  have hlength := congrArg List.length happend
  rw [List.length_append] at hlength
  cases t with
  | nil => cases h
  | cons c t =>
    rw [List.length_cons] at hlength
    have htail : tail.length ≤ t.length := by omega
    rw [passages, List.length_cons, passagesUpTo, h]
    simp only [Bind.bind, Except.bind, hp, passagesUpTo_eq_passages htail]
    rfl

/-! ### The outcome -/

/-- What becomes of a text with these spans: the tags take their places, unless one is not closed. -/
def rewritten (s : HtmlShortcode) (t : Text) (spans : List Span) : Except Failure Text :=
  match spans.find? fun p => !p.closed with
  | some p => .error (.unclosedMarkup s.name p.markup)
  | none => .ok (Span.splice t spans)

theorem rewritten_append (front t : Text) (spans : List Span) :
    s.rewritten (front ++ t) (spans.map (Span.shift front.length)) =
      (s.rewritten t spans).map (front ++ ·) := by
  have hfind : (spans.map (Span.shift front.length)).find? (fun p => !p.closed) =
      (spans.find? fun p => !p.closed).map (Span.shift front.length) := List.find?_map ..
  rw [rewritten, rewritten, hfind, Span.splice_append]
  cases spans.find? fun p => !p.closed <;> rfl

theorem rewritten_span (markup t tag : Text) (spans : List Span) :
    s.rewritten (markup ++ t) (⟨0, markup, tag, true⟩ :: spans.map (Span.shift markup.length)) =
      (s.rewritten t spans).map (tag ++ ·) := by
  have hfind : (⟨0, markup, tag, true⟩ :: spans.map (Span.shift markup.length)).find?
      (fun p => !p.closed) = (spans.find? fun p => !p.closed).map (Span.shift markup.length) := by
    rw [List.find?_cons_of_neg (by simp)]
    exact List.find?_map ..
  rw [rewritten, rewritten, hfind, Span.splice_span]
  cases spans.find? fun p => !p.closed <;> rfl

theorem rewritten_eq_ok_iff {t r : Text} {spans : List Span} :
    s.rewritten t spans = .ok r ↔
      (∀ p ∈ spans, p.closed = true) ∧ r = Span.splice t spans := by
  rw [rewritten]
  split
  · next p hfind =>
    have hopen := List.find?_some hfind
    simp only [reduceCtorEq, false_iff, not_and]
    intro hall
    simp [hall p (List.mem_of_find?_eq_some hfind)] at hopen
  · next hfind =>
    have hall : ∀ p ∈ spans, p.closed = true := by simpa using List.find?_eq_none.1 hfind
    rw [Except.ok.injEq, and_iff_right hall, eq_comm]

theorem rewritten_eq_error_iff {t : Text} {spans : List Span} {e : Failure} :
    s.rewritten t spans = .error e ↔ ∃ before p after, spans = before ++ p :: after ∧
      (∀ q ∈ before, q.closed = true) ∧ p.closed = false ∧
        e = .unclosedMarkup s.name p.markup := by
  rw [rewritten]
  split
  · next p hfind =>
    obtain ⟨hopen, before, after, rfl, hbefore⟩ := List.find?_eq_some_iff_append.1 hfind
    simp only [Bool.not_not] at hbefore
    constructor
    · intro h
      exact ⟨before, p, after, rfl, hbefore, by simpa using hopen, (Except.error.inj h).symm⟩
    · rintro ⟨before', p', after', heq, hbefore', hopen', rfl⟩
      have hfind' : (before' ++ p' :: after').find? (fun p => !p.closed) = some p' :=
        List.find?_eq_some_iff_append.2 ⟨by simp [hopen'], before', after', rfl, by simpa⟩
      rw [heq, hfind'] at hfind
      cases hfind
      rfl
  · next hfind =>
    simp only [reduceCtorEq, false_iff]
    rintro ⟨before, p, after, rfl, -, hopen, -⟩
    have hclosed := List.find?_eq_none.1 hfind p (by simp)
    simp [hopen] at hclosed

/-- Reversal rewrites the spans of a text. -/
theorem map_passages_eq (s : HtmlShortcode) (t : Text) :
    (s.passages t).map (·.flatMap Passage.result) = s.rewritten t (s.spans t) := by
  -- a passage in front of others puts its result in front of theirs
  have hcons : ∀ (p : Passage) (u : Text), ((s.passages u).map (p :: ·)).map
      (·.flatMap Passage.result) =
        ((s.passages u).map (·.flatMap Passage.result)).map (p.result ++ ·) := by
    intro p u
    cases s.passages u <;> rfl
  induction t using s.walkInduction with
  | nil => rfl
  | plain c t hnone ih =>
    rw [passages_of_none hnone, hcons, ih, spans_of_none hnone]
    exact (rewritten_append [c] t (s.spans t)).symm
  | site seen t hseen ih =>
    have happend := (LooseTag.at?_eq_some hseen).1
    rw [spans_of_some hseen]
    cases howned : s.owned? seen with
    | none =>
      have htaken : s.taken seen = seen.source := by rw [taken, howned]; rfl
      rw [htaken] at hseen happend ⊢
      obtain rfl := List.append_cancel_left happend
      rw [passages_of_some hseen (passage_of_not_owned howned), hcons, ih]
      exact (rewritten_append seen.source seen.rest _).symm
    | some root =>
      have htaken : s.taken seen = candidate seen := by rw [taken, howned]; rfl
      obtain ⟨name, selfClosing, htag, hshown, hclaim⟩ := owned?_eq_some_iff.1 howned
      rw [htaken] at hseen happend ⊢
      cases hextent : seen.extent? with
      | none =>
        rw [candidate_of_none hextent] at hseen hclaim happend ⊢
        rw [passages_of_error hseen (passage_of_unclosed htag hshown hextent hclaim)]
        rfl
      | some found =>
        obtain ⟨markup, rest⟩ := found
        rw [candidate_of_extent? hextent] at hseen hclaim happend ⊢
        have hrest := ((Sighting.extent?_eq_some hextent).1.trans happend)
        obtain rfl := List.append_cancel_left hrest
        rw [passages_of_some hseen (passage_of_claim htag hshown hextent hclaim), hcons, ih]
        exact (rewritten_span markup rest (s.tagOf root) (s.spans rest)).symm

theorem reverse_eq_rewritten (hr : s.isReversible = true) (t : Text) :
    s.reverse t = s.rewritten t (s.spans t) := by
  rw [reverse, if_pos hr, map_passages_eq]

theorem reverse_eq_ok_iff {t r : Text} :
    s.reverse t = .ok r ↔ s.isReversible = true ∧ (∀ p ∈ s.spans t, p.closed = true) ∧
      r = Span.splice t (s.spans t) := by
  by_cases hr : s.isReversible = true
  · rw [reverse_eq_rewritten hr, rewritten_eq_ok_iff, and_iff_right hr]
  · rw [reverse, if_neg hr]
    simp [hr]

theorem spans_eq_nil {t : Text} (h : Text.has s.marker t = false) : s.spans t = [] := by
  rw [List.eq_nil_iff_forall_not_mem]
  intro p hp
  obtain ⟨-, seen, name, selfClosing, f, hseen, -, hshown, -⟩ := mem_spans_iff.1 hp
  rw [Text.has_eq_false_iff] at h
  rw [Text.has_eq_true_iff] at hshown
  have hsource : seen.source <+: t.drop p.start := ⟨seen.rest, (LooseTag.at?_eq_some hseen).1⟩
  exact h ((hshown.trans hsource.isInfix).trans (List.drop_suffix _ _).isInfix)

/-- A loose tag counts if it does not begin inside of an earlier one that counts, or of markup that
such a one begins and that is the shortcode's; this determines the sites. The spans are what the
opening tags among them begin that show the marker, and whose candidate has a root with the marker as
a class. They stand in the text side by side. Reversal puts their tags in their places and leaves all
else, if all of them are closed, and otherwise fails with the first that is not. A text in which the
marker does not occur stays as it is. -/
theorem reverse_rewrites (hr : s.isReversible = true) (t : Text) :
    s.Sites t (s.sites t) ∧ (∀ sites, s.Sites t sites → sites = s.sites t) ∧
      (∀ p, p ∈ s.spans t ↔ s.Counts t (s.sites t) p.start ∧ ∃ seen name selfClosing f,
        LooseTag.at? (t.drop p.start) = some seen ∧ seen.tag = .opening name selfClosing ∧
          Text.has s.marker seen.source = true ∧ p.markup = candidate seen ∧
          Fragment.read? p.markup = some f ∧ f.hasClass s.marker = true ∧
          p.tag = s.tagOf f.root ∧ p.closed = seen.extent?.isSome) ∧
      (s.spans t).Pairwise (fun p q => p.stop ≤ q.start) ∧
      (∀ p ∈ s.spans t, p.markup <+: t.drop p.start) ∧
      (∀ r, s.reverse t = .ok r ↔
        (∀ p ∈ s.spans t, p.closed = true) ∧ r = Span.splice t (s.spans t)) ∧
      (∀ e, s.reverse t = .error e ↔ ∃ before p after, s.spans t = before ++ p :: after ∧
        (∀ q ∈ before, q.closed = true) ∧ p.closed = false ∧
          e = .unclosedMarkup s.name p.markup) ∧
      (Text.has s.marker t = false → s.reverse t = .ok t) := by
  have hreverse := reverse_eq_rewritten hr t
  refine ⟨s.sites_sites t, fun sites h => h.unique (s.sites_sites t), fun p => mem_spans_iff,
    s.pairwise_spans t, fun p => drop_of_mem_spans, fun r => ?_, fun e => ?_, fun h => ?_⟩
  · rw [reverse_eq_ok_iff, and_iff_right hr]
  · rw [hreverse, rewritten_eq_error_iff]
  · rw [hreverse, spans_eq_nil h]
    rfl

open Link

/-- A link in an element that shows the marker in its title only. -/
def nested : Text :=
  "<div title=\"shortcode-link\"><a href=\"x\" class=\"shortcode-link\">y</a></div>".toList

/-- The element around is not the shortcode's, so the link in it is looked at. -/
theorem reverse_rewrites_nested :
    link.isReversible = true ∧ (∀ p ∈ link.spans nested, p.closed = true) ∧
      Span.splice nested (link.spans nested) =
        "<div title=\"shortcode-link\">[%link x y %]</div>".toList := by
  have hr : link.isReversible = true := by decide
  have hpassages : link.passages nested =
      .ok [.kept "<div title=\"shortcode-link\">".toList,
        .claimed "<a href=\"x\" class=\"shortcode-link\">y</a>".toList "[%link x y %]".toList,
        .kept "</div>".toList] :=
    rfl
  have hreverse : link.reverse nested =
      .ok "<div title=\"shortcode-link\">[%link x y %]</div>".toList := by
    rw [reverse, if_pos hr, hpassages]
    rfl
  obtain ⟨-, -, -, -, -, hok, -⟩ := reverse_rewrites hr nested
  obtain ⟨hclosed, hresult⟩ := (hok _).1 hreverse
  exact ⟨hr, hclosed, hresult.symm⟩

end HtmlShortcode

end Shortcodes
