import Shortcodes.Proofs.Shortcode.Spans
import Shortcodes.Proofs.Shortcode.WrittenTags
import Shortcodes.Registry

/-!
# The passes of a reversal

Every shortcode of a registry goes through what the ones before it made of the text, and rewrites its
spans there. So a tag that a pass wrote lasts, unless a span of a later pass meets it
(`reverse_leaves_tags`). Spans begin and end with brackets. Hence a span that meets a tag goes around
all of it, or begins or ends with a bracket that stands in the tag. No order of registration keeps
this from happening (`not_keepsTags`).
-/

namespace Shortcodes

open Html

namespace Span

variable {front : Text} {before after spans : List Span}

/-- A span overlaps the stretch of a text between two places. -/
def Meets (p : Span) (start stop : Nat) : Prop := p.start < stop ∧ start < p.stop

/-- How a span meets a tag that stands behind `front`. -/
inductive Reaches (p : Span) (front tag : Text) : Prop
  | around (start : p.start < front.length) (stop : (front ++ tag).length < p.stop)
  | begins (x y : Text) (bracket : tag = x ++ '<' :: y) (start : p.start = (front ++ x).length)
  | ends (x y : Text) (bracket : tag = x ++ '>' :: y) (stop : p.stop = (front ++ x).length + 1)

/-! ### Splicing in parts -/

/-- Spans in one part of a text and spans behind it are spliced in part by part. -/
theorem splice_parts (hbefore : ∀ p ∈ before, p.stop ≤ front.length) (back : Text)
    (after : List Span) :
    splice (front ++ back) (before ++ after.map (shift front.length)) =
      splice front before ++ splice back after := by
  -- the induction is on the spans in front, for any place that was written up to
  suffices hall : ∀ last ≤ front.length,
      spliceFrom (front ++ back) last (before ++ after.map (shift front.length)) =
        spliceFrom front last before ++ splice back after from hall 0 (Nat.zero_le _)
  induction before with
  | nil =>
    intro last hlast
    have hdrop : (front ++ back).drop last = front.drop last ++ back :=
      List.drop_append_of_le_length hlast
    cases after with
    | nil => exact hdrop
    | cons q after =>
      have hrest := spliceFrom_append front back q.stop after
      have htake : (front.drop last ++ back).take (q.start + front.length - last) =
          front.drop last ++ back.take q.start := by
        have hlength : q.start + front.length - last = (front.drop last).length + q.start := by
          rw [List.length_drop]
          omega
        rw [hlength, List.take_length_add_append]
      rw [List.nil_append, List.map_cons, spliceFrom, spliceFrom, splice, spliceFrom, hdrop,
        stop_shift, hrest]
      simp only [shift, htake, List.append_assoc, List.drop_zero, Nat.sub_zero]
  | cons p before ih =>
    intro last hlast
    have hp := hbefore p List.mem_cons_self
    have htake : ((front ++ back).drop last).take (p.start - last) =
        (front.drop last).take (p.start - last) := by
      rw [List.drop_append_of_le_length hlast]
      refine List.take_append_of_le_length ?_
      rw [stop] at hp
      rw [List.length_drop]
      omega
    rw [List.cons_append, spliceFrom, spliceFrom, htake,
      ih (fun q hq => hbefore q (List.mem_cons_of_mem p hq)) p.stop hp]
    simp only [List.append_assoc]

/-- A stretch that no span meets stays between what becomes of the text around it. -/
theorem splice_around (hbefore : ∀ p ∈ before, p.stop ≤ front.length) (tag back : Text)
    (after : List Span) :
    splice (front ++ tag ++ back) (before ++ after.map (shift (front ++ tag).length)) =
      splice front before ++ tag ++ splice back after := by
  have hmiddle := splice_parts hbefore tag []
  rw [List.map_nil, List.append_nil] at hmiddle
  have hbefore' : ∀ p ∈ before, p.stop ≤ (front ++ tag).length := by
    intro p hp
    have hle := hbefore p hp
    rw [List.length_append]
    omega
  rw [splice_parts hbefore', hmiddle]
  rfl

/-- The tag of a span stands between what becomes of the text around the span. -/
theorem splice_at {p : Span} (hstart : p.start = front.length)
    (hbefore : ∀ q ∈ before, q.stop ≤ front.length) (back : Text) (after : List Span) :
    splice (front ++ p.markup ++ back) (before ++ p :: after.map (shift p.stop)) =
      splice front before ++ p.tag ++ splice back after := by
  have hshift : p :: after.map (shift p.stop) =
      (⟨0, p.markup, p.tag, p.closed⟩ :: after.map (shift p.markup.length)).map
        (shift front.length) := by
    rw [List.map_cons, List.map_map]
    refine congrArg₂ _ (by simp [shift, ← hstart]) (List.map_congr_left fun q _ => ?_)
    simp only [shift, Function.comp_apply, stop]
    congr 1
    omega
  rw [hshift, List.append_assoc, splice_parts hbefore, splice_span, List.append_assoc]

/-- Spans behind a place are spans of the text from there on. -/
theorem exists_map_shift {n : Nat} (h : ∀ p ∈ spans, n ≤ p.start) :
    ∃ after : List Span, spans = after.map (shift n) := by
  refine ⟨spans.map fun p => { p with start := p.start - n }, ?_⟩
  rw [List.map_map]
  refine (List.map_id spans).symm.trans (List.map_congr_left fun p hp => ?_)
  have hle := h p hp
  simp only [Function.comp_apply, shift, id_eq, Nat.sub_add_cancel hle]

/-- Spans that do not meet a stretch stand on either side of it. -/
theorem exists_sides {start stop : Nat} (hpairs : spans.Pairwise fun p q => p.stop ≤ q.start)
    (h : ∀ p ∈ spans, ¬ p.Meets start stop) : ∃ before after, spans = before ++ after ∧
      (∀ p ∈ before, p.stop ≤ start) ∧ ∀ p ∈ after, stop ≤ p.start := by
  induction spans with
  | nil => exact ⟨[], [], rfl, by simp, by simp⟩
  | cons p ps ih =>
    rw [List.pairwise_cons] at hpairs
    by_cases hp : p.stop ≤ start
    · obtain ⟨before, after, rfl, hbefore, hafter⟩ :=
        ih hpairs.2 fun q hq => h q (List.mem_cons_of_mem p hq)
      exact ⟨p :: before, after, rfl, List.forall_mem_cons.2 ⟨hp, hbefore⟩, hafter⟩
    · have hstart : stop ≤ p.start := by
        have hmeets := h p List.mem_cons_self
        rw [Meets] at hmeets
        omega
      refine ⟨[], p :: ps, rfl, by simp, List.forall_mem_cons.2 ⟨hstart, fun q hq => ?_⟩⟩
      have hle := hpairs.1 q hq
      rw [Span.stop] at hle
      omega

end Span

namespace HtmlShortcode

variable {s : HtmlShortcode} {front tag back out : Text} {passes later : List HtmlShortcode}

/-! ### The brackets of spans -/

theorem getLast?_candidate {t name : Text} {selfClosing : Bool} {seen : Sighting}
    (hseen : LooseTag.at? t = some seen) (htag : seen.tag = .opening name selfClosing) :
    (candidate seen).getLast? = some '>' := by
  cases hextent : seen.extent? with
  | none =>
    rw [candidate_of_none hextent]
    exact LooseTag.getLast?_source_of_at? hseen (by simp [htag])
  | some found =>
    rw [candidate_of_extent? hextent]
    exact Sighting.getLast?_of_extent? hseen hextent

/-- A span begins and ends with a bracket. -/
theorem brackets_of_mem_spans {t : Text} {p : Span} (h : p ∈ s.spans t) :
    p.start < p.stop ∧ t[p.start]? = some '<' ∧ t[p.stop - 1]? = some '>' := by
  obtain ⟨-, seen, name, selfClosing, f, hseen, htag, -, hmarkup, -⟩ := mem_spans_iff.1 h
  obtain ⟨rest, hrest⟩ := drop_of_mem_spans h
  have hlast := getLast?_candidate hseen htag
  rw [← hmarkup, List.getLast?_eq_getElem?] at hlast
  have hpos : 0 < p.markup.length := by
    cases hnil : p.markup with
    | nil => simp [hnil] at hlast
    | cons _ _ => simp
  -- what is claimed stands in the text where the span begins
  have hget : ∀ i < p.markup.length, t[p.start + i]? = p.markup[i]? := by
    intro i hi
    rw [← List.getElem?_drop, ← hrest, List.getElem?_append_left hi]
  obtain ⟨more, hmore⟩ := (LooseTag.at?_eq_some hseen).2
  have hfirst : (t.drop p.start)[0]? = some '<' := by
    rw [← (LooseTag.at?_eq_some hseen).1, hmore]
    rfl
  rw [List.getElem?_drop, Nat.add_zero] at hfirst
  have hstop : p.stop - 1 = p.start + (p.markup.length - 1) := by
    rw [Span.stop]
    omega
  refine ⟨by rw [Span.stop]; omega, hfirst, ?_⟩
  rw [hstop, hget _ (by omega), hlast]

theorem exists_split {i : Nat} {c : Char} (h : (front ++ tag ++ back)[i]? = some c)
    (hfront : front.length ≤ i) (htag : i < (front ++ tag).length) :
    ∃ x y, tag = x ++ c :: y ∧ i = (front ++ x).length := by
  obtain ⟨k, rfl⟩ := Nat.exists_eq_add_of_le hfront
  rw [List.length_append, Nat.add_lt_add_iff_left] at htag
  rw [List.append_assoc, List.getElem?_append_right (Nat.le_add_right _ _), Nat.add_sub_cancel_left,
    List.getElem?_append_left htag] at h
  obtain ⟨_, hc⟩ := List.getElem?_eq_some_iff.1 h
  refine ⟨tag.take k, tag.drop (k + 1), ?_, ?_⟩
  · rw [← hc, List.cons_getElem_drop_succ, List.take_append_drop]
  · rw [List.length_append, List.length_take_of_le htag.le]

theorem reaches_of_meets {p : Span} (h : p ∈ s.spans (front ++ tag ++ back))
    (hm : p.Meets front.length (front ++ tag).length) : p.Reaches front tag := by
  obtain ⟨hlt, hfirst, hlast⟩ := brackets_of_mem_spans h
  rcases Nat.lt_or_ge p.start front.length with hstart | hstart
  · rcases Nat.lt_or_ge (front ++ tag).length p.stop with hstop | hstop
    · exact .around hstart hstop
    · have hmeets := hm.2
      obtain ⟨x, y, hsplit, hplace⟩ := exists_split hlast (by omega) (by omega)
      exact .ends x y hsplit (by omega)
  · obtain ⟨x, y, hsplit, hplace⟩ := exists_split hfirst hstart hm.1
    exact .begins x y hsplit hplace

/-! ### One pass -/

/-- The tag of a span stands behind what becomes of the text in front of the span. -/
theorem splice_spans_at {u : Text} {before after : List Span} {p : Span}
    (h : s.spans u = before ++ p :: after) : ∃ after' : List Span, after = after'.map (.shift p.stop) ∧
      Span.splice u (s.spans u) =
        Span.splice (u.take p.start) before ++ p.tag ++ Span.splice (u.drop p.stop) after' := by
  have hp : p ∈ s.spans u := h ▸ List.mem_append_right before List.mem_cons_self
  have hpairs := s.pairwise_spans u
  rw [h, List.pairwise_append, List.pairwise_cons] at hpairs
  obtain ⟨-, ⟨hafter, -⟩, hbefore⟩ := hpairs
  obtain ⟨after', rfl⟩ := Span.exists_map_shift hafter
  refine ⟨after', rfl, ?_⟩
  obtain ⟨hlt, hfirst, -⟩ := brackets_of_mem_spans hp
  obtain ⟨back, hback⟩ := drop_of_mem_spans hp
  have hlength : (u.take p.start).length = p.start :=
    List.length_take_of_le (List.getElem?_eq_some_iff.1 hfirst).1.le
  have hu : u.take p.start ++ p.markup ++ back = u := by
    rw [List.append_assoc, hback, List.take_append_drop]
  have hdrop : u.drop p.stop = back := by
    have hstop : (u.take p.start ++ p.markup).length = p.stop := by
      rw [List.length_append, hlength, Span.stop]
    rw [← hstop]
    nth_rewrite 2 [← hu]
    exact List.drop_left
  have hle : ∀ q ∈ before, q.stop ≤ (u.take p.start).length := by
    rw [hlength]
    exact fun q hq => hbefore q hq p List.mem_cons_self
  rw [h, hdrop, ← Span.splice_at hlength.symm hle, hu]

/-- A tag that no span of a pass meets stays between what becomes of the text around it. -/
theorem exists_sides_of_spans (h : ∀ p ∈ s.spans (front ++ tag ++ back),
      ¬ p.Meets front.length (front ++ tag).length) : ∃ before after : List Span,
    s.spans (front ++ tag ++ back) = before ++ after.map (.shift (front ++ tag).length) ∧
      ∀ p ∈ before, p.stop ≤ front.length := by
  obtain ⟨before, after, hspans, hbefore, hafter⟩ :=
    Span.exists_sides (s.pairwise_spans _) h
  obtain ⟨after', rfl⟩ := Span.exists_map_shift hafter
  exact ⟨before, after', hspans, hbefore⟩

/-! ### Passes in a row -/

theorem toShortcode_reverse (s : HtmlShortcode) (t : Text) :
    s.toShortcode.reverse t = s.reverse t := by
  cases hr : s.isReversible with
  | false =>
    simp only [Shortcode.reverse, toShortcode, reverse, hr, Bool.false_eq_true, if_false]
    rfl
  | true => simp only [Shortcode.reverse, toShortcode, hr, if_true]

theorem reverseAll_cons_eq_ok_iff {t : Text} :
    Registry.reverseAll t ((s :: later).map toShortcode) = .ok out ↔
      s.isReversible = true ∧ (∀ p ∈ s.spans t, p.closed = true) ∧
        Registry.reverseAll (Span.splice t (s.spans t)) (later.map toShortcode) = .ok out := by
  rw [List.map_cons, Registry.reverseAll, Except.bind_eq_ok_iff, toShortcode_reverse]
  constructor
  · rintro ⟨u, hu, hout⟩
    obtain ⟨hr, hclosed, rfl⟩ := reverse_eq_ok_iff.1 hu
    exact ⟨hr, hclosed, hout⟩
  · rintro ⟨hr, hclosed, hout⟩
    exact ⟨_, reverse_eq_ok_iff.2 ⟨hr, hclosed, rfl⟩, hout⟩

theorem reverseAll_append_eq_ok_iff {t : Text} :
    Registry.reverseAll t ((passes ++ later).map toShortcode) = .ok out ↔
      ∃ u, Registry.reverseAll t (passes.map toShortcode) = .ok u ∧
        Registry.reverseAll u (later.map toShortcode) = .ok out := by
  induction passes generalizing t with
  | nil => simp [Registry.reverseAll]
  | cons s passes ih =>
    rw [List.cons_append, reverseAll_cons_eq_ok_iff, ih]
    simp only [reverseAll_cons_eq_ok_iff, and_assoc, exists_and_left]

/-- A tag stays through passes, and the text on its two sides goes from one pair to another: the
spans of each pass stand on either side of the tag and are put in there. -/
inductive Stays (tag : Text) : List HtmlShortcode → (sides sides' : Text × Text) → Prop
  | refl (sides : Text × Text) : Stays tag [] sides sides
  | pass {s : HtmlShortcode} {later : List HtmlShortcode} {front back : Text}
      {sides' : Text × Text} {before after : List Span}
      (spans : s.spans (front ++ tag ++ back) =
        before ++ after.map (.shift (front ++ tag).length))
      (inFront : ∀ p ∈ before, p.stop ≤ front.length)
      (rest : Stays tag later (Span.splice front before, Span.splice back after) sides') :
      Stays tag (s :: later) (front, back) sides'

/-- A tag stays through all passes, or through those up to one that has a span which meets it. -/
theorem stays_or_meets
    (h : Registry.reverseAll (front ++ tag ++ back) (later.map toShortcode) = .ok out) :
    (∃ front' back', Stays tag later (front, back) (front', back') ∧ out = front' ++ tag ++ back') ∨
      ∃ mid s rest front' back', later = mid ++ s :: rest ∧
        Stays tag mid (front, back) (front', back') ∧
        Registry.reverseAll (front ++ tag ++ back) (mid.map toShortcode) =
          .ok (front' ++ tag ++ back') ∧
        ∃ q ∈ s.spans (front' ++ tag ++ back'), q.Meets front'.length (front' ++ tag).length := by
  induction later generalizing front back with
  | nil =>
    cases h
    exact .inl ⟨front, back, .refl _, rfl⟩
  | cons s later ih =>
    -- the first shortcode meets the tag, or its pass leaves the tag where it is
    by_cases hmeets : ∃ q ∈ s.spans (front ++ tag ++ back),
        q.Meets front.length (front ++ tag).length
    · exact .inr ⟨[], s, later, front, back, rfl, .refl _, rfl, hmeets⟩
    · push Not at hmeets
      obtain ⟨before, after, hspans, hbefore⟩ := exists_sides_of_spans hmeets
      obtain ⟨hr, hclosed, hrest⟩ := reverseAll_cons_eq_ok_iff.1 h
      have hsplice : Span.splice (front ++ tag ++ back) (s.spans (front ++ tag ++ back)) =
          Span.splice front before ++ tag ++ Span.splice back after := by
        rw [hspans, Span.splice_around hbefore]
      rw [hsplice] at hrest
      obtain ⟨front', back', hstays, hout⟩ | ⟨mid, s', rest, front', back', rfl, hstays, hmid, hq⟩ :=
        ih hrest
      · exact .inl ⟨front', back', .pass hspans hbefore hstays, hout⟩
      · refine .inr ⟨s :: mid, s', rest, front', back', rfl, .pass hspans hbefore hstays, ?_, hq⟩
        rw [reverseAll_cons_eq_ok_iff, hsplice]
        exact ⟨hr, hclosed, hmid⟩

/-- The pass of a shortcode takes what the passes before it made of the text and puts tags in the
place of its spans there. Each of these tags stays through all later passes, and is part of the
result, or it stays up to a pass that has a span which meets it. Such a span holds all of the tag, or
begins with a bracket in the tag, or ends with one. -/
theorem reverse_leaves_tags {r : Registry} {t : Text}
    (hr : r.shortcodes = (passes ++ s :: later).map toShortcode) (h : r.reverse t = .ok out) :
    ∃ u, Registry.reverseAll t (passes.map toShortcode) = .ok u ∧
      (∀ p ∈ s.spans u, p.closed = true) ∧
      Registry.reverseAll t ((passes ++ [s]).map toShortcode) =
        .ok (Span.splice u (s.spans u)) ∧
      ∀ before p after, s.spans u = before ++ p :: after →
        ∃ after' : List Span, after = after'.map (.shift p.stop) ∧
          let front := Span.splice (u.take p.start) before
          let back := Span.splice (u.drop p.stop) after'
          Span.splice u (s.spans u) = front ++ p.tag ++ back ∧
          ((∃ front' back', Stays p.tag later (front, back) (front', back') ∧
              out = front' ++ p.tag ++ back') ∨
            ∃ mid s' rest front' back', later = mid ++ s' :: rest ∧
              Stays p.tag mid (front, back) (front', back') ∧
              Registry.reverseAll t ((passes ++ s :: mid).map toShortcode) =
                .ok (front' ++ p.tag ++ back') ∧
              (∃ q ∈ s'.spans (front' ++ p.tag ++ back'),
                q.Meets front'.length (front' ++ p.tag).length) ∧
              ∀ q ∈ s'.spans (front' ++ p.tag ++ back'),
                q.Meets front'.length (front' ++ p.tag).length → q.Reaches front' p.tag) := by
  rw [Registry.reverse, hr] at h
  obtain ⟨u, hu, hrun⟩ := reverseAll_append_eq_ok_iff.1 h
  obtain ⟨hreversible, hclosed, hlater⟩ := reverseAll_cons_eq_ok_iff.1 hrun
  have hpass : ∀ mid v, Registry.reverseAll (Span.splice u (s.spans u)) (mid.map toShortcode) =
      .ok v → Registry.reverseAll t ((passes ++ s :: mid).map toShortcode) = .ok v := by
    intro mid v hv
    exact reverseAll_append_eq_ok_iff.2
      ⟨u, hu, reverseAll_cons_eq_ok_iff.2 ⟨hreversible, hclosed, hv⟩⟩
  refine ⟨u, hu, hclosed, hpass [] _ rfl, fun before p after hspans => ?_⟩
  obtain ⟨after', hafter, hsplice⟩ := splice_spans_at hspans
  refine ⟨after', hafter, hsplice, ?_⟩
  rw [hsplice] at hlater
  refine (stays_or_meets hlater).imp_right ?_
  rintro ⟨mid, s', rest, front', back', hlist, hstays, hmid, hmeets⟩
  refine ⟨mid, s', rest, front', back', hlist, hstays, hpass mid _ ?_, hmeets,
    fun q hq => reaches_of_meets hq⟩
  rw [hsplice, hmid]

open Link

theorem built_link : link.Built :=
  built_of_ofSignature (rfl : ofSignature link.signature link.template = .ok link)

theorem reversible_link_image : ∀ s ∈ [link, image], s.isReversible = true := by
  refine List.forall_mem_cons.2 ⟨by decide, List.forall_mem_singleton.2 ?_⟩
  decide

/-- Two passes whose spans are known. -/
theorem reverseAll_pair {a b : HtmlShortcode} {t u : Text} {ps qs : List Span}
    (hr : ∀ s ∈ [a, b], s.isReversible = true)
    (hps : a.spans t = ps) (hpsClosed : ∀ p ∈ ps, p.closed = true) (hu : Span.splice t ps = u)
    (hqs : b.spans u = qs) (hqsClosed : ∀ q ∈ qs, q.closed = true) :
    Registry.reverseAll t ([a, b].map toShortcode) = .ok (Span.splice u qs) := by
  subst hps hu hqs
  have hlast : Registry.reverseAll _ ([b].map toShortcode) = .ok (Span.splice _ (b.spans _)) :=
    reverseAll_cons_eq_ok_iff.2 ⟨hr b (by simp), hqsClosed, rfl⟩
  exact reverseAll_cons_eq_ok_iff.2 ⟨hr a (by simp), hpsClosed, hlast⟩

/-- A link in front of an image. -/
def linkAndImage : Text := "<a href=\"x\" class=\"shortcode-link\">y</a>".toList ++ sourced

/-- The tag of the link stays in the pass of images. -/
theorem reverse_leaves_tags_link :
    ({ shortcodes := [link, image].map toShortcode } : Registry).reverse linkAndImage =
        .ok "[%link x y %][%img src=a.png %]".toList ∧
      ∃ sides front back, Stays "[%link x y %]".toList [image] sides (front, back) ∧
        "[%link x y %][%img src=a.png %]".toList = front ++ "[%link x y %]".toList ++ back := by
  have hlinks : link.spans linkAndImage =
      [⟨0, "<a href=\"x\" class=\"shortcode-link\">y</a>".toList, "[%link x y %]".toList, true⟩] :=
    rfl
  have himages : image.spans ("[%link x y %]".toList ++ sourced) =
      [⟨13, sourced, "[%img src=a.png %]".toList, true⟩] :=
    rfl
  have hreverse : ({ shortcodes := [link, image].map toShortcode } : Registry).reverse linkAndImage =
      .ok "[%link x y %][%img src=a.png %]".toList :=
    reverseAll_pair reversible_link_image hlinks (by simp) rfl himages (by simp)
  have hpasses : [link, image].map toShortcode = ([] ++ link :: [image]).map toShortcode := rfl
  obtain ⟨u, hu, -, -, htags⟩ := reverse_leaves_tags hpasses hreverse
  cases hu
  obtain ⟨after, hafter, -, hfate⟩ := htags [] _ [] hlinks
  obtain rfl := List.map_eq_nil_iff.1 hafter.symm
  obtain ⟨front, back, hstays, hout⟩ | ⟨mid, s, rest, front, back, hlist, hstays, -, hmeets, -⟩ :=
    hfate
  · exact ⟨hreverse, _, front, back, hstays, hout⟩
  -- the only span of images begins where the tag ends
  · cases mid with
    | cons _ _ => simp at hlist
    | nil =>
      cases hlist
      cases hstays
      obtain ⟨q, hq, hmeets⟩ := hmeets
      have hq' : q ∈ image.spans ("[%link x y %]".toList ++ sourced) := hq
      rw [himages, List.mem_singleton] at hq'
      rw [hq'] at hmeets
      exact absurd hmeets.1 (by decide)

/-- Whether every tag that a pass writes is part of the result of all passes. -/
def KeepsTags (ss : List HtmlShortcode) : Prop :=
  ∀ t out, Registry.reverseAll t (ss.map toShortcode) = .ok out →
    ∀ passes s later, ss = passes ++ s :: later →
      ∀ u, Registry.reverseAll t (passes.map toShortcode) = .ok u →
        ∀ p ∈ s.spans u, p.tag <:+: out

theorem not_keepsTags_of_pair {a b : HtmlShortcode} {t u : Text} {ps qs : List Span} {p : Span}
    (hr : ∀ s ∈ [a, b], s.isReversible = true)
    (hps : a.spans t = ps) (hpsClosed : ∀ p ∈ ps, p.closed = true) (hu : Span.splice t ps = u)
    (hqs : b.spans u = qs) (hqsClosed : ∀ q ∈ qs, q.closed = true) (hp : p ∈ ps)
    (hlost : Text.has p.tag (Span.splice u qs) = false) : ¬KeepsTags [a, b] := by
  intro hkeeps
  have hrun := reverseAll_pair hr hps hpsClosed hu hqs hqsClosed
  subst hps
  exact Text.has_eq_false_iff.1 hlost (hkeeps t _ hrun [] a [b] rfl t rfl p hp)

/-- A link whose text shows an image. -/
def shownImage : Text :=
  "<a href=\"u\" class=\"shortcode-link\">&lt;img class=shortcode-img&gt;</a>".toList

set_option maxRecDepth 10000 in
theorem spans_shownImage : link.spans shownImage =
    [⟨0, shownImage, "[%link u \"<img class=shortcode-img>\" %]".toList, true⟩] := by
  rfl

/-- A link around the tag of an image. -/
def linkedTag : Text := "<a href=\"\" class=\"shortcode-link\">[%img src=p %]</a>".toList

set_option maxRecDepth 10000 in
theorem spans_linkedTag : link.spans linkedTag =
    [⟨0, linkedTag, "[%link \"\" \"[%img src=p %\"\\] %]".toList, true⟩] := by
  rfl

/-- Not every tag lasts, in whatever order two shortcodes of different markers are registered: the
text of a link may read as an image when it stands in a tag, and a link may hold the tag of an
image. -/
theorem not_keepsTags :
    link.Built ∧ image.Built ∧ (∀ s ∈ [link, image], s.isReversible = true) ∧
      link.marker ≠ image.marker ∧ ¬KeepsTags [link, image] ∧ ¬KeepsTags [image, link] := by
  refine ⟨built_link, built_image, reversible_link_image, by decide, ?_, ?_⟩
  · have himages : image.spans "[%link u \"<img class=shortcode-img>\" %]".toList =
        [⟨10, "<img class=shortcode-img>".toList, "[%img %]".toList, true⟩] :=
      rfl
    exact not_keepsTags_of_pair reversible_link_image spans_shownImage (by simp) rfl himages
      (by simp) List.mem_cons_self (by decide)
  · have himages : image.spans
        "<a href=\"\" class=\"shortcode-link\"><img src=\"p\" class=\"shortcode-img\"></a>".toList =
        [⟨34, "<img src=\"p\" class=\"shortcode-img\">".toList, "[%img src=p %]".toList, true⟩] :=
      rfl
    have hr : ∀ s ∈ [image, link], s.isReversible = true := fun s hs =>
      reversible_link_image s (by simpa [or_comm] using hs)
    exact not_keepsTags_of_pair hr himages (by simp) rfl spans_linkedTag (by simp)
      List.mem_cons_self (by decide)

end HtmlShortcode

end Shortcodes
