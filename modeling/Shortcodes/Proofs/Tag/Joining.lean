import Shortcodes.Proofs.Tag.Gaps

/-!
# The tags of joined texts

A tag stays what it is when its text goes on (`read?_append_of_read?`). An opening mark at which no
tag starts, although a whole tag stands behind it, is followed by `%`, so that no text behind it
makes a tag of it (`read?_append_eq_none`). What may still become a tag is the text behind the last
one, the `remainder`. If no opening mark begins there, the tags of two texts are those of their join
(`scan_append_of_remainder`).
-/

namespace Shortcodes.Tag

/-- The text behind the last tag, or all of the text if it has no tag. -/
def remainder (t : Text) : Text := (gaps t).getLast (gapsOf_ne_nil _)

/-! ### Following a sweep -/

/-- A sweep goes on behind a tag or behind a character at which none starts. -/
theorem sweepInduction {motive : Text → Prop} (nil : motive [])
    (tag : ∀ t tag tail, read? t = some (tag, tail) → motive tail → motive t)
    (plain : ∀ c t, read? (c :: t) = none → motive t → motive (c :: t)) (t : Text) : motive t := by
  induction hn : t.length using Nat.strong_induction_on generalizing t with
  | _ n ih =>
    subst hn
    cases hread : read? t with
    | some found =>
      obtain ⟨read, tail⟩ := found
      obtain ⟨happend, hne⟩ := eq_of_read? hread
      have hlength := congrArg List.length happend
      have hpos := List.length_pos_iff.2 hne
      rw [List.length_append] at hlength
      exact tag t read tail hread (ih _ (by omega) tail rfl)
    | none =>
      cases t with
      | nil => exact nil
      | cons c t => exact plain c t hread (ih _ (by simp) t rfl)

/-- A tag of a sweep is read somewhere in the text. -/
theorem exists_read?_of_mem_sweep {t : Text} {tag : Tag} (h : .tag tag ∈ sweep t) :
    ∃ front rest tail, t = front ++ rest ∧ read? rest = some (tag, tail) := by
  induction t using sweepInduction with
  | nil => cases h
  | tag t read tail hread ih =>
    rw [sweep_of_read? hread] at h
    rcases List.mem_cons.1 h with he | h
    · cases he
      exact ⟨[], t, tail, rfl, hread⟩
    · obtain ⟨front, rest, tail', rfl, hrest⟩ := ih h
      refine ⟨read.source ++ front, rest, tail', ?_, hrest⟩
      rw [(eq_of_read? hread).1, List.append_assoc]
  | plain c t hread ih =>
    rw [sweep_of_read?_eq_none hread] at h
    rcases List.mem_cons.1 h with he | h
    · cases he
    · obtain ⟨front, rest, tail, rfl, hrest⟩ := ih h
      exact ⟨c :: front, rest, tail, rfl, hrest⟩

/-- A text with a tag has a closing mark behind its second character. -/
theorem closer_of_mem_sweep {t : Text} {tag : Tag} (h : .tag tag ∈ sweep t) :
    Word.closer <:+: t.drop 2 := by
  obtain ⟨front, rest, tail, rfl, hread⟩ := exists_read?_of_mem_sweep h
  obtain ⟨blanks, c, body, rfl, -⟩ := read?_eq_some_iff.1 hread
  have hinside : blanks ++ c :: body ++ Word.closer ++ tail <:+
      (front ++ (opener ++ blanks ++ c :: body ++ Word.closer ++ tail)).drop 2 := by
    refine List.suffix_of_suffix_length_le ⟨front ++ opener, ?_⟩ (List.drop_suffix 2 _) ?_
    · simp only [List.append_assoc]
    · simp only [List.length_append, List.length_drop, opener, List.length_cons]
      omega
  exact List.IsInfix.trans ⟨blanks ++ c :: body, tail, rfl⟩ hinside.isInfix

/-! ### Going on behind a text -/

theorem read?_append_of_read? {t tail : Text} {tag : Tag} (h : read? t = some (tag, tail))
    (more : Text) : read? (t ++ more) = some (tag, tail ++ more) := by
  obtain ⟨blanks, c, body, rfl, rfl, hb, hc, hp, hbody⟩ := read?_eq_some_iff.1 h
  rw [List.append_assoc]
  exact read?_append hb hc hp hbody (tail ++ more)

/-- Between its opening and its closing mark a tag has no closing mark. -/
theorem not_closer_inside {blanks body : Text} {c : Char} (hb : ∀ d ∈ blanks, isBlank d = true)
    (hp : c ≠ '%') (hbody : ¬ Word.closer <:+: body ++ ['%']) :
    ¬ Word.closer <:+: blanks ++ c :: (body ++ ['%']) := by
  have hpercent : '%' ∉ blanks := fun hm => Bool.false_ne_true (hb '%' hm)
  rw [Word.closer, Text.infix_pair_append_iff]
  rintro (hi | hi | ⟨hlast, -⟩)
  · exact hpercent (hi.subset List.mem_cons_self)
  · rw [List.infix_cons_iff, List.cons_prefix_cons] at hi
    exact hi.elim (fun h => hp h.1.symm) hbody
  · exact hpercent (List.mem_of_getLast? hlast)

/-- No tag starts in front of a whole tag, whatever follows, if none starts there as it is. -/
theorem read?_append_eq_none {c : Char} {t : Text} {tag : Tag} (h : read? (c :: t) = none)
    (ht : .tag tag ∈ sweep t) (more : Text) : read? (c :: (t ++ more)) = none := by
  rw [Option.eq_none_iff_forall_ne_some]
  rintro ⟨read, tail⟩ hread
  obtain ⟨blanks, d, body, heq, -, hb, hd, hp, hbody⟩ := read?_eq_some_iff.1 hread
  -- a tag that ends behind the text would hold the closing mark of the tag that stands in it
  have hcut : ∀ rest, c :: t ++ rest ≠ opener ++ (blanks ++ d :: (body ++ ['%'])) := by
    intro rest hrest
    have hcloser := closer_of_mem_sweep ht
    cases t with
    | nil => exact absurd hcloser.length_le (by simp [Word.closer])
    | cons e t =>
      obtain ⟨-, -, hinside⟩ : '[' = c ∧ '%' = e ∧ t ++ rest = blanks ++ d :: (body ++ ['%']) := by
        simpa [opener, eq_comm] using hrest
      refine not_closer_inside hb hp hbody (hinside ▸ hcloser.trans ?_)
      exact (List.drop_suffix 1 t).isInfix.trans (List.prefix_append t rest).isInfix
  have hsplit : c :: t ++ more = opener ++ (blanks ++ d :: (body ++ ['%'])) ++ ']' :: tail := by
    rw [List.cons_append, heq]
    simp [Word.closer]
  rcases List.append_eq_append_iff.1 hsplit with ⟨rest, hrest, -⟩ | ⟨rest, hrest, htail⟩
  · exact hcut rest hrest.symm
  · cases rest with
    | nil =>
      rw [List.append_nil] at hrest
      exact hcut [] (by rw [List.append_nil, hrest])
    | cons e rest =>
      -- the tag ends in the text, so it is read there
      obtain ⟨rfl, -⟩ := List.cons.inj htail
      have hfound := read?_append hb hd hp hbody rest
      have hwhole : c :: t = opener ++ blanks ++ d :: body ++ Word.closer ++ rest := by
        rw [hrest]
        simp [Word.closer]
      rw [← hwhole, h] at hfound
      cases hfound

/-! ### The remainder -/

theorem gapsOf_of_forall {ps : List Piece} (h : ∀ tag, .tag tag ∉ ps) :
    gapsOf ps = [ps.flatMap Piece.source] := by
  induction ps with
  | nil => rfl
  | cons p ps ih =>
    have hrest := ih fun tag hm => h tag (List.mem_cons_of_mem p hm)
    cases p with
    | plain c => rw [gapsOf, hrest]; rfl
    | tag t => exact absurd List.mem_cons_self (h t)

theorem exists_gapsOf_of_mem {ps : List Piece} {tag : Tag} (h : .tag tag ∈ ps) :
    ∃ gap next gaps, gapsOf ps = gap :: next :: gaps := by
  induction ps with
  | nil => cases h
  | cons p ps ih =>
    cases p with
    | plain c =>
      rcases List.mem_cons.1 h with he | h
      · cases he
      · obtain ⟨gap, next, gaps, hgaps⟩ := ih h
        exact ⟨c :: gap, next, gaps, by rw [gapsOf, hgaps]; rfl⟩
    | tag t =>
      obtain ⟨next, gaps, hgaps⟩ := List.exists_cons_of_ne_nil (gapsOf_ne_nil ps)
      exact ⟨[], next, gaps, by rw [gapsOf, hgaps]⟩

theorem remainder_eq_self {t : Text} (h : ∀ tag, .tag tag ∉ sweep t) : remainder t = t := by
  simp only [remainder, gaps, gapsOf_of_forall h, List.getLast_singleton, flatMap_source_sweep]

theorem remainder_of_read? {t tail : Text} {tag : Tag} (h : read? t = some (tag, tail)) :
    remainder t = remainder tail := by
  simp only [remainder, gaps, sweep_of_read? h, gapsOf]
  exact List.getLast_cons (gapsOf_ne_nil _)

theorem remainder_cons {c : Char} {t : Text} {tag : Tag} (h : read? (c :: t) = none)
    (ht : .tag tag ∈ sweep t) : remainder (c :: t) = remainder t := by
  obtain ⟨gap, next, gaps', hgaps⟩ := exists_gapsOf_of_mem ht
  simp only [remainder, gaps, sweep_of_read?_eq_none h, gapsOf, hgaps, lengthenFirst]
  rfl

/-- The remainder begins where the last tag stops. -/
theorem exists_append_remainder (t : Text) : ∃ front, t = front ++ remainder t ∧
    Text.byteLength front = ((scan t).getLast?.map Placed.stop).getD 0 := by
  suffices hall : ∀ {offset : Nat} {t : Text} {ps : List Placed} {gaps : List Text}
      (_ : Spaced offset t ps gaps) (hne : gaps ≠ []), ∃ front, t = front ++ gaps.getLast hne ∧
        offset + Text.byteLength front = (ps.getLast?.map Placed.stop).getD offset by
    obtain ⟨front, hfront, hstop⟩ := hall (spaced_scan t) (gapsOf_ne_nil _)
    exact ⟨front, hfront, by rw [← hstop, Nat.zero_add]⟩
  intro offset t ps gaps hspaced
  induction hspaced with
  | last offset gap => exact fun _ => ⟨[], rfl, rfl⟩
  | @tag offset gap rest p ps gaps start behind ih =>
    intro hne
    have hgaps : gaps ≠ [] := by
      cases behind <;> exact List.cons_ne_nil _ _
    obtain ⟨front, hfront, hstop⟩ := ih hgaps
    refine ⟨gap ++ p.tag.source ++ front, ?_, ?_⟩
    · rw [List.getLast_cons hgaps, List.append_assoc _ front, ← hfront]
    · have hplace : offset + Text.byteLength (gap ++ p.tag.source ++ front) =
          p.stop + Text.byteLength front := by
        simp only [Placed.stop, start, Text.byteLength_append, Nat.add_assoc]
      rw [hplace, hstop, List.getLast?_cons]
      cases ps.getLast? <;> rfl

/-! ### Joined texts -/

/-- Two texts are swept one after the other, unless the remainder of the first and the first
character of the second have an opening mark. -/
theorem sweep_append_of_remainder {t more : Text}
    (h : ¬ opener <:+: remainder t ++ more.take 1) :
    sweep (t ++ more) = sweep t ++ sweep more := by
  induction t using sweepInduction with
  | nil => rfl
  | tag t tag tail hread ih =>
    rw [remainder_of_read? hread] at h
    rw [sweep_of_read? hread, sweep_of_read? (read?_append_of_read? hread more), ih h,
      List.cons_append]
  | plain c t hread ih =>
    by_cases ht : ∃ tag, .tag tag ∈ sweep t
    · obtain ⟨tag, ht⟩ := ht
      rw [remainder_cons hread ht] at h
      rw [sweep_of_read?_eq_none hread, List.cons_append,
        sweep_of_read?_eq_none (read?_append_eq_none hread ht more), ih h, List.cons_append]
    · have hplain : ∀ tag, .tag tag ∉ sweep (c :: t) := by
        intro tag hm
        rw [sweep_of_read?_eq_none hread] at hm
        rcases List.mem_cons.1 hm with he | hm
        · cases he
        · exact ht ⟨tag, hm⟩
      rw [remainder_eq_self hplain] at h
      have hnone : ¬ opener <:+: c :: t ++ [].take 1 := by
        rw [List.take_nil, List.append_nil]
        exact fun hi => h (hi.trans (List.infix_append_left ..))
      have hself := sweep_append hnone
      rw [List.append_nil, sweep_nil, List.append_nil] at hself
      rw [sweep_append h, hself]

/-- The tags of two texts are those of their join, the ones of the second further back. -/
theorem scan_append_of_remainder {t more : Text}
    (h : ¬ opener <:+: remainder t ++ more.take 1) :
    scan (t ++ more) = scan t ++ (scan more).map (Placed.shift (Text.byteLength t)) := by
  rw [scan, sweep_append_of_remainder h, placedFrom_append, flatMap_source_sweep, placedFrom_add,
    scan, scan]

/-- A remainder that has no opening mark and does not end with a bracket makes none with what
follows. -/
theorem not_opener_remainder {t : Text} (hopen : ¬ opener <:+: remainder t)
    (hend : ¬ ['['] <:+ remainder t) (more : Text) :
    ¬ opener <:+: remainder t ++ more.take 1 := by
  rw [opener, Text.infix_pair_append_iff]
  rintro (hi | hi | ⟨hlast, -⟩)
  · exact hopen hi
  · have hle := hi.length_le
    have htake := List.length_take_le 1 more
    simp only [List.length_cons, List.length_nil] at hle
    omega
  · exact hend (List.singleton_suffix_iff_getLast?_eq_some.2 hlast)

end Shortcodes.Tag
