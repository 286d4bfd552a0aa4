import Shortcodes.Proofs.Pattern
import Shortcodes.Proofs.Tag.Scan

/-!
# The pattern of tags

Tags have a pattern (`Tag.pattern`): the opening mark, blanks, a name that is as short as can be,
optionally blanks and arguments that are as short as can be, blanks and the closing mark. Reading a
tag is matching this pattern, whichever of its ways is the first (`read?_eq_first?`): the name ends
at the first blank or at the closing mark, and the arguments lose the blanks around them. So the
tags of a text are the leftmost matches of the pattern (`scan_eq_occurrences`).
-/

namespace Shortcodes

namespace Tag

open Pattern

/-! ### The pattern of tags -/

/-- The closing mark behind blanks. -/
def closing : Pattern := .seq (.many true isBlank) (.pair '%' ']')

/-- Blanks and the arguments behind them. -/
def spaced : Pattern :=
  .seq (.one isBlank) (.seq (.many true isBlank) (.group 2 (.many false fun _ => true)))

/-- The name and what follows it. -/
def named : Pattern :=
  .seq (.group 1 (.seq (.one fun c => !isBlank c && c != '%') (.many false fun c => !isBlank c)))
    (.seq (.optional spaced) closing)

/-- The pattern of a tag. The first group is the name and the second one the arguments. -/
def pattern : Pattern := .seq (.pair '[' '%') (.seq (.many true isBlank) named)

theorem first?_closing (t : Text) :
    closing.first? t = (Text.after? Word.closer (Text.trimStart t)).map fun rest =>
      ⟨t.takeWhile isBlank ++ Word.closer, [], rest⟩ := by
  have hblank : ∀ front c rest, t = front ++ c :: rest → isBlank c = true →
      (pair '%' ']').first? (t.dropWhile isBlank) = none →
        (pair '%' ']').first? (c :: rest) = none := by
    intro front c rest _ hc _
    rw [first?_pair, Text.after?, if_neg]
    · rfl
    · rintro rfl
      cases hc
  rw [closing, first?_greedy_seq hblank, first?_pair, Option.map_map]
  rfl

/-- Of arguments the shortest part is taken behind which nothing but blanks stands before a closing
mark: all up to the first closing mark, less the blanks at its end. -/
theorem divided?_arguments (t : Text) :
    divided? (.many false fun _ => true) closing t = (Text.cut? Word.closer t).map fun r =>
      (Text.trimEnd r.1, ⟨r.1 ++ Word.closer, [], r.2⟩) := by
  induction t with
  | nil => rfl
  | cons c t ih =>
    rw [divided?_lazy_cons, if_pos rfl, ih, first?_closing]
    cases ha : Text.after? Word.closer (Text.trimStart (c :: t)) with
    | some rest =>
      -- nothing is taken, and the first closing mark is the one behind the blanks
      have hblanks : ∀ d ∈ (c :: t).takeWhile isBlank, isBlank d = true :=
        fun d hd => List.mem_takeWhile_imp hd
      have hpercent : '%' ∉ (c :: t).takeWhile isBlank :=
        fun hm => Bool.false_ne_true (hblanks _ hm)
      have hsplit : (c :: t).takeWhile isBlank ++ (Word.closer ++ rest) = c :: t := by
        rw [← Text.after?_eq_some_iff.1 ha, Text.trimStart, List.takeWhile_append_dropWhile]
      have hcut : Text.cut? Word.closer (c :: t) = some ((c :: t).takeWhile isBlank, rest) := by
        conv_lhs => rw [← hsplit]
        rw [Word.closer, Text.cut?_append_of_not_mem hpercent, Text.cut?_self_append (by simp),
          Option.map_some, List.append_nil]
      rw [hcut, Option.map_some, Option.map_some, Option.map_some, Option.some_or,
        Text.trimEnd_blanks hblanks]
    | none =>
      have hafter : Text.after? Word.closer (c :: t) = none := by
        by_cases hc : isBlank c = true
        · rw [Word.closer, Text.after?, if_neg]
          rintro rfl
          cases hc
        · rwa [Text.trimStart, List.dropWhile_cons_of_neg hc] at ha
      rw [Option.map_none, Option.map_none, Option.none_or, Text.cut?, hafter]
      simp only [Option.map_map]
      cases hcut : Text.cut? Word.closer t with
      | none => rfl
      | some r =>
        -- not all that is taken is blank, or the closing mark could follow at once
        have hletter : ∃ d ∈ c :: r.1, isBlank d = false := by
          by_contra hall
          simp only [not_exists, not_and, Bool.not_eq_false] at hall
          have hhead : ∀ d ∈ (Word.closer ++ r.2).head?, isBlank d = false := by
            intro d hd
            cases hd
            rfl
          have hstart := Text.trimStart_blanks_append hall hhead
          rw [Text.eq_of_cut? hcut, ← List.cons_append, ← List.cons_append, List.append_assoc,
            hstart, Text.after?_append] at ha
          cases ha
        simp only [Option.map_some, Function.comp]
        rw [Text.trimEnd_cons hletter]
        rfl

/-- Arguments and what follows them. -/
def argued : Pattern := .seq (.group 2 (.many false fun _ => true)) closing

theorem first?_argued (t : Text) :
    argued.first? t = (Text.cut? Word.closer t).map fun r =>
      ⟨r.1 ++ Word.closer, [(2, Text.trimEnd r.1)], r.2⟩ := by
  rw [argued, first?_group_seq, divided?_arguments, Option.map_map]
  rfl

/-- Behind a name that a blank ends, all up to the closing mark is arguments and blanks around
them. -/
theorem first?_spaced {c : Char} (hc : isBlank c = true) (t : Text) :
    (Pattern.seq (.optional spaced) closing).first? (c :: t) =
      (Text.cut? Word.closer (c :: t)).map fun r =>
        ⟨r.1 ++ Word.closer, [(2, Text.trim r.1)], r.2⟩ := by
  have hblanks : ∀ d ∈ c :: t.takeWhile isBlank, isBlank d = true := by
    intro d hd
    rcases List.mem_cons.1 hd with rfl | hd
    · exact hc
    · exact List.mem_takeWhile_imp hd
  have hpercent : '%' ∉ c :: t.takeWhile isBlank := fun hm => Bool.false_ne_true (hblanks _ hm)
  have hcut : Text.cut? Word.closer (c :: t) = (Text.cut? Word.closer (t.dropWhile isBlank)).map
      fun r => (c :: t.takeWhile isBlank ++ r.1, r.2) := by
    conv_lhs => rw [← List.takeWhile_append_dropWhile (p := isBlank) (l := t), ← List.cons_append]
    exact Text.cut?_append_of_not_mem hpercent (t.dropWhile isBlank)
  -- a shorter run of blanks does not help: there is no closing mark behind it either
  have hgreedy : ∀ front d rest, t = front ++ d :: rest → isBlank d = true →
      argued.first? (t.dropWhile isBlank) = none → argued.first? (d :: rest) = none := by
    intro front d rest hsplit _ hnone
    rw [first?_argued, Option.map_eq_none_iff] at hnone ⊢
    rw [hnone, Option.map_none, Text.cut?_eq_none_iff, hsplit] at hcut
    rw [Text.cut?_eq_none_iff]
    exact fun hi => hcut (hi.trans (List.suffix_append (c :: front) (d :: rest)).isInfix)
  have hassoc : (Pattern.seq spaced closing).first? (c :: t) =
      ((Pattern.seq (.many true isBlank) argued).first? t).map (Way.join ⟨[c], [], t⟩) := by
    rw [spaced, first?_seq_assoc, first?_one_seq, if_pos hc, first?_seq_assoc]
    rfl
  rw [first?_optional_seq, hassoc, first?_greedy_seq hgreedy, first?_argued, hcut]
  cases hbehind : Text.cut? Word.closer (t.dropWhile isBlank) with
  | none =>
    have hafter : Text.after? Word.closer (t.dropWhile isBlank) = none := by
      rw [Text.after?_eq_none_iff]
      exact fun hp => Text.cut?_eq_none_iff.1 hbehind hp.isInfix
    rw [first?_closing, Text.trimStart, List.dropWhile_cons_of_pos hc, hafter]
    rfl
  | some r =>
    have hhead : ∀ d ∈ r.1.head?, isBlank d = false := by
      intro d hd
      obtain ⟨body, hbody⟩ := List.head?_eq_some_iff.1 hd
      have hdrop := List.head?_dropWhile_not isBlank t
      rw [Text.eq_of_cut? hbehind, hbody] at hdrop
      exact hdrop
    have htrim : Text.trim (c :: t.takeWhile isBlank ++ r.1) = Text.trimEnd r.1 := by
      rw [Text.trim, Text.trimStart_blanks_append hblanks hhead]
    simp only [Option.map_some, Option.some_or]
    rw [htrim]
    simp only [Way.join, List.append_assoc, List.cons_append, List.nil_append]

/-- Where no blank stands there are no arguments. -/
theorem first?_unspaced {t : Text} (h : ∀ c ∈ t.head?, isBlank c = false) :
    (Pattern.seq (.optional spaced) closing).first? t =
      (Text.after? Word.closer t).map fun rest => ⟨Word.closer, [], rest⟩ := by
  cases t with
  | nil => rfl
  | cons c t =>
    have hc : ¬ isBlank c = true := by
      rw [h c rfl]
      exact Bool.false_ne_true
    have hnone : (Pattern.seq spaced closing).first? (c :: t) = none := by
      rw [spaced, first?_seq_assoc, first?_one_seq, if_neg hc]
    rw [first?_optional_seq, hnone, Option.none_or, first?_closing, Text.trimStart,
      List.dropWhile_cons_of_neg hc, List.takeWhile_cons_of_neg hc]
    rfl

/-- The arguments that follow a name. -/
def kept (after : Text) : List (Nat × Text) := if after = [] then [] else [(2, Text.trim after)]

/-- Of a name the shortest part is taken behind which a blank or the closing mark stands. -/
theorem divided?_name (t : Text) :
    divided? (.many false fun c => !isBlank c) (.seq (.optional spaced) closing) t =
      (Text.cut? Word.closer t).map fun r =>
        (r.1.takeWhile fun c => !isBlank c,
          ⟨r.1 ++ Word.closer, kept (r.1.dropWhile fun c => !isBlank c), r.2⟩) := by
  induction t with
  | nil => rfl
  | cons c t ih =>
    rw [divided?_lazy_cons]
    by_cases hc : isBlank c = true
    · have hclass : ¬ (!isBlank c) = true := by
        rw [hc]
        exact Bool.false_ne_true
      have hpercent : '%' ∉ [c] := by
        rw [List.mem_singleton]
        rintro rfl
        cases hc
      have hcut : Text.cut? Word.closer (c :: t) =
          (Text.cut? Word.closer t).map fun r => (c :: r.1, r.2) :=
        Text.cut?_append_of_not_mem hpercent t
      -- the name ends here, and arguments follow it if a closing mark does
      rw [first?_spaced hc, if_neg hclass, Option.or_none, hcut]
      simp only [Option.map_map]
      refine congrArg (Option.map · (Text.cut? Word.closer t)) (funext fun r => ?_)
      simp only [Function.comp]
      rw [List.takeWhile_cons_of_neg (p := fun c => !isBlank c) hclass,
        List.dropWhile_cons_of_neg (p := fun c => !isBlank c) hclass]
      rfl
    · have hclass : (!isBlank c) = true := by simpa using hc
      have hhead : ∀ d ∈ (c :: t).head?, isBlank d = false := by
        intro d hd
        cases hd
        simpa using hc
      rw [first?_unspaced hhead, if_pos hclass, ih]
      cases ha : Text.after? Word.closer (c :: t) with
      | some rest =>
        have hcut : Text.cut? Word.closer (c :: t) = some ([], rest) := by
          rw [Text.cut?, ha]
        rw [hcut]
        rfl
      | none =>
        have hcut : Text.cut? Word.closer (c :: t) =
            (Text.cut? Word.closer t).map fun r => (c :: r.1, r.2) := by
          rw [Text.cut?, ha]
        rw [hcut, Option.map_none, Option.map_none, Option.none_or]
        simp only [Option.map_map]
        refine congrArg (Option.map · (Text.cut? Word.closer t)) (funext fun r => ?_)
        simp only [Function.comp]
        rw [List.takeWhile_cons_of_pos (p := fun c => !isBlank c) hclass,
          List.dropWhile_cons_of_pos (p := fun c => !isBlank c) hclass]
        rfl

/-- The tag that a way of the pattern shows. -/
def ofWay? (w : Way) : Option Tag :=
  (w.groups.lookup 1).map fun name => ⟨name, (w.groups.lookup 2).getD [], w.taken⟩

theorem first?_named (c : Char) (t : Text) :
    named.first? (c :: t) = if !isBlank c && c != '%' then (Text.cut? Word.closer t).map fun r =>
        ⟨c :: r.1 ++ Word.closer, (1, c :: r.1.takeWhile fun c => !isBlank c) ::
          kept (r.1.dropWhile fun c => !isBlank c), r.2⟩
      else none := by
  rw [named, first?_group_seq, divided?_one_seq]
  split
  · rw [divided?_name, Option.map_map, Option.map_map]
    rfl
  · rfl

/-- A name begins behind all blanks. -/
theorem first?_pattern (t : Text) :
    pattern.first? t = (Text.after? opener t).bind fun inside =>
      (named.first? (Text.trimStart inside)).map fun w =>
        ⟨opener ++ (inside.takeWhile isBlank ++ w.taken), w.groups, w.rest⟩ := by
  have hgreedy : ∀ inside front c rest, inside = front ++ c :: rest → isBlank c = true →
      named.first? (inside.dropWhile isBlank) = none → named.first? (c :: rest) = none := by
    intro inside front c rest _ hc _
    rw [first?_named, hc]
    rfl
  rw [pattern, first?_pair_seq]
  refine congrArg (Option.bind (Text.after? opener t)) (funext fun inside => ?_)
  rw [first?_greedy_seq (hgreedy inside), Option.map_map]
  rfl

/-- Every way of the pattern shows a tag. -/
theorem exists_ofWay? {t : Text} {w : Way} (h : pattern.first? t = some w) :
    ∃ tag, ofWay? w = some tag := by
  rw [first?_pattern] at h
  obtain ⟨inside, -, h⟩ := Option.bind_eq_some_iff.1 h
  obtain ⟨v, hv, rfl⟩ := Option.map_eq_some_iff.1 h
  rw [named, first?_group_seq] at hv
  obtain ⟨r, -, rfl⟩ := Option.map_eq_some_iff.1 hv
  exact ⟨_, rfl⟩

/-- Reading a tag is matching its pattern. -/
theorem read?_eq_first? (t : Text) :
    read? t = (pattern.first? t).bind fun w => (ofWay? w).map fun tag => (tag, w.rest) := by
  rw [read?, first?_pattern, opener]
  cases Text.after? ['[', '%'] t with
  | none => rfl
  | some inside =>
    simp only [Option.bind_eq_bind, Option.bind_some]
    cases htrim : Text.trimStart inside with
    | nil => rfl
    | cons c rest =>
      have hc : isBlank c = false := by
        have hhead := List.head?_dropWhile_not isBlank inside
        rw [← Text.trimStart, htrim, List.head?_cons] at hhead
        exact hhead
      rw [first?_named, hc]
      by_cases hp : c = '%'
      · subst hp
        rfl
      · have hname : (!false && c != '%') = true := by simpa using hp
        rw [if_pos hname]
        simp only [if_neg hp]
        rw [← Word.closer]
        cases Text.cut? Word.closer rest with
        | none => rfl
        | some r =>
          -- a group that matched nothing and one that did not match are the same to the reader
          have harguments : ((kept (r.1.dropWhile fun d => !isBlank d)).lookup 2).getD [] =
              Text.trim (r.1.dropWhile fun d => !isBlank d) := by
            rw [kept]
            split
            · next hnil => rw [hnil]; rfl
            · rfl
          simp only [Option.bind_some, Option.map_some, ofWay?, List.append_assoc]
          rw [← harguments]
          rfl

/-- The tags of a text are the leftmost matches of the pattern. -/
theorem scan_eq_occurrences (t : Text) :
    scan t = (pattern.occurrences t).filterMap fun p =>
      (ofWay? p.2).map fun tag => ⟨tag, p.1⟩ := by
  suffices hall : ∀ fuel offset t, placedFrom offset (sweepUpTo fuel t) =
      (pattern.occurrencesUpTo fuel offset t).filterMap fun p =>
        (ofWay? p.2).map fun tag => ⟨tag, p.1⟩ from
    hall t.length 0 t
  intro fuel
  induction fuel with
  | zero => intro offset t; rfl
  | succ fuel ih =>
    intro offset t
    -- both go on behind a match and pass over a character where there is none
    cases t with
    | nil => rfl
    | cons c t =>
      have hread := read?_eq_first? (c :: t)
      rw [sweepUpTo, occurrencesUpTo]
      cases hfirst : pattern.first? (c :: t) with
      | none =>
        rw [hfirst] at hread
        rw [hread]
        exact ih (offset + c.utf8Size) t
      | some w =>
        obtain ⟨tag, htag⟩ := exists_ofWay? hfirst
        obtain ⟨name, -, rfl⟩ := Option.map_eq_some_iff.1 htag
        rw [hfirst, Option.bind_some, htag, Option.map_some] at hread
        rw [hread]
        simp only [placedFrom, List.filterMap_cons, htag, Option.map_some, ih]

end Tag

end Shortcodes
