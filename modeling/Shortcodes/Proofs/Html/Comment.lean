import Shortcodes.Proofs.Html.Crossing
import Shortcodes.Proofs.Html.Reference
import Shortcodes.Proofs.Html.Rereading.Pieces

/-!
# Where comments end

A comment is complete if markup reads it to one comment token whatever follows it. What stands in it
behind `<!--` is `>` or `->` at once, or goes up to the first `-->` or `--!>` (`isComment_iff`). The
reader of loose tags knows only `-->`, which stands in a complete comment at its very end or nowhere
(`LooseTag.infix_cases`).
-/

namespace Shortcodes.Html

/-! ### Line breaks -/

/-- What has no line break once these are written alike has had none before. -/
theorem normalizeBreaks_eq_self_of_not_mem {t : Text} (h : '\n' ∉ Token.normalizeBreaks t) :
    Token.normalizeBreaks t = t := by
  induction t using breaksInduction with
  | nil => rfl
  | pair t _ =>
    rw [normalizeBreaks_pair] at h
    exact absurd List.mem_cons_self h
  | lone t ht _ =>
    rw [normalizeBreaks_lone ht] at h
    exact absurd List.mem_cons_self h
  | other c t hc ih =>
    rw [normalizeBreaks_cons hc] at h ⊢
    rw [ih fun hm => h (List.mem_cons_of_mem c hm)]

theorem eq_nil_of_normalizeBreaks {t : Text} (h : Token.normalizeBreaks t = []) : t = [] := by
  have hself := normalizeBreaks_eq_self_of_not_mem (t := t) (by rw [h]; exact List.not_mem_nil)
  rw [← hself, h]

/-- A character that is no line break parts the text where it stands. -/
theorem exists_split_of_normalizeBreaks {t a b : Text} {q : Char} (hq : q ≠ '\n')
    (h : Token.normalizeBreaks t = a ++ q :: b) : ∃ front back, t = front ++ q :: back ∧
      Token.normalizeBreaks front = a ∧ Token.normalizeBreaks back = b := by
  induction t using breaksInduction generalizing a with
  | nil => simp [Token.normalizeBreaks] at h
  | pair t ih =>
    rw [normalizeBreaks_pair] at h
    cases a with
    | nil => exact absurd (List.cons.inj h).1.symm hq
    | cons x a =>
      obtain ⟨rfl, hrest⟩ := List.cons.inj h
      obtain ⟨front, back, rfl, rfl, hback⟩ := ih hrest
      exact ⟨'\r' :: '\n' :: front, back, rfl, normalizeBreaks_pair front, hback⟩
  | lone t ht ih =>
    rw [normalizeBreaks_lone ht] at h
    cases a with
    | nil => exact absurd (List.cons.inj h).1.symm hq
    | cons x a =>
      obtain ⟨rfl, hrest⟩ := List.cons.inj h
      obtain ⟨front, back, rfl, rfl, hback⟩ := ih hrest
      -- there is no line feed behind the carriage return in the front part either
      have hfront : front.head? ≠ some '\n' := by
        cases front with
        | nil =>
          intro he
          cases he
        | cons y front => exact ht
      exact ⟨'\r' :: front, back, rfl, normalizeBreaks_lone hfront, hback⟩
  | other c t hc ih =>
    rw [normalizeBreaks_cons hc] at h
    cases a with
    | nil =>
      obtain ⟨rfl, rfl⟩ := List.cons.inj h
      exact ⟨[], t, rfl, rfl, rfl⟩
    | cons x a =>
      obtain ⟨rfl, hrest⟩ := List.cons.inj h
      obtain ⟨front, back, rfl, rfl, hback⟩ := ih hrest
      exact ⟨c :: front, back, rfl, normalizeBreaks_cons hc front, hback⟩

/-- A beginning without line breaks is there before these are written alike. -/
theorem exists_of_normalizeBreaks_eq_append {t p b : Text} (hp : '\n' ∉ p)
    (h : Token.normalizeBreaks t = p ++ b) : ∃ back, t = p ++ back ∧
      Token.normalizeBreaks back = b := by
  induction p generalizing t with
  | nil => exact ⟨t, rfl, h⟩
  | cons q p ih =>
    rw [List.mem_cons, not_or] at hp
    have hsplit : Token.normalizeBreaks t = [] ++ q :: (p ++ b) := h
    obtain ⟨front, rest, rfl, hfront, hrest⟩ :=
      exists_split_of_normalizeBreaks (Ne.symm hp.1) hsplit
    obtain ⟨back, rfl, hback⟩ := ih hp.2 hrest
    rw [eq_nil_of_normalizeBreaks hfront]
    exact ⟨back, rfl, hback⟩

/-- A part that begins with no line feed and has no carriage return stays where it is. -/
theorem normalizeBreaks_append_append {p : Text} (hp : '\r' ∉ p) (hne : p ≠ [])
    (hhead : p.head? ≠ some '\n') (front back : Text) :
    Token.normalizeBreaks (front ++ (p ++ back)) =
      Token.normalizeBreaks front ++ (p ++ Token.normalizeBreaks back) := by
  have hjoint : (p ++ back).head? ≠ some '\n' := by
    rwa [List.head?_append_of_ne_nil p hne]
  rw [normalizeBreaks_append_of_head hjoint, normalizeBreaks_append hp]

namespace Token

/-! ### Marks -/

/-- The marks that end a comment in markup. -/
def commentMarks : List Text := ["-->".toList, "--!>".toList]

/-- The mark ends a comment with this body: none begins before it. -/
structure Ends (body mark : Text) : Prop where
  mem : mark ∈ commentMarks
  first : ∀ m ∈ commentMarks, ¬ m <:+: body ++ mark.dropLast

theorem eq_of_mem_commentMarks {mark : Text} (h : mark ∈ commentMarks) :
    mark = ['-', '-', '>'] ∨ mark = ['-', '-', '!', '>'] := by
  simpa [commentMarks] using h

theorem normalizeBreaks_append_mark {mark : Text} (h : mark ∈ commentMarks) (front back : Text) :
    normalizeBreaks (front ++ (mark ++ back)) =
      normalizeBreaks front ++ (mark ++ normalizeBreaks back) := by
  rcases eq_of_mem_commentMarks h with rfl | rfl
  · exact normalizeBreaks_append_append (by decide) (by decide) (by decide) front back
  · exact normalizeBreaks_append_append (by decide) (by decide) (by decide) front back

/-- Writing line breaks alike neither makes nor breaks a mark. -/
theorem infix_normalizeBreaks_iff {m t : Text} (hm : m ∈ commentMarks) :
    m <:+: normalizeBreaks t ↔ m <:+: t := by
  constructor
  · rintro ⟨a, b, h⟩
    rw [List.append_assoc] at h
    -- the text parts at the first hyphen of the mark, and the rest of the mark begins what is behind
    rcases eq_of_mem_commentMarks hm with rfl | rfl
    all_goals
      obtain ⟨front, rest, rfl, -, hrest⟩ := exists_split_of_normalizeBreaks (by decide) h.symm
      obtain ⟨back, rfl, -⟩ := exists_of_normalizeBreaks_eq_append (by decide) hrest
      exact ⟨front, back, by simp⟩
  · rintro ⟨front, back, rfl⟩
    rw [List.append_assoc, normalizeBreaks_append_mark hm]
    exact ⟨_, _, List.append_assoc _ _ _⟩

/-! ### Bodies -/

/-- A body that is read with something behind it is ended by a mark. -/
theorem exists_ends_of_commentBody {t body rest : Text} (h : commentBody t = (body, rest))
    (hrest : rest ≠ []) : ∃ mark, Ends body mark ∧ t = body ++ (mark ++ rest) := by
  induction t using commentBody.induct generalizing body with
  | case1 r =>
    obtain ⟨rfl, rfl⟩ := Prod.mk.inj h
    exact ⟨['-', '-', '>'], ⟨by decide, by decide⟩, rfl⟩
  | case2 r =>
    obtain ⟨rfl, rfl⟩ := Prod.mk.inj h
    exact ⟨['-', '-', '!', '>'], ⟨by decide, by decide⟩, rfl⟩
  | case3 | case4 | case5 | case6 =>
    obtain ⟨rfl, rfl⟩ := Prod.mk.inj h
    exact absurd rfl hrest
  | case7 c t hclose hbang hempty hyphen hmark content tail hcontent ih =>
    have hcons : commentBody (c :: t) = (c :: content, tail) := by
      rw [commentBody, hcontent]
      · exact hclose
      · exact hbang
      · exact hempty
      · exact hyphen
      · exact hmark
    obtain ⟨rfl, rfl⟩ := Prod.mk.inj (hcons.symm.trans h)
    obtain ⟨mark, hends, rfl⟩ := ih hcontent
    refine ⟨mark, ⟨hends.mem, fun m hm => ?_⟩, rfl⟩
    rw [List.cons_append, List.infix_cons_iff, not_or]
    refine ⟨fun hprefix => ?_, hends.first m hm⟩
    -- a mark at the first character would have ended the body there
    have hall : m <+: c :: (content ++ (mark ++ tail)) := by
      refine hprefix.trans (List.cons_prefix_cons.2 ⟨rfl, (List.prefix_append_right_inj _).2 ?_⟩)
      exact (List.dropLast_prefix mark).trans (List.prefix_append mark tail)
    obtain ⟨r, hr⟩ := hall
    rcases eq_of_mem_commentMarks hm with rfl | rfl
    · exact hclose r (List.cons.inj hr).1.symm (List.cons.inj hr).2.symm
    · exact hbang r (List.cons.inj hr).1.symm (List.cons.inj hr).2.symm

theorem Ends.of_cons {c : Char} {body mark : Text} (h : Ends (c :: body) mark) : Ends body mark :=
  ⟨h.mem, fun m hm hi => h.first m hm (hi.trans (List.suffix_cons c _).isInfix)⟩

/-- A body goes up to the first mark, whatever follows that. -/
theorem commentBody_of_ends {body mark : Text} (h : Ends body mark) (rest : Text) :
    commentBody (body ++ (mark ++ rest)) = (body, rest) := by
  induction body with
  | nil => rcases eq_of_mem_commentMarks h.mem with rfl | rfl <;> rfl
  | cons c body ih =>
    have hbody := ih h.of_cons
    -- a mark that begins at the first character would end before the one behind the body does
    have hnone : ∀ m ∈ commentMarks, ¬ m <+: c :: (body ++ (mark ++ rest)) := by
      intro m hm hp
      have hd : c :: body ++ mark.dropLast <+: c :: (body ++ (mark ++ rest)) := by
        refine List.cons_prefix_cons.2 ⟨rfl, (List.prefix_append_right_inj _).2 ?_⟩
        exact (List.dropLast_prefix mark).trans (List.prefix_append mark rest)
      have hlt : ¬ m.length ≤ (c :: body ++ mark.dropLast).length := fun hle =>
        h.first m hm (List.prefix_of_prefix_length_le hp hd hle).isInfix
      rw [List.length_append, List.length_dropLast, List.length_cons] at hlt
      rcases eq_of_mem_commentMarks hm with rfl | rfl
      · rcases eq_of_mem_commentMarks h.mem with rfl | rfl <;> simp at hlt
      · rcases eq_of_mem_commentMarks h.mem with rfl | rfl
        · -- only the longer mark in front of the shorter one would fit, and it does not match
          cases body with
          | nil => simp at hp
          | cons => simp at hlt
        · simp at hlt
    obtain ⟨d, e, f, u, hu⟩ : ∃ d e f u, body ++ (mark ++ rest) = d :: e :: f :: u := by
      rcases eq_of_mem_commentMarks h.mem with rfl | rfl <;>
        rcases body with _ | ⟨x, _ | ⟨y, _ | ⟨z, body⟩⟩⟩ <;> exact ⟨_, _, _, _, rfl⟩
    rw [List.cons_append, hu, commentBody_cons, ← hu, hbody]
    · rintro ⟨rfl, rfl, rfl⟩
      exact hnone ['-', '-', '>'] (by decide) ⟨f :: u, by rw [hu]; rfl⟩
    · rintro ⟨rfl, rfl, rfl, rfl⟩
      exact hnone ['-', '-', '!', '>'] (by decide) ⟨u, by rw [hu]; rfl⟩

/-! ### Complete comments -/

/-- What stands behind `<!--` in a complete comment: an end at once, or a body that does not begin
with such an end, and the first mark. -/
inductive CommentTail : Text → Prop
  | bracket : CommentTail ['>']
  | hyphen : CommentTail ['-', '>']
  | marked {body mark : Text} (ends : Ends body mark) (bracket : ¬ ['>'] <+: body)
      (hyphen : ¬ ['-', '>'] <+: body) : CommentTail (body ++ mark)

theorem CommentTail.exists_concat {d : Text} (h : CommentTail d) : ∃ front, d = front ++ ['>'] := by
  cases h with
  | bracket => exact ⟨[], rfl⟩
  | hyphen => exact ⟨['-'], rfl⟩
  | @marked body _ ends _ _ =>
    rcases eq_of_mem_commentMarks ends.mem with rfl | rfl
    · exact ⟨body ++ ['-', '-'], by simp⟩
    · exact ⟨body ++ ['-', '-', '!'], by simp⟩

/-- An end at once is not made up of a body and what is behind it. -/
theorem prefix_of_prefix_append {mark : Text} (h : mark ∈ commentMarks) (body rest : Text) :
    (['>'] <+: body ++ (mark ++ rest) → ['>'] <+: body) ∧
      (['-', '>'] <+: body ++ (mark ++ rest) → ['-', '>'] <+: body) := by
  rcases eq_of_mem_commentMarks h with rfl | rfl <;> rcases body with _ | ⟨x, _ | ⟨y, body⟩⟩ <;>
    simp [List.cons_prefix_cons]

theorem readComment_eq_commentBody {t : Text} (hbracket : ¬ ['>'] <+: t)
    (hhyphen : ¬ ['-', '>'] <+: t) : readComment t = commentBody t := by
  rw [readComment]
  · rintro rest rfl
    exact hbracket ⟨rest, rfl⟩
  · rintro rest rfl
    exact hhyphen ⟨rest, rfl⟩

/-- A complete comment is read up to its end, whatever follows. -/
theorem CommentTail.exists_readComment {d : Text} (h : CommentTail d) :
    ∃ content, ∀ rest, readComment (d ++ rest) = (content, rest) := by
  cases h with
  | bracket => exact ⟨[], fun _ => rfl⟩
  | hyphen => exact ⟨[], fun _ => rfl⟩
  | @marked body mark ends bracket hyphen =>
    refine ⟨body, fun rest => ?_⟩
    obtain ⟨hbracket, hhyphen⟩ := prefix_of_prefix_append ends.mem body rest
    rw [List.append_assoc,
      readComment_eq_commentBody (fun h => bracket (hbracket h)) fun h => hyphen (hhyphen h),
      commentBody_of_ends ends]

/-- What is read as a comment up to something is complete. -/
theorem commentTail_of_readComment {d content rest : Text} (hrest : rest ≠ [])
    (h : readComment (d ++ rest) = (content, rest)) : CommentTail d := by
  by_cases hbracket : ['>'] <+: d ++ rest
  · obtain ⟨after, hafter⟩ := hbracket
    rw [← hafter] at h
    obtain ⟨-, rfl⟩ := Prod.mk.inj h
    obtain rfl := List.append_cancel_right hafter
    exact .bracket
  · by_cases hhyphen : ['-', '>'] <+: d ++ rest
    · obtain ⟨after, hafter⟩ := hhyphen
      rw [← hafter] at h
      obtain ⟨-, rfl⟩ := Prod.mk.inj h
      obtain rfl := List.append_cancel_right hafter
      exact .hyphen
    · rw [readComment_eq_commentBody hbracket hhyphen] at h
      obtain ⟨mark, hends, hsplit⟩ := exists_ends_of_commentBody h hrest
      rw [← List.append_assoc] at hsplit
      obtain rfl := List.append_cancel_right hsplit
      have hbody : content <+: content ++ mark ++ rest :=
        (List.prefix_append content mark).trans (List.prefix_append _ rest)
      exact .marked hends (fun h => hbracket (h.trans hbody)) fun h => hhyphen (h.trans hbody)

/-! ### Line breaks in comments -/

theorem ends_normalizeBreaks_iff {body mark : Text} (h : mark ∈ commentMarks) :
    Ends (normalizeBreaks body) mark ↔ Ends body mark := by
  have happend :
      normalizeBreaks (body ++ mark.dropLast) = normalizeBreaks body ++ mark.dropLast := by
    rcases eq_of_mem_commentMarks h with rfl | rfl
    · exact normalizeBreaks_append_of_head (by decide) body
    · exact normalizeBreaks_append_of_head (by decide) body
  constructor
  · intro hends
    refine ⟨h, fun m hm hi => hends.first m hm ?_⟩
    rwa [← happend, infix_normalizeBreaks_iff hm]
  · intro hends
    refine ⟨h, fun m hm hi => hends.first m hm ?_⟩
    rwa [← happend, infix_normalizeBreaks_iff hm] at hi

theorem prefix_normalizeBreaks_iff {p t : Text} (hr : '\r' ∉ p) (hn : '\n' ∉ p) :
    p <+: normalizeBreaks t ↔ p <+: t := by
  constructor
  · rintro ⟨b, h⟩
    obtain ⟨back, rfl, -⟩ := exists_of_normalizeBreaks_eq_append hn h.symm
    exact ⟨back, rfl⟩
  · rintro ⟨back, rfl⟩
    exact ⟨normalizeBreaks back, (normalizeBreaks_append hr back).symm⟩

/-- Writing line breaks alike neither makes nor breaks a complete comment. -/
theorem commentTail_normalizeBreaks_iff {d : Text} :
    CommentTail (normalizeBreaks d) ↔ CommentTail d := by
  have hself : ∀ {t p}, '\n' ∉ p → normalizeBreaks t = p → t = p := by
    rintro t p hp rfl
    exact (normalizeBreaks_eq_self_of_not_mem hp).symm
  have hbracket : ∀ {t}, ['>'] <+: normalizeBreaks t ↔ ['>'] <+: t :=
    prefix_normalizeBreaks_iff (by decide) (by decide)
  have hhyphen : ∀ {t}, ['-', '>'] <+: normalizeBreaks t ↔ ['-', '>'] <+: t :=
    prefix_normalizeBreaks_iff (by decide) (by decide)
  constructor
  · intro h
    generalize hd : normalizeBreaks d = y at h
    cases h with
    | bracket =>
      rw [hself (by decide) hd]
      exact .bracket
    | hyphen =>
      rw [hself (by decide) hd]
      exact .hyphen
    | @marked body mark ends bracket hyphen =>
      -- the mark has no line break, so that it stands in the text as it was written
      obtain ⟨front, rfl, rfl⟩ : ∃ front, d = front ++ mark ∧ normalizeBreaks front = body := by
        rcases eq_of_mem_commentMarks ends.mem with rfl | rfl
        all_goals
          obtain ⟨front, back, rfl, hfront, hback⟩ :=
            exists_split_of_normalizeBreaks (by decide) hd
          exact ⟨front, by rw [hself (by decide) hback], hfront⟩
      exact .marked ((ends_normalizeBreaks_iff ends.mem).1 ends) (mt hbracket.2 bracket)
        (mt hhyphen.2 hyphen)
  · intro h
    cases h with
    | bracket => exact .bracket
    | hyphen => exact .hyphen
    | @marked body mark ends bracket hyphen =>
      have happend := normalizeBreaks_append_mark ends.mem body []
      rw [List.append_nil, show normalizeBreaks [] = [] from rfl, List.append_nil] at happend
      rw [happend]
      exact .marked ((ends_normalizeBreaks_iff ends.mem).2 ends) (mt hbracket.1 bracket)
        (mt hhyphen.1 hyphen)

/-- What follows a complete comment is written alike by itself. -/
theorem CommentTail.normalizeBreaks_append {d : Text} (h : CommentTail d) (t : Text) :
    normalizeBreaks (d ++ t) = normalizeBreaks d ++ normalizeBreaks t := by
  obtain ⟨front, rfl⟩ := h.exists_concat
  have hlast := fun back => normalizeBreaks_append_append (p := ['>']) (by decide) (by decide)
    (by decide) front back
  have hnil := hlast []
  rw [List.append_nil, show normalizeBreaks [] = [] from rfl, List.append_nil] at hnil
  rw [List.append_assoc, hlast, hnil, List.append_assoc]

/-! ### The reader of markup -/

/-- The text is one complete comment of markup: it is read to a comment token, with the same content
whatever follows it, and reading goes on there. -/
def IsComment (c : Text) : Prop :=
  "<!--".toList <+: c ∧ ∃ content, ∀ t,
    next false .data (prepare (c ++ t)) = ⟨[.comment content], .data, normalizeBreaks t⟩

theorem next_comment (t : Text) : next false .data (prepare ("<!--".toList ++ t)) =
    ⟨[.comment (replaceNul (readComment (normalizeBreaks t)).1)], .data,
      (readComment (normalizeBreaks t)).2⟩ := by
  rfl

/-- Complete comments end at once or with the first mark. -/
theorem isComment_iff {c : Text} : IsComment c ↔ ∃ d, c = "<!--".toList ++ d ∧ CommentTail d := by
  constructor
  · rintro ⟨⟨d, rfl⟩, content, h⟩
    refine ⟨d, rfl, commentTail_normalizeBreaks_iff.1 ?_⟩
    -- any text behind the comment that is not empty shows where it ends
    have hx := h ['x']
    rw [List.append_assoc, next_comment, normalizeBreaks_append_of_head (by decide)] at hx
    have hrest := (Lexed.mk.inj hx).2.2
    exact commentTail_of_readComment (by decide) (Prod.ext rfl hrest)
  · rintro ⟨d, rfl, h⟩
    obtain ⟨content, hcontent⟩ := (commentTail_normalizeBreaks_iff.2 h).exists_readComment
    refine ⟨List.prefix_append _ d, replaceNul content, fun t => ?_⟩
    rw [List.append_assoc, next_comment, h.normalizeBreaks_append, hcontent]

end Token

namespace LooseTag

open Token

/-! ### The reader of loose tags -/

/-- A comment that is not ended goes to the end of the text. -/
theorem at?_unended {content : Text} (h : ¬ ['-', '-', '>'] <:+: content) :
    at? ("<!--".toList ++ content) = some ⟨.comment, "<!--".toList ++ content, []⟩ := by
  have hneedle : "-->".toList = ['-', '-', '>'] := by decide
  have hafter : afterComment content = [] := by
    rw [afterComment, hneedle, Text.cut?_eq_none_iff.2 h]
  have htake := List.take_length (l := "<!--".toList ++ content)
  unfold at?
  simp only [String.reduceToList, List.cons_append, List.nil_append, hafter, List.length_nil,
    Nat.sub_zero] at htake ⊢
  rw [htake]

/-- In a complete comment the end that loose tags know stands behind everything else, or nowhere. -/
theorem infix_cases {d : Text} (h : CommentTail d) :
    (∃ body, d = body ++ ['-', '-', '>'] ∧ ¬ ['-', '-', '>'] <:+: body) ∨
      ¬ ['-', '-', '>'] <:+: d := by
  cases h with
  | bracket | hyphen => exact .inr (by decide)
  | @marked body mark ends _ _ =>
    have hfirst := ends.first ['-', '-', '>'] (by decide)
    rcases eq_of_mem_commentMarks ends.mem with rfl | rfl
    · exact .inl ⟨body, rfl, fun hi => hfirst (hi.trans (List.prefix_append body _).isInfix)⟩
    · refine .inr fun hi => ?_
      have hsplit : body ++ ['-', '-', '!', '>'] = body ++ ['-', '-', '!'] ++ ['>'] := by simp
      rw [hsplit] at hi
      rcases List.infix_concat_iff.1 hi with hs | hi
      · -- the bracket of the longer mark does not end the shorter one
        rcases List.suffix_concat_iff.1 hs with he | ⟨u, he, front, hu⟩
        · cases he
        · obtain rfl : u = ['-', '-'] := (List.append_cancel_right he).symm
          have hlast := congrArg List.getLast? hu
          simp at hlast
      · exact hfirst hi

/-- No end begins in a complete comment and goes on behind it. -/
theorem not_infix_append {d t : Text} (h : CommentTail d) (hd : ¬ ['-', '-', '>'] <:+: d)
    (ht : ¬ ['-', '-', '>'] <:+: t) : ¬ ['-', '-', '>'] <:+: d ++ t := by
  obtain ⟨front, hfront⟩ := h.exists_concat
  rintro ⟨a, b, hsplit⟩
  rw [List.append_assoc] at hsplit
  rcases List.append_eq_append_iff.1 hsplit with ⟨inside, rfl, hinside⟩ | ⟨before, rfl, rfl⟩
  · have hlast := congrArg List.getLast? hfront
    -- the comment ends with a bracket, and of the mark's beginnings only the whole mark does
    rcases inside with _ | ⟨x, _ | ⟨y, _ | ⟨z, inside⟩⟩⟩
    · exact ht ⟨[], b, hinside⟩
    · obtain ⟨rfl, -⟩ := List.cons.inj hinside
      simp at hlast
    · simp only [List.cons_append, List.nil_append, List.cons.injEq] at hinside
      obtain ⟨rfl, rfl, -⟩ := hinside
      simp at hlast
    · simp only [List.cons_append, List.nil_append, List.cons.injEq] at hinside
      obtain ⟨rfl, rfl, rfl, -⟩ := hinside
      exact hd ⟨a, inside, by simp⟩
  · exact ht ⟨before, b, by simp⟩

end LooseTag

end Shortcodes.Html
