import Shortcodes.Proofs.Html.LooseTag
import Shortcodes.Proofs.Html.OpeningTag

/-!
# Counting depth through a text

The search for the closing tag of an element counts the elements of the same name that it opens and
closes on its way. A text leads from one depth to another if the search may go through it whatever
follows (`Leads`). A loose tag that is read whole leads to the depth after it (`Leads.of_at?`), text
in which no loose tag begins stays at the depth (`Crosses.of_opensNone`), and what leads one after
the other leads together (`Leads.append`).
-/

namespace Shortcodes.Html.LooseTag

variable {name : Text} {depth : Nat}

/-! ### Tags that are read whole -/

/-- The reader of loose tags takes a written closing tag whole. -/
theorem at?_closingTag (hname : isName name = true) (rest : Text) :
    at? ('<' :: '/' :: (name ++ ['>']) ++ rest) =
      some ⟨.closing name, '<' :: '/' :: (name ++ ['>']), rest⟩ := by
  have hread : name? (name ++ '>' :: rest) = some (name, '>' :: rest) :=
    name?_append hname (by decide)
  have htake := take_length_sub ('<' :: '/' :: (name ++ ['>'])) rest
  have hsource : '<' :: '/' :: (name ++ ['>']) ++ rest = '<' :: '/' :: (name ++ '>' :: rest) := by
    simp
  rw [hsource] at htake ⊢
  have hdrop : ('>' :: rest).dropWhile isBlank = '>' :: rest :=
    List.dropWhile_cons_of_neg (by decide)
  unfold at?
  simp only [hread, hdrop, htake]

/-- The reader of loose tags takes a comment whole if its end does not occur in it. -/
theorem at?_comment {content : Text} (h : ¬['-', '-', '>'] <:+: content) (rest : Text) :
    at? (['<', '!', '-', '-'] ++ content ++ ['-', '-', '>'] ++ rest) =
      some ⟨.comment, ['<', '!', '-', '-'] ++ content ++ ['-', '-', '>'], rest⟩ := by
  -- hyphens at the end of the content do not help to end the comment sooner
  have hend : ¬['-', '-', '>'] <:+: content ++ ['-', '-', '>'].dropLast := by
    have hlast : ∀ t : Text, ¬['-', '-', '>'] <:+: t → ¬['-', '-', '>'] <:+: t ++ ['-'] := by
      intro t ht hi
      rcases List.infix_concat_iff.1 hi with hs | hi
      · rcases List.suffix_concat_iff.1 hs with he | ⟨u, he, -⟩
        · cases he
        · have hchars := congrArg List.getLast? he
          simp at hchars
      · exact ht hi
    have hsplit : content ++ ['-', '-', '>'].dropLast = content ++ ['-'] ++ ['-'] := by simp
    rw [hsplit]
    exact hlast _ (hlast _ h)
  have hcut : Text.cut? ['-', '-', '>'] (content ++ ['-', '-', '>'] ++ rest) =
      some (content, rest) := Text.cut?_append (List.cons_ne_nil _ _) hend
  have htake := take_length_sub (['<', '!', '-', '-'] ++ content ++ ['-', '-', '>']) rest
  have hsource : ['<', '!', '-', '-'] ++ content ++ ['-', '-', '>'] ++ rest =
      '<' :: '!' :: '-' :: '-' :: (content ++ ['-', '-', '>'] ++ rest) := by
    simp
  have hneedle : "-->".toList = ['-', '-', '>'] := by decide
  rw [hsource] at htake ⊢
  unfold at?
  simp only [afterComment, hneedle, hcut, htake]

/-! ### The search without its bound -/

/-- The search ends before its steps do, so more of them change nothing. -/
theorem closeFrom?_eq_of_le {t : Text} {n m : Nat} (hn : t.length ≤ n) (hm : t.length ≤ m) :
    closeFrom? name n depth t = closeFrom? name m depth t := by
  induction n generalizing m depth t with
  | zero =>
    rw [List.length_eq_zero_iff.1 (Nat.le_zero.1 hn)]
    cases m <;> rfl
  | succ n ih =>
    cases t with
    | nil => cases m <;> rfl
    | cons c t =>
      obtain ⟨m, rfl⟩ : ∃ k, m = k + 1 := ⟨m - 1, by rw [List.length_cons] at hm; omega⟩
      rw [List.length_cons] at hn hm
      rw [closeFrom?, closeFrom?]
      cases hat : at? (c :: t) with
      | none =>
        have hrest : closeFrom? name n depth t = closeFrom? name m depth t :=
          ih (Nat.le_of_succ_le_succ hn) (Nat.le_of_succ_le_succ hm)
        simp only [hrest]
      | some seen =>
        -- a tag is not empty, so what follows it is shorter than the text
        obtain ⟨happend, more, hsource⟩ := at?_eq_some hat
        have hlength := congrArg List.length happend
        rw [hsource] at hlength
        simp only [List.length_append, List.length_cons] at hlength
        simp only [ih (m := m) (t := seen.rest) (by omega) (by omega)]

/-- The text up to and with the closing tag that brings the depth to zero, and what follows. -/
def closeAt? (name : Text) (depth : Nat) (t : Text) : Option (Text × Text) :=
  closeFrom? name t.length depth t

theorem close?_eq_closeAt? (t : Text) : close? name t = closeAt? name 1 t := rfl

theorem closeAt?_of_at?_eq_none {c : Char} {t : Text} (h : at? (c :: t) = none) :
    closeAt? name depth (c :: t) =
      (closeAt? name depth t).map fun (front, tail) => (c :: front, tail) := by
  rw [closeAt?, List.length_cons, closeFrom?, h, closeAt?]

theorem closeAt?_of_at?_eq_some {t : Text} {seen : Sighting} (h : at? t = some seen) :
    closeAt? name depth t =
      if depthAfter name depth seen.tag = 0 then some (seen.source, seen.rest)
      else (closeAt? name (depthAfter name depth seen.tag) seen.rest).map
        fun (front, tail) => (seen.source ++ front, tail) := by
  obtain ⟨happend, more, hsource⟩ := at?_eq_some h
  cases t with
  | nil => cases h
  | cons c t =>
    have hlength := congrArg List.length happend
    rw [hsource] at hlength
    simp only [List.length_append, List.length_cons] at hlength
    rw [closeAt?, List.length_cons, closeFrom?, h]
    simp only [closeAt?]
    rw [closeFrom?_eq_of_le (n := t.length) (m := seen.rest.length) (by omega) le_rfl]

/-- What the search comes to is not empty: it ends with a tag. -/
theorem ne_nil_of_closeAt? {t front tail : Text} (h : closeAt? name depth t = some (front, tail)) :
    front ≠ [] := by
  cases t with
  | nil => cases h
  | cons c t =>
    cases hat : at? (c :: t) with
    | none =>
      rw [closeAt?_of_at?_eq_none hat] at h
      obtain ⟨r, -, hr⟩ := Option.map_eq_some_iff.1 h
      cases hr
      exact List.cons_ne_nil _ _
    | some seen =>
      obtain ⟨-, more, hsource⟩ := at?_eq_some hat
      rw [closeAt?_of_at?_eq_some hat] at h
      split at h
      · cases h
        simp [hsource]
      · obtain ⟨r, -, hr⟩ := Option.map_eq_some_iff.1 h
        cases hr
        simp [hsource]

/-! ### Leading from depth to depth -/

/-- The search goes through a text from one depth to another, whatever follows. -/
def Leads (name : Text) (depth : Nat) (t : Text) (after : Nat) : Prop :=
  ∀ rest, closeAt? name depth (t ++ rest) =
    (closeAt? name after rest).map fun (front, tail) => (t ++ front, tail)

/-- The search goes through a text and stays at its depth. -/
def Crosses (name t : Text) : Prop := ∀ depth, 0 < depth → Leads name depth t depth

variable {s t : Text} {after : Nat}

theorem leads_nil (name : Text) (depth : Nat) : Leads name depth [] depth := by
  intro rest
  simp

theorem Leads.append {between : Nat} (hs : Leads name depth s between)
    (ht : Leads name between t after) : Leads name depth (s ++ t) after := by
  intro rest
  rw [List.append_assoc, hs, ht, Option.map_map]
  congr 1
  funext r
  simp [Function.comp]

/-- A loose tag that is read whole and does not end the search leads to the depth after it. -/
theorem Leads.of_at? {tag : LooseTag} (h : ∀ rest, at? (t ++ rest) = some ⟨tag, t, rest⟩)
    (hafter : depthAfter name depth tag = after) (hpos : 0 < after) : Leads name depth t after := by
  intro rest
  rw [closeAt?_of_at?_eq_some (h rest), hafter, if_neg (Nat.ne_of_gt hpos)]

theorem crosses_nil (name : Text) : Crosses name [] := fun depth _ => leads_nil name depth

theorem Crosses.append (hs : Crosses name s) (ht : Crosses name t) : Crosses name (s ++ t) :=
  fun depth hpos => (hs depth hpos).append (ht depth hpos)

/-! ### Texts without tags -/

/-- Whether nothing in a text can begin a loose tag: behind each of its brackets stands a character
of the text that is no letter and begins neither a closing tag nor a comment. -/
def opensNone : Text → Bool
  | [] => true
  | c :: rest =>
    (c != '<' || rest.head?.any fun d => !(isNameLetter d || d = '/' || d = '!')) && opensNone rest

theorem opensNone_of_not_mem (h : '<' ∉ t) : opensNone t = true := by
  induction t with
  | nil => rfl
  | cons c t ih =>
    rw [List.mem_cons, not_or] at h
    have hc : (c != '<') = true := by simpa using Ne.symm h.1
    rw [opensNone, hc, Bool.true_or, Bool.true_and, ih h.2]

/-- No loose tag begins at a bracket that no letter, slash or exclamation mark follows. -/
theorem at?_bracket {d : Char} (h : (!(isNameLetter d || d = '/' || d = '!')) = true)
    (rest : Text) : at? ('<' :: d :: rest) = none := by
  simp only [Bool.not_eq_true', Bool.or_eq_false_iff, decide_eq_false_iff_not] at h
  obtain ⟨⟨hletter, hslash⟩, hmark⟩ := h
  have hname : name? (d :: rest) = none := by
    rw [name?, if_neg (by simp [hletter])]
  unfold at?
  split
  · next he => exact absurd (List.cons.inj (List.cons.inj he).2).1 hmark
  · next he => exact absurd (List.cons.inj (List.cons.inj he).2).1 hslash
  · next he => rw [← (List.cons.inj he).2, hname]
  · rfl

/-- The search goes through a text in which nothing begins a loose tag. -/
theorem Crosses.of_opensNone (h : opensNone t = true) : Crosses name t := by
  induction t with
  | nil => exact crosses_nil name
  | cons c t ih =>
    rw [opensNone, Bool.and_eq_true, Bool.or_eq_true] at h
    obtain ⟨hc, ht⟩ := h
    intro depth hpos rest
    have hnone : at? (c :: (t ++ rest)) = none := by
      by_cases hbracket : c = '<'
      · subst hbracket
        cases t with
        | nil => simp at hc
        | cons d t => exact at?_bracket (by simpa using hc) _
      · exact at?_eq_none hbracket _
    rw [List.cons_append, closeAt?_of_at?_eq_none hnone, ih ht depth hpos rest, Option.map_map]
    rfl

/-- The search goes through text without brackets, such as the written form of a text. -/
theorem Crosses.of_not_mem (h : '<' ∉ t) : Crosses name t := .of_opensNone (opensNone_of_not_mem h)

end Shortcodes.Html.LooseTag
