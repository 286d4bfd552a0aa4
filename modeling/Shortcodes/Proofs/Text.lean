import Mathlib.Data.List.Infix
import Mathlib.Data.List.TakeWhile
import Shortcodes.Text.Blank

/-!
# Searching and trimming

What the searches of `Text` find. `has` decides whether one text stands inside another
(`has_eq_true_iff`), and `cut?` divides a text at the first place where the needle stands
(`cut?_eq_some_iff`): the part in front holds no earlier occurrence, not even one that the
needle itself would complete. What stands between two positions is an `extract`, and parts that
touch make one (`extract_append_extract`). A text is `Tight` when no blank stands at its ends;
trimming takes the blanks off such a text and leaves it whole (`trim_blanks_append`).
-/

namespace Shortcodes.Text

/-! ### Occurrences -/

theorem after?_append (b r : Text) : after? b (b ++ r) = some r :=
  after?_eq_some_iff.2 rfl

theorem after?_append_left (a b t : Text) : after? (a ++ b) t = (after? a t).bind (after? b) := by
  induction a generalizing t with
  | nil => rfl
  | cons x a ih =>
    cases t with
    | nil => rfl
    | cons c t =>
      rw [List.cons_append, after?, after?]
      split
      · exact ih t
      · rfl

/-- A beginning is missing exactly when it is no prefix. -/
theorem after?_eq_none_iff {b t : Text} : after? b t = none ↔ ¬ b <+: t := by
  rw [Option.eq_none_iff_forall_ne_some]
  constructor
  · rintro h ⟨r, rfl⟩
    exact h r (after?_append b r)
  · intro h r hr
    exact h ⟨r, (after?_eq_some_iff.1 hr).symm⟩

theorem cut?_eq_none_iff {needle t : Text} : cut? needle t = none ↔ ¬ needle <:+: t := by
  induction t with
  | nil =>
    by_cases hn : needle = []
    · simp [cut?, hn]
    · simp [cut?, hn]
  | cons c t ih =>
    rw [cut?, List.infix_cons_iff, not_or]
    cases ha : after? needle (c :: t) with
    | some r =>
      have hp : needle <+: c :: t := ⟨r, (after?_eq_some_iff.1 ha).symm⟩
      simp [hp]
    | none => simp [after?_eq_none_iff.1 ha, ih]

/-- A text has a needle exactly when the needle stands somewhere inside it. -/
theorem has_eq_true_iff {needle t : Text} : has needle t = true ↔ needle <:+: t := by
  rw [has, Option.isSome_iff_ne_none, Ne, cut?_eq_none_iff, not_not]

theorem has_eq_false_iff {needle t : Text} : has needle t = false ↔ ¬ needle <:+: t := by
  rw [← has_eq_true_iff, Bool.not_eq_true]

/-- The needle without its last character does not complete an occurrence that begins in front
of it, unless one is there already. -/
theorem not_isPrefix_append {needle front tail : Text} (hf : front ≠ [])
    (h : ¬ needle <:+: front ++ needle.dropLast) : ¬ needle <+: front ++ needle ++ tail := by
  intro hp
  have hlen : needle.length ≤ (front ++ needle.dropLast).length := by
    have := List.length_pos_iff.2 hf
    simp only [List.length_append, List.length_dropLast]
    omega
  have hd : front ++ needle.dropLast <+: front ++ needle ++ tail := by
    rw [List.append_assoc, List.prefix_append_right_inj]
    exact (List.dropLast_prefix needle).trans (List.prefix_append ..)
  exact h (List.prefix_of_prefix_length_le hp hd hlen).isInfix

/-- The first occurrence is the one before which no other begins. -/
theorem cut?_append {needle front tail : Text} (hn : needle ≠ [])
    (h : ¬ needle <:+: front ++ needle.dropLast) :
    cut? needle (front ++ needle ++ tail) = some (front, tail) := by
  induction front with
  | nil =>
    obtain ⟨n, ns, rfl⟩ := List.exists_cons_of_ne_nil hn
    rw [List.nil_append, List.cons_append, cut?, ← List.cons_append, after?_append]
  | cons c front ih =>
    have hnone : after? needle (c :: (front ++ needle ++ tail)) = none :=
      after?_eq_none_iff.2 (not_isPrefix_append (List.cons_ne_nil c front) h)
    have hrest : ¬ needle <:+: front ++ needle.dropLast :=
      fun hi => h (hi.trans (List.suffix_cons c _).isInfix)
    rw [List.cons_append, List.cons_append, cut?, hnone, ih hrest]
    rfl

/-- Before the first occurrence no other begins. -/
theorem not_infix_of_cut? {needle t front tail : Text} (hn : needle ≠ [])
    (h : cut? needle t = some (front, tail)) : ¬ needle <:+: front ++ needle.dropLast := by
  induction t generalizing front tail with
  | nil => simp [cut?, hn] at h
  | cons c t ih =>
    rw [cut?] at h
    cases ha : after? needle (c :: t) with
    | some r =>
      rw [ha] at h
      simp only [Option.some.injEq, Prod.mk.injEq] at h
      obtain ⟨rfl, rfl⟩ := h
      intro hi
      have hle := hi.length_le
      have hpos := List.length_pos_iff.2 hn
      simp only [List.nil_append, List.length_dropLast] at hle
      omega
    | none =>
      rw [ha] at h
      simp only [Option.map_eq_some_iff, Prod.mk.injEq, Prod.exists] at h
      obtain ⟨f, r, hc, rfl, rfl⟩ := h
      rw [List.cons_append, List.infix_cons_iff, not_or]
      refine ⟨fun hp => after?_eq_none_iff.1 ha (hp.trans ?_), ih hc⟩
      rw [eq_of_cut? hc, List.cons_prefix_cons, List.append_assoc]
      refine ⟨rfl, (List.prefix_append_right_inj f).2 ?_⟩
      exact (List.dropLast_prefix needle).trans (List.prefix_append ..)

/-- What `cut?` finds: the text around the first occurrence of the needle. -/
theorem cut?_eq_some_iff {needle t front tail : Text} (hn : needle ≠ []) :
    cut? needle t = some (front, tail) ↔
      t = front ++ needle ++ tail ∧ ¬ needle <:+: front ++ needle.dropLast := by
  constructor
  · exact fun h => ⟨eq_of_cut? h, not_infix_of_cut? hn h⟩
  · rintro ⟨rfl, h⟩
    exact cut?_append hn h

/-- A part without the first character of the needle holds no beginning of an occurrence. -/
theorem cut?_append_of_not_mem {n : Char} {ns front : Text} (h : n ∉ front) (t : Text) :
    cut? (n :: ns) (front ++ t) = (cut? (n :: ns) t).map fun r => (front ++ r.1, r.2) := by
  induction front with
  | nil =>
    show _ = (cut? (n :: ns) t).map id
    rw [Option.map_id]
    rfl
  | cons c front ih =>
    rw [List.mem_cons, not_or] at h
    rw [List.cons_append, cut?, after?, if_neg h.1, ih h.2, Option.map_map]
    rfl

theorem cut?_self_append {needle : Text} (hn : needle ≠ []) (t : Text) :
    cut? needle (needle ++ t) = some ([], t) := by
  obtain ⟨n, ns, rfl⟩ := List.exists_cons_of_ne_nil hn
  rw [List.cons_append, cut?, ← List.cons_append, after?_append]

/-- A text is cut at the first place of a mark. -/
theorem cut?_mark {mark : Char} {front : Text} (h : mark ∉ front) (rest : Text) :
    cut? [mark] (front ++ mark :: rest) = some (front, rest) := by
  have hself : cut? [mark] (mark :: rest) = some ([], rest) :=
    cut?_self_append (List.cons_ne_nil mark []) rest
  rw [cut?_append_of_not_mem h, hself, Option.map_some, List.append_nil]

/-- A two-character needle stands in `s ++ t` only if it stands in one part or across the joint. -/
theorem infix_pair_append_iff {a b : Char} {s t : Text} :
    [a, b] <:+: s ++ t ↔
      [a, b] <:+: s ∨ [a, b] <:+: t ∨ (s.getLast? = some a ∧ t.head? = some b) := by
  induction s with
  | nil => simp
  | cons c s ih =>
    rw [List.cons_append, List.infix_cons_iff, ih, List.infix_cons_iff]
    cases s with
    | nil =>
      have hp : [a, b] <+: c :: t ↔ c = a ∧ t.head? = some b := by
        rw [List.cons_prefix_cons, List.singleton_prefix_iff_head?_eq_some, eq_comm]
      simp [hp]
      tauto
    | cons d s =>
      simp [List.cons_prefix_cons]
      tauto

/-- A text is divided at the first occurrence of a character in one way only. -/
theorem append_cons_inj_of_not_mem {c : Char} {s t u v : Text} (hs : c ∉ s) (ht : c ∉ t)
    (h : s ++ c :: u = t ++ c :: v) : s = t ∧ u = v := by
  have htake : ∀ {s u : Text}, c ∉ s → (s ++ c :: u).takeWhile (· ≠ c) = s := by
    intro s u hs
    have hall : ∀ d ∈ s, decide (d ≠ c) = true :=
      fun d hd => decide_eq_true fun e => hs (e ▸ hd)
    rw [List.takeWhile_append_of_pos hall, List.takeWhile_cons_of_neg (by simp), List.append_nil]
  have hst : s = t := by rw [← htake (u := u) hs, h, htake ht]
  subst hst
  exact ⟨rfl, (List.cons.inj (List.append_cancel_left h)).2⟩

/-! ### Parts by position -/

/-- What is known of the text behind one position says what stands at the next ones. -/
theorem drop_of_drop (front : Text) {t back : Text} {i : Nat} (h : t.drop i = front ++ back) :
    t.drop (i + front.length) = back := by
  rw [← List.drop_drop, h, List.drop_left]

theorem extract_of_drop {t part back : Text} {i : Nat} (h : t.drop i = part ++ back) :
    t.extract i (i + part.length) = part := by
  rw [List.extract_eq_take_drop, h, Nat.add_sub_cancel_left, List.take_left]

theorem getElem?_of_drop {t back : Text} {i : Nat} {c : Char} (h : t.drop i = c :: back) :
    t[i]? = some c := by
  rw [← List.head?_drop, h, List.head?_cons]

theorem drop_of_getElem? {t : Text} {i : Nat} {c : Char} (h : t[i]? = some c) :
    t.drop i = c :: t.drop (i + 1) := by
  rw [List.drop_eq_getElem?_toList_append, h]
  rfl

theorem drop_eq_extract_append {i j : Nat} (h : i ≤ j) (t : Text) :
    t.drop i = t.extract i j ++ t.drop j := by
  obtain ⟨n, rfl⟩ := Nat.exists_eq_add_of_le h
  rw [List.extract_eq_take_drop, Nat.add_sub_cancel_left, ← List.drop_drop, List.take_append_drop]

theorem extract_eq_cons {t : Text} {i j : Nat} {c : Char} (h : t[i]? = some c) (hj : i < j) :
    t.extract i j = c :: t.extract (i + 1) j := by
  have hlength : j - i = j - (i + 1) + 1 := by omega
  rw [List.extract_eq_take_drop, List.extract_eq_take_drop, drop_of_getElem? h, hlength,
    List.take_succ_cons]

theorem extract_append_extract {i j k : Nat} (hi : i ≤ j) (hj : j ≤ k) (t : Text) :
    t.extract i j ++ t.extract j k = t.extract i k := by
  obtain ⟨m, rfl⟩ := Nat.exists_eq_add_of_le hi
  obtain ⟨n, rfl⟩ := Nat.exists_eq_add_of_le hj
  rw [List.extract_eq_take_drop, List.extract_eq_take_drop, List.extract_eq_take_drop,
    Nat.add_sub_cancel_left, Nat.add_sub_cancel_left, Nat.add_assoc, Nat.add_sub_cancel_left,
    List.take_add, List.drop_drop]

theorem length_extract {i j : Nat} {t : Text} (hi : i ≤ j) (hj : j ≤ t.length) :
    (t.extract i j).length = j - i := by
  rw [List.extract_eq_take_drop, List.length_take, List.length_drop]
  omega

theorem byteLength_take_add {i j : Nat} (h : i ≤ j) (t : Text) :
    byteLength (t.take i) + byteLength (t.extract i j) = byteLength (t.take j) := by
  obtain ⟨n, rfl⟩ := Nat.exists_eq_add_of_le h
  rw [List.extract_eq_take_drop, Nat.add_sub_cancel_left, List.take_add, byteLength_append]

/-! ### Blanks at the ends -/

/-- No blank stands at either end. -/
structure Tight (t : Text) : Prop where
  head : ∀ c ∈ t.head?, isBlank c = false
  last : ∀ c ∈ t.getLast?, isBlank c = false

theorem tight_nil : Tight [] := ⟨by simp, by simp⟩

/-- What each character of a fixed text has can be computed. -/
theorem forall_mem_of_all {t : Text} {p : Char → Prop} [DecidablePred p]
    (h : t.all (fun c => decide (p c)) = true) : ∀ c ∈ t, p c := by
  simpa using h

theorem tight_of_forall {t : Text} (h : ∀ c ∈ t, isBlank c = false) : Tight t where
  head c hc := h c (List.mem_of_mem_head? hc)
  last c hc := h c (List.mem_of_mem_getLast? hc)

theorem Tight.append {s t : Text} (hs : Tight s) (ht : Tight t) : Tight (s ++ t) where
  head c hc := by
    rw [List.head?_append] at hc
    cases s with
    | nil => exact ht.head c hc
    | cons d s => exact hs.head c hc
  last c hc := by
    rw [List.getLast?_append] at hc
    cases hl : t.getLast? with
    | none =>
      rw [hl] at hc
      exact hs.last c hc
    | some d =>
      rw [hl] at hc
      exact ht.last c (hl.trans hc)

/-- Only the ends count: anything may stand between two tight parts. -/
theorem Tight.around {s t : Text} (hs : Tight s) (ht : Tight t) (hsn : s ≠ []) (htn : t ≠ [])
    (middle : Text) : Tight (s ++ middle ++ t) where
  head c hc := by
    rw [List.append_assoc, List.head?_append_of_ne_nil _ hsn] at hc
    exact hs.head c hc
  last c hc := by
    rw [List.getLast?_append_of_ne_nil _ htn] at hc
    exact ht.last c hc

theorem join_ne_nil {separator t : Text} (h : t ≠ []) (ts : List Text) :
    join separator (t :: ts) ≠ [] := by
  cases ts with
  | nil => exact h
  | cons t' ts =>
    rw [join]
    · simp [h]
    · simp

/-- Blanks in front of what does not begin with one are dropped, and only they. -/
theorem trimStart_blanks_append {blanks t : Text} (hb : ∀ c ∈ blanks, isBlank c = true)
    (ht : ∀ c ∈ t.head?, isBlank c = false) : trimStart (blanks ++ t) = t := by
  rw [trimStart, List.dropWhile_append_of_pos hb]
  cases t with
  | nil => rfl
  | cons c t => simp [ht c (by simp)]

/-- Blanks are dropped in front of the first other character only. -/
theorem trimStart_append_cons {c : Char} (hc : isBlank c = false) (front rest : Text) :
    trimStart (front ++ c :: rest) = trimStart front ++ c :: rest := by
  have hkeep : (c :: rest).dropWhile isBlank = c :: rest :=
    List.dropWhile_cons_of_neg (by simp [hc])
  rw [trimStart, List.dropWhile_append, trimStart]
  split
  · next hnil => rw [hkeep, List.isEmpty_iff.1 hnil, List.nil_append]
  · rfl

theorem trimEnd_append_blanks {blanks t : Text} (hb : ∀ c ∈ blanks, isBlank c = true)
    (ht : ∀ c ∈ t.getLast?, isBlank c = false) : trimEnd (t ++ blanks) = t := by
  have h : trimStart (blanks.reverse ++ t.reverse) = t.reverse :=
    trimStart_blanks_append (by simpa using hb) (by simpa using ht)
  rw [trimStart] at h
  rw [trimEnd, List.reverse_append, h, List.reverse_reverse]

theorem trimEnd_blanks {blanks : Text} (h : ∀ c ∈ blanks, isBlank c = true) :
    trimEnd blanks = [] := trimEnd_append_blanks (t := []) h (by simp)

/-- Trimming the end leaves the first character, unless all is blank. -/
theorem trimEnd_cons {c : Char} {t : Text} (h : ∃ d ∈ c :: t, isBlank d = false) :
    trimEnd (c :: t) = c :: trimEnd t := by
  rw [trimEnd, List.reverse_cons, List.dropWhile_append, trimEnd]
  split
  · next hnil =>
    rw [List.isEmpty_iff, List.dropWhile_eq_nil_iff] at hnil
    have hc : isBlank c = false := by
      obtain ⟨d, hd, hdblank⟩ := h
      rcases List.mem_cons.1 hd with rfl | hd
      · exact hdblank
      · rw [hnil d (List.mem_reverse.2 hd)] at hdblank
        cases hdblank
    have hall : t.reverse.dropWhile isBlank = [] := List.dropWhile_eq_nil_iff.2 hnil
    rw [hall, List.dropWhile_cons_of_neg (by rw [hc]; exact Bool.false_ne_true)]
    rfl
  · rw [List.reverse_append]
    rfl

/-- Trimming takes the blanks around a tight text. -/
theorem trim_blanks_append {before t after : Text} (hb : ∀ c ∈ before, isBlank c = true)
    (ha : ∀ c ∈ after, isBlank c = true) (ht : Tight t) : trim (before ++ (t ++ after)) = t := by
  rw [trim]
  cases t with
  | nil =>
    have h : trimStart (before ++ ([] ++ after)) = [] := by
      rw [trimStart, List.dropWhile_eq_nil_iff]
      simpa [or_imp, forall_and] using ⟨hb, ha⟩
    rw [h]
    rfl
  | cons c t =>
    rw [trimStart_blanks_append hb (by simpa using ht.head), trimEnd_append_blanks ha ht.last]

/-- A tight text is trimmed already. -/
theorem Tight.trim_eq {t : Text} (h : Tight t) : trim t = t := by
  have htrim : trim ([] ++ (t ++ [])) = t := trim_blanks_append (by simp) (by simp) h
  rwa [List.nil_append, List.append_nil] at htrim

theorem isPrefix_trimEnd (t : Text) : trimEnd t <+: t := by
  rw [trimEnd, ← List.reverse_suffix, List.reverse_reverse]
  exact List.dropWhile_suffix _

/-- Trimming takes nothing but blanks. -/
theorem exists_append_trim (t : Text) : ∃ blanks, (∀ c ∈ blanks, isBlank c = true) ∧
    t = t.takeWhile isBlank ++ (trim t ++ blanks) := by
  refine ⟨((trimStart t).reverse.takeWhile isBlank).reverse, fun c hc => ?_, ?_⟩
  · exact List.mem_takeWhile_imp (List.mem_reverse.1 hc)
  · rw [trim, trimEnd, ← List.reverse_append, List.takeWhile_append_dropWhile,
      List.reverse_reverse, trimStart, List.takeWhile_append_dropWhile]

/-- The blanks around a text do not survive trimming. -/
theorem trim_blank_append_blank {b b' : Char} (hb : isBlank b = true) (hb' : isBlank b' = true)
    (t : Text) : trim (b :: (t ++ [b'])) <:+: t := by
  have hstart : trimStart (b :: (t ++ [b'])) = trimStart (t ++ [b']) := by
    rw [trimStart, List.dropWhile_cons_of_pos hb, trimStart]
  have hsuffix : t.dropWhile isBlank <:+ t := List.dropWhile_suffix _
  rw [trim, hstart, trimStart, List.dropWhile_append]
  split
  · rw [List.dropWhile_cons_of_pos hb', List.dropWhile_nil]
    exact List.nil_infix
  · have hend : trimEnd (t.dropWhile isBlank ++ [b']) = trimEnd (t.dropWhile isBlank) := by
      rw [trimEnd, List.reverse_append, List.reverse_singleton, List.singleton_append,
        List.dropWhile_cons_of_pos hb', trimEnd]
    rw [hend]
    exact (isPrefix_trimEnd _).isInfix.trans hsuffix.isInfix

/-! ### Case -/

theorem toLower_toLower (c : Char) : c.toLower.toLower = c.toLower := by
  unfold Char.toLower
  split
  · next h =>
    rw [dif_neg]
    rintro ⟨-, hle⟩
    have hlow := h.1
    have hhigh := h.2
    rw [ge_iff_le, UInt32.le_iff_toNat_le] at hlow
    rw [UInt32.le_iff_toNat_le] at hhigh hle
    simp [UInt32.toNat_add] at hle hlow hhigh
    omega
  · rfl

theorem lowerAscii_lowerAscii (t : Text) : lowerAscii (lowerAscii t) = lowerAscii t := by
  unfold lowerAscii
  rw [List.map_map]
  exact List.map_congr_left fun c _ => toLower_toLower c

end Shortcodes.Text
