import Shortcodes.Proofs.Word.Writing
import Shortcodes.Tag.Basic

/-!
# Tags in a text

`read?_append` says what a tag at the start of a text is: the text up to the first closing mark
behind the first character of the name. A sweep goes on behind each tag (`sweep_of_read?`),
passes over every character at which no tag starts (`sweep_of_read?_eq_none`), and so over a
text without opening marks (`sweep_append`). Scanning commutes with moving a text
(`scan_append`).
-/

namespace Shortcodes.Tag

/-- The opening mark of a tag. -/
def opener : Text := ['[', '%']

/-! ### One tag -/

/-- The tag with this inside: blanks, the first character of the name, and what stands up to the
closing mark. -/
def spelled (blanks : Text) (c : Char) (body : Text) : Tag where
  name := c :: body.takeWhile fun d => !isBlank d
  arguments := Text.trim (body.dropWhile fun d => !isBlank d)
  source := opener ++ blanks ++ c :: body ++ Word.closer

/-- A tag ends at the first closing mark behind the first character of its name. -/
theorem read?_append {blanks body : Text} {c : Char} (hb : ∀ d ∈ blanks, isBlank d = true)
    (hc : isBlank c = false) (hp : c ≠ '%') (hbody : ¬ Word.closer <:+: body ++ ['%'])
    (tail : Text) :
    read? (opener ++ blanks ++ c :: body ++ Word.closer ++ tail) =
      some (spelled blanks c body, tail) := by
  have hcut : Text.cut? ['%', ']'] (body ++ Word.closer ++ tail) = some (body, tail) :=
    Text.cut?_append (by decide) hbody
  have hafter : Text.after? ['[', '%'] (opener ++ blanks ++ c :: body ++ Word.closer ++ tail) =
      some (blanks ++ c :: (body ++ Word.closer ++ tail)) := by
    rw [Text.after?_eq_some_iff]
    simp [opener]
  have htrim : Text.trimStart (blanks ++ c :: (body ++ Word.closer ++ tail)) =
      c :: (body ++ Word.closer ++ tail) :=
    Text.trimStart_blanks_append hb (by simpa using hc)
  have htake : (blanks ++ c :: (body ++ Word.closer ++ tail)).takeWhile isBlank = blanks := by
    rw [List.takeWhile_append_of_pos hb, List.takeWhile_cons_of_neg (by simp [hc]),
      List.append_nil]
  rw [read?, hafter]
  simp only [Option.bind_eq_bind, Option.bind_some, htrim, if_neg hp, hcut, htake]
  rfl

/-- What is read as a tag: exactly the texts of `read?_append`. -/
theorem read?_eq_some_iff {t tail : Text} {tag : Tag} :
    read? t = some (tag, tail) ↔ ∃ blanks c body,
      t = opener ++ blanks ++ c :: body ++ Word.closer ++ tail ∧ tag = spelled blanks c body ∧
        (∀ d ∈ blanks, isBlank d = true) ∧ isBlank c = false ∧ c ≠ '%' ∧
        ¬ Word.closer <:+: body ++ ['%'] := by
  constructor
  · intro h
    rw [read?] at h
    cases ha : Text.after? ['[', '%'] t with
    | none => simp [ha] at h
    | some inside =>
      cases ht : Text.trimStart inside with
      | nil => simp [ha, ht] at h
      | cons c rest =>
        have hinside : inside = inside.takeWhile isBlank ++ c :: rest := by
          rw [← ht, Text.trimStart, List.takeWhile_append_dropWhile]
        have hblank : isBlank c = false := by
          rw [Text.trimStart] at ht
          have hhead := List.head?_dropWhile_not isBlank inside
          rw [ht, List.head?_cons] at hhead
          exact hhead
        by_cases hp : c = '%'
        · simp [ha, ht, hp] at h
        · cases hcut : Text.cut? ['%', ']'] rest with
          | none => simp [ha, ht, hp, hcut] at h
          | some parts =>
            obtain ⟨body, tail'⟩ := parts
            simp only [ha, ht, hp, hcut, Option.bind_eq_bind, Option.bind_some, if_false,
              Option.pure_def, Option.some.injEq, Prod.mk.injEq] at h
            obtain ⟨rfl, rfl⟩ := h
            obtain ⟨hrest, hbody⟩ := (Text.cut?_eq_some_iff (by decide)).1 hcut
            refine ⟨inside.takeWhile isBlank, c, body, ?_, rfl, ?_, hblank, hp, hbody⟩
            · rw [Text.after?_eq_some_iff] at ha
              conv_lhs => rw [ha, hinside, hrest]
              simp [opener, Word.closer]
            · exact fun d hd => List.mem_takeWhile_imp hd
  · rintro ⟨blanks, c, body, rfl, rfl, hb, hc, hp, hbody⟩
    exact read?_append hb hc hp hbody tail

/-- What was read as a tag is the tag's source, and that is not empty. -/
theorem eq_of_read? {t tail : Text} {tag : Tag} (h : read? t = some (tag, tail)) :
    t = tag.source ++ tail ∧ tag.source ≠ [] := by
  obtain ⟨blanks, c, body, rfl, rfl, -⟩ := read?_eq_some_iff.1 h
  exact ⟨rfl, by simp [spelled, opener]⟩

/-- No tag starts where no opening mark stands. -/
theorem read?_eq_none_of_not_opener {t : Text} (h : ¬ opener <+: t) : read? t = none := by
  have hnone : Text.after? ['[', '%'] t = none := Text.after?_eq_none_iff.2 h
  rw [read?, hnone]
  rfl

/-! ### Sweeping -/

theorem sweepUpTo_eq_sweep {fuel : Nat} {t : Text} (h : t.length ≤ fuel) :
    sweepUpTo fuel t = sweep t := by
  -- any two amounts that reach to the end of the text are compared, by induction on the first
  suffices hall : ∀ n m t, t.length ≤ n → t.length ≤ m → sweepUpTo n t = sweepUpTo m t from
    hall _ _ t h le_rfl
  intro n
  induction n with
  | zero =>
    intro m t hn hm
    rw [List.length_eq_zero_iff.1 (Nat.le_zero.1 hn)]
    cases m <;> rfl
  | succ n ih =>
    intro m t hn hm
    cases t with
    | nil => cases m <;> rfl
    | cons c t =>
      cases m with
      | zero => simp at hm
      | succ m =>
        rw [List.length_cons] at hn hm
        rw [sweepUpTo, sweepUpTo]
        cases hr : read? (c :: t) with
        | none => rw [ih m t (by omega) (by omega)]
        | some found =>
          obtain ⟨tag, tail⟩ := found
          obtain ⟨he, hne⟩ := eq_of_read? hr
          have hlen := congrArg List.length he
          have hpos := List.length_pos_iff.2 hne
          simp only [List.length_append, List.length_cons] at hlen
          exact congrArg _ (ih m tail (by omega) (by omega))

theorem sweep_nil : sweep [] = [] := rfl

/-- A sweep goes on behind a tag. -/
theorem sweep_of_read? {t tail : Text} {tag : Tag} (h : read? t = some (tag, tail)) :
    sweep t = .tag tag :: sweep tail := by
  obtain ⟨he, hne⟩ := eq_of_read? h
  have hlen := congrArg List.length he
  have hpos := List.length_pos_iff.2 hne
  rw [List.length_append] at hlen
  cases t with
  | nil => simp at hlen; omega
  | cons c t =>
    rw [List.length_cons] at hlen
    rw [sweep, List.length_cons, sweepUpTo, h]
    exact congrArg _ (sweepUpTo_eq_sweep (by omega))

/-- A sweep passes over a character at which no tag starts. -/
theorem sweep_of_read?_eq_none {c : Char} {t : Text} (h : read? (c :: t) = none) :
    sweep (c :: t) = .plain c :: sweep t := by
  rw [sweep, List.length_cons, sweepUpTo, h]
  rfl

/-- A text without opening marks is passed over, unless its end and the first character behind it
make one. -/
theorem sweep_append {pre t : Text} (h : ¬ opener <:+: pre ++ t.take 1) :
    sweep (pre ++ t) = pre.map .plain ++ sweep t := by
  induction pre with
  | nil => rfl
  | cons c pre ih =>
    have hstart : ¬ opener <+: c :: (pre ++ t) := by
      intro hp
      have htake : c :: (pre ++ t.take 1) <+: c :: (pre ++ t) := by
        rw [List.cons_prefix_cons, List.prefix_append_right_inj]
        exact ⟨rfl, List.take_prefix 1 t⟩
      refine h (List.IsPrefix.isInfix ?_)
      cases t with
      | nil => exact hp
      | cons d t => exact List.prefix_of_prefix_length_le hp htake (by simp [opener])
    have hrest : ¬ opener <:+: pre ++ t.take 1 :=
      fun hi => h (hi.trans (List.suffix_cons c _).isInfix)
    rw [List.cons_append, sweep_of_read?_eq_none (read?_eq_none_of_not_opener hstart), ih hrest]
    rfl

/-! ### Tags with their places -/

/-- The same tag in a text that stands further back. -/
def Placed.shift (by_ : Nat) (p : Placed) : Placed := { p with start := p.start + by_ }

theorem placedFrom_add (offset by_ : Nat) (ps : List Piece) :
    placedFrom (offset + by_) ps = (placedFrom offset ps).map (Placed.shift by_) := by
  induction ps generalizing offset with
  | nil => rfl
  | cons p ps ih =>
    cases p with
    | plain c => rw [placedFrom, placedFrom, ← ih, Nat.add_right_comm]
    | tag t => rw [placedFrom, placedFrom, List.map_cons, ← ih, Nat.add_right_comm]; rfl

theorem placedFrom_append (offset : Nat) (ps qs : List Piece) :
    placedFrom offset (ps ++ qs) = placedFrom offset ps ++
      placedFrom (offset + Text.byteLength (ps.flatMap Piece.source)) qs := by
  induction ps generalizing offset with
  | nil => rfl
  | cons p ps ih =>
    cases p with
    | plain c =>
      rw [List.cons_append, placedFrom, placedFrom, ih]
      simp [Piece.source, Nat.add_assoc]
    | tag t =>
      rw [List.cons_append, placedFrom, placedFrom, ih]
      simp [Piece.source, Nat.add_assoc]

theorem placedFrom_map_plain (offset : Nat) (t : Text) : placedFrom offset (t.map .plain) = [] := by
  induction t generalizing offset with
  | nil => rfl
  | cons c t ih => rw [List.map_cons, placedFrom, ih]

/-- The tags of a text are those behind a part without opening marks, further back. -/
theorem scan_append {pre t : Text} (h : ¬ opener <:+: pre ++ t.take 1) :
    scan (pre ++ t) = (scan t).map (Placed.shift (Text.byteLength pre)) := by
  have hsource : (pre.map Piece.plain).flatMap Piece.source = pre := by
    rw [List.flatMap_map]
    exact List.flatMap_singleton' pre
  rw [scan, sweep_append h, placedFrom_append, placedFrom_map_plain, hsource, List.nil_append,
    placedFrom_add, scan]

/-- The first tag of a text that begins with one, and the tags behind it. -/
theorem scan_of_read? {t tail : Text} {tag : Tag} (h : read? t = some (tag, tail)) :
    scan t = ⟨tag, 0⟩ :: (scan tail).map (Placed.shift (Text.byteLength tag.source)) := by
  rw [scan, sweep_of_read? h, placedFrom, placedFrom_add, scan]

/-- A tag that is found at the start of a text and spans it was read there. -/
theorem read?_of_scan {t : Text} {tag : Tag} {rest : List Placed}
    (h : scan t = ⟨tag, 0⟩ :: rest) (ht : tag.source = t) : read? t = some (tag, []) := by
  cases hr : read? t with
  | some found =>
    obtain ⟨tag', tail⟩ := found
    rw [scan_of_read? hr, List.cons.injEq, Placed.mk.injEq] at h
    obtain ⟨⟨rfl, -⟩, -⟩ := h
    obtain ⟨he, -⟩ := eq_of_read? hr
    rw [ht] at he
    rw [List.self_eq_append_right.1 he]
  | none =>
    cases t with
    | nil => simp [scan, sweep_nil, placedFrom] at h
    | cons c t =>
      -- the first tag stands behind the character that was passed over
      rw [scan, sweep_of_read?_eq_none hr, placedFrom, Nat.zero_add, ← Nat.zero_add c.utf8Size,
        placedFrom_add] at h
      have hmem : (⟨tag, 0⟩ : Placed) ∈ (placedFrom 0 (sweep t)).map (Placed.shift c.utf8Size) := by
        rw [h]
        exact List.mem_cons_self
      obtain ⟨p, -, hp⟩ := List.mem_map.1 hmem
      have hpos := Char.utf8Size_pos c
      have hstart : p.start + c.utf8Size = 0 := congrArg Placed.start hp
      omega

end Shortcodes.Tag
