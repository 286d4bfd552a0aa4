import Mathlib.Data.List.Basic
import Shortcodes.Text.Basic

/-!
# Patterns

A pattern matches the beginning of a text in several ways, which stand in an order: of a greedy
repetition the longest come first, of a lazy one the shortest, and an option is taken before it is
left out. The first way counts (`first?`). What is matched in a text are the leftmost matches, one
behind the other (`occurrences`). The lemmas follow the first way through a sequence: behind a
greedy run (`first?_greedy_seq`), character by character through a lazy one
(`divided?_lazy_cons`), and past an option (`first?_optional_seq`).
-/

namespace Shortcodes

/-- A pattern of texts. What is repeated is one character of a class. -/
inductive Pattern where
  /-- One character of a class. -/
  | one (ofClass : Char → Bool)
  /-- Any number of characters of a class. -/
  | many (greedy : Bool) (ofClass : Char → Bool)
  | seq (first second : Pattern)
  /-- The inner pattern or nothing. -/
  | optional (inner : Pattern)
  /-- The inner pattern; what it takes is kept under a number. -/
  | group (number : Nat) (inner : Pattern)

namespace Pattern

/-- A way in which a pattern matches the beginning of a text. -/
structure Way where
  taken : Text
  groups : List (Nat × Text)
  rest : Text

/-- A way and one that goes on where it ends. -/
def Way.join (w v : Way) : Way := ⟨w.taken ++ v.taken, w.groups ++ v.groups, v.rest⟩

/-- The divisions of a text behind characters of a class, the shortest run first. -/
def runs (ofClass : Char → Bool) : Text → List (Text × Text)
  | [] => [([], [])]
  | c :: t =>
    ([], c :: t) :: if ofClass c then (runs ofClass t).map fun r => (c :: r.1, r.2) else []

/-- The ways in which a pattern matches the beginning of a text, the preferred ones first. -/
def ways : Pattern → Text → List Way
  | one _, [] => []
  | one ofClass, c :: t => if ofClass c then [⟨[c], [], t⟩] else []
  | many greedy ofClass, t =>
    (if greedy then (runs ofClass t).reverse else runs ofClass t).map fun r => ⟨r.1, [], r.2⟩
  | seq first second, t => (first.ways t).flatMap fun w => (second.ways w.rest).map w.join
  | optional inner, t => inner.ways t ++ [⟨[], [], t⟩]
  | group number inner, t =>
    (inner.ways t).map fun w => ⟨w.taken, (number, w.taken) :: w.groups, w.rest⟩

/-- The way that counts. -/
def first? (p : Pattern) (t : Text) : Option Way := (p.ways t).head?

/-- The leftmost matches in a text of a pattern that takes no empty text, one behind the other, each
with the byte offset at which it begins. `fuel` bounds the characters that are passed. -/
def occurrencesUpTo (p : Pattern) : (fuel : Nat) → (offset : Nat) → Text → List (Nat × Way)
  | 0, _, _ => []
  | _ + 1, _, [] => []
  | fuel + 1, offset, c :: t =>
    match p.first? (c :: t) with
    | some w => (offset, w) :: occurrencesUpTo p fuel (offset + Text.byteLength w.taken) w.rest
    | none => occurrencesUpTo p fuel (offset + c.utf8Size) t

/-- The leftmost matches of a pattern in a text. -/
def occurrences (p : Pattern) (t : Text) : List (Nat × Way) := p.occurrencesUpTo t.length 0 t

/-- Two characters one behind the other. -/
def pair (a b : Char) : Pattern := seq (one (· == a)) (one (· == b))

/-! ### Ways of sequences -/

theorem first?_seq (p q : Pattern) (t : Text) :
    (seq p q).first? t = (p.ways t).findSome? fun w => (q.first? w.rest).map w.join := by
  rw [first?, ways, List.head?_flatMap]
  simp only [List.head?_map]
  rfl

theorem ways_seq_assoc (p q r : Pattern) (t : Text) :
    (seq (seq p q) r).ways t = (seq p (seq q r)).ways t := by
  simp only [ways, List.flatMap_assoc, List.map_flatMap, List.flatMap_map, List.map_map]
  refine List.flatMap_congr fun w _ => List.flatMap_congr fun v _ => ?_
  refine List.map_congr_left fun u _ => ?_
  simp only [Way.join, Function.comp, List.append_assoc]

theorem first?_seq_assoc (p q r : Pattern) (t : Text) :
    (seq (seq p q) r).first? t = (seq p (seq q r)).first? t := by
  rw [first?, ways_seq_assoc, first?]

theorem first?_one_seq (ofClass : Char → Bool) (q : Pattern) (c : Char) (t : Text) :
    (seq (one ofClass) q).first? (c :: t) =
      if ofClass c then (q.first? t).map (Way.join ⟨[c], [], t⟩) else none := by
  rw [first?_seq, ways]
  split
  · rw [List.findSome?_singleton]
  · rfl

/-- An option is taken if what follows it can follow it, and left out otherwise. -/
theorem first?_optional_seq (p q : Pattern) (t : Text) :
    (seq (optional p) q).first? t = ((seq p q).first? t).or (q.first? t) := by
  have hid : (q.first? t).map (Way.join ⟨[], [], t⟩) = q.first? t := Option.map_id'
  rw [first?_seq, first?_seq, ways, List.findSome?_append, List.findSome?_singleton, hid]

theorem ways_pair (a b : Char) (t : Text) :
    (pair a b).ways t = ((Text.after? [a, b] t).map fun rest => ⟨[a, b], [], rest⟩).toList := by
  cases t with
  | nil => rfl
  | cons c t =>
    rw [pair, ways, ways, Text.after?]
    by_cases hc : c = a
    · subst hc
      rw [if_pos (beq_self_eq_true c), if_pos rfl, List.flatMap_singleton]
      cases t with
      | nil => rfl
      | cons d t =>
        rw [ways, Text.after?, Text.after?]
        by_cases hd : d = b
        · subst hd
          rw [if_pos (beq_self_eq_true d), if_pos rfl]
          rfl
        · rw [if_neg (by rwa [beq_iff_eq]), if_neg (Ne.symm hd)]
          rfl
    · rw [if_neg (by rwa [beq_iff_eq]), if_neg (Ne.symm hc)]
      rfl

theorem first?_pair (a b : Char) (t : Text) :
    (pair a b).first? t = (Text.after? [a, b] t).map fun rest => ⟨[a, b], [], rest⟩ := by
  rw [first?, ways_pair]
  cases Text.after? [a, b] t <;> rfl

theorem first?_pair_seq (a b : Char) (q : Pattern) (t : Text) :
    (seq (pair a b) q).first? t =
      (Text.after? [a, b] t).bind fun rest =>
        (q.first? rest).map (Way.join ⟨[a, b], [], rest⟩) := by
  rw [first?_seq, ways_pair]
  cases Text.after? [a, b] t with
  | none => rfl
  | some rest => exact List.findSome?_singleton

/-! ### Runs -/

/-- The longest run takes all characters of the class; behind every shorter one stands another. -/
theorem exists_runs_eq (ofClass : Char → Bool) (t : Text) :
    ∃ shorter, runs ofClass t = shorter ++ [(t.takeWhile ofClass, t.dropWhile ofClass)] ∧
      ∀ r ∈ shorter, t = r.1 ++ r.2 ∧ ∃ c rest, r.2 = c :: rest ∧ ofClass c = true := by
  induction t with
  | nil => exact ⟨[], rfl, by simp⟩
  | cons c t ih =>
    rw [runs]
    by_cases hc : ofClass c = true
    · obtain ⟨shorter, hruns, hshorter⟩ := ih
      refine ⟨([], c :: t) :: shorter.map fun r => (c :: r.1, r.2), ?_, ?_⟩
      · rw [if_pos hc, hruns, List.map_append, List.takeWhile_cons_of_pos hc,
          List.dropWhile_cons_of_pos hc]
        rfl
      · intro r hr
        rcases List.mem_cons.1 hr with rfl | hr
        · exact ⟨rfl, c, t, rfl, hc⟩
        · obtain ⟨r, hmem, rfl⟩ := List.mem_map.1 hr
          obtain ⟨hsplit, hnext⟩ := hshorter r hmem
          exact ⟨congrArg (c :: ·) hsplit, hnext⟩
    · refine ⟨[], ?_, by simp⟩
      rw [if_neg hc, List.takeWhile_cons_of_neg hc, List.dropWhile_cons_of_neg hc]
      rfl

theorem all_of_mem_runs {ofClass : Char → Bool} {t : Text} {r : Text × Text}
    (h : r ∈ runs ofClass t) : ∀ c ∈ r.1, ofClass c = true := by
  induction t generalizing r with
  | nil =>
    rw [List.mem_singleton.1 h]
    exact List.forall_mem_nil _
  | cons c t ih =>
    rw [runs] at h
    rcases List.mem_cons.1 h with rfl | h
    · exact List.forall_mem_nil _
    · split at h
      · next hc =>
        obtain ⟨r, hr, rfl⟩ := List.mem_map.1 h
        exact List.forall_mem_cons.2 ⟨hc, ih hr⟩
      · cases h

theorem append_of_mem_runs {ofClass : Char → Bool} {t : Text} {r : Text × Text}
    (h : r ∈ runs ofClass t) : r.1 ++ r.2 = t := by
  obtain ⟨shorter, hruns, hshorter⟩ := exists_runs_eq ofClass t
  rw [hruns, List.mem_append, List.mem_singleton] at h
  rcases h with h | rfl
  · exact (hshorter r h).1.symm
  · exact List.takeWhile_append_dropWhile

theorem taken_append_rest_of_join {w v : Way} {t : Text} (hw : w.taken ++ w.rest = t)
    (hv : v.taken ++ v.rest = w.rest) : (w.join v).taken ++ (w.join v).rest = t := by
  rw [Way.join, List.append_assoc, hv, hw]

/-- What a way takes and what it leaves make up the text. -/
theorem taken_append_rest {p : Pattern} {t : Text} {w : Way} (h : w ∈ p.ways t) :
    w.taken ++ w.rest = t := by
  induction p generalizing t w with
  | one ofClass =>
    cases t with
    | nil => cases h
    | cons c t =>
      rw [ways] at h
      split at h
      · rw [List.mem_singleton.1 h]
        rfl
      · cases h
  | many greedy ofClass =>
    rw [ways] at h
    obtain ⟨r, hr, rfl⟩ := List.mem_map.1 h
    have hmem : r ∈ runs ofClass t := by
      split at hr
      · exact List.mem_reverse.1 hr
      · exact hr
    exact append_of_mem_runs hmem
  | seq p q ihp ihq =>
    rw [ways] at h
    obtain ⟨w, hw, h⟩ := List.mem_flatMap.1 h
    obtain ⟨v, hv, rfl⟩ := List.mem_map.1 h
    exact taken_append_rest_of_join (ihp hw) (ihq hv)
  | optional p ih =>
    rw [ways, List.mem_append, List.mem_singleton] at h
    rcases h with h | rfl
    · exact ih h
    · rfl
  | group number p ih =>
    rw [ways] at h
    obtain ⟨v, hv, rfl⟩ := List.mem_map.1 h
    exact (ih hv : v.taken ++ v.rest = t)

/-- A greedy run stops where the class ends, unless what follows can only follow a shorter run. -/
theorem first?_greedy_seq {ofClass : Char → Bool} {q : Pattern} {t : Text}
    (h : ∀ front c rest, t = front ++ c :: rest → ofClass c = true →
      q.first? (t.dropWhile ofClass) = none → q.first? (c :: rest) = none) :
    (seq (many true ofClass) q).first? t =
      (q.first? (t.dropWhile ofClass)).map
        (Way.join ⟨t.takeWhile ofClass, [], t.dropWhile ofClass⟩) := by
  obtain ⟨shorter, hruns, hshorter⟩ := exists_runs_eq ofClass t
  rw [first?_seq, ways, if_pos rfl, hruns, List.reverse_append, List.reverse_singleton,
    List.singleton_append, List.map_cons, List.findSome?_cons]
  cases hq : q.first? (t.dropWhile ofClass) with
  | some w => rfl
  | none =>
    -- no shorter run lets anything follow either
    rw [Option.map_none, List.findSome?_eq_none_iff]
    intro w hw
    obtain ⟨r, hr, rfl⟩ := List.mem_map.1 hw
    obtain ⟨hsplit, c, rest, hrest, hc⟩ := hshorter r (List.mem_reverse.1 hr)
    rw [Option.map_eq_none_iff, hrest]
    exact h r.1 c rest (by rw [← hrest, ← hsplit]) hc hq

/-- The first way of a sequence, behind what its first part takes. -/
def divided? (p q : Pattern) (t : Text) : Option (Text × Way) :=
  (p.ways t).findSome? fun w => (q.first? w.rest).map fun v => (w.taken, w.join v)

theorem first?_group_seq (number : Nat) (p q : Pattern) (t : Text) :
    (seq (group number p) q).first? t = (divided? p q t).map fun r =>
      ⟨r.2.taken, (number, r.1) :: r.2.groups, r.2.rest⟩ := by
  rw [first?_seq, ways, divided?, List.findSome?_map, List.map_findSome?]
  refine congrArg (List.findSome? · (p.ways t)) (funext fun w => ?_)
  simp only [Function.comp, Option.map_map]
  rfl

theorem divided?_one_seq (ofClass : Char → Bool) (p q : Pattern) (c : Char) (t : Text) :
    divided? (seq (one ofClass) p) q (c :: t) =
      if ofClass c then (divided? p q t).map fun r => (c :: r.1, Way.join ⟨[c], [], t⟩ r.2)
      else none := by
  rw [divided?, ways, ways]
  split
  · rw [List.flatMap_singleton, divided?, List.findSome?_map, List.map_findSome?]
    refine congrArg (List.findSome? · (p.ways t)) (funext fun w => ?_)
    simp only [Function.comp, Option.map_map]
    rfl
  · rfl

/-- A lazy run takes a character only if what follows cannot follow without it. -/
theorem divided?_lazy_cons (ofClass : Char → Bool) (q : Pattern) (c : Char) (t : Text) :
    divided? (many false ofClass) q (c :: t) =
      ((q.first? (c :: t)).map fun v => ([], v)).or (if ofClass c then
        (divided? (many false ofClass) q t).map fun r => (c :: r.1, Way.join ⟨[c], [], t⟩ r.2)
        else none) := by
  rw [divided?, ways, if_neg Bool.false_ne_true, runs, List.map_cons, List.findSome?_cons]
  cases hq : q.first? (c :: t) with
  | some v => rfl
  | none =>
    simp only [Option.map_none, Option.none_or]
    by_cases hc : ofClass c = true
    · rw [if_pos hc, if_pos hc, divided?, ways, if_neg Bool.false_ne_true, List.findSome?_map,
        List.findSome?_map, List.findSome?_map, List.map_findSome?]
      refine congrArg (List.findSome? · (runs ofClass t)) (funext fun r => ?_)
      simp only [Function.comp, Option.map_map]
      rfl
    · rw [if_neg hc, if_neg hc]
      rfl

end Pattern

end Shortcodes
