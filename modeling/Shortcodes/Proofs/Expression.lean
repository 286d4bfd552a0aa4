import Shortcodes.Proofs.Pattern

/-!
# Expressions

An expression puts patterns together, one behind the other, by choice, as an option, and by greedy
repetition. Like a pattern it matches the beginning of a text in several ways that stand in an
order, and the first of them counts. What must follow is passed on as a continuation: `leads`
is what the first way comes to behind which the continuation succeeds, and its lemmas go through an
expression from the front to the back. A greedy run gives nothing back if the continuation fails
wherever the run could have stopped earlier (`leads_greedy`). What is matched in a text are the
leftmost matches, one behind the other (`occurrences`).
-/

namespace Shortcodes

/-- An expression over texts. -/
inductive Expression where
  | part (p : Pattern)
  /-- The end of the text. -/
  | ending
  | seq (first second : Expression)
  /-- The first one or else the second one. -/
  | either (first second : Expression)
  /-- The inner expression or nothing. -/
  | optional (inner : Expression)
  /-- The inner expression as often as it matches and takes something. -/
  | repeated (inner : Expression)

namespace Expression

open Pattern

/-- The ways of a repetition, in at most `fuel` rounds; those with more rounds come first. -/
def repeatedWays (inner : Text → List Way) : (fuel : Nat) → Text → List Way
  | 0, t => [⟨[], [], t⟩]
  | fuel + 1, t =>
    (((inner t).filter fun w => w.taken ≠ []).flatMap fun w =>
      (repeatedWays inner fuel w.rest).map w.join) ++ [⟨[], [], t⟩]

/-- The ways in which an expression matches the beginning of a text, the preferred ones first. -/
def ways : Expression → Text → List Way
  | part p, t => p.ways t
  | ending, t => if t = [] then [⟨[], [], t⟩] else []
  | seq e f, t => (e.ways t).flatMap fun w => (f.ways w.rest).map w.join
  | either e f, t => e.ways t ++ f.ways t
  | optional e, t => e.ways t ++ [⟨[], [], t⟩]
  -- every round takes a character
  | repeated e, t => repeatedWays e.ways t.length t

/-- The way that counts. -/
def first? (e : Expression) (t : Text) : Option Way := (e.ways t).head?

/-- The leftmost match in a text, with the text in front of it. -/
def leftmost? (e : Expression) : Text → Option (Text × Way)
  | [] => (e.first? []).map fun w => ([], w)
  | c :: t =>
    match e.first? (c :: t) with
    | some w => some ([], w)
    | none => (leftmost? e t).map fun r => (c :: r.1, r.2)

/-! ### What is taken and what is left -/

theorem taken_append_rest_of_repeated {inner : Text → List Way}
    (hinner : ∀ t, ∀ w ∈ inner t, w.taken ++ w.rest = t) {fuel : Nat} {t : Text} {w : Way}
    (h : w ∈ repeatedWays inner fuel t) : w.taken ++ w.rest = t := by
  induction fuel generalizing t w with
  | zero =>
    rw [List.mem_singleton.1 h]
    rfl
  | succ fuel ih =>
    rw [repeatedWays, List.mem_append, List.mem_singleton] at h
    rcases h with h | rfl
    · obtain ⟨w, hw, h⟩ := List.mem_flatMap.1 h
      obtain ⟨v, hv, rfl⟩ := List.mem_map.1 h
      exact taken_append_rest_of_join (hinner t w (List.mem_filter.1 hw).1) (ih hv)
    · rfl

theorem taken_append_rest {e : Expression} {t : Text} {w : Way} (h : w ∈ e.ways t) :
    w.taken ++ w.rest = t := by
  induction e generalizing t w with
  | part p => exact Pattern.taken_append_rest h
  | ending =>
    rw [ways] at h
    split at h
    · rw [List.mem_singleton.1 h]
      rfl
    · cases h
  | seq e f ihe ihf =>
    rw [ways] at h
    obtain ⟨w, hw, h⟩ := List.mem_flatMap.1 h
    obtain ⟨v, hv, rfl⟩ := List.mem_map.1 h
    exact taken_append_rest_of_join (ihe hw) (ihf hv)
  | either e f ihe ihf =>
    rw [ways, List.mem_append] at h
    exact h.elim ihe ihf
  | optional e ih =>
    rw [ways, List.mem_append, List.mem_singleton] at h
    rcases h with h | rfl
    · exact ih h
    · rfl
  | repeated e ih => exact taken_append_rest_of_repeated (fun t w hw => ih hw) h

/-! ### Continuations -/

variable {α : Type}

/-- What the first way comes to that a continuation, given the groups and the rest, goes on
from. -/
def leads (e : Expression) (k : List (Nat × Text) → Text → Option α) (t : Text) : Option α :=
  (e.ways t).findSome? fun w => k w.groups w.rest

theorem map_first? (e : Expression) (f : Way → α) (t : Text) :
    (e.first? t).map f = (e.ways t).findSome? fun w => some (f w) := by
  rw [first?]
  cases e.ways t <;> rfl

theorem findSome?_flatMap_join (ws : List Way) (f : Way → List Way)
    (k : List (Nat × Text) → Text → Option α) :
    (ws.flatMap fun w => (f w).map w.join).findSome? (fun w => k w.groups w.rest) =
      ws.findSome? fun w => (f w).findSome? fun v => k (w.groups ++ v.groups) v.rest := by
  induction ws with
  | nil => rfl
  | cons w ws ih =>
    rw [List.flatMap_cons, List.findSome?_append, ih, List.findSome?_map, List.findSome?_cons]
    cases h : (f w).findSome? fun v => k (w.groups ++ v.groups) v.rest with
    | none =>
      rw [← Option.none_or (o := ws.findSome? _)]
      exact congrArg (Option.or · _) h
    | some a => exact (congrArg (Option.or · _) h).trans Option.some_or

theorem leads_seq (e f : Expression) (k : List (Nat × Text) → Text → Option α) (t : Text) :
    (seq e f).leads k t = e.leads (fun g r => f.leads (fun g' => k (g ++ g')) r) t :=
  findSome?_flatMap_join _ _ k

theorem leads_either (e f : Expression) (k : List (Nat × Text) → Text → Option α) (t : Text) :
    (either e f).leads k t = (e.leads k t).or (f.leads k t) := List.findSome?_append

theorem leads_optional (e : Expression) (k : List (Nat × Text) → Text → Option α) (t : Text) :
    (optional e).leads k t = (e.leads k t).or (k [] t) := by
  rw [leads, ways, List.findSome?_append, List.findSome?_singleton]
  rfl

theorem leads_one_cons (ofClass : Char → Bool) (k : List (Nat × Text) → Text → Option α) (c : Char)
    (t : Text) : (part (.one ofClass)).leads k (c :: t) = if ofClass c then k [] t else none := by
  rw [leads, ways, Pattern.ways]
  split
  · exact List.findSome?_singleton
  · rfl

theorem leads_pair (a b : Char) (k : List (Nat × Text) → Text → Option α) (t : Text) :
    (part (.pair a b)).leads k t = (Text.after? [a, b] t).bind (k []) := by
  rw [leads, ways, ways_pair]
  cases Text.after? [a, b] t with
  | none => rfl
  | some rest => exact List.findSome?_singleton

/-- A lazy run of any characters takes one only if the continuation fails without it. -/
theorem leads_lazy_cons (k : List (Nat × Text) → Text → Option α) (c : Char) (t : Text) :
    (part (.many false fun _ => true)).leads k (c :: t) =
      (k [] (c :: t)).or ((part (.many false fun _ => true)).leads k t) := by
  rw [leads, leads, ways, ways, Pattern.ways, Pattern.ways, if_neg Bool.false_ne_true,
    if_neg Bool.false_ne_true, runs, if_pos rfl, List.map_cons, List.findSome?_cons, List.map_map]
  cases k [] (c :: t) with
  | none =>
    simp only [List.findSome?_map, Option.none_or]
    rfl
  | some a => rfl

/-- A greedy run stops where its class ends, if the continuation, where it fails there, fails at
each character of the run as well. -/
theorem findSome?_runs {ofClass : Char → Bool} {k : Text → Text → Option α} {t : Text}
    (h : ∀ front c rest, t = front ++ c :: rest → (∀ d ∈ front, ofClass d = true) →
      ofClass c = true → k (t.takeWhile ofClass) (t.dropWhile ofClass) = none →
        k front (c :: rest) = none) :
    (runs ofClass t).reverse.findSome? (fun r => k r.1 r.2) =
      k (t.takeWhile ofClass) (t.dropWhile ofClass) := by
  obtain ⟨shorter, hruns, hshorter⟩ := exists_runs_eq ofClass t
  rw [hruns, List.reverse_append, List.reverse_singleton, List.singleton_append,
    List.findSome?_cons]
  cases hk : k (t.takeWhile ofClass) (t.dropWhile ofClass) with
  | some a => rfl
  | none =>
    refine List.findSome?_eq_none_iff.2 fun r hr => ?_
    have hmem : r ∈ shorter := List.mem_reverse.1 hr
    obtain ⟨hsplit, c, rest, hrest, hc⟩ := hshorter r hmem
    have hall := all_of_mem_runs (r := r) (by rw [hruns]; exact List.mem_append_left _ hmem)
    rw [hrest]
    exact h r.1 c rest (by rw [← hrest, ← hsplit]) hall hc hk

theorem leads_greedy {ofClass : Char → Bool} {k : List (Nat × Text) → Text → Option α} {t : Text}
    (h : ∀ front c rest, t = front ++ c :: rest → (∀ d ∈ front, ofClass d = true) →
      ofClass c = true → k [] (t.dropWhile ofClass) = none → k [] (c :: rest) = none) :
    (part (.many true ofClass)).leads k t = k [] (t.dropWhile ofClass) := by
  rw [leads, ways, Pattern.ways, if_pos rfl, List.findSome?_map]
  exact findSome?_runs (k := fun _ rest => k [] rest) h

/-- A group of a character and a greedy run. -/
theorem leads_group_greedy (number : Nat) {first ofClass : Char → Bool}
    {k : List (Nat × Text) → Text → Option α} {c : Char} {t : Text}
    (h : ∀ name d rest, ofClass d = true → k [(number, name)] (d :: rest) = none) :
    (part (.group number (.seq (.one first) (.many true ofClass)))).leads k (c :: t) =
      if first c then k [(number, c :: t.takeWhile ofClass)] (t.dropWhile ofClass) else none := by
  rw [leads, ways, Pattern.ways, Pattern.ways, Pattern.ways]
  split
  · rw [List.flatMap_singleton, Pattern.ways, if_pos rfl, List.findSome?_map, List.findSome?_map,
      List.findSome?_map]
    exact findSome?_runs (k := fun front rest => k [(number, c :: front)] rest)
      fun front d rest _ _ hd _ => h (c :: front) d rest hd
  · rfl

/-- A group of a character that may be left out. -/
theorem leads_group_optional_cons (number : Nat) (ofClass : Char → Bool)
    (k : List (Nat × Text) → Text → Option α) (c : Char) (t : Text) :
    (part (.group number (.optional (.one ofClass)))).leads k (c :: t) =
      (if ofClass c then k [(number, [c])] t else none).or (k [(number, [])] (c :: t)) := by
  rw [leads, ways, Pattern.ways, Pattern.ways, Pattern.ways, List.map_append, List.findSome?_append,
    List.map_singleton, List.findSome?_singleton]
  split
  · rw [List.map_singleton, List.findSome?_singleton]
  · rfl

theorem leads_group_optional_nil (number : Nat) (ofClass : Char → Bool)
    (k : List (Nat × Text) → Text → Option α) :
    (part (.group number (.optional (.one ofClass)))).leads k [] = k [(number, [])] [] :=
  List.findSome?_singleton

/-! ### Matches in a text -/

/-- A match in a text. -/
structure Occurrence where
  /-- The byte offset at which it begins. -/
  start : Nat
  way : Way

/-- The byte offset at which a match ends. -/
def Occurrence.stop (m : Occurrence) : Nat := m.start + Text.byteLength m.way.taken

/-- The leftmost match in a text that begins at a byte offset, the leftmost match behind it, and so
on, at most `fuel` of them. -/
def occurrencesUpTo (e : Expression) : (fuel : Nat) → (offset : Nat) → Text → List Occurrence
  | 0, _, _ => []
  | fuel + 1, offset, t =>
    match e.leftmost? t with
    | none => []
    | some (front, w) =>
      let m : Occurrence := ⟨offset + Text.byteLength front, w⟩
      m :: occurrencesUpTo e fuel m.stop w.rest

/-- All matches in a text that begins at a byte offset, one behind the other, of an expression that
takes no empty text. -/
def occurrences (e : Expression) (offset : Nat) (t : Text) : List Occurrence :=
  e.occurrencesUpTo t.length offset t

/-- An expression takes no empty text. -/
def TakesSome (e : Expression) : Prop := ∀ t w, e.first? t = some w → w.taken ≠ []

theorem append_of_leftmost? {e : Expression} {t front : Text} {w : Way}
    (h : e.leftmost? t = some (front, w)) :
    front ++ (w.taken ++ w.rest) = t ∧ e.first? (w.taken ++ w.rest) = some w := by
  have hhere : ∀ {t : Text}, e.first? t = some w →
      w.taken ++ w.rest = t ∧ e.first? (w.taken ++ w.rest) = some w := by
    intro t hfirst
    have htaken := taken_append_rest (List.mem_of_head? hfirst)
    exact ⟨htaken, by rwa [htaken]⟩
  induction t generalizing front with
  | nil =>
    obtain ⟨w', hfirst, heq⟩ := Option.map_eq_some_iff.1 h
    cases heq
    exact hhere hfirst
  | cons c t ih =>
    rw [leftmost?] at h
    split at h
    · next hfirst =>
      cases h
      exact hhere hfirst
    · obtain ⟨⟨front', w'⟩, hleft, heq⟩ := Option.map_eq_some_iff.1 h
      cases heq
      obtain ⟨happend, hfirst⟩ := ih hleft
      exact ⟨congrArg (c :: ·) happend, hfirst⟩

section Occurrences

variable {e : Expression} (he : e.TakesSome)

include he

/-- A match leaves less than the text. -/
theorem length_rest_lt {t front : Text} {w : Way} (h : e.leftmost? t = some (front, w)) :
    w.rest.length < t.length := by
  obtain ⟨happend, hfirst⟩ := append_of_leftmost? h
  have hpos := List.length_pos_iff.2 (he _ _ hfirst)
  have hlength := congrArg List.length happend
  simp only [List.length_append] at hlength
  omega

theorem occurrencesUpTo_eq {fuel : Nat} {t : Text} (h : t.length ≤ fuel) (offset : Nat) :
    e.occurrencesUpTo fuel offset t = e.occurrences offset t := by
  suffices hall : ∀ n m offset t, t.length ≤ n → t.length ≤ m →
      e.occurrencesUpTo n offset t = e.occurrencesUpTo m offset t from
    hall _ _ _ _ h (Nat.le_refl _)
  -- without characters there is nothing that a match could take
  have hnil : ∀ n offset, e.occurrencesUpTo n offset [] = [] := by
    intro n offset
    cases n with
    | zero => rfl
    | succ n =>
      rw [occurrencesUpTo]
      cases hleft : e.leftmost? [] with
      | none => rfl
      | some r =>
        obtain ⟨front, w⟩ := r
        exact absurd (length_rest_lt he hleft) (Nat.not_lt_zero _)
  intro n
  induction n with
  | zero =>
    intro m offset t hn hm
    rw [List.length_eq_zero_iff.1 (Nat.le_zero.1 hn), hnil, hnil]
  | succ n ih =>
    intro m offset t hn hm
    cases m with
    | zero => rw [List.length_eq_zero_iff.1 (Nat.le_zero.1 hm), hnil, hnil]
    | succ m =>
      rw [occurrencesUpTo, occurrencesUpTo]
      cases hleft : e.leftmost? t with
      | none => rfl
      | some r =>
        obtain ⟨front, w⟩ := r
        have hrest := length_rest_lt he hleft
        exact congrArg (_ :: ·) (ih m _ _ (by omega) (by omega))

/-- A match at the start of a text is followed by the matches in what it leaves. -/
theorem occurrences_of_first? {t : Text} {w : Way} (h : e.first? t = some w) (offset : Nat) :
    e.occurrences offset t =
      ⟨offset, w⟩ :: e.occurrences (offset + Text.byteLength w.taken) w.rest := by
  have hleft : e.leftmost? t = some ([], w) := by
    cases t with
    | nil => rw [leftmost?, h, Option.map_some]
    | cons c t => rw [leftmost?, h]
  have hlength := length_rest_lt he hleft
  obtain ⟨n, hn⟩ : ∃ n, t.length = n + 1 := ⟨t.length - 1, by omega⟩
  rw [occurrences, hn, occurrencesUpTo, hleft]
  exact congrArg (_ :: ·) (occurrencesUpTo_eq he (by omega) _)

/-- Where nothing matches the search goes on with the next character. -/
theorem occurrences_of_first?_eq_none {c : Char} {t : Text} (h : e.first? (c :: t) = none)
    (offset : Nat) : e.occurrences offset (c :: t) = e.occurrences (offset + c.utf8Size) t := by
  have hmore := occurrencesUpTo_eq he (Nat.le_succ t.length) (offset + c.utf8Size)
  rw [← hmore, occurrences, List.length_cons, occurrencesUpTo, occurrencesUpTo, leftmost?, h]
  cases e.leftmost? t with
  | none => rfl
  | some r => simp only [Option.map_some, Text.byteLength_cons, Nat.add_assoc]

end Occurrences

end Expression

end Shortcodes
