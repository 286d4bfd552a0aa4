import Mathlib.Data.Nat.Find
import Shortcodes.Proofs.Tag.Pattern

/-!
# The grammar of tags

What the tags of a text are can be said by positions in it. A tag stands where an opening mark is
followed, behind blanks, by the first character of a name, and that by a closing mark (`Stands`);
its name and its arguments are parts of the text between these two (`Parts`). The tags from a
position on are the first one that stands there and those from its end on (`Grammar`). A tag is read
exactly where one stands (`read?_drop_iff`), and positions at which none stands are passed over
(`scanFrom_of_not_stands`). So the tags of a text are those of the grammar (`scan_grammar`).
-/

namespace Shortcodes.Tag

/-! ### Positions -/

/-- A tag stands at position `i`: its name begins at `j` and its closing mark at `k`. -/
structure Stands (t : Text) (i j k : Nat) : Prop where
  opens : opener <+: t.drop i
  inside : i + 2 ≤ j
  blanks : ∀ c ∈ t.extract (i + 2) j, isBlank c = true
  letter : ∃ c, t[j]? = some c ∧ isBlank c = false ∧ c ≠ '%'
  behind : j + 1 ≤ k
  closes : Word.closer <+: t.drop k
  first : ∀ k', j + 1 ≤ k' → k' < k → ¬ Word.closer <+: t.drop k'

/-- The name that begins at `j` and the arguments in front of the closing mark at `k`. The first
blank behind the name's first character, at `w`, parts the two. -/
inductive Parts (t : Text) (j k : Nat) : (name arguments : Text) → Prop
  | bare (h : ∀ c ∈ t.extract (j + 1) k, isBlank c = false) : Parts t j k (t.extract j k) []
  | spaced {w : Nat} (hj : j + 1 ≤ w) (hk : w < k) (hw : ∃ c, t[w]? = some c ∧ isBlank c = true)
      (hfirst : ∀ c ∈ t.extract (j + 1) w, isBlank c = false) :
      Parts t j k (t.extract j w) (Text.trim (t.extract w k))

/-- What is found where a tag stands. -/
structure Shows (t : Text) (i j k : Nat) (p : Placed) : Prop where
  parts : Parts t j k p.tag.name p.tag.arguments
  source : p.tag.source = t.extract i (k + 2)
  start : p.start = Text.byteLength (t.take i)
  stop : p.stop = Text.byteLength (t.take (k + 2))

/-- The tags of a text from position `p` on: the first one that stands there and, from its end on,
the others. -/
inductive Grammar (t : Text) : (p : Nat) → List Placed → Prop
  | none {p : Nat} (h : ∀ i j k, p ≤ i → ¬ Stands t i j k) : Grammar t p []
  | tag {p i j k : Nat} {found : Placed} {rest : List Placed} (hp : p ≤ i)
      (hfirst : ∀ i' j' k', p ≤ i' → i' < i → ¬ Stands t i' j' k') (hstands : Stands t i j k)
      (hshows : Shows t i j k found) (hrest : Grammar t (k + 2) rest) :
      Grammar t p (found :: rest)

/-! ### One tag -/

/-- Where the text goes on as a tag is spelled, the parts of the tag have these places. -/
theorem places_of_drop {t blanks body tail : Text} {i : Nat} {c : Char}
    (h : t.drop i = (spelled blanks c body).source ++ tail) :
    t.extract (i + 2) (i + 2 + blanks.length) = blanks ∧
      t[i + 2 + blanks.length]? = some c ∧
      t.drop (i + 2 + blanks.length + 1) = body ++ (Word.closer ++ tail) ∧
      t.drop (i + 2 + blanks.length + 1 + body.length) = Word.closer ++ tail ∧
      t.drop (i + 2 + blanks.length + 1 + body.length + 2) = tail ∧
      t.extract i (i + 2 + blanks.length + 1 + body.length + 2) =
        (spelled blanks c body).source := by
  have hopener : t.drop i = opener ++ (blanks ++ c :: (body ++ (Word.closer ++ tail))) := by
    simpa only [spelled, List.append_assoc, List.cons_append] using h
  have hinside : t.drop (i + 2) = blanks ++ c :: (body ++ (Word.closer ++ tail)) :=
    Text.drop_of_drop opener hopener
  have hname : t.drop (i + 2 + blanks.length) = c :: (body ++ (Word.closer ++ tail)) :=
    Text.drop_of_drop blanks hinside
  have hrest : t.drop (i + 2 + blanks.length + 1) = body ++ (Word.closer ++ tail) :=
    Text.drop_of_drop [c] hname
  have hcloser : t.drop (i + 2 + blanks.length + 1 + body.length) = Word.closer ++ tail :=
    Text.drop_of_drop body hrest
  have hlength : i + 2 + blanks.length + 1 + body.length + 2 =
      i + (spelled blanks c body).source.length := by
    simp only [spelled, opener, Word.closer, List.length_append, List.length_cons, List.length_nil]
    omega
  refine ⟨Text.extract_of_drop hinside, Text.getElem?_of_drop hname, hrest, hcloser,
    Text.drop_of_drop Word.closer hcloser, ?_⟩
  rw [hlength, Text.extract_of_drop h]

/-- A tag stands where the text goes on as a tag is spelled. -/
theorem stands_of_drop {t blanks body tail : Text} {i : Nat} {c : Char}
    (h : t.drop i = (spelled blanks c body).source ++ tail)
    (hb : ∀ d ∈ blanks, isBlank d = true) (hc : isBlank c = false) (hp : c ≠ '%')
    (hbody : ¬ Word.closer <:+: body ++ ['%']) :
    Stands t i (i + 2 + blanks.length) (i + 2 + blanks.length + 1 + body.length) := by
  obtain ⟨hblanks, hletter, hrest, hcloser, -, -⟩ := places_of_drop h
  constructor
  case opens =>
    rw [h]
    exact ⟨blanks ++ c :: body ++ Word.closer ++ tail, by simp [spelled]⟩
  case inside => exact Nat.le_add_right _ _
  case blanks => rwa [hblanks]
  case letter => exact ⟨c, hletter, hc, hp⟩
  case behind => exact Nat.le_add_right _ _
  case closes =>
    rw [hcloser]
    exact List.prefix_append _ _
  case first =>
    -- a mark that begins in the body would stand in it, or make use of the last mark's `%`
    intro k' hk hk'
    obtain ⟨n, rfl⟩ := Nat.exists_eq_add_of_le hk
    have hn : n < body.length := by omega
    have hdrop : t.drop (i + 2 + blanks.length + 1 + n) = body.drop n ++ Word.closer ++ tail := by
      rw [← List.drop_drop, hrest, List.drop_append_of_le_length hn.le, List.append_assoc]
    have hne : body.drop n ≠ [] := by
      rw [ne_eq, List.drop_eq_nil_iff]
      omega
    have hsuffix : body.drop n ++ ['%'] <:+ body ++ ['%'] := by
      conv_rhs => rw [← List.take_append_drop n body, List.append_assoc]
      exact List.suffix_append _ _
    rw [hdrop]
    exact Text.not_isPrefix_append hne fun hi => hbody (hi.trans hsuffix.isInfix)

theorem Stands.le_length {t : Text} {i j k : Nat} (h : Stands t i j k) : k + 2 ≤ t.length := by
  have hle := h.closes.length_le
  have hlength : Word.closer.length = 2 := rfl
  rw [List.length_drop] at hle
  omega

/-- Where a tag stands the text goes on as a tag is spelled. -/
theorem Stands.spelled {t : Text} {i j k : Nat} (h : Stands t i j k) : ∃ blanks c body,
    t.drop i = (spelled blanks c body).source ++ t.drop (k + 2) ∧
      (∀ d ∈ blanks, isBlank d = true) ∧ isBlank c = false ∧ c ≠ '%' ∧
      ¬ Word.closer <:+: body ++ ['%'] ∧ j = i + 2 + blanks.length ∧ k = j + 1 + body.length := by
  obtain ⟨c, hletter, hc, hp⟩ := h.letter
  have hopener : t.drop i = opener ++ t.drop (i + 2) := by
    rw [← List.drop_drop]
    exact (List.prefix_iff_eq_append.1 h.opens).symm
  have hcloser : t.drop k = Word.closer ++ t.drop (k + 2) := by
    rw [← List.drop_drop]
    exact (List.prefix_iff_eq_append.1 h.closes).symm
  have hk := h.le_length
  have hj := h.inside
  have hjk := h.behind
  have hrest : t.drop (j + 1) = t.extract (j + 1) k ++ Word.closer ++ t.drop (k + 2) := by
    rw [Text.drop_eq_extract_append h.behind t, hcloser, List.append_assoc]
  refine ⟨t.extract (i + 2) j, c, t.extract (j + 1) k, ?_, h.blanks, hc, hp, ?_, ?_, ?_⟩
  · rw [hopener, Text.drop_eq_extract_append h.inside t, Text.drop_of_getElem? hletter, hrest]
    simp only [Tag.spelled, List.append_assoc, List.cons_append]
  · -- an earlier closing mark would end the tag
    rintro ⟨front, back, hinfix⟩
    have hlength := congrArg List.length hinfix
    rw [List.length_append, List.length_append, List.length_append,
      Text.length_extract h.behind (by omega)] at hlength
    simp only [Word.closer, List.length_cons, List.length_nil] at hlength
    have hearly : t.drop (j + 1) = front ++ (Word.closer ++ (back ++ ']' :: t.drop (k + 2))) := by
      rw [hrest]
      show t.extract (j + 1) k ++ ['%', ']'] ++ t.drop (k + 2) = _
      have hsplit : t.extract (j + 1) k ++ ['%', ']'] =
          (t.extract (j + 1) k ++ ['%']) ++ [']'] := by
        rw [List.append_assoc]
        rfl
      rw [hsplit, ← hinfix]
      simp only [List.append_assoc, List.singleton_append]
    refine h.first (j + 1 + front.length) (Nat.le_add_right _ _) (by omega) ?_
    rw [Text.drop_of_drop front hearly]
    exact List.prefix_append _ _
  · rw [Text.length_extract h.inside (by omega)]
    omega
  · rw [Text.length_extract h.behind (by omega)]
    omega

/-- Where the text between the first character of a name and the closing mark begins with letters,
and a blank stands behind them or nothing, they end the name and the arguments follow them. -/
theorem parts_of_extract {t letters after : Text} {j k : Nat} {c : Char} (hletter : t[j]? = some c)
    (hk : j + 1 ≤ k) (h : t.extract (j + 1) k = letters ++ after)
    (hletters : ∀ d ∈ letters, isBlank d = false) (hafter : ∀ d ∈ after.head?, isBlank d = true) :
    Parts t j k (c :: letters) (Text.trim after) := by
  cases after with
  | nil =>
    rw [List.append_nil] at h
    have hbare : Parts t j k (t.extract j k) [] := .bare (by rwa [h])
    rwa [Text.extract_eq_cons hletter hk, h] at hbare
  | cons b after =>
    have hrest : t.drop (j + 1) = letters ++ (b :: after ++ t.drop k) := by
      rw [← List.append_assoc, ← h, Text.drop_eq_extract_append hk t]
    have hw : t[j + 1 + letters.length]? = some b :=
      Text.getElem?_of_drop (Text.drop_of_drop letters hrest)
    have hwk : j + 1 + letters.length < k := by
      have hlength := congrArg List.length h
      rw [List.extract_eq_take_drop, List.length_append, List.length_cons,
        List.length_take] at hlength
      omega
    have hname : t.extract (j + 1) (j + 1 + letters.length) = letters :=
      Text.extract_of_drop hrest
    have harguments : t.extract (j + 1 + letters.length) k = b :: after := by
      have hjoin := Text.extract_append_extract (Nat.le_add_right (j + 1) letters.length) hwk.le t
      rwa [hname, h, List.append_right_inj] at hjoin
    have hspaced := Parts.spaced (Nat.le_add_right _ _) hwk ⟨b, hw, hafter b rfl⟩ (by rwa [hname])
    rwa [Text.extract_eq_cons hletter (Nat.le_add_right _ _), hname, harguments] at hspaced

/-- The name ends at the first blank, and what stands behind it are the arguments. -/
theorem parts_iff {t name arguments : Text} {j k : Nat} {c : Char} (hletter : t[j]? = some c)
    (hk : j + 1 ≤ k) :
    Parts t j k name arguments ↔
      name = c :: ((t.extract (j + 1) k).takeWhile fun d => !isBlank d) ∧
        arguments = Text.trim ((t.extract (j + 1) k).dropWhile fun d => !isBlank d) := by
  constructor
  · intro hparts
    cases hparts with
    | bare hall =>
      have hpos : ∀ d ∈ t.extract (j + 1) k, (!isBlank d) = true := by
        intro d hd
        rw [hall d hd]
        rfl
      rw [Text.extract_eq_cons hletter hk, List.takeWhile_eq_self_iff.2 hpos,
        List.dropWhile_eq_nil_iff.2 hpos]
      exact ⟨rfl, rfl⟩
    | @spaced w hj hwk hw hfirst =>
      obtain ⟨b, hw, hb⟩ := hw
      have hneg : ¬ (!isBlank b) = true := by
        rw [hb]
        exact Bool.false_ne_true
      have hpos : ∀ d ∈ t.extract (j + 1) w, (!isBlank d) = true := by
        intro d hd
        rw [hfirst d hd]
        rfl
      rw [Text.extract_eq_cons hletter hj, ← Text.extract_append_extract hj hwk.le t,
        Text.extract_eq_cons hw hwk, List.takeWhile_append_of_pos hpos,
        List.dropWhile_append_of_pos hpos,
        List.takeWhile_cons_of_neg (p := fun d => !isBlank d) hneg,
        List.dropWhile_cons_of_neg (p := fun d => !isBlank d) hneg, List.append_nil]
      exact ⟨rfl, rfl⟩
  · rintro ⟨rfl, rfl⟩
    -- the first blank behind the name is where the two parts meet
    refine parts_of_extract hletter hk (List.takeWhile_append_dropWhile).symm ?_ ?_
    · intro d hd
      simpa using List.mem_takeWhile_imp hd
    · intro d hd
      obtain ⟨rest, hrest⟩ := List.head?_eq_some_iff.1 hd
      have hstart := List.head?_dropWhile_not (fun d => !isBlank d) (t.extract (j + 1) k)
      rw [hrest, List.head?_cons] at hstart
      simpa using hstart

/-- A tag is read where one stands. -/
theorem read?_drop_iff {t tail : Text} {i : Nat} {tag : Tag} :
    read? (t.drop i) = some (tag, tail) ↔ ∃ j k, Stands t i j k ∧
      Parts t j k tag.name tag.arguments ∧ tag.source = t.extract i (k + 2) ∧
        tail = t.drop (k + 2) := by
  rw [read?_eq_some_iff]
  constructor
  · rintro ⟨blanks, c, body, h, rfl, hb, hc, hp, hbody⟩
    obtain ⟨-, hletter, hrest, -, htail, hsource⟩ := places_of_drop h
    refine ⟨_, _, stands_of_drop h hb hc hp hbody, ?_, hsource.symm, htail.symm⟩
    rw [parts_iff hletter (Nat.le_add_right _ _), Text.extract_of_drop hrest]
    exact ⟨rfl, rfl⟩
  · rintro ⟨j, k, hstands, hparts, hsource, rfl⟩
    obtain ⟨blanks, c, body, h, hb, hc, hp, hbody, rfl, rfl⟩ := hstands.spelled
    obtain ⟨-, hletter, hrest, -, -, hspelled⟩ := places_of_drop h
    rw [parts_iff hletter (Nat.le_add_right _ _), Text.extract_of_drop hrest] at hparts
    rw [hspelled] at hsource
    refine ⟨blanks, c, body, h, ?_, hb, hc, hp, hbody⟩
    obtain ⟨hname, harguments⟩ := hparts
    cases tag
    subst hname harguments hsource
    rfl

/-- No tag is read where none stands. -/
theorem read?_drop_eq_none_iff {t : Text} {i : Nat} :
    read? (t.drop i) = none ↔ ∀ j k, ¬ Stands t i j k := by
  constructor
  · intro hnone j k hstands
    obtain ⟨blanks, c, body, h, hb, hc, hp, hbody, -, -⟩ := hstands.spelled
    have hread := read?_append hb hc hp hbody (t.drop (k + 2))
    rw [h] at hnone
    cases hnone.symm.trans hread
  · intro hnone
    cases hread : read? (t.drop i) with
    | none => rfl
    | some found =>
      obtain ⟨j, k, hstands, -⟩ := read?_drop_iff.1 hread
      exact absurd hstands (hnone j k)

/-! ### All tags -/

/-- The tags that a sweep finds from a position on. -/
def scanFrom (t : Text) (p : Nat) : List Placed :=
  placedFrom (Text.byteLength (t.take p)) (sweep (t.drop p))

theorem scanFrom_of_length_le {t : Text} {p : Nat} (h : t.length ≤ p) : scanFrom t p = [] := by
  rw [scanFrom, List.drop_of_length_le h]
  rfl

/-- Where nothing stands the sweep goes on with the next position. -/
theorem scanFrom_of_read?_eq_none {t : Text} {p : Nat} (h : read? (t.drop p) = none) :
    scanFrom t p = scanFrom t (p + 1) := by
  cases hletter : t[p]? with
  | none =>
    -- behind the end of the text there is nothing at this position or the next
    have hlength := List.getElem?_eq_none_iff.1 hletter
    rw [scanFrom_of_length_le hlength, scanFrom_of_length_le (Nat.le_succ_of_le hlength)]
  | some c =>
    have hdrop := Text.drop_of_getElem? hletter
    rw [hdrop] at h
    rw [scanFrom, scanFrom, hdrop, sweep_of_read?_eq_none h, placedFrom, List.take_add_one, hletter,
      Text.byteLength_append]
    rfl

/-- The sweep passes over positions at which nothing stands. -/
theorem scanFrom_of_not_stands {t : Text} {p i : Nat} (hp : p ≤ i)
    (h : ∀ i' j k, p ≤ i' → i' < i → ¬ Stands t i' j k) : scanFrom t p = scanFrom t i := by
  induction i, hp using Nat.le_induction with
  | base => rfl
  | succ i hp ih =>
    have hbefore : scanFrom t p = scanFrom t i :=
      ih fun i' j k hi' hlt => h i' j k hi' (Nat.lt_succ_of_lt hlt)
    have hhere : read? (t.drop i) = none :=
      read?_drop_eq_none_iff.2 fun j k => h i j k hp (Nat.lt_succ_self i)
    rw [hbefore, scanFrom_of_read?_eq_none hhere]

theorem scanFrom_eq_nil {t : Text} {p : Nat} (h : ∀ i j k, p ≤ i → ¬ Stands t i j k) :
    scanFrom t p = [] := by
  rw [scanFrom_of_not_stands (Nat.le_add_right p t.length) fun i j k hi _ => h i j k hi]
  exact scanFrom_of_length_le (Nat.le_add_left _ _)

/-- Where a tag stands the sweep finds what it shows, and goes on behind it. -/
theorem scanFrom_of_shows {t : Text} {i j k : Nat} {found : Placed} (hstands : Stands t i j k)
    (hshows : Shows t i j k found) : scanFrom t i = found :: scanFrom t (k + 2) := by
  have hread : read? (t.drop i) = some (found.tag, t.drop (k + 2)) :=
    read?_drop_iff.2 ⟨j, k, hstands, hshows.parts, hshows.source, rfl⟩
  have hstop : Text.byteLength (t.take i) + Text.byteLength found.tag.source =
      Text.byteLength (t.take (k + 2)) := by
    rw [← hshows.start]
    exact hshows.stop
  rw [scanFrom, sweep_of_read? hread, placedFrom, hstop, ← hshows.start]
  rfl

/-- Where a tag stands there is something to find. -/
theorem Stands.exists_shows {t : Text} {i j k : Nat} (h : Stands t i j k) :
    ∃ found, Shows t i j k found := by
  obtain ⟨c, hletter, -, -⟩ := h.letter
  have hi : i ≤ k + 2 := by
    have hj := h.inside
    have hk := h.behind
    omega
  exact ⟨⟨⟨_, _, t.extract i (k + 2)⟩, Text.byteLength (t.take i)⟩,
    (parts_iff hletter h.behind).2 ⟨rfl, rfl⟩, rfl, rfl, Text.byteLength_take_add hi t⟩

/-- What a sweep finds from a position on is in the grammar. -/
theorem grammar_scanFrom (t : Text) (p : Nat) : Grammar t p (scanFrom t p) := by
  -- every tag takes some of what is left of the text
  induction hleft : t.length - p using Nat.strong_induction_on generalizing p with
  | _ left ih =>
  by_cases hany : ∃ i, p ≤ i ∧ ∃ j k, Stands t i j k
  · classical
    obtain ⟨hp, j, k, hstands⟩ := Nat.find_spec hany
    have hfirst : ∀ i' j' k', p ≤ i' → i' < Nat.find hany → ¬ Stands t i' j' k' :=
      fun i' j' k' hi' hlt hs => Nat.find_min hany hlt ⟨hi', j', k', hs⟩
    obtain ⟨found, hshows⟩ := hstands.exists_shows
    have hk : k + 2 ≤ t.length := hstands.le_length
    have hrest : Grammar t (k + 2) (scanFrom t (k + 2)) := by
      have hj := hstands.inside
      have hjk := hstands.behind
      exact ih (t.length - (k + 2)) (by omega) (k + 2) rfl
    rw [scanFrom_of_not_stands hp hfirst, scanFrom_of_shows hstands hshows]
    exact .tag hp hfirst hstands hshows hrest
  · have hnone : ∀ i j k, p ≤ i → ¬ Stands t i j k :=
      fun i j k hi hs => hany ⟨i, hi, j, k, hs⟩
    rw [scanFrom_eq_nil hnone]
    exact .none hnone

/-- The grammar finds the same as a sweep. -/
theorem scanFrom_of_grammar {t : Text} {p : Nat} {ps : List Placed} (h : Grammar t p ps) :
    scanFrom t p = ps := by
  induction h with
  | none hnone => exact scanFrom_eq_nil hnone
  | tag hp hfirst hstands hshows _ ih =>
    rw [scanFrom_of_not_stands hp hfirst, scanFrom_of_shows hstands hshows, ih]

/-- The tags of a text are those of the grammar, which are the leftmost matches of the pattern. -/
theorem scan_grammar (t : Text) :
    (∀ ps, scan t = ps ↔ Grammar t 0 ps) ∧
      scan t = (pattern.occurrences t).filterMap fun p =>
        (ofWay? p.2).map fun tag => ⟨tag, p.1⟩ := by
  constructor
  · intro ps
    constructor
    · rintro rfl
      exact grammar_scanFrom t 0
    · exact fun h => scanFrom_of_grammar h
  · exact scan_eq_occurrences t

end Shortcodes.Tag
