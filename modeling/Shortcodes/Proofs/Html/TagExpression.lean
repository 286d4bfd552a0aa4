import Shortcodes.Proofs.Expression
import Shortcodes.Proofs.Html.OpeningTag

/-!
# The expression of loose tags

Loose tags have an expression (`LooseTag.expression`) with options and repetitions inside
repetitions. Reading a loose tag is matching it, whichever of its ways is the first
(`at?_eq_first?`): whatever a greedy part leaves to the next one could not have followed a shorter
one, so that nothing is ever given back.
-/

namespace Shortcodes.Html.LooseTag

open Expression

/-! ### The expression -/

/-- The character `c`. -/
def char (c : Char) : Expression := .part (.one (· == c))

/-- Blanks, as many as there are. -/
def blanks : Expression := .part (.many true isBlank)

/-- A value between quotation marks. -/
def quoted (mark : Char) : Expression :=
  .seq (char mark) (.seq (.part (.many true (· != mark))) (char mark))

/-- A value between quotation marks of either kind or without them. -/
def value : Expression :=
  .either (quoted '"') (.either (quoted '\'')
    (.seq (.part (.one isValueChar)) (.part (.many true isValueChar))))

/-- The sign of equality and a value, with blanks around the sign. -/
def assigned : Expression := .seq blanks (.seq (char '=') (.seq blanks value))

/-- Blanks, a name and perhaps a value. -/
def spacedAttribute : Expression :=
  .seq (.part (.one isBlank)) (.seq blanks (.seq (.part (.one isAttributeChar))
    (.seq (.part (.many true isAttributeChar)) (.optional assigned))))

/-- The end of an opening tag. The second group is the slash of one that closes itself. -/
def finish : Expression :=
  .seq blanks (.seq (.part (.group 2 (.optional (.one (· == '/'))))) (char '>'))

/-- A tag name, as a group. -/
def tagName (number : Nat) : Expression :=
  .part (.group number (.seq (.one isNameLetter) (.many true isNameChar)))

/-- A comment, which goes to the end of the text if nothing ends it. -/
def commentExpression : Expression :=
  .seq (.part (.pair '<' '!')) (.seq (.part (.pair '-' '-'))
    (.seq (.part (.many false fun _ => true))
      (.either (.seq (.part (.pair '-' '-')) (char '>')) .ending)))

/-- A closing tag. The third group is its name. -/
def closingExpression : Expression :=
  .seq (.part (.pair '<' '/')) (.seq (tagName 3) (.seq blanks (char '>')))

/-- An opening tag. The first group is its name. -/
def openingExpression : Expression :=
  .seq (char '<') (.seq (tagName 1) (.seq (.repeated spacedAttribute) finish))

/-- A loose tag. -/
def expression : Expression :=
  .either commentExpression (.either closingExpression openingExpression)

/-- The loose tag that groups show. -/
def ofGroups (groups : List (Nat × Text)) : LooseTag :=
  match groups.lookup 3 with
  | some name => .closing name
  | none =>
    match groups.lookup 1 with
    | some name => .opening name (groups.lookup 2 != some [])
    | none => .comment

/-- The sighting that a way of the expression shows. -/
def ofWay (w : Pattern.Way) : Sighting := ⟨ofGroups w.groups, w.taken, w.rest⟩

/-! ### Characters -/

theorem isBlank_eq_false_of_isAlphanum {c : Char} (h : c.isAlphanum = true) : isBlank c = false := by
  rw [← Bool.not_eq_true]
  intro hb
  have halpha : c.isAlpha = (decide (c.val ≥ 'A'.val ∧ c.val ≤ 'Z'.val) ||
      (decide (c.val ≥ 'a'.val) && decide (c.val ≤ 'z'.val))) := rfl
  simp only [Char.isAlphanum, halpha, Char.isDigit, Bool.or_eq_true, Bool.and_eq_true,
    decide_eq_true_eq, UInt32.le_iff_toNat_le, ge_iff_le] at h
  simp only [isBlank, Bool.or_eq_true, Bool.and_eq_true, decide_eq_true_eq, beq_iff_eq,
    Char.toNat] at hb
  have hbounds : (('0'.val.toNat, '9'.val.toNat), ('A'.val.toNat, 'Z'.val.toNat),
      ('a'.val.toNat, 'z'.val.toNat)) = ((48, 57), (65, 90), (97, 122)) := rfl
  simp only [Prod.mk.injEq] at hbounds
  omega

theorem ne_of_isNameChar {c : Char} (h : isNameChar c = true) :
    isBlank c = false ∧ c ≠ '>' ∧ c ≠ '/' := by
  refine ⟨?_, ?_, ?_⟩
  · simp only [isNameChar, isNameLetter, Bool.or_eq_true, decide_eq_true_eq] at h
    rcases h with ((((h | rfl) | rfl) | h) | rfl) | rfl
    · exact isBlank_eq_false_of_isAlphanum (by rw [Char.isAlphanum, h, Bool.true_or])
    · rfl
    · rfl
    · exact isBlank_eq_false_of_isAlphanum (by rw [Char.isAlphanum, h, Bool.or_true])
    · rfl
    · rfl
  · rintro rfl
    revert h
    decide
  · rintro rfl
    revert h
    decide

theorem ne_of_isValueChar {c : Char} (h : isValueChar c = true) :
    isBlank c = false ∧ c ≠ '"' ∧ c ≠ '\'' ∧ c ≠ '>' := by
  simp only [isValueChar, Bool.not_eq_true', Bool.or_eq_false_iff, decide_eq_false_iff_not] at h
  exact ⟨h.1.1.1.1.1.1, h.1.1.1.1.1.2, h.1.1.1.1.2, h.1.2⟩

theorem ne_of_isAttributeChar {c : Char} (h : isAttributeChar c = true) :
    isBlank c = false ∧ c ≠ '>' ∧ c ≠ '/' ∧ c ≠ '=' := by
  simp only [isAttributeChar, Bool.not_eq_true', Bool.or_eq_false_iff,
    decide_eq_false_iff_not] at h
  exact ⟨h.1.1.1.1.1, h.1.1.2, h.1.2, h.2⟩

/-! ### Parts of the expression -/

variable {α : Type} {k : List (Nat × Text) → Text → Option α}

theorem leads_char_cons (c d : Char) (t : Text) :
    (char c).leads k (d :: t) = if d = c then k [] t else none := by
  rw [char, leads_one_cons]
  simp only [beq_iff_eq]

/-- Blanks are all taken where what follows does not begin with one. -/
theorem leads_blanks (h : ∀ c rest, isBlank c = true → k [] (c :: rest) = none) (t : Text) :
    blanks.leads k t = k [] (t.dropWhile isBlank) :=
  leads_greedy fun _ c rest _ _ hc _ => h c rest hc

theorem dropWhile_ne_eq_cut? (mark : Char) (t : Text) :
    (char mark).leads k (t.dropWhile (· != mark)) =
      ((Text.cut? [mark] t).map (·.2)).bind (k []) := by
  induction t with
  | nil => rfl
  | cons c t ih =>
    by_cases hc : c = mark
    · subst hc
      rw [List.dropWhile_cons_of_neg (by simp), leads_char_cons, if_pos rfl]
      simp [Text.cut?, Text.after?]
    · have hmark : mark ∉ [c] := by simpa using Ne.symm hc
      have hcut : Text.cut? [mark] (c :: t) =
          (Text.cut? [mark] t).map fun r => (c :: r.1, r.2) :=
        Text.cut?_append_of_not_mem hmark t
      rw [List.dropWhile_cons_of_pos (by simpa using hc), ih, hcut]
      simp [Option.map_map, Function.comp_def]

theorem leads_quoted_cons (mark c : Char) (t : Text) :
    (quoted mark).leads k (c :: t) =
      if c = mark then ((Text.cut? [mark] t).map (·.2)).bind (k []) else none := by
  rw [quoted, leads_seq, leads_char_cons]
  split
  · rw [leads_seq, leads_greedy]
    · exact dropWhile_ne_eq_cut? mark t
    · intro _ d rest _ _ hd _
      rw [leads_char_cons, if_neg (by simpa using hd)]
  · rfl

/-- What a continuation behind an attribute or its value must be for greedy parts to give nothing
back: it needs a blank or the end of the tag, and no sign of equality behind blanks. -/
structure Follows (k : Text → Option α) : Prop where
  other : ∀ c rest, isBlank c = false → c ≠ '>' → c ≠ '/' → k (c :: rest) = none
  slash : ∀ rest, rest.head? ≠ some '>' → k ('/' :: rest) = none
  bracket : ∀ rest, k ('>' :: rest) ≠ none
  equals : ∀ t after, t.dropWhile isBlank = '=' :: after → k t = none

/-- Behind a shorter unquoted value only `/>` could follow, but then the whole value is followed by
`>`. -/
theorem leads_bare (h : Follows (k [])) (t : Text) :
    (Expression.part (.many true isValueChar)).leads k t = k [] (t.dropWhile isValueChar) := by
  refine leads_greedy fun front c rest hsplit hfront hc hnone => ?_
  obtain ⟨hblank, -, -, hgt⟩ := ne_of_isValueChar hc
  by_cases hslash : c = '/'
  · subst hslash
    refine h.slash rest fun hhead => ?_
    obtain ⟨more, rfl⟩ := List.head?_eq_some_iff.1 hhead
    refine h.bracket more ?_
    rw [hsplit, List.dropWhile_append_of_pos hfront, List.dropWhile_cons_of_pos hc,
      List.dropWhile_cons_of_neg (by decide)] at hnone
    exact hnone
  · exact h.other c rest hblank hgt hslash

theorem leads_value (h : Follows (k [])) (t : Text) :
    (blanks.leads (fun g r => value.leads (fun g' => k (g ++ g')) r) t) =
      (afterValue? t).bind (k []) := by
  have hvalue : ∀ c rest, value.leads k (c :: rest) =
      if c = '"' then ((Text.cut? ['"'] rest).map (·.2)).bind (k [])
      else if c = '\'' then ((Text.cut? ['\''] rest).map (·.2)).bind (k [])
      else if isValueChar c then k [] (rest.dropWhile isValueChar) else none := by
    intro c rest
    have hbare : (Expression.seq (.part (.one isValueChar)) (.part (.many true isValueChar))).leads
        k (c :: rest) = if isValueChar c then k [] (rest.dropWhile isValueChar) else none := by
      rw [leads_seq, leads_one_cons]
      split
      · exact leads_bare h rest
      · rfl
    rw [value, leads_either, leads_either, leads_quoted_cons, leads_quoted_cons, hbare]
    by_cases hdouble : c = '"'
    · subst hdouble
      rw [if_pos rfl, if_pos rfl, if_neg (by decide), if_neg (by decide), Option.none_or,
        Option.or_none]
    · rw [if_neg hdouble, if_neg hdouble, Option.none_or]
      by_cases hsingle : c = '\''
      · subst hsingle
        rw [if_pos rfl, if_pos rfl, if_neg (by decide), Option.or_none]
      · rw [if_neg hsingle, if_neg hsingle, Option.none_or]
  rw [leads_blanks]
  · unfold afterValue?
    split
    · next he => rw [he]; exact hvalue _ _
    · next he => rw [he]; exact hvalue _ _
    · next c rest hdouble hsingle he =>
      rw [he]
      refine (hvalue c rest).trans ?_
      rw [if_neg hdouble, if_neg hsingle]
      split <;> rfl
    · next he => rw [he]; rfl
  · -- a blank begins no value, so that the blanks are taken to the last
    intro c rest hc
    refine (hvalue c rest).trans ?_
    rw [if_neg (by rintro rfl; cases hc), if_neg (by rintro rfl; cases hc), if_neg]
    intro hv
    rw [(ne_of_isValueChar hv).1] at hc
    cases hc

/-- What follows the value of an attribute, if it has one. -/
def afterName? (t : Text) : Option Text :=
  match t.dropWhile isBlank with
  | '=' :: after => afterValue? after
  | _ => some t

theorem afterName?_of_equals {t after : Text} (h : t.dropWhile isBlank = '=' :: after) :
    afterName? t = afterValue? after := by
  rw [afterName?, h]
  rfl

theorem afterName?_of_ne {t : Text} (h : ∀ after, t.dropWhile isBlank ≠ '=' :: after) :
    afterName? t = some t := by
  rw [afterName?]
  split
  · next he => exact absurd he (h _)
  · rfl

/-- What follows a blank and an attribute at the start of a text. -/
def afterAttribute? (t : Text) : Option Text :=
  match t.dropWhile isBlank with
  | [] => none
  | c :: rest =>
    if isAttributeChar c && t.head?.any isBlank then afterName? (rest.dropWhile isAttributeChar)
    else none

theorem afterAttribute?_of_dropWhile {t rest : Text} {c : Char}
    (ht : t.dropWhile isBlank = c :: rest) :
    afterAttribute? t = if isAttributeChar c && t.head?.any isBlank then
      afterName? (rest.dropWhile isAttributeChar) else none := by
  rw [afterAttribute?, ht]

/-- Behind a name stands a value if there is a sign of equality, and nothing of one otherwise. -/
theorem leads_assigned (h : Follows (k [])) (tail : Text) :
    (Expression.optional assigned).leads k tail = (afterName? tail).bind (k []) := by
  have hblank : ∀ c rest, isBlank c = true → (Expression.seq (char '=') (.seq blanks value)).leads k
      (c :: rest) = none := by
    intro c rest hc
    rw [leads_seq, leads_char_cons, if_neg]
    rintro rfl
    cases hc
  rw [leads_optional, assigned, leads_seq, leads_blanks hblank, afterName?]
  split
  · next after he =>
    rw [h.equals tail after he, he, leads_seq, leads_char_cons, if_pos rfl, leads_seq, Option.or_none]
    exact leads_value h after
  · next he =>
    cases hd : tail.dropWhile isBlank with
    | nil => rfl
    | cons c rest =>
      rw [leads_seq, leads_char_cons, if_neg, Option.none_or]
      · rfl
      · rintro rfl
        exact he rest hd

theorem leads_spacedAttribute (h : Follows (k [])) (t : Text) :
    spacedAttribute.leads k t = (afterAttribute? t).bind (k []) := by
  -- behind the blanks
  have hname : ∀ c rest, (Expression.seq (.part (.one isAttributeChar))
      (.seq (.part (.many true isAttributeChar)) (.optional assigned))).leads k (c :: rest) =
        if isAttributeChar c then (afterName? (rest.dropWhile isAttributeChar)).bind (k [])
        else none := by
    intro c rest
    rw [leads_seq, leads_one_cons]
    split
    · rw [leads_seq, leads_greedy]
      · exact leads_assigned h _
      · intro _ d rest _ _ hd _
        obtain ⟨hblank, hgt, hslash, heq⟩ := ne_of_isAttributeChar hd
        have hdrop : (d :: rest).dropWhile isBlank = d :: rest :=
          List.dropWhile_cons_of_neg (by simp [hblank])
        have hname : afterName? (d :: rest) = some (d :: rest) := by
          refine afterName?_of_ne fun after he => heq ?_
          rw [hdrop] at he
          exact (List.cons.inj he).1
        refine (leads_assigned h (d :: rest)).trans ?_
        rw [hname]
        exact h.other d rest hblank hgt hslash
    · rfl
  cases t with
  | nil => rfl
  | cons b t =>
    rw [spacedAttribute, leads_seq, leads_one_cons, afterAttribute?]
    by_cases hb : isBlank b = true
    · rw [if_pos hb, leads_seq, leads_blanks, List.dropWhile_cons_of_pos hb]
      · cases t.dropWhile isBlank with
        | nil => rfl
        | cons c rest =>
          refine (hname c rest).trans ?_
          simp only [List.head?_cons, Option.any_some, hb, Bool.and_true]
          split <;> rfl
      · intro c rest hc
        refine (hname c rest).trans (if_neg fun hattr => ?_)
        rw [(ne_of_isAttributeChar hattr).1] at hc
        cases hc
    · rw [if_neg hb, List.dropWhile_cons_of_neg hb]
      simp [hb]

/-- What follows the end of an opening tag at the start of a text, and whether the tag closes
itself. -/
def afterEnd? (t : Text) : Option (Bool × Text) :=
  match t.dropWhile isBlank with
  | '>' :: rest => some (false, rest)
  | '/' :: '>' :: rest => some (true, rest)
  | _ => none

/-- The second group of an opening tag. -/
def slash (selfClosing : Bool) : Text := if selfClosing then ['/'] else []

theorem afterEnd?_eq_none {t rest : Text} {c : Char} (ht : t.dropWhile isBlank = c :: rest)
    (hgt : c ≠ '>') (hslash : c = '/' → rest.head? ≠ some '>') : afterEnd? t = none := by
  rw [afterEnd?, ht]
  split
  · next he => exact absurd (List.cons.inj he).1 hgt
  · next he =>
    obtain ⟨rfl, rfl⟩ := List.cons.inj he
    exact absurd rfl (hslash rfl)
  · rfl

theorem leads_finish (t : Text) :
    finish.leads k t = (afterEnd? t).bind fun r => k [(2, slash r.1)] r.2 := by
  have hend : ∀ c rest, (Expression.seq (.part (.group 2 (.optional (.one (· == '/')))))
      (char '>')).leads k (c :: rest) =
        (if c = '/' then (char '>').leads (fun g => k ((2, ['/']) :: g)) rest else none).or
          (if c = '>' then k [(2, [])] rest else none) := by
    intro c rest
    rw [leads_seq, leads_group_optional_cons, leads_char_cons]
    simp only [beq_iff_eq]
    by_cases hc : c = '/'
    · subst hc
      rfl
    · rw [if_neg hc, if_neg hc]
      rfl
  rw [finish, leads_seq, leads_blanks]
  · cases hd : t.dropWhile isBlank with
    | nil =>
      rw [afterEnd?, hd, leads_seq]
      exact leads_group_optional_nil 2 _ _
    | cons c rest =>
      refine (hend c rest).trans ?_
      by_cases hgt : c = '>'
      · subst hgt
        rw [afterEnd?, hd]
        rfl
      rw [if_neg hgt, Option.or_none]
      by_cases hslash : c = '/'
      · subst hslash
        rw [if_pos rfl]
        cases rest with
        | nil =>
          rw [afterEnd?_eq_none hd hgt fun _ => nofun]
          rfl
        | cons d rest =>
          rw [leads_char_cons]
          split
          · next hd' =>
            subst hd'
            rw [afterEnd?, hd]
            rfl
          · next hd' =>
            rw [afterEnd?_eq_none hd hgt fun _ he => hd' (Option.some.inj he)]
            rfl
      · rw [if_neg hslash, afterEnd?_eq_none hd hgt fun he => absurd he hslash]
        rfl
  · -- a blank is no end of a tag, so that the blanks are taken to the last
    intro c rest hc
    refine (hend c rest).trans ?_
    rw [if_neg (by rintro rfl; cases hc), if_neg (by rintro rfl; cases hc)]
    rfl

/-! ### Attributes -/

/-- Reading attributes: the tag ends, or an attribute is passed over. -/
theorem afterAttributes?_succ (fuel : Nat) (t : Text) :
    afterAttributes? (fuel + 1) t =
      (afterEnd? t).or ((afterAttribute? t).bind (afterAttributes? fuel)) := by
  rw [afterAttributes?.eq_def]
  dsimp only
  cases ht : t.dropWhile isBlank with
  | nil =>
    rw [afterEnd?, afterAttribute?, ht]
    rfl
  | cons c rest =>
    split
    · next he => cases he
    · next he =>
      obtain ⟨rfl, rfl⟩ := List.cons.inj he
      rw [afterEnd?, ht]
      rfl
    · next he =>
      obtain ⟨rfl, rfl⟩ := List.cons.inj he
      rw [afterEnd?, ht]
      rfl
    · next hgt hslash he =>
      obtain ⟨rfl, rfl⟩ := List.cons.inj he
      have hnone : afterEnd? t = none := by
        refine afterEnd?_eq_none ht hgt fun hc hhead => ?_
        obtain ⟨more, hmore⟩ := List.head?_eq_some_iff.1 hhead
        exact hslash more hc hmore
      rw [hnone, Option.none_or, afterAttribute?_of_dropWhile ht]
      split
      · split
        · next hvalue => rw [afterName?_of_equals hvalue]
        · next hnone => rw [afterName?_of_ne hnone, Option.bind_some]
      · rfl

theorem afterAttribute?_cons_of_not_blank {c : Char} (hc : isBlank c = false) (rest : Text) :
    afterAttribute? (c :: rest) = none := by
  rw [afterAttribute?, List.dropWhile_cons_of_neg (by simp [hc])]
  simp [hc]

theorem afterAttribute?_of_afterEnd? {t : Text} {r : Bool × Text} (h : afterEnd? t = some r) :
    afterAttribute? t = none := by
  rw [afterEnd?] at h
  split at h
  · next he =>
    rw [afterAttribute?_of_dropWhile he]
    rfl
  · next he =>
    rw [afterAttribute?_of_dropWhile he]
    rfl
  · cases h

/-- What may follow attributes that are read. -/
theorem follows_afterAttributes? (fuel : Nat) {k : Bool × Text → Option α} (hk : ∀ r, k r ≠ none) :
    Follows fun t => (afterAttributes? (fuel + 1) t).bind k where
  other c rest hc hgt hslash := by
    rw [afterAttributes?_succ, afterAttribute?_cons_of_not_blank hc,
      afterEnd?_eq_none (List.dropWhile_cons_of_neg (by simp [hc])) hgt fun he => absurd he hslash]
    rfl
  slash rest hrest := by
    rw [afterAttributes?_succ, afterAttribute?_cons_of_not_blank rfl,
      afterEnd?_eq_none (List.dropWhile_cons_of_neg (by decide)) (by decide) fun _ => hrest]
    rfl
  bracket rest := by
    rw [afterAttributes?_succ, afterEnd?, List.dropWhile_cons_of_neg (by decide)]
    exact hk _
  equals t after ht := by
    rw [afterAttributes?_succ, afterEnd?, afterAttribute?, ht]
    simp [isAttributeChar]

theorem taken_ne_nil_of_mem_spacedAttribute {t : Text} {w : Pattern.Way}
    (h : w ∈ spacedAttribute.ways t) : w.taken ≠ [] := by
  rw [spacedAttribute, ways] at h
  obtain ⟨w, hw, h⟩ := List.mem_flatMap.1 h
  obtain ⟨v, -, rfl⟩ := List.mem_map.1 h
  cases t with
  | nil => cases hw
  | cons c t =>
    rw [ways, Pattern.ways] at hw
    split at hw
    · rw [List.mem_singleton.1 hw]
      exact List.cons_ne_nil c _
    · cases hw

theorem findSome?_repeatedWays (hk : ∀ g r, k g r ≠ none) (fuel : Nat) (t : Text) :
    (repeatedWays spacedAttribute.ways fuel t).findSome?
        (fun w => finish.leads (fun g => k (w.groups ++ g)) w.rest) =
      (afterAttributes? (fuel + 1) t).bind fun r => k [(2, slash r.1)] r.2 := by
  induction fuel generalizing t with
  | zero =>
    have hnone : (afterAttribute? t).bind (afterAttributes? 0) = none := by
      cases afterAttribute? t <;> rfl
    rw [afterAttributes?_succ, hnone, Option.or_none]
    exact List.findSome?_singleton.trans (leads_finish t)
  | succ fuel ih =>
    -- an attribute takes some of the text, so that no repetition is dropped as empty
    have hall : (spacedAttribute.ways t).filter (fun w => w.taken ≠ []) = spacedAttribute.ways t :=
      List.filter_eq_self.2 fun w hw => by simpa using taken_ne_nil_of_mem_spacedAttribute hw
    have hfollows : Follows fun r => (repeatedWays spacedAttribute.ways fuel r).findSome?
        (fun w => finish.leads (fun g => k (w.groups ++ g)) w.rest) := by
      rw [funext ih]
      exact follows_afterAttributes? fuel fun r => hk _ _
    have hmore := leads_spacedAttribute (k := fun g r =>
      (repeatedWays spacedAttribute.ways fuel r).findSome?
        fun w => finish.leads (fun g' => k (g ++ w.groups ++ g')) w.rest) hfollows t
    rw [repeatedWays, hall, List.findSome?_append, List.findSome?_singleton,
      findSome?_flatMap_join (k := fun g r => finish.leads (fun g' => k (g ++ g')) r)]
    refine (congrArg₂ Option.or hmore (leads_finish t)).trans ?_
    simp only [List.nil_append, ih]
    rw [afterAttributes?_succ (fuel + 1)]
    cases hend : afterEnd? t with
    | none => simp [Option.bind_assoc]
    | some r => simp [afterAttribute?_of_afterEnd? hend]

/-! ### Loose tags -/

theorem leads_attributes (hk : ∀ g r, k g r ≠ none) (t : Text) :
    (Expression.seq (.repeated spacedAttribute) finish).leads k t =
      (afterAttributes? (t.length + 1) t).bind fun r => k [(2, slash r.1)] r.2 := by
  rw [leads_seq]
  exact findSome?_repeatedWays hk t.length t

theorem leads_opening (hk : ∀ g r, k g r ≠ none) (t : Text) :
    openingExpression.leads k ('<' :: t) = (name? t).bind fun n =>
      (afterAttributes? (n.2.length + 1) n.2).bind fun r => k [(1, n.1), (2, slash r.1)] r.2 := by
  rw [openingExpression, leads_seq, leads_char_cons, if_pos rfl, leads_seq]
  cases t with
  | nil => rfl
  | cons c t =>
    have hattributes : ∀ name r, (Expression.seq (.repeated spacedAttribute) finish).leads
        (fun g => k ((1, name) :: g)) r = (afterAttributes? (r.length + 1) r).bind fun q =>
          k [(1, name), (2, slash q.1)] q.2 :=
      fun name => leads_attributes fun g => hk ((1, name) :: g)
    refine (leads_group_greedy 1 fun name d rest hd => ?_).trans ?_
    · -- a name character neither ends the tag nor begins an attribute
      obtain ⟨hblank, hgt, hslash⟩ := ne_of_isNameChar hd
      refine (hattributes name (d :: rest)).trans ?_
      exact (follows_afterAttributes? _ fun q => hk _ _).other d rest hblank hgt hslash
    · rw [name?]
      split
      · exact hattributes _ _
      · rfl

theorem leads_closing (t : Text) :
    closingExpression.leads k ('<' :: '/' :: t) = (name? t).bind fun n =>
      (char '>').leads (fun g => k ((3, n.1) :: g)) (n.2.dropWhile isBlank) := by
  have hclose : ∀ name r, (Expression.seq blanks (char '>')).leads (fun g => k ((3, name) :: g)) r =
      (char '>').leads (fun g => k ((3, name) :: g)) (r.dropWhile isBlank) := by
    intro name r
    rw [leads_seq, leads_blanks]
    · rfl
    · intro c rest hc
      rw [leads_char_cons, if_neg]
      rintro rfl
      cases hc
  have hafter : Text.after? ['<', '/'] ('<' :: '/' :: t) = some t := Text.after?_append _ t
  rw [closingExpression, leads_seq, leads_pair, hafter, Option.bind_some, leads_seq]
  cases t with
  | nil => rfl
  | cons c t =>
    refine (leads_group_greedy 3 fun name d rest hd => ?_).trans ?_
    · -- a shorter name is followed by a character of the name, and the tag does not end there
      obtain ⟨hblank, hgt, -⟩ := ne_of_isNameChar hd
      refine (hclose name (d :: rest)).trans ?_
      rw [List.dropWhile_cons_of_neg (by simp [hblank]), leads_char_cons, if_neg hgt]
    · rw [name?]
      split
      · exact hclose _ _
      · rfl

theorem leads_char (c : Char) (t : Text) :
    (char c).leads k t = (Text.after? [c] t).bind (k []) := by
  cases t with
  | nil => rfl
  | cons d t =>
    rw [leads_char_cons, Text.after?]
    by_cases hd : d = c
    · rw [if_pos hd, if_pos hd.symm]
      rfl
    · rw [if_neg hd, if_neg (Ne.symm hd)]
      rfl

theorem leads_commentEnd (t : Text) :
    (Expression.either (.seq (.part (.pair '-' '-')) (char '>')) .ending).leads k t =
      ((Text.after? "-->".toList t).bind (k [])).or (if t = [] then k [] t else none) := by
  have hending : Expression.ending.leads k t = if t = [] then k [] t else none := by
    rw [leads, ways]
    split
    · exact List.findSome?_singleton
    · rfl
  have hafter := Text.after?_append_left ['-', '-'] ['>'] t
  rw [leads_either, hending, leads_seq, leads_pair,
    show "-->".toList = ['-', '-'] ++ ['>'] from rfl, hafter, Option.bind_assoc]
  simp only [leads_char]
  rfl

/-- A comment goes up to the first end of one, or to the end of the text. -/
theorem leads_comment (hk : ∀ g r, k g r ≠ none) (t : Text) :
    commentExpression.leads k ('<' :: '!' :: '-' :: '-' :: t) = k [] (afterComment t) := by
  have hlazy : (Expression.part (.many false fun _ => true)).leads
      (fun g r => (Expression.either (.seq (.part (.pair '-' '-')) (char '>')) .ending).leads
        (fun g' => k (g ++ g')) r) t = k [] (afterComment t) := by
    induction t with
    | nil =>
      refine List.findSome?_singleton.trans ((leads_commentEnd (k := k) []).trans ?_)
      rfl
    | cons c t ih =>
      rw [leads_lazy_cons, ih]
      refine (congrArg (Option.or · _) (leads_commentEnd (k := k) (c :: t))).trans ?_
      rw [if_neg (List.cons_ne_nil c t), Option.or_none]
      -- the shortest match is tried first: the comment ends here, or one character is passed over
      cases hafter : Text.after? "-->".toList (c :: t) with
      | some rest =>
        have hcut : Text.cut? "-->".toList (c :: t) = some ([], rest) := by
          rw [Text.cut?, hafter]
        have hcomment : afterComment (c :: t) = rest := by rw [afterComment, hcut]
        rw [hcomment, Option.bind_some]
        obtain ⟨a, ha⟩ := Option.ne_none_iff_exists'.1 (hk [] rest)
        simp only [ha, Option.some_or]
      | none =>
        have hcut : Text.cut? "-->".toList (c :: t) =
            (Text.cut? "-->".toList t).map fun r => (c :: r.1, r.2) := by
          rw [Text.cut?, hafter]
        have hcomment : afterComment (c :: t) = afterComment t := by
          rw [afterComment, afterComment, hcut]
          cases Text.cut? "-->".toList t <;> rfl
        rw [hcomment, Option.bind_none, Option.none_or]
  have hopen : Text.after? ['<', '!'] ('<' :: '!' :: '-' :: '-' :: t) = some ('-' :: '-' :: t) :=
    Text.after?_append ['<', '!'] _
  have hdashes : Text.after? ['-', '-'] ('-' :: '-' :: t) = some t := Text.after?_append _ t
  rw [commentExpression, leads_seq, leads_pair, hopen, Option.bind_some, leads_seq, leads_pair,
    hdashes, Option.bind_some, leads_seq]
  exact hlazy

theorem leads_comment_of_not {t : Text} (h : ∀ rest, t ≠ '!' :: '-' :: '-' :: rest) :
    commentExpression.leads k ('<' :: t) = none := by
  rw [commentExpression, leads_seq, leads_pair]
  refine Option.bind_eq_none_iff.2 fun r hr => ?_
  rw [leads_seq, leads_pair]
  refine Option.bind_eq_none_iff.2 fun rest hrest => ?_
  have ht : '<' :: t = '<' :: '!' :: r := Text.after?_eq_some_iff.1 hr
  have hr : r = '-' :: '-' :: rest := Text.after?_eq_some_iff.1 hrest
  exact absurd (by rw [(List.cons.inj ht).2, hr]) (h rest)

theorem leads_closing_of_not {t : Text} (h : ∀ rest, t ≠ '/' :: rest) :
    closingExpression.leads k ('<' :: t) = none := by
  rw [closingExpression, leads_seq, leads_pair]
  refine Option.bind_eq_none_iff.2 fun r hr => ?_
  have ht : '<' :: t = '<' :: '/' :: r := Text.after?_eq_some_iff.1 hr
  exact absurd (List.cons.inj ht).2 (h r)

theorem leads_expression_of_ne {c : Char} (hc : c ≠ '<') (t : Text) :
    expression.leads k (c :: t) = none := by
  have hafter : ∀ d, Text.after? ['<', d] (c :: t) = none := fun d => by
    simp [Text.after?, Ne.symm hc]
  rw [expression, leads_either, leads_either, commentExpression, closingExpression,
    openingExpression, leads_seq, leads_seq, leads_seq, leads_pair, leads_pair, hafter, hafter,
    leads_char_cons, if_neg hc]
  rfl

/-- Reading a loose tag is matching the expression. -/
theorem at?_eq_first? (t : Text) : at? t = (expression.first? t).map ofWay := by
  -- what is taken is what the rest leaves of the text
  have hways : (expression.first? t).map ofWay =
      expression.leads (fun g r => some ⟨ofGroups g, t.take (t.length - r.length), r⟩) t := by
    rw [leads, ← map_first?]
    refine Option.map_congr fun w hw => ?_
    have htaken := taken_append_rest (List.mem_of_head? hw)
    have hsource := take_length_sub w.taken w.rest
    rw [htaken] at hsource
    rw [ofWay, hsource]
  rw [hways]
  unfold at?
  dsimp only
  split
  · next rest =>
    rw [expression, leads_either, leads_comment]
    · rfl
    · exact fun _ _ => Option.some_ne_none _
  · next rest =>
    have hnone : name? ('/' :: rest) = none := rfl
    rw [expression, leads_either, leads_either, leads_comment_of_not (by simp), leads_closing,
      leads_opening, hnone, Option.bind_none, Option.or_none, Option.none_or]
    · cases name? rest with
      | none => rfl
      | some n =>
        dsimp only
        rw [Option.bind_some]
        split
        · next he =>
          rw [he, leads_char_cons, if_pos rfl]
          rfl
        · next he =>
          cases hd : n.2.dropWhile isBlank with
          | nil => rfl
          | cons d rest =>
            rw [leads_char_cons, if_neg]
            rintro rfl
            exact he _ hd
    · exact fun _ _ => Option.some_ne_none _
  · next rest hcomment hclosing =>
    rw [expression, leads_either, leads_either, leads_comment_of_not hcomment,
      leads_closing_of_not hclosing, leads_opening, Option.none_or, Option.none_or]
    · cases name? rest with
      | none => rfl
      | some n =>
        dsimp only
        rw [Option.bind_some]
        cases afterAttributes? (n.2.length + 1) n.2 with
        | none => rfl
        | some r =>
          rw [Option.map_some, Option.bind_some]
          cases r.1 <;> rfl
    · exact fun _ _ => Option.some_ne_none _
  · next h =>
    cases t with
    | nil => rfl
    | cons c t =>
      rw [leads_expression_of_ne]
      rintro rfl
      exact h t rfl

/-- The first loose tag in a text, with the text in front of it. -/
def leftmost? : Text → Option (Text × Sighting)
  | [] => none
  | c :: t =>
    match at? (c :: t) with
    | some seen => some ([], seen)
    | none => (leftmost? t).map fun r => (c :: r.1, r.2)

/-- The first loose tag is the leftmost match of the expression. -/
theorem leftmost?_eq_leftmost? (t : Text) :
    leftmost? t = (expression.leftmost? t).map fun r => (r.1, ofWay r.2) := by
  induction t with
  | nil => rfl
  | cons c t ih =>
    rw [leftmost?, Expression.leftmost?, at?_eq_first?]
    cases expression.first? (c :: t) with
    | some w => rfl
    | none => simp only [Option.map_none, ih, Option.map_map, Function.comp_def]

end Shortcodes.Html.LooseTag
