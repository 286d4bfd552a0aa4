import Shortcodes.Html.Lookup.Basic
import Shortcodes.Proofs.Outcome
import Shortcodes.Proofs.Text
import Shortcodes.Proofs.Text.Numeral

/-!
# The grammar of look-up paths

A look-up path is written as steps with separators between them, and `//` or nothing in front
(`Spells`). A step is written in one of five ways (`SpellsStep`): `.`, `text()`, `@` and a name, or
an element's name or `*` with a position in brackets or none. What is read is what the text without
the blanks around it spells, and nothing else is read (`read_eq_ok_iff`); every position that is
read can be counted from one (`Spells.counts`).
-/

namespace Shortcodes.Html.Lookup

/-! ### The grammar -/

/-- A letter of ASCII. -/
def IsLetter (c : Char) : Prop := ('A' ≤ c ∧ c ≤ 'Z') ∨ ('a' ≤ c ∧ c ≤ 'z')

/-- The first character of a name. -/
def StartsName (c : Char) : Prop := IsLetter c ∨ c = '_'

/-- A character of a name. -/
def ContinuesName (c : Char) : Prop :=
  IsLetter c ∨ ('0' ≤ c ∧ c ≤ '9') ∨ c = '_' ∨ c = '.' ∨ c = ':' ∨ c = '-'

/-- A name begins with a letter or an underscore. -/
inductive IsName : Text → Prop
  | intro {c : Char} {rest : Text} (first : StartsName c) (others : ∀ d ∈ rest, ContinuesName d) :
    IsName (c :: rest)

/-- The name of an element, or `*` for any. -/
inductive SpellsName : Text → Option Text → Prop
  | any : SpellsName ['*'] none
  | named {name : Text} (h : IsName name) : SpellsName name (some name)

/-- A position, counted from one, between blanks. -/
inductive SpellsPosition (n : Nat) : Text → Prop
  | intro {before index after : Text} (hbefore : ∀ c ∈ before, isBlank c = true)
      (hafter : ∀ c ∈ after, isBlank c = true) (index_isIndex : Text.IsIndex index n)
      (pos : 0 < n) : SpellsPosition n (before ++ (index ++ after))

/-- How a step is written. -/
inductive SpellsStep : Text → LookupStep → Prop
  | current : SpellsStep ['.'] .current
  | text : SpellsStep "text()".toList .text
  | attributeOf {name : Text} (h : IsName name) :
      SpellsStep ('@' :: name) (.attribute (Text.lowerAscii name))
  | element {t : Text} {name : Option Text} (h : SpellsName t name) :
      SpellsStep t (.element name none)
  | position {t inner : Text} {name : Option Text} {n : Nat} (h : SpellsName t name)
      (hinner : SpellsPosition n inner) :
      SpellsStep (t ++ '[' :: (inner ++ [']'])) (.element name (some n))

/-- The separator in front of a step. -/
def separator : Axis → Text
  | .child => ['/']
  | .descendant => ['/', '/']

/-- Steps with a separator in front of each. Behind a step that gives a value none follows. -/
inductive SpellsRest : Text → List (Axis × LookupStep) → Prop
  | nil : SpellsRest [] []
  | cons {axis : Axis} {step : LookupStep} {segment rest : Text} {steps : List (Axis × LookupStep)}
      (hstep : SpellsStep segment step) (hlast : step.isValue = true → steps = [])
      (hrest : SpellsRest rest steps) :
      SpellsRest (separator axis ++ (segment ++ rest)) ((axis, step) :: steps)

/-- How a path is written: the first step has no separator in front, or `//`. -/
inductive Spells : Text → List (Axis × LookupStep) → Prop
  | child {step : LookupStep} {segment rest : Text} {steps : List (Axis × LookupStep)}
      (hstep : SpellsStep segment step) (hlast : step.isValue = true → steps = [])
      (hrest : SpellsRest rest steps) : Spells (segment ++ rest) ((.child, step) :: steps)
  | descendant {step : LookupStep} {segment rest : Text} {steps : List (Axis × LookupStep)}
      (hstep : SpellsStep segment step) (hlast : step.isValue = true → steps = [])
      (hrest : SpellsRest rest steps) :
      Spells (separator .descendant ++ (segment ++ rest)) ((.descendant, step) :: steps)

/-! ### Names and positions -/

theorem isAlpha_iff {c : Char} : c.isAlpha = true ↔ IsLetter c := by
  have halpha : c.isAlpha = (decide (c.val ≥ 'A'.val ∧ c.val ≤ 'Z'.val) ||
      (decide (c.val ≥ 'a'.val) && decide (c.val ≤ 'z'.val))) := rfl
  simp only [halpha, Bool.or_eq_true, Bool.and_eq_true, decide_eq_true_eq]
  rfl

theorem startsName_iff {c : Char} : startsName c = true ↔ StartsName c := by
  rw [startsName, Bool.or_eq_true, isAlpha_iff, decide_eq_true_eq]
  rfl

theorem continuesName_iff {c : Char} : continuesName c = true ↔ ContinuesName c := by
  rw [continuesName, Char.isAlphanum]
  simp only [Bool.or_eq_true, decide_eq_true_eq, isAlpha_iff, Text.isDigit_iff]
  unfold ContinuesName
  tauto

theorem isName_iff {t : Text} : isName t = true ↔ IsName t := by
  cases t with
  | nil => exact ⟨nofun, nofun⟩
  | cons c rest =>
    rw [isName, Bool.and_eq_true, startsName_iff, List.all_eq_true]
    simp only [continuesName_iff]
    exact ⟨fun h => ⟨h.1, h.2⟩, fun ⟨first, others⟩ => ⟨first, others⟩⟩

theorem continuesName_of_startsName {c : Char} (h : StartsName c) : ContinuesName c :=
  h.imp_right fun h => .inr (.inl h)

/-- A character that no name has is not in a name. -/
theorem IsName.not_mem {t : Text} (h : IsName t) {c : Char} (hc : continuesName c = false) :
    c ∉ t := by
  intro hm
  obtain ⟨first, others⟩ := h
  have hname : continuesName c = true := by
    rcases List.mem_cons.1 hm with rfl | hm
    · exact continuesName_iff.2 (continuesName_of_startsName first)
    · exact continuesName_iff.2 (others c hm)
  rw [hname] at hc
  cases hc

theorem readElementName_eq_ok_iff {t : Text} {name : Option Text} :
    readElementName t = .ok name ↔ SpellsName t name := by
  rw [readElementName]
  split
  · next h =>
    subst h
    refine ⟨fun h => ?_, fun h => ?_⟩
    · cases h
      exact .any
    · cases h with
      | any => rfl
      | named h => exact absurd (isName_iff.2 h) (by decide)
  · next hany =>
    split
    · next h =>
      refine ⟨fun heq => ?_, fun hspells => ?_⟩
      · cases heq
        exact .named (isName_iff.1 h)
      · cases hspells with
        | any => exact absurd rfl hany
        | named => rfl
    · next h =>
      refine ⟨nofun, fun hspells => ?_⟩
      cases hspells with
      | any => exact absurd rfl hany
      | named hname => exact absurd (isName_iff.2 hname) h

/-- An index has no blanks. -/
theorem tight_of_isIndex {t : Text} {n : Nat} (h : Text.IsIndex t n) : Text.Tight t := by
  have hdigit : ∀ {c : Char}, c.isDigit = true → isBlank c = false := by
    intro c hc
    obtain ⟨hlow, hhigh⟩ := Text.isDigit_iff.1 hc
    have hlow' : '0'.toNat ≤ c.toNat := hlow
    have hhigh' : c.toNat ≤ '9'.toNat := hhigh
    have h0 : '0'.toNat = 48 := rfl
    have h9 : '9'.toNat = 57 := rfl
    simp only [isBlank, Bool.or_eq_false_iff, Bool.and_eq_false_iff, decide_eq_false_iff_not,
      beq_eq_false_iff_ne]
    omega
  apply Text.tight_of_forall
  rcases h.decimal with hdecimal | ⟨digits, rfl, hdecimal⟩
  · exact fun c hc => hdigit (hdecimal.digits c hc)
  · intro c hc
    rcases List.mem_cons.1 hc with rfl | hc
    · rfl
    · exact hdigit (hdecimal.digits c hc)

theorem readPosition_eq_ok_iff {inner : Text} {n : Nat} :
    readPosition inner = .ok n ↔ SpellsPosition n inner := by
  have hread : readPosition inner = .ok n ↔ Text.IsIndex (Text.trim inner) n ∧ 0 < n := by
    have hfilter : readPosition inner = .ok n ↔
        (Text.toIndex? (Text.trim inner)).filter (0 < ·) = some n := by
      rw [readPosition]
      split
      · next m hm => rw [hm, Except.ok.injEq, Option.some.injEq]
      · next hm => rw [hm]; exact ⟨nofun, nofun⟩
    rw [hfilter, Option.filter_eq_some_iff, Text.toIndex?_eq_some_iff, decide_eq_true_eq]
  rw [hread]
  constructor
  · rintro ⟨hindex, hpos⟩
    obtain ⟨after, hafter, hinner⟩ := Text.exists_append_trim inner
    rw [hinner]
    exact .intro (fun c hc => List.mem_takeWhile_imp hc) hafter hindex hpos
  · rintro ⟨hbefore, hafter, hindex, hpos⟩
    rw [Text.trim_blanks_append hbefore hafter (tight_of_isIndex hindex)]
    exact ⟨hindex, hpos⟩

/-! ### Steps -/

/-- What is read as a step is written as one. -/
theorem spellsStep_of_readStep {t : Text} {step : LookupStep} (h : readStep t = .ok step) :
    SpellsStep t step := by
  rw [readStep.eq_def] at h
  -- one split for each test of the reader, in their order
  split at h
  · cases h
  split at h
  · next heq =>
    cases h
    exact heq ▸ .current
  split at h
  · next heq =>
    cases h
    exact heq ▸ .text
  split at h
  · cases h
  split at h
  · split at h
    · next hname =>
      cases h
      exact .attributeOf (isName_iff.1 hname)
    · cases h
  split at h
  · obtain ⟨name, hname, rfl⟩ := Except.map_eq_ok_iff.1 h
    exact .element (readElementName_eq_ok_iff.1 hname)
  · next front rest hcut =>
    split at h
    · next hlast =>
      obtain ⟨n, hn, h⟩ := Except.bind_eq_ok_iff.1 h
      obtain ⟨name, hname, h⟩ := Except.bind_eq_ok_iff.1 h
      cases h
      obtain ⟨inner, rfl⟩ := List.getLast?_eq_some_iff.1 hlast
      rw [List.dropLast_concat] at hn
      rw [Text.eq_of_cut? hcut, List.append_assoc, List.singleton_append]
      exact .position (readElementName_eq_ok_iff.1 hname) (readPosition_eq_ok_iff.1 hn)
    · cases h

/-- A character that neither a name nor `*` has is not in the written name of an element. -/
theorem SpellsName.not_mem {t : Text} {name : Option Text} (h : SpellsName t name) {c : Char}
    (hc : continuesName c = false) (hany : c ≠ '*') : c ∉ t := by
  cases h with
  | any => exact fun hm => hany (List.mem_singleton.1 hm)
  | named h => exact h.not_mem hc

theorem SpellsName.exists_cons {t : Text} {name : Option Text} (h : SpellsName t name) :
    ∃ c rest, t = c :: rest ∧ c ≠ '.' := by
  cases h with
  | any => exact ⟨_, _, rfl, by decide⟩
  | named h =>
    obtain ⟨first, -⟩ := h
    refine ⟨_, _, rfl, ?_⟩
    rintro rfl
    exact absurd (startsName_iff.2 first) (by decide)

/-- What begins with an element's name, and goes on with a bracket if at all, is not a step of
another kind. -/
theorem SpellsName.ne_of_append {t : Text} {name : Option Text} (h : SpellsName t name)
    {rest : Text} (hrest : rest = [] ∨ '[' ∈ rest) :
    t ++ rest ≠ [] ∧ t ++ rest ≠ ['.'] ∧ t ++ rest ≠ "text()".toList ∧ t ++ rest ≠ ['.', '.'] ∧
      ∀ more, t ++ rest ≠ '@' :: more := by
  have hat := h.not_mem (c := '@') (by decide) (by decide)
  have hparenthesis := h.not_mem (c := '(') (by decide) (by decide)
  obtain ⟨c, tail, rfl, hdot⟩ := h.exists_cons
  refine ⟨List.cons_ne_nil _ _, ?_, ?_, ?_, ?_⟩
  · exact fun heq => hdot (List.cons.inj heq).1
  · intro heq
    rcases hrest with rfl | hbracket
    · rw [List.append_nil] at heq
      exact hparenthesis (heq ▸ by decide)
    · have hm := List.mem_append_right (c :: tail) hbracket
      rw [heq] at hm
      exact absurd hm (by decide)
  · exact fun heq => hdot (List.cons.inj heq).1
  · intro more heq
    exact hat ((List.cons.inj heq).1 ▸ List.mem_cons_self)

/-- What is written as a step is read as it. -/
theorem readStep_of_spellsStep {t : Text} {step : LookupStep} (h : SpellsStep t step) :
    readStep t = .ok step := by
  cases h with
  | current => rfl
  | text => rfl
  | attributeOf hname =>
    rw [readStep, if_neg (by simp), if_neg (by simp), if_neg (by simp), if_neg (by simp),
      if_pos (isName_iff.2 hname)]
  | element hname =>
    -- the name is none of the words that the reader tries before it
    obtain ⟨hnil, hcurrent, htext, hparent, hat⟩ := hname.ne_of_append (.inl rfl)
    rw [List.append_nil] at hnil hcurrent htext hparent hat
    have hcut : Text.cut? ['['] t = none := by
      rw [Text.cut?_eq_none_iff, List.singleton_infix_iff]
      exact hname.not_mem (by decide) (by decide)
    rw [readStep, if_neg hnil, if_neg hcurrent, if_neg htext, if_neg hparent, hcut,
      readElementName_eq_ok_iff.2 hname]
    · rfl
    · exact hat
  | @position front inner name n hname hinner =>
    have hopening : '[' ∈ '[' :: (inner ++ [']']) := List.mem_cons_self
    obtain ⟨hnil, hcurrent, htext, hparent, hat⟩ := hname.ne_of_append (.inr hopening)
    have hcut : Text.cut? ['['] (front ++ '[' :: (inner ++ [']'])) =
        some (front, inner ++ [']']) := by
      have hself : Text.cut? ['['] ('[' :: (inner ++ [']'])) = some ([], inner ++ [']']) :=
        Text.cut?_self_append (List.cons_ne_nil '[' []) _
      rw [Text.cut?_append_of_not_mem (hname.not_mem (by decide) (by decide)), hself,
        Option.map_some, List.append_nil]
    rw [readStep, if_neg hnil, if_neg hcurrent, if_neg htext, if_neg hparent, hcut]
    · simp only [List.getLast?_concat, List.dropLast_concat, readPosition_eq_ok_iff.2 hinner,
        readElementName_eq_ok_iff.2 hname]
      rfl
    · exact hat

theorem readStep_eq_ok_iff {t : Text} {step : LookupStep} :
    readStep t = .ok step ↔ SpellsStep t step :=
  ⟨spellsStep_of_readStep, readStep_of_spellsStep⟩

/-! ### Rows of steps -/

theorem SpellsStep.ne_nil {t : Text} {step : LookupStep} (h : SpellsStep t step) : t ≠ [] := by
  rintro rfl
  cases readStep_of_spellsStep h

/-- No step has a separator in it. -/
theorem SpellsStep.not_mem_slash {t : Text} {step : LookupStep} (h : SpellsStep t step) :
    '/' ∉ t := by
  cases h with
  | current => decide
  | text => decide
  | attributeOf hname =>
    rw [List.mem_cons, not_or]
    exact ⟨by decide, hname.not_mem (by decide)⟩
  | element hname => exact hname.not_mem (by decide) (by decide)
  | position hname hinner =>
    obtain ⟨hbefore, hafter, hindex, -⟩ := hinner
    have hblank : isBlank '/' = false := rfl
    have hslash : ∀ digits : Text, (∀ c ∈ digits, c.isDigit = true) → '/' ∉ digits :=
      fun digits hdigits hm => absurd (hdigits _ hm) (by decide)
    have hmem : '/' ∉ _ := hname.not_mem (c := '/') (by decide) (by decide)
    simp only [List.mem_append, List.mem_cons, List.not_mem_nil, or_false, not_or]
    refine ⟨hmem, by decide, ⟨fun hm => ?_, ?_, fun hm => ?_⟩, by decide⟩
    · rw [hbefore _ hm] at hblank
      cases hblank
    · rcases hindex.decimal with hdecimal | ⟨digits, rfl, hdecimal⟩
      · exact hslash _ hdecimal.digits
      · rw [List.mem_cons, not_or]
        exact ⟨by decide, hslash _ hdecimal.digits⟩
    · rw [hafter _ hm] at hblank
      cases hblank

/-- What follows a step begins with a separator, if there is anything. -/
theorem SpellsRest.head? {t : Text} {steps : List (Axis × LookupStep)} (h : SpellsRest t steps) :
    t = [] ∨ ∃ rest, t = '/' :: rest := by
  cases h with
  | nil => exact .inl rfl
  | @cons axis => cases axis <;> exact .inr ⟨_, rfl⟩

/-- A step ends where a separator begins. -/
theorem SpellsStep.takeWhile_append {segment rest : Text} {step : LookupStep}
    (h : SpellsStep segment step) (hrest : rest = [] ∨ ∃ more, rest = '/' :: more) :
    (segment ++ rest).takeWhile (· ≠ '/') = segment ∧
      (segment ++ rest).dropWhile (· ≠ '/') = rest := by
  have hall : ∀ c ∈ segment, decide (c ≠ '/') = true :=
    fun c hc => decide_eq_true fun heq => h.not_mem_slash (heq ▸ hc)
  rw [List.takeWhile_append_of_pos hall, List.dropWhile_append_of_pos hall]
  rcases hrest with rfl | ⟨more, rfl⟩
  · exact ⟨List.append_nil _, rfl⟩
  · exact ⟨by rw [List.takeWhile_cons_of_neg (by simp), List.append_nil],
      List.dropWhile_cons_of_neg (by simp)⟩

/-- The separator in front of a step tells where the step looks. -/
theorem readAxis_separator {segment : Text} {step : LookupStep} (h : SpellsStep segment step)
    (axis : Axis) (rest : Text) :
    readAxis (separator axis ++ (segment ++ rest)) = (axis, segment ++ rest) := by
  obtain ⟨c, tail, rfl⟩ := List.exists_cons_of_ne_nil h.ne_nil
  have hc : c ≠ '/' := fun heq => h.not_mem_slash (heq ▸ List.mem_cons_self)
  cases axis with
  | child =>
    show readAxis ('/' :: c :: (tail ++ rest)) = _
    rw [readAxis]
    · rfl
    · exact fun more heq => hc (List.cons.inj heq).1
  | descendant => rfl

theorem readAxis_of_step {segment : Text} {step : LookupStep} (h : SpellsStep segment step)
    (rest : Text) : readAxis (segment ++ rest) = (.child, segment ++ rest) := by
  obtain ⟨c, tail, rfl⟩ := List.exists_cons_of_ne_nil h.ne_nil
  have hc : c ≠ '/' := fun heq => h.not_mem_slash (heq ▸ List.mem_cons_self)
  rw [List.cons_append, readAxis]
  · exact fun more heq => hc (List.cons.inj heq).1
  · exact fun more heq => hc (List.cons.inj heq).1

/-- A text begins with the separator that is read, or with none. -/
theorem readAxis_cases (t : Text) :
    t = separator (readAxis t).1 ++ (readAxis t).2 ∨
      (readAxis t = (.child, t) ∧ t.head? ≠ some '/') := by
  rw [readAxis.eq_def]
  split
  · exact .inl rfl
  · exact .inl rfl
  · next hslash =>
    refine .inr ⟨rfl, fun hhead => ?_⟩
    obtain ⟨more, rfl⟩ := List.head?_eq_some_iff.1 hhead
    exact hslash more rfl

/-- What a round of reading a text that is not empty comes to. -/
theorem readSteps_succ_eq_ok_iff {fuel : Nat} {closed : Bool} {t : Text} (ht : t ≠ [])
    {steps : List (Axis × LookupStep)} :
    readSteps (fuel + 1) closed t = .ok steps ↔
      closed = false ∧ ∃ step others,
        SpellsStep ((readAxis t).2.takeWhile (· ≠ '/')) step ∧
        readSteps fuel step.isValue ((readAxis t).2.dropWhile (· ≠ '/')) = .ok others ∧
        steps = ((readAxis t).1, step) :: others := by
  rw [readSteps]
  · dsimp only
    cases closed with
    | true => exact ⟨nofun, nofun⟩
    | false =>
      rw [if_neg Bool.false_ne_true, Except.bind_eq_ok_iff]
      constructor
      · rintro ⟨step, hstep, h⟩
        obtain ⟨others, hothers, h⟩ := Except.bind_eq_ok_iff.1 h
        cases h
        exact ⟨rfl, step, others, readStep_eq_ok_iff.1 hstep, hothers, rfl⟩
      · rintro ⟨-, step, others, hstep, hothers, rfl⟩
        exact ⟨step, readStep_eq_ok_iff.2 hstep, Except.bind_eq_ok_iff.2 ⟨others, hothers, rfl⟩⟩
  · exact ht

theorem readSteps_nil (fuel : Nat) (closed : Bool) : readSteps fuel closed [] = .ok [] := by
  cases fuel <;> rfl

/-- Steps behind separators are read as they are written. -/
theorem readSteps_of_spellsRest {t : Text} {steps : List (Axis × LookupStep)}
    (h : SpellsRest t steps) {fuel : Nat} (hf : t.length ≤ fuel) {closed : Bool}
    (hclosed : closed = true → steps = []) : readSteps fuel closed t = .ok steps := by
  induction h generalizing fuel closed with
  | nil => exact readSteps_nil fuel closed
  | @cons axis step segment rest steps hstep hlast hrest ih =>
    have hpos : 0 < (separator axis).length := by cases axis <;> decide
    rw [List.length_append, List.length_append] at hf
    obtain ⟨n, rfl⟩ : ∃ n, fuel = n + 1 := ⟨fuel - 1, by omega⟩
    obtain ⟨htake, hdrop⟩ := hstep.takeWhile_append hrest.head?
    have hne : separator axis ++ (segment ++ rest) ≠ [] :=
      List.append_ne_nil_of_left_ne_nil (List.ne_nil_of_length_pos hpos) _
    rw [readSteps_succ_eq_ok_iff hne, readAxis_separator hstep, htake, hdrop]
    refine ⟨Bool.eq_false_iff.2 fun h => List.cons_ne_nil _ _ (hclosed h), step, steps, hstep,
      ih (by omega) hlast, rfl⟩

/-- What follows a step is empty or begins with a separator. -/
theorem dropWhile_slash (t : Text) :
    t.dropWhile (· ≠ '/') = [] ∨ ∃ more, t.dropWhile (· ≠ '/') = '/' :: more := by
  have hhead := List.head?_dropWhile_not (· ≠ '/') t
  cases hdrop : t.dropWhile (· ≠ '/') with
  | nil => exact .inl rfl
  | cons c more =>
    rw [hdrop] at hhead
    exact .inr ⟨more, by simpa using hhead⟩

/-- A round leaves less of the text. -/
theorem length_of_round {fuel : Nat} {t : Text} {step : LookupStep} (hf : t.length ≤ fuel + 1)
    (h : SpellsStep ((readAxis t).2.takeWhile (· ≠ '/')) step) :
    ((readAxis t).2.dropWhile (· ≠ '/')).length ≤ fuel := by
  have hpos := List.length_pos_iff.2 h.ne_nil
  have hsplit := congrArg List.length
    (List.takeWhile_append_dropWhile (p := (· ≠ '/')) (l := (readAxis t).2))
  rw [List.length_append] at hsplit
  have haxis : (readAxis t).2.length ≤ t.length := by
    rcases readAxis_cases t with h | ⟨h, -⟩
    · have hlength := congrArg List.length h
      rw [List.length_append] at hlength
      omega
    · rw [h]
  omega

/-- What is read as steps is written as steps with a separator in front of each, if the text begins
with one. -/
theorem spellsRest_of_readSteps {fuel : Nat} {closed : Bool} {t : Text}
    {steps : List (Axis × LookupStep)} (hf : t.length ≤ fuel)
    (ht : t = [] ∨ ∃ more, t = '/' :: more) (h : readSteps fuel closed t = .ok steps) :
    SpellsRest t steps ∧ (closed = true → steps = []) := by
  induction fuel generalizing closed t steps with
  | zero =>
    obtain rfl := List.length_eq_zero_iff.1 (Nat.le_zero.1 hf)
    cases h
    exact ⟨.nil, fun _ => rfl⟩
  | succ fuel ih =>
    rcases ht with rfl | ⟨more, ht⟩
    · cases h
      exact ⟨.nil, fun _ => rfl⟩
    have hne : t ≠ [] := ht ▸ List.cons_ne_nil _ _
    obtain ⟨rfl, step, others, hstep, hothers, rfl⟩ := (readSteps_succ_eq_ok_iff hne).1 h
    obtain ⟨hrest, hlast⟩ := ih (length_of_round hf hstep) (dropWhile_slash _) hothers
    refine ⟨?_, nofun⟩
    rcases readAxis_cases t with haxis | ⟨-, hhead⟩
    · have hcons : SpellsRest (separator (readAxis t).1 ++ _) _ := .cons hstep hlast hrest
      rwa [List.takeWhile_append_dropWhile, ← haxis] at hcons
    · exact absurd (ht ▸ rfl) hhead

/-! ### Paths -/

/-- A path is read as steps if it is not empty and does not begin with a single slash. -/
theorem stepsOf_eq_ok_iff_readSteps {t : Text} {steps : List (Axis × LookupStep)} :
    stepsOf t = .ok steps ↔ t ≠ [] ∧ (∀ more, t = '/' :: more → more.head? = some '/') ∧
      readSteps t.length false t = .ok steps := by
  rw [stepsOf.eq_def]
  split
  · exact ⟨nofun, fun h => absurd rfl h.1⟩
  · simp
  · next rest hrest =>
    refine ⟨nofun, fun h => ?_⟩
    obtain ⟨more, hmore⟩ := List.head?_eq_some_iff.1 (h.2.1 rest rfl)
    exact absurd (hmore ▸ rfl) (hrest more)
  · next hnil _ hslash =>
    exact ⟨fun h => ⟨hnil, fun more hmore => absurd hmore (hslash more), h⟩, fun h => h.2.2⟩

theorem spells_of_stepsOf {t : Text} {steps : List (Axis × LookupStep)}
    (h : stepsOf t = .ok steps) : Spells t steps := by
  obtain ⟨hne, hslash, h⟩ := stepsOf_eq_ok_iff_readSteps.1 h
  obtain ⟨fuel, hfuel⟩ : ∃ fuel, t.length = fuel + 1 :=
    ⟨t.length - 1, by have := List.length_pos_iff.2 hne; omega⟩
  rw [hfuel] at h
  obtain ⟨-, step, others, hstep, hothers, rfl⟩ := (readSteps_succ_eq_ok_iff hne).1 h
  obtain ⟨hrest, hlast⟩ :=
    spellsRest_of_readSteps (length_of_round hfuel.le hstep) (dropWhile_slash _) hothers
  rcases readAxis_cases t with haxis | ⟨haxis, -⟩
  · have hspells := Spells.descendant hstep hlast hrest
    rw [List.takeWhile_append_dropWhile] at hspells
    cases hchild : (readAxis t).1 with
    | descendant =>
      rw [hchild] at haxis
      exact haxis ▸ hspells
    | child =>
      -- behind a single slash in front stands another one, but no step begins with it
      rw [hchild] at haxis
      obtain ⟨more, hmore⟩ := List.head?_eq_some_iff.1 (hslash (readAxis t).2 haxis)
      rw [hmore] at hstep
      exact absurd rfl hstep.ne_nil
  · have hspells := Spells.child hstep hlast hrest
    rw [List.takeWhile_append_dropWhile] at hspells
    rw [haxis] at hspells ⊢
    exact hspells

theorem stepsOf_of_spells {t : Text} {steps : List (Axis × LookupStep)} (h : Spells t steps) :
    stepsOf t = .ok steps := by
  rw [stepsOf_eq_ok_iff_readSteps]
  cases h with
  | @child step segment rest steps hstep hlast hrest =>
    -- the first step does not begin with a separator, so that none is read in front of it
    obtain ⟨c, tail, htail⟩ := List.exists_cons_of_ne_nil hstep.ne_nil
    have hc : c ≠ '/' := fun heq => hstep.not_mem_slash (by rw [htail, heq]; exact List.mem_cons_self)
    have hne : segment ++ rest ≠ [] := List.append_ne_nil_of_left_ne_nil hstep.ne_nil _
    refine ⟨hne, fun more hmore => ?_, ?_⟩
    · rw [htail] at hmore
      exact absurd (List.cons.inj hmore).1 hc
    · obtain ⟨htake, hdrop⟩ := hstep.takeWhile_append hrest.head?
      have hlength : (segment ++ rest).length = (tail ++ rest).length + 1 := by
        rw [htail]
        rfl
      rw [hlength, readSteps_succ_eq_ok_iff hne, readAxis_of_step hstep, htake, hdrop]
      exact ⟨rfl, step, steps, hstep,
        readSteps_of_spellsRest hrest (by rw [List.length_append]; omega) hlast, rfl⟩
  | @descendant step segment rest steps hstep hlast hrest =>
    refine ⟨List.cons_ne_nil _ _, fun more hmore => ?_, ?_⟩
    · rw [← (List.cons.inj hmore).2]
      rfl
    · exact readSteps_of_spellsRest (.cons hstep hlast hrest) le_rfl nofun

theorem stepsOf_eq_ok_iff {t : Text} {steps : List (Axis × LookupStep)} :
    stepsOf t = .ok steps ↔ Spells t steps := ⟨spells_of_stepsOf, stepsOf_of_spells⟩

/-- What is read keeps its source and has the steps that the source spells without the blanks
around it. -/
theorem read_eq_ok_iff {source : Text} {path : Lookup} :
    read source = .ok path ↔ path.source = source ∧ Spells (Text.trim source) path.steps := by
  obtain ⟨source', steps⟩ := path
  rw [read]
  constructor
  · intro h
    split at h
    · next hsteps =>
      cases h
      exact ⟨rfl, stepsOf_eq_ok_iff.1 hsteps⟩
    · cases h
  · rintro ⟨rfl, h⟩
    rw [stepsOf_eq_ok_iff.2 h]

/-! ### Positions -/

/-- Every position can be counted from one, and 64 bits can hold it. -/
def Counts (steps : List (Axis × LookupStep)) : Prop :=
  ∀ axis name n, (axis, .element name (some n)) ∈ steps → 0 < n ∧ n < Text.indexBound

theorem SpellsStep.counts {t : Text} {step : LookupStep} (h : SpellsStep t step)
    {name : Option Text} {n : Nat} (hstep : step = .element name (some n)) :
    0 < n ∧ n < Text.indexBound := by
  cases h with
  | position _ hinner =>
    cases hstep
    obtain ⟨-, -, hindex, hpos⟩ := hinner
    exact ⟨hpos, hindex.bounded⟩
  | _ => cases hstep

theorem counts_cons {axis : Axis} {t : Text} {step : LookupStep} {steps : List (Axis × LookupStep)}
    (h : SpellsStep t step) (hsteps : Counts steps) : Counts ((axis, step) :: steps) := by
  intro axis' name n hm
  rcases List.mem_cons.1 hm with heq | hm
  · exact h.counts (Prod.mk.inj heq).2.symm
  · exact hsteps axis' name n hm

theorem SpellsRest.counts {t : Text} {steps : List (Axis × LookupStep)} (h : SpellsRest t steps) :
    Counts steps := by
  induction h with
  | nil => exact fun _ _ _ hm => nomatch hm
  | cons hstep _ _ ih => exact counts_cons hstep ih

theorem Spells.counts {t : Text} {steps : List (Axis × LookupStep)} (h : Spells t steps) :
    Counts steps := by
  cases h with
  | child hstep _ hrest => exact counts_cons hstep hrest.counts
  | descendant hstep _ hrest => exact counts_cons hstep hrest.counts

/-- A path is read exactly if its source, without the blanks around it, is in the grammar. It has
the steps that the source spells, and all its positions count from one. -/
theorem read_iff_spells (source : Text) :
    (∀ path, read source = .ok path ↔
      path.source = source ∧ Spells (Text.trim source) path.steps) ∧
    ∀ path, read source = .ok path → Counts path.steps :=
  ⟨fun _ => read_eq_ok_iff, fun _ h => (read_eq_ok_iff.1 h).2.counts⟩

example : stepsOf "ul//li[ +02 ]/@HREF".toList =
    .ok [(.child, .element (some "ul".toList) none),
      (.descendant, .element (some "li".toList) (some 2)),
      (.child, .attribute "href".toList)] := rfl

end Shortcodes.Html.Lookup
