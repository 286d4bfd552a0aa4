import Shortcodes.Proofs.Html.TagExpression

/-!
# Opening tags as they are written

An opening tag is written with attributes of any kind (`SpellsOpening`): without a value, or with
one between double or single quotes or without quotes, with blanks around the sign of equality and
in front of the end. Such a tag is matched whole (`leftmost?_of_spells`), whatever its quoted
values contain and whatever follows it.
-/

namespace Shortcodes.Html.LooseTag

/-! ### The grammar -/

/-- A text of blanks. -/
def Blanks (t : Text) : Prop := ∀ c ∈ t, isBlank c = true

/-- A tag name begins with a letter; letters, digits, colons and hyphens follow. -/
inductive IsTagName : Text → Prop
  | intro {c : Char} {rest : Text} (first : c.isAlpha = true)
      (others : ∀ d ∈ rest, d.isAlphanum = true ∨ d = ':' ∨ d = '-') : IsTagName (c :: rest)

/-- A character of an attribute name. -/
def NamesAttribute (c : Char) : Prop :=
  isBlank c = false ∧ c ≠ '"' ∧ c ≠ '\'' ∧ c ≠ '>' ∧ c ≠ '/' ∧ c ≠ '='

/-- A character of a value without quotes. -/
def StandsBare (c : Char) : Prop :=
  isBlank c = false ∧ c ≠ '"' ∧ c ≠ '\'' ∧ c ≠ '=' ∧ c ≠ '<' ∧ c ≠ '>' ∧ c ≠ '\x60'

/-- What follows the name of an attribute: nothing, or the sign of equality and a value. `bare` says
that it ends in a value without quotes. -/
inductive SpellsValue : Text → (bare : Bool) → Prop
  | none : SpellsValue [] false
  | double {before after value : Text} (hbefore : Blanks before) (hafter : Blanks after)
      (hvalue : '"' ∉ value) :
      SpellsValue (before ++ '=' :: (after ++ '"' :: (value ++ ['"']))) false
  | single {before after value : Text} (hbefore : Blanks before) (hafter : Blanks after)
      (hvalue : '\'' ∉ value) :
      SpellsValue (before ++ '=' :: (after ++ '\'' :: (value ++ ['\'']))) false
  | bare {before after value : Text} (hbefore : Blanks before) (hafter : Blanks after)
      (hne : value ≠ []) (hvalue : ∀ c ∈ value, StandsBare c) :
      SpellsValue (before ++ '=' :: (after ++ value)) true

/-- Attributes with blanks in front of each. `bare` says that they end in a value without
quotes. -/
inductive SpellsAttributes : Text → (bare : Bool) → Prop
  | nil : SpellsAttributes [] false
  | snoc {front gap name value : Text} {bare bare' : Bool} (hfront : SpellsAttributes front bare)
      (hgap : Blanks gap) (hgap' : gap ≠ []) (hname : ∀ c ∈ name, NamesAttribute c)
      (hname' : name ≠ []) (hvalue : SpellsValue value bare') :
      SpellsAttributes (front ++ (gap ++ (name ++ value))) bare'

/-- An opening tag of a name. One that closes itself has a blank in front of its end if its
attributes end in a value without quotes, to which the slash would belong otherwise. -/
inductive SpellsOpening (name : Text) : Text → (selfClosing : Bool) → Prop
  | plain {attributes gap : Text} {bare : Bool} (hname : IsTagName name)
      (hattributes : SpellsAttributes attributes bare) (hgap : Blanks gap) :
      SpellsOpening name ('<' :: (name ++ (attributes ++ (gap ++ ['>'])))) false
  | selfClosing {attributes gap : Text} {bare : Bool} (hname : IsTagName name)
      (hattributes : SpellsAttributes attributes bare) (hgap : Blanks gap)
      (hbare : bare = true → gap ≠ []) :
      SpellsOpening name ('<' :: (name ++ (attributes ++ (gap ++ ['/', '>'])))) true

/-! ### Names and values -/

theorem isAttributeChar_iff {c : Char} : isAttributeChar c = true ↔ NamesAttribute c := by
  simp only [isAttributeChar, Bool.not_eq_true', Bool.or_eq_false_iff, decide_eq_false_iff_not,
    NamesAttribute, and_assoc, ne_eq]

theorem isValueChar_iff {c : Char} : isValueChar c = true ↔ StandsBare c := by
  simp only [isValueChar, Bool.not_eq_true', Bool.or_eq_false_iff, decide_eq_false_iff_not,
    StandsBare, and_assoc, ne_eq]

theorem isName_of_isTagName {name : Text} (h : IsTagName name) : isName name = true := by
  obtain ⟨first, others⟩ := h
  refine isName_cons.2 ⟨by simp [isNameLetter, first], fun d hd => ?_⟩
  rcases others d hd with h | rfl | rfl
  · rw [Char.isAlphanum, Bool.or_eq_true] at h
    rcases h with h | h <;> simp [isNameChar, isNameLetter, h]
  · rfl
  · rfl

/-- What may follow the value of an attribute: not its name or an unquoted value, and no sign of
equality behind blanks. -/
structure Ends (bare : Bool) (t : Text) : Prop where
  head : ∀ c ∈ t.head?, isAttributeChar c = false ∧ (bare = true → isValueChar c = false)
  equals : ∀ after, t.dropWhile isBlank ≠ '=' :: after

theorem dropWhile_blanks {gap : Text} (h : Blanks gap) (t : Text) :
    (gap ++ t).dropWhile isBlank = t.dropWhile isBlank := List.dropWhile_append_of_pos h

theorem afterName?_equals {before t : Text} (h : Blanks before) :
    afterName? (before ++ '=' :: t) = afterValue? t := by
  refine afterName?_of_equals ?_
  rw [dropWhile_blanks h, List.dropWhile_cons_of_neg (by decide)]

theorem afterValue?_blanks {gap : Text} (h : Blanks gap) (t : Text) :
    afterValue? (gap ++ t) = afterValue? t := by
  rw [afterValue?, dropWhile_blanks h, afterValue?]

theorem afterValue?_bare {value rest : Text} (hne : value ≠ [])
    (hvalue : ∀ c ∈ value, StandsBare c) (hrest : ∀ c ∈ rest.head?, isValueChar c = false) :
    afterValue? (value ++ rest) = some rest := by
  obtain ⟨c, cs, rfl⟩ := List.exists_cons_of_ne_nil hne
  have hc := hvalue c (.head _)
  have hcs : ∀ d ∈ cs, isValueChar d = true :=
    fun d hd => isValueChar_iff.2 (hvalue d (.tail _ hd))
  have hdrop : (cs ++ rest).dropWhile isValueChar = rest := by
    rw [List.dropWhile_append_of_pos hcs]
    cases rest with
    | nil => rfl
    | cons d rest => exact List.dropWhile_cons_of_neg (by simp [hrest d rfl])
  have hblank : (c :: cs ++ rest).dropWhile isBlank = c :: (cs ++ rest) :=
    List.dropWhile_cons_of_neg (by simp [hc.1])
  rw [afterValue?, hblank]
  split
  · next he => exact absurd (List.cons.inj he).1 hc.2.1
  · next he => exact absurd (List.cons.inj he).1 hc.2.2.1
  · next he =>
    obtain ⟨rfl, rfl⟩ := List.cons.inj he
    rw [if_pos (isValueChar_iff.2 hc), hdrop]
  · next he => cases he

/-- The value of an attribute, or its absence, is passed over. -/
theorem afterName?_of_spells {value : Text} {bare : Bool} (h : SpellsValue value bare) {rest : Text}
    (hrest : Ends bare rest) : afterName? (value ++ rest) = some rest := by
  cases h with
  | none => exact afterName?_of_ne hrest.equals
  | double hbefore hafter hvalue =>
    simp only [List.append_assoc, List.cons_append, List.nil_append]
    rw [afterName?_equals hbefore, afterValue?_blanks hafter, afterValue?_quoted (.inl rfl) hvalue]
  | single hbefore hafter hvalue =>
    simp only [List.append_assoc, List.cons_append, List.nil_append]
    rw [afterName?_equals hbefore, afterValue?_blanks hafter, afterValue?_quoted (.inr rfl) hvalue]
  | bare hbefore hafter hne hvalue =>
    simp only [List.append_assoc, List.cons_append]
    rw [afterName?_equals hbefore, afterValue?_blanks hafter]
    exact afterValue?_bare hne hvalue fun c hc => (hrest.head c hc).2 rfl

/-- A value begins with a blank or the sign of equality, so that a name ends in front of it. -/
theorem head?_of_spellsValue {value : Text} {bare : Bool} (h : SpellsValue value bare) {rest : Text}
    (hrest : Ends bare rest) : ∀ c ∈ (value ++ rest).head?, isAttributeChar c = false := by
  have hassigned : ∀ before t : Text, Blanks before →
      ∀ c ∈ (before ++ '=' :: t).head?, isAttributeChar c = false := by
    intro before t hbefore c hc
    cases before with
    | nil =>
      cases hc
      rfl
    | cons b before =>
      cases hc
      have hb : isBlank c = true := hbefore c (.head _)
      simp [isAttributeChar, hb]
  cases h with
  | none => exact fun c hc => (hrest.head c hc).1
  | double hbefore _ _ =>
    rw [List.append_assoc]
    exact hassigned _ _ hbefore
  | single hbefore _ _ =>
    rw [List.append_assoc]
    exact hassigned _ _ hbefore
  | bare hbefore _ _ _ =>
    rw [List.append_assoc]
    exact hassigned _ _ hbefore

/-! ### Attributes -/

theorem afterAttribute?_of_spells {gap name value : Text} {bare : Bool} (hgap : Blanks gap)
    (hgap' : gap ≠ []) (hname : ∀ c ∈ name, NamesAttribute c) (hname' : name ≠ [])
    (hvalue : SpellsValue value bare) {rest : Text} (hrest : Ends bare rest) :
    afterAttribute? (gap ++ (name ++ value) ++ rest) = some rest := by
  obtain ⟨b, bs, rfl⟩ := List.exists_cons_of_ne_nil hgap'
  obtain ⟨c, cs, rfl⟩ := List.exists_cons_of_ne_nil hname'
  have hc : isAttributeChar c = true := isAttributeChar_iff.2 (hname c (.head _))
  have hcs : ∀ d ∈ cs, isAttributeChar d = true :=
    fun d hd => isAttributeChar_iff.2 (hname d (.tail _ hd))
  have hdrop : (b :: bs ++ (c :: cs ++ value) ++ rest).dropWhile isBlank =
      c :: (cs ++ (value ++ rest)) := by
    rw [List.append_assoc, dropWhile_blanks hgap, List.append_assoc, List.cons_append]
    exact List.dropWhile_cons_of_neg (by simp [(ne_of_isAttributeChar hc).1])
  have hname : (cs ++ (value ++ rest)).dropWhile isAttributeChar = value ++ rest := by
    rw [List.dropWhile_append_of_pos hcs]
    have hhead := head?_of_spellsValue hvalue hrest
    cases hv : value ++ rest with
    | nil => rfl
    | cons d more =>
      rw [hv] at hhead
      exact List.dropWhile_cons_of_neg (by simp [hhead d rfl])
  have hblank : (b :: bs ++ (c :: cs ++ value) ++ rest).head?.any isBlank = true := hgap b (.head _)
  rw [afterAttribute?_of_dropWhile hdrop, hc, hblank, hname]
  exact afterName?_of_spells hvalue hrest

theorem afterEnd?_of_attribute {gap name : Text} (hgap : Blanks gap)
    (hname : ∀ c ∈ name, NamesAttribute c) (hname' : name ≠ []) (t : Text) :
    afterEnd? (gap ++ (name ++ t)) = none := by
  obtain ⟨c, cs, rfl⟩ := List.exists_cons_of_ne_nil hname'
  obtain ⟨hblank, -, -, hgt, hslash, -⟩ := hname c (.head _)
  have hdrop : (gap ++ (c :: cs ++ t)).dropWhile isBlank = c :: (cs ++ t) := by
    rw [dropWhile_blanks hgap]
    exact List.dropWhile_cons_of_neg (by simp [hblank])
  exact afterEnd?_eq_none hdrop hgt fun h => absurd h hslash

/-- A value ends in front of blanks, and also in front of a character that cannot be a part of
it. -/
theorem ends_of_gap {gap : Text} {c : Char} {bare : Bool} (hgap : Blanks gap)
    (hblank : isBlank c = false) (hequals : c ≠ '=')
    (hhead : gap = [] → isAttributeChar c = false ∧ (bare = true → isValueChar c = false))
    (t : Text) : Ends bare (gap ++ c :: t) where
  head d hd := by
    cases gap with
    | nil =>
      cases hd
      exact hhead rfl
    | cons b bs =>
      cases hd
      have hb : isBlank d = true := hgap d (.head _)
      exact ⟨by simp [isAttributeChar, hb], fun _ => by simp [isValueChar, hb]⟩
  equals after := by
    rw [dropWhile_blanks hgap, List.dropWhile_cons_of_neg (by simp [hblank])]
    exact fun he => hequals (List.cons.inj he).1

theorem ends_of_attribute {gap name : Text} (hgap : Blanks gap) (hgap' : gap ≠ [])
    (hname : ∀ c ∈ name, NamesAttribute c) (hname' : name ≠ []) (bare : Bool) (t : Text) :
    Ends bare (gap ++ (name ++ t)) := by
  obtain ⟨c, cs, rfl⟩ := List.exists_cons_of_ne_nil hname'
  obtain ⟨hblank, -, -, -, -, hequals⟩ := hname c (.head _)
  exact ends_of_gap hgap hblank hequals (fun hnil => absurd hnil hgap') (cs ++ t)

/-- Attributes are passed over one after the other, each in one step. -/
theorem exists_afterAttributes?_append {attributes : Text} {bare : Bool}
    (h : SpellsAttributes attributes bare) :
    ∃ n ≤ attributes.length, ∀ rest fuel, Ends bare rest →
      afterAttributes? (fuel + n + 1) (attributes ++ rest) = afterAttributes? (fuel + 1) rest := by
  induction h with
  | nil => exact ⟨0, le_rfl, fun _ _ _ => rfl⟩
  | @snoc front gap name value bare bare' hfront hgap hgap' hname hname' hvalue ih =>
    obtain ⟨n, hn, ih⟩ := ih
    refine ⟨n + 1, ?_, fun rest fuel hrest => ?_⟩
    · have hpos := List.length_pos_iff.2 hgap'
      simp only [List.length_append]
      omega
    · have hnext : front ++ (gap ++ (name ++ value)) ++ rest =
          front ++ (gap ++ (name ++ (value ++ rest))) := by
        simp only [List.append_assoc]
      have hone := afterAttribute?_of_spells hgap hgap' hname hname' hvalue hrest
      rw [List.append_assoc, List.append_assoc] at hone
      rw [hnext, show fuel + (n + 1) + 1 = fuel + 1 + n + 1 by omega,
        ih _ (fuel + 1) (ends_of_attribute hgap hgap' hname hname' bare _),
        afterAttributes?_succ, afterEnd?_of_attribute hgap hname hname', hone]
      rfl

/-! ### Opening tags -/

theorem ends_of_bracket {gap : Text} (hgap : Blanks gap) (bare : Bool) (post : Text) :
    Ends bare (gap ++ '>' :: post) :=
  ends_of_gap hgap rfl (by decide) (fun _ => ⟨rfl, fun _ => rfl⟩) post

theorem ends_of_slash {gap : Text} (hgap : Blanks gap) {bare : Bool} (hbare : bare = true → gap ≠ [])
    (post : Text) : Ends bare (gap ++ '/' :: post) :=
  ends_of_gap hgap rfl (by decide) (fun hnil => ⟨rfl, fun h => absurd hnil (hbare h)⟩) post

/-- The attributes of a tag and its end are read to the end. -/
theorem afterAttributes?_of_spells {attributes finish post : Text} {bare selfClosing : Bool}
    (h : SpellsAttributes attributes bare) (hends : Ends bare finish)
    (hfinish : afterEnd? finish = some (selfClosing, post)) :
    afterAttributes? ((attributes ++ finish).length + 1) (attributes ++ finish) =
      some (selfClosing, post) := by
  obtain ⟨n, hn, hall⟩ := exists_afterAttributes?_append h
  have hfuel : (attributes ++ finish).length = (attributes ++ finish).length - n + n := by
    rw [List.length_append]
    omega
  rw [hfuel, hall finish _ hends, afterAttributes?_succ, hfinish, Option.some_or]

theorem at?_of_name? {t name tail post : Text} {selfClosing : Bool}
    (hname : name? t = some (name, tail))
    (htail : afterAttributes? (tail.length + 1) tail = some (selfClosing, post)) :
    at? ('<' :: t) = some ⟨.opening name selfClosing,
      ('<' :: t).take (('<' :: t).length - post.length), post⟩ := by
  unfold at?
  split
  · next he =>
    rw [(List.cons.inj he).2] at hname
    cases hname
  · next he =>
    rw [(List.cons.inj he).2] at hname
    cases hname
  · next he =>
    rw [← (List.cons.inj he).2, hname]
    dsimp only
    rw [htail, Option.map_some]
  · next he => exact absurd rfl (he _)

theorem isNameChar_of_isBlank {c : Char} (h : isBlank c = true) : isNameChar c = false := by
  rw [← Bool.not_eq_true]
  intro hc
  rw [(ne_of_isNameChar hc).1] at h
  cases h

theorem head?_of_spellsAttributes {attributes : Text} {bare : Bool}
    (h : SpellsAttributes attributes bare) : ∀ c ∈ attributes.head?, isBlank c = true := by
  induction h with
  | nil => exact nofun
  | @snoc front gap name value bare bare' hfront hgap hgap' _ _ _ ih =>
    intro c hc
    cases front with
    | nil =>
      obtain ⟨b, bs, rfl⟩ := List.exists_cons_of_ne_nil hgap'
      cases hc
      exact hgap _ (.head _)
    | cons d front => exact ih c hc

/-- A name, attributes and an end make up an opening tag. -/
theorem at?_of_parts {name attributes finish post : Text} {bare selfClosing : Bool}
    (hname : IsTagName name) (hattributes : SpellsAttributes attributes bare)
    (hends : Ends bare (finish ++ post))
    (hfinish : afterEnd? (finish ++ post) = some (selfClosing, post))
    (hhead : ∀ c ∈ (finish ++ post).head?, isNameChar c = false) :
    at? ('<' :: (name ++ (attributes ++ finish)) ++ post) =
      some ⟨.opening name selfClosing, '<' :: (name ++ (attributes ++ finish)), post⟩ := by
  -- the name ends where the attributes or the end of the tag begin
  obtain ⟨d, rest, hrest, hd⟩ : ∃ d rest, attributes ++ (finish ++ post) = d :: rest ∧
      isNameChar d = false := by
    cases attributes with
    | nil =>
      cases hf : finish ++ post with
      | nil =>
        rw [hf] at hfinish
        cases hfinish
      | cons d rest =>
        rw [hf] at hhead
        exact ⟨d, rest, rfl, hhead d rfl⟩
    | cons d rest =>
      have hblank := head?_of_spellsAttributes hattributes d rfl
      exact ⟨d, rest ++ (finish ++ post), rfl, isNameChar_of_isBlank hblank⟩
  have hread : name? (name ++ (attributes ++ (finish ++ post))) =
      some (name, attributes ++ (finish ++ post)) := by
    rw [hrest]
    exact name?_append (isName_of_isTagName hname) hd
  have hsource := take_length_sub ('<' :: (name ++ (attributes ++ finish))) post
  have htext : '<' :: (name ++ (attributes ++ finish)) ++ post =
      '<' :: (name ++ (attributes ++ (finish ++ post))) := by
    simp only [List.cons_append, List.append_assoc]
  rw [htext] at hsource ⊢
  rw [at?_of_name? hread (afterAttributes?_of_spells hattributes hends hfinish), hsource]

/-- A written opening tag is read whole. -/
theorem at?_of_spells {name tag : Text} {selfClosing : Bool}
    (h : SpellsOpening name tag selfClosing) (post : Text) :
    at? (tag ++ post) = some ⟨.opening name selfClosing, tag, post⟩ := by
  have hhead : ∀ {gap : Text} (c : Char) (t : Text), Blanks gap → isNameChar c = false →
      ∀ d ∈ (gap ++ c :: t).head?, isNameChar d = false := by
    intro gap c t hgap hc d hd
    cases gap with
    | nil =>
      cases hd
      exact hc
    | cons b bs =>
      cases hd
      exact isNameChar_of_isBlank (hgap d (.head _))
  cases h with
  | @plain attributes gap bare hname hattributes hgap =>
    have htext : gap ++ ['>'] ++ post = gap ++ '>' :: post := by simp
    refine at?_of_parts hname hattributes ?_ ?_ ?_
    · rw [htext]
      exact ends_of_bracket hgap bare post
    · rw [htext, afterEnd?, dropWhile_blanks hgap, List.dropWhile_cons_of_neg (by decide)]
      rfl
    · rw [htext]
      exact hhead '>' post hgap rfl
  | @selfClosing attributes gap bare hname hattributes hgap hbare =>
    have htext : gap ++ ['/', '>'] ++ post = gap ++ '/' :: '>' :: post := by simp
    refine at?_of_parts hname hattributes ?_ ?_ ?_
    · rw [htext]
      exact ends_of_slash hgap hbare ('>' :: post)
    · rw [htext, afterEnd?, dropWhile_blanks hgap, List.dropWhile_cons_of_neg (by decide)]
      rfl
    · rw [htext]
      exact hhead '/' ('>' :: post) hgap rfl

/-- A written opening tag is the first match, and matched whole, wherever no bracket stands in front
of it: the tag that is found has its name, and closes itself exactly if it is written so. -/
theorem leftmost?_of_spells {name tag : Text} {selfClosing : Bool}
    (h : SpellsOpening name tag selfClosing) {pre : Text} (hpre : '<' ∉ pre) (post : Text) :
    leftmost? (pre ++ (tag ++ post)) = some (pre, ⟨.opening name selfClosing, tag, post⟩) ∧
    ∃ w, expression.leftmost? (pre ++ (tag ++ post)) = some (pre, w) ∧
      ofWay w = ⟨.opening name selfClosing, tag, post⟩ := by
  have hfirst : leftmost? (pre ++ (tag ++ post)) =
      some (pre, ⟨.opening name selfClosing, tag, post⟩) := by
    induction pre with
    | nil =>
      have hat := at?_of_spells h post
      rw [List.nil_append]
      cases htext : tag ++ post with
      | nil =>
        rw [htext] at hat
        cases hat
      | cons c t => rw [leftmost?, ← htext, hat]
    | cons c pre ih =>
      have hc : c ≠ '<' := fun hc => hpre (hc ▸ List.mem_cons_self)
      rw [List.cons_append, leftmost?, at?_eq_none hc, ih fun hm => hpre (List.mem_cons_of_mem c hm)]
      rfl
  refine ⟨hfirst, ?_⟩
  rw [leftmost?_eq_leftmost?] at hfirst
  obtain ⟨r, hr, hway⟩ := Option.map_eq_some_iff.1 hfirst
  obtain ⟨hpre', hway⟩ := Prod.mk.inj hway
  exact ⟨r.2, by rw [hr, ← hpre'], hway⟩

/-- Attributes of every kind, with brackets, a slash and a line break in their values. -/
theorem leftmost?_of_spells_mixed :
    SpellsOpening "x-A:1".toList "<x-A:1 on a = \"\n>'<\"  b='\"/>' c=d/ />".toList true ∧
    leftmost? ("1 > 0 ".toList ++ ("<x-A:1 on a = \"\n>'<\"  b='\"/>' c=d/ />".toList ++
        "</x-A:1>".toList)) =
      some ("1 > 0 ".toList, ⟨.opening "x-A:1".toList true,
        "<x-A:1 on a = \"\n>'<\"  b='\"/>' c=d/ />".toList, "</x-A:1>".toList⟩) := by
  have hnone : Blanks [] := List.forall_mem_nil _
  have hone : Blanks [' '] := Text.forall_mem_of_all (by decide)
  have htwo : Blanks [' ', ' '] := Text.forall_mem_of_all (by decide)
  have hname : ∀ name : Text, name.all isAttributeChar = true → ∀ c ∈ name, NamesAttribute c :=
    fun name hall c hc => isAttributeChar_iff.1 (List.all_eq_true.1 hall c hc)
  have hdouble : SpellsValue " = \"\n>'<\"".toList false :=
    @SpellsValue.double [' '] [' '] "\n>'<".toList hone hone (by decide)
  have hsingle : SpellsValue "='\"/>'".toList false :=
    @SpellsValue.single [] [] "\"/>".toList hnone hnone (by decide)
  have hbare : SpellsValue "=d/".toList true :=
    @SpellsValue.bare [] [] "d/".toList hnone hnone (by decide) fun c hc =>
      isValueChar_iff.1 (List.all_eq_true.1 (by decide : "d/".toList.all isValueChar = true) c hc)
  have hfirst : SpellsAttributes " on".toList false :=
    .snoc .nil hone (by decide) (hname ['o', 'n'] (by decide)) (by decide) .none
  have hsecond : SpellsAttributes " on a = \"\n>'<\"".toList false :=
    .snoc hfirst hone (by decide) (hname ['a'] (by decide)) (by decide) hdouble
  have hthird : SpellsAttributes " on a = \"\n>'<\"  b='\"/>'".toList false :=
    .snoc hsecond htwo (by decide) (hname ['b'] (by decide)) (by decide) hsingle
  have hattributes : SpellsAttributes " on a = \"\n>'<\"  b='\"/>' c=d/".toList true :=
    .snoc hthird hone (by decide) (hname ['c'] (by decide)) (by decide) hbare
  have htag : IsTagName "x-A:1".toList :=
    .intro rfl (Text.forall_mem_of_all (by decide))
  have h : SpellsOpening "x-A:1".toList "<x-A:1 on a = \"\n>'<\"  b='\"/>' c=d/ />".toList true :=
    .selfClosing htag hattributes hone fun _ => List.cons_ne_nil _ _
  exact ⟨h, (leftmost?_of_spells h (by decide) "</x-A:1>".toList).1⟩

end Shortcodes.Html.LooseTag
