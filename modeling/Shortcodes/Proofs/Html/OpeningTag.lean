import Mathlib.Data.List.Nodup
import Shortcodes.Html.LooseTag
import Shortcodes.Html.Token.Next
import Shortcodes.Proofs.Text

/-!
# Written opening tags

An opening tag with its attribute values between double quotes is read alike by both readers of
tags: the one for markup gives its name and the decoded values (`readTag?_tagSource`), the one
for loose tags its name and its extent (`at?_tagSource`). Both go on right behind the tag.
-/

namespace Shortcodes.Html

/-- An attribute with its value, as it stands, between double quotes, and the blank before it. -/
def attributeSource (a : Text × Text) : Text := ' ' :: a.1 ++ ('=' :: '"' :: a.2 ++ ['"'])

/-- An opening tag without its bracket. -/
def tagSource (name : Text) (attributes : List (Text × Text)) : Text :=
  name ++ attributes.flatMap attributeSource ++ ['>']

/-- An attribute that both readers of tags take as it is written: its name is not empty and has
none of the characters that end a name, and its value has no double quote. -/
structure Quotable (a : Text × Text) : Prop where
  ne_nil : a.1 ≠ []
  name : ∀ c ∈ a.1, Token.endsAttributeName c = false ∧ LooseTag.isAttributeChar c = true
  value : '"' ∉ a.2

namespace Token

/-- Whether the markup reader takes a text for the name of an attribute: its first character may be
an equals sign. -/
def isLegibleName : Text → Bool
  | [] => false
  | c :: cs => !endsTagName c && cs.all fun d => !endsAttributeName d

/-- Whether the markup reader takes a text for the name of a tag. -/
def isTagName : Text → Bool
  | [] => false
  | c :: cs => c.isAlpha && cs.all fun d => !endsTagName d

theorem isTagName_cons {c : Char} {cs : Text} :
    isTagName (c :: cs) = true ↔ c.isAlpha = true ∧ ∀ d ∈ cs, endsTagName d = false := by
  simp [isTagName]

theorem endsTagName_of_isAlpha {c : Char} (h : c.isAlpha = true) : endsTagName c = false := by
  cases hd : endsTagName c with
  | false => rfl
  | true =>
    simp only [endsTagName, isSpace, Bool.or_eq_true, decide_eq_true_eq] at hd
    rcases hd with ((((((rfl | rfl) | rfl) | rfl) | rfl) | rfl) | rfl) <;> cases h

/-- No character of the name of a tag ends it. -/
theorem endsTagName_of_isTagName {name : Text} (h : isTagName name = true) :
    ∀ c ∈ name, endsTagName c = false := by
  cases name with
  | nil => cases h
  | cons c cs =>
    obtain ⟨hc, hcs⟩ := isTagName_cons.1 h
    exact List.forall_mem_cons.2 ⟨endsTagName_of_isAlpha hc, hcs⟩

/-- An attribute that the markup reader takes as it is written. -/
structure Legible (a : Text × Text) : Prop where
  name : isLegibleName a.1 = true
  value : '"' ∉ a.2

end Token

theorem Quotable.legible {a : Text × Text} (h : Quotable a) : Token.Legible a := by
  obtain ⟨c, cs, hname⟩ := List.exists_cons_of_ne_nil h.ne_nil
  have hchars := h.name
  rw [hname, List.forall_mem_cons] at hchars
  refine ⟨?_, h.value⟩
  have hc : Token.endsTagName c = false := (Bool.or_eq_false_iff.1 hchars.1.1).1
  have hcs : cs.all (fun d => !Token.endsAttributeName d) = true := by
    rw [List.all_eq_true]
    intro d hd
    rw [(hchars.2 d hd).1]
    rfl
  rw [hname, Token.isLegibleName, hc, hcs]
  rfl

theorem attributeSource_cons (c : Char) (cs value rest : Text) :
    attributeSource (c :: cs, value) ++ rest =
      ' ' :: c :: (cs ++ '=' :: '"' :: (value ++ '"' :: rest)) := by
  simp [attributeSource]

theorem length_le_flatMap_attributeSource (attributes : List (Text × Text)) :
    2 * attributes.length ≤ (attributes.flatMap attributeSource).length := by
  induction attributes with
  | nil => exact Nat.le_refl _
  | cons a attributes ih =>
    rw [List.flatMap_cons, List.length_append, List.length_cons]
    simp only [attributeSource, List.length_append, List.length_cons, List.cons_append]
    omega

/-! ### As markup -/

namespace Token

theorem readValue?_quoted {value : Text} (h : '"' ∉ value) (rest : Text) :
    readValue? ('"' :: (value ++ '"' :: rest)) = some (Reference.decode value, rest) := by
  have hspace : ('"' :: (value ++ '"' :: rest)).dropWhile isSpace = '"' :: (value ++ '"' :: rest) :=
    rfl
  rw [readValue?, hspace]
  simp only [Text.cut?_mark h]
  rfl

theorem readAttributes?_blank (fuel : Nat) (seen : List (String × Text)) (rest : Text) :
    readAttributes? (fuel + 1) seen (' ' :: rest) = readAttributes? fuel seen rest := rfl

/-- A quoted attribute is read in two steps, its blank and the rest of it. -/
theorem readAttributes?_attributeSource {a : Text × Text} (h : Legible a) (fuel : Nat)
    (seen : List (String × Text)) (rest : Text) :
    readAttributes? (fuel + 2) seen (attributeSource a ++ rest) =
      readAttributes? fuel (withAttribute seen (nameOf a.1) (Reference.decode a.2)) rest := by
  obtain ⟨name, value⟩ := a
  obtain ⟨hname, hvalue⟩ := h
  cases name with
  | nil => cases hname
  | cons c cs =>
    simp only [isLegibleName, Bool.and_eq_true, Bool.not_eq_true', List.all_eq_true] at hname
    obtain ⟨hc, hcs⟩ := hname
    have hcs' : ∀ d ∈ cs, (!endsAttributeName d) = true := fun d hd => by simp [hcs d hd]
    simp only [endsTagName, Bool.or_eq_false_iff, decide_eq_false_iff_not] at hc
    obtain ⟨⟨hspace, hslash⟩, hend⟩ := hc
    have heq : endsAttributeName '=' = true := rfl
    rw [attributeSource_cons, readAttributes?_blank, readAttributes?]
    · rw [List.takeWhile_append_of_pos hcs', List.dropWhile_append_of_pos hcs',
        List.takeWhile_cons_of_neg (by simp [heq]), List.dropWhile_cons_of_neg (by simp [heq]),
        List.append_nil, List.dropWhile_cons_of_neg (by decide), if_neg (by simp [hspace, hslash])]
      simp only [readValue?_quoted hvalue]
    · exact hend
    · rintro _ he -
      exact hslash he

/-- What reading quoted attributes adds to attributes that were read. -/
def withAttributes (seen : List (String × Text)) (attributes : List (Text × Text)) :
    List (String × Text) :=
  attributes.foldl (fun seen a => withAttribute seen (nameOf a.1) (Reference.decode a.2)) seen

/-- Attributes with different names are all kept. -/
theorem withAttributes_of_nodup {attributes : List (Text × Text)} {seen : List (String × Text)}
    (h : (seen.map (·.1) ++ attributes.map fun a => nameOf a.1).Nodup) :
    withAttributes seen attributes =
      seen ++ attributes.map fun a => (nameOf a.1, Reference.decode a.2) := by
  induction attributes generalizing seen with
  | nil => exact (List.append_nil seen).symm
  | cons a attributes ih =>
    rw [List.map_cons, List.nodup_middle, List.nodup_cons] at h
    have hnew : withAttribute seen (nameOf a.1) (Reference.decode a.2) =
        seen ++ [(nameOf a.1, Reference.decode a.2)] := by
      refine if_neg fun hany => h.1 ?_
      obtain ⟨b, hb, he⟩ := List.any_eq_true.1 hany
      exact List.mem_append_left _ (List.mem_map.2 ⟨b, hb, by simpa using he⟩)
    rw [withAttributes, List.foldl_cons, hnew]
    refine (ih ?_).trans (by simp)
    rw [List.map_append, List.append_assoc]
    exact List.nodup_middle.2 (List.nodup_cons.2 h)

theorem readAttributes?_flatMap {attributes : List (Text × Text)}
    (h : ∀ a ∈ attributes, Legible a) {fuel : Nat} (hf : 2 * attributes.length < fuel)
    (seen : List (String × Text)) (rest : Text) :
    readAttributes? fuel seen (attributes.flatMap attributeSource ++ '>' :: rest) =
      some (withAttributes seen attributes, false, rest) := by
  induction attributes generalizing fuel seen with
  | nil =>
    obtain ⟨n, rfl⟩ : ∃ n, fuel = n + 1 := ⟨fuel - 1, by omega⟩
    rfl
  | cons a attributes ih =>
    rw [List.length_cons] at hf
    obtain ⟨n, rfl⟩ : ∃ n, fuel = n + 2 := ⟨fuel - 2, by omega⟩
    rw [List.flatMap_cons, List.append_assoc,
      readAttributes?_attributeSource (h a List.mem_cons_self),
      ih (fun b hb => h b (List.mem_cons_of_mem a hb)) (by omega)]
    rfl

/-- The markup reader takes a written opening tag whole. -/
theorem readTag?_tagSource {name : Text} {attributes : List (Text × Text)}
    (hname : ∀ c ∈ name, endsTagName c = false) (h : ∀ a ∈ attributes, Legible a) (rest : Text) :
    readTag? (tagSource name attributes ++ rest) =
      some (⟨nameOf name, withAttributes [] attributes, false⟩, rest) := by
  have hname' : ∀ c ∈ name, (!endsTagName c) = true := fun c hc => by simp [hname c hc]
  have hsource : tagSource name attributes ++ rest =
      name ++ (attributes.flatMap attributeSource ++ '>' :: rest) := by
    simp [tagSource]
  -- the name ends at the first attribute's blank or at the closing bracket
  obtain ⟨c, tail, htail, hc⟩ : ∃ c tail,
      attributes.flatMap attributeSource ++ '>' :: rest = c :: tail ∧ endsTagName c = true := by
    cases attributes with
    | nil => exact ⟨'>', rest, rfl, rfl⟩
    | cons a attributes => exact ⟨' ', _, rfl, rfl⟩
  have hfuel : 2 * attributes.length < (tagSource name attributes ++ rest).length + 1 := by
    have := length_le_flatMap_attributeSource attributes
    rw [hsource, List.length_append, List.length_append]
    omega
  have htake : (tagSource name attributes ++ rest).takeWhile (fun c => !endsTagName c) = name := by
    rw [hsource, List.takeWhile_append_of_pos hname', htail,
      List.takeWhile_cons_of_neg (by simp [hc]), List.append_nil]
  have hdrop : (tagSource name attributes ++ rest).dropWhile (fun c => !endsTagName c) =
      attributes.flatMap attributeSource ++ '>' :: rest := by
    rw [hsource, List.dropWhile_append_of_pos hname', htail,
      List.dropWhile_cons_of_neg (by simp [hc])]
  rw [readTag?, htake, hdrop, readAttributes?_flatMap h hfuel]
  rfl

/-- A written opening tag in plain content is read as a start tag. -/
theorem nextData_tagSource {name : Text} {attributes : List (Text × Text)}
    (hname : isTagName name = true) (h : ∀ a ∈ attributes, Legible a) (foreign : Bool)
    (rest : Text) :
    nextData foreign ('<' :: tagSource name attributes ++ rest) =
      ([startTag ⟨nameOf name, withAttributes [] attributes, false⟩], rest) := by
  have hread : readTag? (tagSource name attributes ++ rest) = _ :=
    readTag?_tagSource (endsTagName_of_isTagName hname) h rest
  cases name with
  | nil => cases hname
  | cons c cs =>
    have hc : c.isAlpha = true := (isTagName_cons.1 hname).1
    have hnot : c ≠ '!' ∧ c ≠ '/' ∧ c ≠ '?' := by
      refine ⟨?_, ?_, ?_⟩ <;> (rintro rfl; cases hc)
    have hsource : tagSource (c :: cs) attributes ++ rest =
        c :: (cs ++ attributes.flatMap attributeSource ++ ['>'] ++ rest) := by
      simp [tagSource]
    rw [List.cons_append, hsource]
    rw [hsource] at hread
    unfold nextData
    split
    · next he => cases he
    · next he => cases he
    · next he =>
      obtain rfl := (List.cons.inj he).2
      split
      · next hi => exact absurd (List.cons.inj hi).1 hnot.1
      · next hi => exact absurd (List.cons.inj hi).1 hnot.2.1
      · next hi => exact absurd (List.cons.inj hi).1 hnot.2.2
      · next hi =>
        obtain ⟨rfl, -⟩ := List.cons.inj hi
        rw [if_pos hc, hread]
      · next hi => cases hi
    · next hlt he => exact absurd (List.cons.inj he).1.symm hlt

/-- A written closing tag in plain content is read as an end tag. -/
theorem nextData_closingTag {name : Text} (hname : isTagName name = true) (foreign : Bool)
    (rest : Text) :
    nextData foreign (['<', '/'] ++ name ++ ['>'] ++ rest) = ([endTag (nameOf name)], rest) := by
  have hread : readTag? (tagSource name [] ++ rest) = some (⟨nameOf name, [], false⟩, rest) :=
    readTag?_tagSource (endsTagName_of_isTagName hname) (List.forall_mem_nil _) rest
  have hsource : tagSource name [] ++ rest = name ++ '>' :: rest := by simp [tagSource]
  rw [hsource] at hread
  cases name with
  | nil => cases hname
  | cons c cs =>
    have hc : c.isAlpha = true := (isTagName_cons.1 hname).1
    have hend : nextEndTag (c :: cs ++ '>' :: rest) = ([endTag (nameOf (c :: cs))], rest) := by
      rw [List.cons_append] at hread ⊢
      unfold nextEndTag
      split
      · next he => cases he
      · next he => exact absurd ((List.cons.inj he).1 ▸ hc) (by decide)
      · next he =>
        obtain ⟨rfl, -⟩ := List.cons.inj he
        rw [if_pos hc, hread]
    have hstart : ['<', '/'] ++ (c :: cs) ++ ['>'] ++ rest =
        '<' :: '/' :: (c :: cs ++ '>' :: rest) := by simp
    rw [hstart]
    exact hend

end Token

/-! ### As a loose tag -/

namespace LooseTag

/-- Whether a text is a name that a loose tag may have. -/
def isName : Text → Bool
  | [] => false
  | c :: rest => isNameLetter c && rest.all isNameChar

theorem isName_cons {c : Char} {cs : Text} :
    isName (c :: cs) = true ↔ isNameLetter c = true ∧ ∀ d ∈ cs, isNameChar d = true := by
  simp [isName]

/-- An attribute that the reader of loose tags takes as it is written: its name is not empty and
has none of the characters that end a name, and its value has no double quote. -/
structure IsAttribute (a : Text × Text) : Prop where
  ne_nil : a.1 ≠ []
  name : ∀ c ∈ a.1, isAttributeChar c = true
  value : '"' ∉ a.2

theorem at?_eq_none {c : Char} (h : c ≠ '<') (rest : Text) : at? (c :: rest) = none := by
  unfold at?
  split
  · next he => exact absurd (List.cons.inj he).1 h
  · next he => exact absurd (List.cons.inj he).1 h
  · next he => exact absurd (List.cons.inj he).1 h
  · rfl

/-- A value between quotation marks of either kind is passed over. -/
theorem afterValue?_quoted {mark : Char} (hmark : mark = '"' ∨ mark = '\'') {value : Text}
    (h : mark ∉ value) (rest : Text) :
    afterValue? (mark :: (value ++ mark :: rest)) = some rest := by
  have hblank : (mark :: (value ++ mark :: rest)).dropWhile isBlank =
      mark :: (value ++ mark :: rest) := by
    rcases hmark with rfl | rfl <;> exact List.dropWhile_cons_of_neg (by decide)
  rw [afterValue?, hblank]
  rcases hmark with rfl | rfl <;> simp only [Text.cut?_mark h, Option.map_some]

/-- A named attribute with a value is passed over in one step. -/
theorem afterAttributes?_of_dropWhile {t rest after : Text} {c : Char}
    (ht : t.dropWhile isBlank = c :: rest) (hc : isAttributeChar c = true)
    (hblank : t.head?.any isBlank = true)
    (hequals : (rest.dropWhile isAttributeChar).dropWhile isBlank = '=' :: after) (fuel : Nat) :
    afterAttributes? (fuel + 1) t = (afterValue? after).bind (afterAttributes? fuel) := by
  have hne : c ≠ '>' ∧ c ≠ '/' := by
    constructor <;> (rintro rfl; revert hc; decide)
  rw [afterAttributes?.eq_def]
  dsimp only
  split
  · next he => rw [ht] at he; cases he
  · next he => rw [ht] at he; exact absurd (List.cons.inj he).1 hne.1
  · next he => rw [ht] at he; exact absurd (List.cons.inj he).1 hne.2
  · next he =>
    rw [ht] at he
    obtain ⟨rfl, rfl⟩ := List.cons.inj he
    rw [if_pos (by rw [hc, hblank]; rfl)]
    simp only [hequals]

/-- A quoted attribute is passed over in one step. -/
theorem afterAttributes?_attributeSource {a : Text × Text} (h : IsAttribute a) (fuel : Nat)
    (rest : Text) :
    afterAttributes? (fuel + 1) (attributeSource a ++ rest) = afterAttributes? fuel rest := by
  obtain ⟨name, value⟩ := a
  obtain ⟨c, cs, rfl⟩ := List.exists_cons_of_ne_nil h.ne_nil
  have hc : isAttributeChar c = true := h.name c List.mem_cons_self
  have hcs : ∀ d ∈ cs, isAttributeChar d = true :=
    fun d hd => h.name d (List.mem_cons_of_mem c hd)
  have hblank : isBlank c = false := by
    simp only [isAttributeChar, Bool.not_eq_true', Bool.or_eq_false_iff] at hc
    exact hc.1.1.1.1.1
  have hstart : (' ' :: c :: (cs ++ '=' :: '"' :: (value ++ '"' :: rest))).dropWhile isBlank =
      c :: (cs ++ '=' :: '"' :: (value ++ '"' :: rest)) := by
    rw [List.dropWhile_cons_of_pos (by decide), List.dropWhile_cons_of_neg (by simp [hblank])]
  have hequals : ((cs ++ '=' :: '"' :: (value ++ '"' :: rest)).dropWhile isAttributeChar).dropWhile
      isBlank = '=' :: '"' :: (value ++ '"' :: rest) := by
    rw [List.dropWhile_append_of_pos hcs, List.dropWhile_cons_of_neg (by decide),
      List.dropWhile_cons_of_neg (by decide)]
  rw [attributeSource_cons, afterAttributes?_of_dropWhile hstart hc rfl hequals,
    afterValue?_quoted (.inl rfl) h.value, Option.bind_some]

theorem afterAttributes?_flatMap {attributes : List (Text × Text)}
    (h : ∀ a ∈ attributes, IsAttribute a) {fuel : Nat} (hf : attributes.length < fuel)
    (rest : Text) :
    afterAttributes? fuel (attributes.flatMap attributeSource ++ '>' :: rest) =
      some (false, rest) := by
  induction attributes generalizing fuel with
  | nil =>
    obtain ⟨n, rfl⟩ : ∃ n, fuel = n + 1 := ⟨fuel - 1, by omega⟩
    rfl
  | cons a attributes ih =>
    rw [List.length_cons] at hf
    obtain ⟨n, rfl⟩ : ∃ n, fuel = n + 1 := ⟨fuel - 1, by omega⟩
    rw [List.flatMap_cons, List.append_assoc,
      afterAttributes?_attributeSource (h a List.mem_cons_self),
      ih (fun b hb => h b (List.mem_cons_of_mem a hb)) (by omega)]

/-- A name is read whole where a character follows that no name has. -/
theorem name?_append {name rest : Text} {d : Char} (hname : isName name = true)
    (hd : isNameChar d = false) : name? (name ++ d :: rest) = some (name, d :: rest) := by
  cases name with
  | nil => cases hname
  | cons c cs =>
    obtain ⟨hc, hcs⟩ := isName_cons.1 hname
    rw [List.cons_append, name?, if_pos hc, List.takeWhile_append_of_pos hcs,
      List.dropWhile_append_of_pos hcs, List.takeWhile_cons_of_neg (by simp [hd]),
      List.dropWhile_cons_of_neg (by simp [hd]), List.append_nil]

theorem isName_of_name? {t name tail : Text} (h : name? t = some (name, tail)) :
    isName name = true := by
  cases t with
  | nil => cases h
  | cons c t =>
    rw [name?] at h
    split at h
    · next hc =>
      cases h
      exact isName_cons.2 ⟨hc, fun d hd => List.mem_takeWhile_imp hd⟩
    · cases h

/-- The name of an opening tag that is read is the name of a loose tag. -/
theorem isName_of_at? {t name : Text} {selfClosing : Bool} {seen : Sighting}
    (h : at? t = some seen) (htag : seen.tag = .opening name selfClosing) : isName name = true := by
  unfold at? at h
  dsimp only at h
  split at h
  · cases h
    cases htag
  · split at h
    · split at h
      · cases h
        cases htag
      · cases h
    · cases h
  · split at h
    · next hname =>
      obtain ⟨r, -, rfl⟩ := Option.map_eq_some_iff.1 h
      cases htag
      exact isName_of_name? hname
    · cases h
  · cases h

theorem name?_tagSource {name : Text} (attributes : List (Text × Text))
    (hname : isName name = true) (rest : Text) :
    name? (tagSource name attributes ++ rest) =
      some (name, attributes.flatMap attributeSource ++ '>' :: rest) := by
  have hsource : tagSource name attributes ++ rest =
      name ++ (attributes.flatMap attributeSource ++ '>' :: rest) := by
    simp [tagSource]
  obtain ⟨d, tail, htail, hd⟩ : ∃ d tail,
      attributes.flatMap attributeSource ++ '>' :: rest = d :: tail ∧ isNameChar d = false := by
    cases attributes with
    | nil => exact ⟨'>', rest, rfl, by decide⟩
    | cons a attributes => exact ⟨' ', _, rfl, by decide⟩
  rw [hsource, htail, name?_append hname hd]

/-- What stands in front of the rest of a text is cut off with the length of the rest. -/
theorem take_length_sub (source rest : Text) :
    (source ++ rest).take ((source ++ rest).length - rest.length) = source := by
  rw [List.length_append, Nat.add_sub_cancel, List.take_left]

/-- The reader of loose tags takes a written opening tag whole. -/
theorem at?_tagSource {name : Text} {attributes : List (Text × Text)}
    (hname : isName name = true) (h : ∀ a ∈ attributes, IsAttribute a) (rest : Text) :
    at? ('<' :: tagSource name attributes ++ rest) =
      some ⟨.opening name false, '<' :: tagSource name attributes, rest⟩ := by
  have hletter : ∀ d tail, tagSource name attributes ++ rest = d :: tail →
      isNameLetter d = true := by
    intro d tail ht
    cases name with
    | nil => cases hname
    | cons c cs =>
      have hd : c = d := (List.cons.inj ht).1
      exact hd ▸ (isName_cons.1 hname).1
  have hfuel : attributes.length <
      (attributes.flatMap attributeSource ++ '>' :: rest).length + 1 := by
    have := length_le_flatMap_attributeSource attributes
    rw [List.length_append]
    omega
  have htake := take_length_sub ('<' :: tagSource name attributes) rest
  unfold at?
  split
  · next he => exact absurd (hletter _ _ (List.cons.inj he).2) (by decide)
  · next he => exact absurd (hletter _ _ (List.cons.inj he).2) (by decide)
  · next he =>
    have htail : tagSource name attributes ++ rest = _ := (List.cons.inj he).2
    rw [← htail, name?_tagSource attributes hname]
    dsimp only
    rw [afterAttributes?_flatMap h hfuel, Option.map_some, htake]
  · next he => exact absurd rfl (he _)

end LooseTag

end Shortcodes.Html
