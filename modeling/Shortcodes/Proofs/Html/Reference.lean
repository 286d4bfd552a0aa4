import Shortcodes.Html.Node
import Shortcodes.Html.Token.Next
import Shortcodes.Proofs.Format.Escaping

/-!
# Characters in written markup

Markup shows a character as itself or by one of six references (`Coded`). All three ways of
escaping are of this kind, and reading undoes each of them: in attribute values
(`decode_flatMap`) and in plain content (`nextData_coded`). Line breaks are never escaped, so
that writing them alike commutes with escaping (`normalizeBreaks_flatMap`). A text comes back
unchanged when it has neither carriage returns nor characters whose code is zero
(`asAttribute_eq_self_iff`, `asContent_eq_self_iff`).
-/

namespace Shortcodes.Html

/-! ### References -/

/-- The references that stand for characters in written markup, after their ampersands. -/
def references : List (Text × Char) :=
  [(['a', 'm', 'p', ';'], '&'), (['l', 't', ';'], '<'), (['g', 't', ';'], '>'),
   (['q', 'u', 'o', 't', ';'], '"'), (['#', '3', '9', ';'], '\''),
   (['n', 'b', 's', 'p', ';'], noBreakSpace)]

/-- A reference is read as its character, in attribute values and in content. -/
theorem read?_of_mem_references {name : Text} {c : Char} (h : (name, c) ∈ references)
    (inAttribute : Bool) (rest : Text) :
    Reference.read? inAttribute (name ++ rest) = some ⟨[c], false, rest⟩ := by
  simp only [references, List.mem_cons, Prod.mk.injEq, List.not_mem_nil, or_false] at h
  rcases h with ⟨rfl, rfl⟩ | ⟨rfl, rfl⟩ | ⟨rfl, rfl⟩ | ⟨rfl, rfl⟩ | ⟨rfl, rfl⟩ | ⟨rfl, rfl⟩ <;> rfl

/-- A character as it may be shown in markup: by itself, unless it is an ampersand, or by a
reference. -/
inductive Coded : Text → Char → Prop where
  | plain {c : Char} (h : c ≠ '&') : Coded [c] c
  | reference {name : Text} {c : Char} (h : (name, c) ∈ references) : Coded ('&' :: name) c

/-- Whether a way of writing characters shows each of them. -/
def CodesAll (esc : Char → Text) : Prop := ∀ c, Coded (esc c) c

theorem codesAll_escapeMarkup : CodesAll fun c => escapeMarkup [c] := by
  intro c
  show Coded (escapeMarkup [c]) c
  have hreferences : ∀ r ∈ escapes, ∃ q ∈ references, r = ('&' :: q.1, q.2) := by decide
  rcases escapeMarkup_singleton c with h | ⟨h, hamp, -⟩
  · obtain ⟨⟨name, d⟩, hq, heq⟩ := hreferences _ h
    obtain ⟨hform, rfl⟩ := Prod.mk.inj heq
    rw [hform]
    exact .reference hq
  · rw [h]
    exact .plain hamp

theorem codesAll_escapedInAttribute : CodesAll escapedInAttribute := by
  intro c
  rw [escapedInAttribute]
  split
  · next h => exact .reference (by rw [h]; decide)
  · next hamp =>
    repeat' split
    · next h => exact .reference (by rw [h]; decide)
    · next h => exact .reference (by rw [h]; decide)
    · exact .plain hamp

theorem codesAll_escapedInText : CodesAll escapedInText := by
  intro c
  rw [escapedInText]
  split
  · next h => exact .reference (by rw [h]; decide)
  · next hamp =>
    repeat' split
    · next h => exact .reference (by rw [h]; decide)
    · next h => exact .reference (by rw [h]; decide)
    · next h => exact .reference (by rw [h]; decide)
    · exact .plain hamp

/-- A character that occurs in no reference shows itself, and nothing else. -/
theorem Coded.eq_of_mem {form : Text} {c d : Char} (h : Coded form c)
    (hd : ∀ r ∈ references, d ∉ '&' :: r.1) (hm : d ∈ form) : form = [d] ∧ c = d := by
  cases h with
  | plain hc =>
    rw [List.mem_singleton.1 hm]
    exact ⟨rfl, rfl⟩
  | reference hr => exact absurd hm (hd _ hr)

/-- A character without a reference is shown by itself. -/
theorem Coded.eq_singleton {form : Text} {c : Char} (h : Coded form c)
    (hc : ∀ r ∈ references, r.2 ≠ c) : form = [c] := by
  cases h with
  | plain => rfl
  | reference hr => exact absurd rfl (hc _ hr)

/-- A character that occurs in no reference and is not shown by itself is not written. -/
theorem CodesAll.not_mem {esc : Char → Text} (h : CodesAll esc) {d : Char}
    (hd : ∀ r ∈ references, d ∉ '&' :: r.1) (hne : esc d ≠ [d]) (t : Text) :
    d ∉ t.flatMap esc := by
  intro hm
  obtain ⟨c, -, hc⟩ := List.mem_flatMap.1 hm
  obtain ⟨hform, rfl⟩ := (h c).eq_of_mem hd hc
  exact hne hform

/-! ### Attribute values -/

/-- What becomes of a character whose code is zero. -/
def withoutNul (c : Char) : Char := if c.toNat = 0 then Reference.replacement else c

theorem Coded.length_pos {form : Text} {c : Char} (h : Coded form c) : 0 < form.length := by
  cases h <;> simp

/-- A text is not longer than its shown form. -/
theorem CodesAll.length_le {esc : Char → Text} (h : CodesAll esc) (t : Text) :
    t.length ≤ (t.flatMap esc).length := by
  induction t with
  | nil => exact Nat.le_refl _
  | cons c t ih =>
    have hpos := (h c).length_pos
    rw [List.flatMap_cons, List.length_append, List.length_cons]
    omega

theorem withoutNul_of_mem_references {name : Text} {c : Char} (h : (name, c) ∈ references) :
    withoutNul c = c := by
  simp only [references, List.mem_cons, Prod.mk.injEq, List.not_mem_nil, or_false] at h
  rcases h with ⟨-, rfl⟩ | ⟨-, rfl⟩ | ⟨-, rfl⟩ | ⟨-, rfl⟩ | ⟨-, rfl⟩ | ⟨-, rfl⟩ <;> rfl

theorem decodeUpTo_coded {form : Text} {c : Char} (h : Coded form c) (fuel : Nat) (rest : Text) :
    Reference.decodeUpTo (fuel + 1) (form ++ rest) =
      withoutNul c :: Reference.decodeUpTo fuel rest := by
  cases h with
  | plain hc =>
    rw [List.singleton_append, Reference.decodeUpTo, if_neg hc]
    rfl
  | reference hm =>
    rw [List.cons_append, Reference.decodeUpTo, if_pos rfl, read?_of_mem_references hm,
      withoutNul_of_mem_references hm]
    rfl

/-- An attribute value in which each character is shown is decoded to these characters. -/
theorem decode_flatMap {esc : Char → Text} (h : CodesAll esc) (t : Text) :
    Reference.decode (t.flatMap esc) = t.map withoutNul := by
  have hall : ∀ fuel, (t.flatMap esc).length ≤ fuel →
      Reference.decodeUpTo fuel (t.flatMap esc) = t.map withoutNul := by
    induction t with
    | nil =>
      intro fuel _
      cases fuel <;> rfl
    | cons c t ih =>
      intro fuel hf
      have hpos := (h c).length_pos
      rw [List.flatMap_cons, List.length_append] at hf
      obtain ⟨n, rfl⟩ : ∃ n, fuel = n + 1 := ⟨fuel - 1, by omega⟩
      rw [List.flatMap_cons, decodeUpTo_coded (h c), ih n (by omega), List.map_cons]
  exact hall _ (Nat.le_refl _)

/-! ### Plain content -/

/-- A character that is shown in content, an opening bracket by its reference, is read as
itself. -/
theorem nextData_coded {form : Text} {c : Char} (h : Coded form c) (hb : '<' ∉ form)
    (foreign : Bool) (rest : Text) : Token.nextData foreign (form ++ rest) = ([.char c], rest) := by
  cases h with
  | plain hc =>
    have hlt : c ≠ '<' := fun he => hb (by rw [he]; exact List.mem_cons_self)
    rw [List.singleton_append, Token.nextData]
    · rintro rfl; exact absurd rfl hc
    · rintro rfl; exact absurd rfl hlt
  | reference hm =>
    rw [List.cons_append, Token.nextData]
    simp only [read?_of_mem_references hm]
    rfl

/-! ### Line breaks -/

theorem normalizeBreaks_cons {c : Char} (h : c ≠ '\r') (t : Text) :
    Token.normalizeBreaks (c :: t) = c :: Token.normalizeBreaks t := by
  rw [Token.normalizeBreaks]
  · rintro _ rfl; exact absurd rfl h
  · rintro rfl; exact absurd rfl h

theorem normalizeBreaks_pair (t : Text) :
    Token.normalizeBreaks ('\r' :: '\n' :: t) = '\n' :: Token.normalizeBreaks t := rfl

theorem normalizeBreaks_lone {t : Text} (h : t.head? ≠ some '\n') :
    Token.normalizeBreaks ('\r' :: t) = '\n' :: Token.normalizeBreaks t := by
  rw [Token.normalizeBreaks]
  rintro rest rfl
  exact h rfl

/-- A text goes on with a carriage return and a line feed, with a carriage return alone, or with
another character. -/
@[elab_as_elim]
theorem breaksInduction {motive : Text → Prop} (nil : motive [])
    (pair : ∀ t, motive t → motive ('\r' :: '\n' :: t))
    (lone : ∀ t, t.head? ≠ some '\n' → motive t → motive ('\r' :: t))
    (other : ∀ c t, c ≠ '\r' → motive t → motive (c :: t)) (t : Text) : motive t := by
  induction t using Token.normalizeBreaks.induct with
  | case1 t ih => exact pair t ih
  | case2 t h ih =>
    refine lone t (fun he => ?_) ih
    obtain ⟨r, rfl⟩ := List.head?_eq_some_iff.1 he
    exact h r rfl
  | case3 c t _ h ih => exact other c t h ih
  | case4 => exact nil

theorem normalizeBreaks_append {t : Text} (h : '\r' ∉ t) (rest : Text) :
    Token.normalizeBreaks (t ++ rest) = t ++ Token.normalizeBreaks rest := by
  induction t with
  | nil => rfl
  | cons c t ih =>
    have hc : c ≠ '\r' := fun he => h (by simp [he])
    rw [List.cons_append, normalizeBreaks_cons hc, ih fun hm => h (by simp [hm]),
      List.cons_append]

theorem normalizeBreaks_eq_self {t : Text} (h : '\r' ∉ t) : Token.normalizeBreaks t = t := by
  have hnil : Token.normalizeBreaks [] = [] := rfl
  have happend := normalizeBreaks_append h []
  rwa [hnil, List.append_nil] at happend

theorem not_mem_normalizeBreaks (t : Text) : '\r' ∉ Token.normalizeBreaks t := by
  induction t using breaksInduction with
  | nil => exact List.not_mem_nil
  | pair t ih =>
    rw [normalizeBreaks_pair]
    simpa using ih
  | lone t h ih =>
    rw [normalizeBreaks_lone h]
    simpa using ih
  | other c t h ih =>
    rw [normalizeBreaks_cons h, List.mem_cons, not_or]
    exact ⟨fun he => h he.symm, ih⟩

theorem mem_of_mem_normalizeBreaks {c : Char} {t : Text} (h : c ∈ Token.normalizeBreaks t) :
    c ∈ t ∨ c = '\n' := by
  induction t using breaksInduction with
  | nil => cases h
  | pair t ih =>
    rw [normalizeBreaks_pair, List.mem_cons] at h
    rcases h with rfl | h
    · exact .inr rfl
    · exact (ih h).imp_left fun hm => List.mem_cons_of_mem _ (List.mem_cons_of_mem _ hm)
  | lone t ht ih =>
    rw [normalizeBreaks_lone ht, List.mem_cons] at h
    rcases h with rfl | h
    · exact .inr rfl
    · exact (ih h).imp_left (List.mem_cons_of_mem _)
  | other d t hd ih =>
    rw [normalizeBreaks_cons hd, List.mem_cons] at h
    rcases h with rfl | h
    · exact .inl List.mem_cons_self
    · exact (ih h).imp_left (List.mem_cons_of_mem _)

/-- A carriage return and a line feed count as one only where they stand together. -/
theorem normalizeBreaks_append_of_head {rest : Text} (h : rest.head? ≠ some '\n') (t : Text) :
    Token.normalizeBreaks (t ++ rest) = Token.normalizeBreaks t ++ Token.normalizeBreaks rest := by
  induction t using breaksInduction with
  | nil => rfl
  | pair t ih =>
    rw [List.cons_append, List.cons_append, normalizeBreaks_pair, normalizeBreaks_pair, ih,
      List.cons_append]
  | lone t ht ih =>
    have hhead : (t ++ rest).head? ≠ some '\n' := by
      cases t with
      | nil => exact h
      | cons c t => exact ht
    rw [List.cons_append, normalizeBreaks_lone hhead, normalizeBreaks_lone ht, ih,
      List.cons_append]
  | other c t hc ih =>
    rw [List.cons_append, normalizeBreaks_cons hc, normalizeBreaks_cons hc, ih, List.cons_append]

/-- Writing line breaks alike commutes with escaping, which leaves them as they are. -/
theorem normalizeBreaks_flatMap {esc : Char → Text} (h : CodesAll esc) (t : Text) :
    Token.normalizeBreaks (t.flatMap esc) = (Token.normalizeBreaks t).flatMap esc := by
  have hr : esc '\r' = ['\r'] := (h '\r').eq_singleton (by decide)
  have hn : esc '\n' = ['\n'] := (h '\n').eq_singleton (by decide)
  induction t using breaksInduction with
  | nil => rfl
  | pair t ih =>
    rw [normalizeBreaks_pair, List.flatMap_cons, List.flatMap_cons, List.flatMap_cons, hr, hn,
      List.singleton_append, List.singleton_append, normalizeBreaks_pair, ih]
    rfl
  | lone t ht ih =>
    -- what follows a lone carriage return does not become a line feed
    have hhead : (t.flatMap esc).head? ≠ some '\n' := by
      cases t with
      | nil => exact ht
      | cons d t =>
        intro he
        have hm : '\n' ∈ esc d := by
          obtain ⟨e, form, hd⟩ := List.exists_cons_of_length_pos (h d).length_pos
          rw [List.flatMap_cons, hd, List.cons_append, List.head?_cons] at he
          rw [hd, Option.some.inj he]
          exact List.mem_cons_self
        exact ht (by rw [((h d).eq_of_mem (by decide) hm).2]; rfl)
    rw [normalizeBreaks_lone ht, List.flatMap_cons, List.flatMap_cons, hr, hn,
      List.singleton_append, normalizeBreaks_lone hhead, ih]
    rfl
  | other c t hc ih =>
    have hnot : '\r' ∉ esc c := fun hm => hc ((h c).eq_of_mem (by decide) hm).2
    rw [normalizeBreaks_cons hc, List.flatMap_cons, List.flatMap_cons, normalizeBreaks_append hnot,
      ih]

/-! ### Texts as they come back -/

/-- What content keeps of a text: characters whose code is zero are passed over. -/
def withoutNuls (t : Text) : Text := t.filter fun c => decide (c.toNat ≠ 0)

theorem withoutNuls_cons {c : Char} (h : c.toNat ≠ 0) (t : Text) :
    withoutNuls (c :: t) = c :: withoutNuls t :=
  List.filter_cons_of_pos (by simpa using h)

theorem withoutNuls_cons_nul {c : Char} (h : c.toNat = 0) (t : Text) :
    withoutNuls (c :: t) = withoutNuls t :=
  List.filter_cons_of_neg (by simpa using h)

/-- The text that an attribute value gives when the text it is to show is `t`. -/
def asAttribute (t : Text) : Text := (Token.normalizeBreaks t).map withoutNul

/-- The text that content gives when the text it is to show is `t`. -/
def asContent (t : Text) : Text := withoutNuls (Token.normalizeBreaks t)

/-- Whether a text comes back from markup unchanged. -/
def Faithful (t : Text) : Prop := '\r' ∉ t ∧ '\x00' ∉ t

instance (t : Text) : Decidable (Faithful t) :=
  inferInstanceAs (Decidable ('\r' ∉ t ∧ '\x00' ∉ t))

theorem faithful_asAttribute (t : Text) : Faithful (asAttribute t) := by
  constructor
  · intro h
    obtain ⟨c, hc, he⟩ := List.mem_map.1 h
    rw [withoutNul] at he
    split at he
    · revert he; decide
    · exact not_mem_normalizeBreaks t (he ▸ hc)
  · intro h
    obtain ⟨c, -, he⟩ := List.mem_map.1 h
    rw [withoutNul] at he
    split at he
    · revert he; decide
    · next hc => exact hc (by rw [he]; rfl)

theorem faithful_asContent (t : Text) : Faithful (asContent t) := by
  constructor
  · intro h
    exact not_mem_normalizeBreaks t (List.mem_filter.1 h).1
  · intro h
    have hc := (List.mem_filter.1 h).2
    revert hc
    decide

theorem asAttribute_eq_self_iff {t : Text} : asAttribute t = t ↔ Faithful t := by
  constructor
  · intro h
    exact h ▸ faithful_asAttribute t
  · rintro ⟨hr, hn⟩
    rw [asAttribute, normalizeBreaks_eq_self hr]
    have hc : ∀ c ∈ t, withoutNul c = c := by
      intro c hc
      refine if_neg fun h0 => hn ?_
      rwa [show '\x00' = c from (Char.toNat_inj.1 h0).symm]
    rw [List.map_congr_left hc, List.map_id']

theorem asContent_eq_self_iff {t : Text} : asContent t = t ↔ Faithful t := by
  constructor
  · intro h
    exact h ▸ faithful_asContent t
  · rintro ⟨hr, hn⟩
    rw [asContent, normalizeBreaks_eq_self hr, withoutNuls, List.filter_eq_self]
    intro c hc
    refine decide_eq_true fun h0 => hn ?_
    rwa [show '\x00' = c from (Char.toNat_inj.1 h0).symm]

end Shortcodes.Html
