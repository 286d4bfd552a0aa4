import Shortcodes.Proofs.Tag.Given
import Shortcodes.Proofs.Tag.Scan
import Shortcodes.Signature.Canonical

/-!
# Reading canonical tags

What the absence of faults says about a signature (`nameFits_iff`, `Signature.nodup_names`,
`Signature.default_eq_none`), and the tag that a canonical tag is read as when its words are
forms: the one with the signature's name and these words, whatever follows it
(`exists_read?_canonical`).
-/

namespace Shortcodes

/-! ### Signatures without fault -/

namespace Declaration

theorem nameFits_iff {name : Text} : nameFits name = true ↔
    ∃ c cs, name = c :: cs ∧ c ≠ '%' ∧ ¬ Word.closer <:+: name ∧
      ∀ d ∈ name, isBlank d = false := by
  have hcloser : Text.has ['%', ']'] name = false ↔ ¬ Word.closer <:+: name :=
    Text.has_eq_false_iff
  cases name with
  | nil => simp [nameFits]
  | cons c cs =>
    simp only [nameFits, Bool.and_eq_true, Bool.not_eq_true', hcloser, List.any_eq_false]
    simp [and_assoc]

/-- Inputs without fault have different names, and a required one has no default. -/
theorem inputFault?_eq_none_iff {seen : List Text} {inputs : List Input} :
    inputFault? seen inputs = none ↔
      (inputs.map (·.name)).Nodup ∧ (∀ input ∈ inputs, input.name ∉ seen) ∧
        ∀ input ∈ inputs, input.required = true → input.default = none := by
  induction inputs generalizing seen with
  | nil => simp [inputFault?]
  | cons input inputs ih =>
    rw [inputFault?]
    split
    · next h =>
      simp only [reduceCtorEq, false_iff, not_and]
      rintro - hs
      exact absurd (by simpa using h) (hs input (by simp))
    · next h =>
      have hseen : input.name ∉ seen := by simpa using h
      split
      · next h =>
        simp only [reduceCtorEq, false_iff, not_and]
        rintro - - hd
        rw [Bool.and_eq_true, Option.isSome_iff_ne_none] at h
        exact h.2 (hd input (by simp) h.1)
      · next h =>
        have hd : input.required = true → input.default = none := by
          simpa [Option.isSome_iff_ne_none] using h
        rw [ih]
        simp only [List.map_cons, List.nodup_cons, List.mem_map, List.mem_cons, not_or,
          forall_eq_or_imp]
        -- the name of this input counts as seen by those behind it
        constructor
        · rintro ⟨hn, hs, hr⟩
          refine ⟨⟨?_, hn⟩, ⟨hseen, fun i hi => (hs i hi).2⟩, hd, hr⟩
          rintro ⟨i, hi, he⟩
          exact (hs i hi).1 he
        · rintro ⟨⟨hne, hn⟩, ⟨-, hs⟩, -, hr⟩
          exact ⟨hn, fun i hi => ⟨fun he => hne ⟨i, hi, he⟩, hs i hi⟩, hr⟩

end Declaration

namespace Signature

variable (s : Signature)

theorem nameFits : Declaration.nameFits s.name = true := by
  have h := s.faultless
  rw [Declaration.fault?] at h
  by_contra hn
  rw [Bool.not_eq_true] at hn
  simp [hn] at h

theorem inputFault?_eq_none : Declaration.inputFault? [] s.inputs = none := by
  have h := s.faultless
  rw [Declaration.fault?, s.nameFits] at h
  cases hf : Declaration.inputFault? [] s.inputs with
  | none => rfl
  | some fault => simp [hf] at h

theorem nodup_names : (s.inputs.map (·.name)).Nodup :=
  (Declaration.inputFault?_eq_none_iff.1 s.inputFault?_eq_none).1

theorem default_eq_none {input : Input} (h : input ∈ s.inputs) (hr : input.required = true) :
    input.default = none :=
  (Declaration.inputFault?_eq_none_iff.1 s.inputFault?_eq_none).2.2 input h hr

theorem fallback_eq_nil {input : Input} (h : input ∈ s.inputs) (hr : input.required = true) :
    input.fallback = [] := by
  rw [Input.fallback, s.default_eq_none h hr]
  rfl

end Signature

/-! ### Reading -/

namespace Tag

/-- A tag whose name fits, with what stands between the name and the closing mark. -/
theorem read?_of_nameFits {name middle : Text} (hname : Declaration.nameFits name = true)
    (hblank : ∃ d rest, middle = d :: rest ∧ isBlank d = true)
    (hmiddle : ¬ Word.closer <:+: middle ++ ['%']) (tail : Text) :
    read? (opener ++ name ++ middle ++ Word.closer ++ tail) =
      some (⟨name, Text.trim middle, opener ++ name ++ middle ++ Word.closer⟩, tail) := by
  obtain ⟨c, cs, rfl, hp, hcloser, hb⟩ := Declaration.nameFits_iff.1 hname
  obtain ⟨d, rest, rfl, hd⟩ := hblank
  have hcs : ∀ e ∈ cs, (!isBlank e) = true := fun e he => by simp [hb e (by simp [he])]
  have hd' : d ≠ ']' := by
    rintro rfl
    revert hd
    decide
  have hbody : ¬ Word.closer <:+: (cs ++ d :: rest) ++ ['%'] := by
    rw [List.append_assoc, Word.closer, Text.infix_pair_append_iff]
    rintro (hi | hi | ⟨-, hi⟩)
    · exact hcloser (hi.trans (List.suffix_cons c cs).isInfix)
    · exact hmiddle hi
    · simp at hi
      exact hd' hi
  have hread := read?_append (List.forall_mem_nil _) (hb c (by simp)) hp hbody tail
  rw [spelled, List.takeWhile_append_of_pos hcs, List.dropWhile_append_of_pos hcs] at hread
  simpa [hd] using hread

/-- A whole tag with a name that fits holds no closing mark before its end. -/
theorem not_closer_of_read? {name middle : Text} {tag : Tag}
    (hname : Declaration.nameFits name = true)
    (h : read? (opener ++ name ++ middle ++ Word.closer) = some (tag, [])) :
    ¬ Word.closer <:+: middle ++ ['%'] := by
  obtain ⟨c, cs, rfl, -, -, hb⟩ := Declaration.nameFits_iff.1 hname
  obtain ⟨blanks, d, body, he, -, hblanks, -, -, hbody⟩ := read?_eq_some_iff.1 h
  have hinside : c :: (cs ++ middle) = blanks ++ d :: body := by
    have he' : opener ++ (c :: (cs ++ middle) ++ Word.closer) =
        opener ++ (blanks ++ d :: body ++ Word.closer) := by
      simpa only [List.append_assoc, List.cons_append, List.append_nil] using he
    exact List.append_cancel_right (List.append_cancel_left he')
  cases blanks with
  | cons e blanks =>
    obtain rfl : c = e := (List.cons.inj hinside).1
    have hc := hblanks c List.mem_cons_self
    rw [hb c List.mem_cons_self] at hc
    cases hc
  | nil =>
    obtain ⟨rfl, rfl⟩ := List.cons.inj hinside
    rw [List.append_assoc] at hbody
    exact fun hi => hbody (hi.trans (List.suffix_append cs _).isInfix)

end Tag

namespace Signature

/-- What stands between the name and the closing mark of a tag with these words. -/
def between : List Text → Text
  | [] => [' ']
  | forms => ' ' :: (Text.join [' '] forms ++ [' '])

theorem canonical_eq (s : Signature) (args : Arguments) :
    s.canonical args = Tag.opener ++ s.name ++ between (s.canonicalWords args) ++ Word.closer := by
  rw [canonical]
  cases s.canonicalWords args with
  | nil => simp [between, Tag.opener, Word.closer]
  | cons form forms => simp [between, Tag.opener, Word.closer]

theorem between_eq_cons (forms : List Text) : ∃ d rest, between forms = d :: rest ∧
    isBlank d = true := by
  cases forms with
  | nil => exact ⟨' ', [], rfl, by decide⟩
  | cons form forms => exact ⟨' ', _, rfl, by decide⟩

theorem trim_between {forms : List Text} (h : ∀ form ∈ forms, form ≠ [] ∧ Text.Tight form) :
    Text.trim (between forms) = Text.join [' '] forms := by
  have hspace : ∀ d ∈ [' '], isBlank d = true := Text.forall_mem_of_all (by decide)
  cases forms with
  | nil => rfl
  | cons form forms => exact Text.trim_blanks_append hspace hspace (Word.tight_join h)

theorem not_closer_between {forms : List Text} (h : ∀ form ∈ forms, ¬ Word.closer <:+: form) :
    ¬ Word.closer <:+: between forms ++ ['%'] := by
  cases forms with
  | nil => decide
  | cons form forms =>
    have hjoin := Word.not_closer_join h
    rw [between, ← List.singleton_append, Word.closer, Text.infix_pair_append_iff,
      Text.infix_pair_append_iff, Text.infix_pair_append_iff]
    · rintro ((hi | (hi | hi | ⟨-, hi⟩) | ⟨hi, -⟩) | hi | ⟨-, hi⟩)
      · revert hi; decide
      · exact hjoin hi
      · revert hi; decide
      · simp at hi
      · simp at hi
      · revert hi; decide
      · simp at hi
    · simp

/-- A canonical tag is read as the tag of the signature's name with the words of its forms. -/
theorem exists_read?_canonical {s : Signature} {args : Arguments} {words : List Word}
    (h : List.Forall₂ Word.Form (s.canonicalWords args) words) (tail : Text) :
    ∃ tag, Tag.read? (s.canonical args ++ tail) = some (tag, tail) ∧
      tag.source = s.canonical args ∧ tag.name = s.name ∧
      tag.given = .ok (Given.ofWords words) := by
  have hforms : ∀ form ∈ s.canonicalWords args,
      form ≠ [] ∧ Text.Tight form ∧ ¬ Word.closer <:+: form := by
    intro form hform
    obtain ⟨word, hf⟩ := Word.exists_form_of_mem h hform
    exact ⟨hf.ne_nil, hf.tight, hf.notCloser⟩
  have htrim := trim_between fun form hf => ⟨(hforms form hf).1, (hforms form hf).2.1⟩
  have hcloser := not_closer_between fun form hf => (hforms form hf).2.2
  have hread := Tag.read?_of_nameFits s.nameFits (between_eq_cons _) hcloser tail
  rw [← canonical_eq] at hread
  refine ⟨_, hread, rfl, rfl, ?_⟩
  rw [Tag.given, Given.ofText, htrim, Word.readAll_join h]
  rfl

end Signature

end Shortcodes
