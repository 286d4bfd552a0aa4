import Mathlib.Data.List.Forall2
import Shortcodes.Proofs.Format.Reading
import Shortcodes.Proofs.Outcome
import Shortcodes.Proofs.Text.Numeral
import Shortcodes.Format.Filling

/-!
# What format texts render to

A key stands for at most one value (`answers_iff`): the argument at the index that it reads as,
else the argument of its name, else the context's entry. With what the keys stand for, the parts of
a format text decide what it renders to (`render_format`): literal characters show themselves and
placeholders show their values with references in them, up to the first placeholder without a value,
which is reported, or else up to the brace without a partner.
-/

namespace Shortcodes

/-! ### Keys -/

/-- The values that keys stand for. -/
inductive Answers (args : Arguments) (context : Context) (key : Text) : Text → Prop
  | atIndex {i : Nat} {name value : Text} (index : Text.IsIndex key i)
      (place : args.values[i]? = some (name, value)) : Answers args context key value
  | ofName {value : Text} (unplaced : ∀ i, Text.IsIndex key i → args.values.length ≤ i)
      (named : args.get? key = some value) : Answers args context key value
  | ofString {value : Text} (unplaced : ∀ i, Text.IsIndex key i → args.values.length ≤ i)
      (unnamed : args.get? key = none) (entry : context.get? key = some (.string value)) :
      Answers args context key value
  | ofOther {json : Json} (unplaced : ∀ i, Text.IsIndex key i → args.values.length ≤ i)
      (unnamed : args.get? key = none) (entry : context.get? key = some json)
      (other : ∀ s, json ≠ .string s) : Answers args context key json.text

variable {args : Arguments} {context : Context} {key : Text}

theorem Arguments.at?_eq_some_iff {i : Nat} {value : Text} :
    args.at? i = some value ↔ ∃ name, args.values[i]? = some (name, value) := by
  rw [at?, Option.map_eq_some_iff]
  constructor
  · rintro ⟨⟨name, value⟩, place, rfl⟩
    exact ⟨name, place⟩
  · rintro ⟨name, place⟩
    exact ⟨(name, value), place, rfl⟩

/-- No argument is at the index of a key exactly if the key reads as none, or as one behind all
arguments. -/
theorem Arguments.bind_at?_eq_none_iff :
    (Text.toIndex? key).bind args.at? = none ↔
      ∀ i, Text.IsIndex key i → args.values.length ≤ i := by
  simp only [Option.bind_eq_none_iff, Text.toIndex?_eq_some_iff, at?, Option.map_eq_none_iff,
    List.getElem?_eq_none_iff]

theorem Json.plain_of_ne_string {json : Json} (h : ∀ s, json ≠ .string s) :
    json.plain = json.text := by
  cases json with
  | string s => exact absurd rfl (h s)
  | _ => rfl

/-- A key stands for at most one value. -/
theorem answers_iff {value : Text} :
    Answers args context key value ↔ args.answer? context key = some value := by
  constructor
  · rintro (⟨index, place⟩ | ⟨unplaced, named⟩ | ⟨unplaced, unnamed, entry⟩ |
      ⟨unplaced, unnamed, entry, other⟩)
    · rw [Arguments.answer?, Text.toIndex?_eq_some_iff.2 index, Option.bind_some,
        Arguments.at?_eq_some_iff.2 ⟨_, place⟩]
    · rw [Arguments.answer?, Arguments.bind_at?_eq_none_iff.2 unplaced, named]
    · rw [Arguments.answer?, Arguments.bind_at?_eq_none_iff.2 unplaced, unnamed, entry]
      rfl
    · rw [Arguments.answer?, Arguments.bind_at?_eq_none_iff.2 unplaced, unnamed, entry]
      exact congrArg some (Json.plain_of_ne_string other)
  · intro h
    rw [Arguments.answer?] at h
    -- the index is asked before the name, and the name before the context
    cases hindex : (Text.toIndex? key).bind args.at? with
    | some v =>
      rw [hindex] at h
      obtain ⟨i, hi, hplace⟩ := Option.bind_eq_some_iff.1 (hindex.trans h)
      obtain ⟨name, place⟩ := Arguments.at?_eq_some_iff.1 hplace
      exact .atIndex (Text.toIndex?_eq_some_iff.1 hi) place
    | none =>
      have unplaced := Arguments.bind_at?_eq_none_iff.1 hindex
      rw [hindex] at h
      cases hname : args.get? key with
      | some v =>
        rw [hname] at h
        exact .ofName unplaced (hname.trans h)
      | none =>
        rw [hname] at h
        obtain ⟨json, entry, rfl⟩ := Option.map_eq_some_iff.1 h
        by_cases hstring : ∃ s, json = .string s
        · obtain ⟨s, rfl⟩ := hstring
          exact .ofString unplaced hname entry
        · rw [not_exists] at hstring
          rw [Json.plain_of_ne_string hstring]
          exact .ofOther unplaced hname entry hstring

theorem Arguments.answer?_eq_none_iff :
    args.answer? context key = none ↔ ∀ value, ¬ Answers args context key value := by
  simp only [answers_iff, Option.eq_none_iff_forall_ne_some, ne_eq]

namespace FormatPart

/-! ### Parts -/

/-- What a part shows: a character itself, and a placeholder the value of its key, without blanks
around it, as markup shows it. -/
inductive Shows (args : Arguments) (context : Context) : FormatPart → Text → Prop
  | literal (c : Char) : Shows args context (.literal c) [c]
  | placeholder {key value : Text} (answers : Answers args context (Text.trim key) value) :
      Shows args context (.placeholder key) (escapeMarkup value)

theorem fill_eq_ok_iff {part : FormatPart} {text : Text} :
    part.fill args context = .ok text ↔ Shows args context part text := by
  cases part with
  | literal c =>
    rw [fill, Except.ok.injEq]
    constructor
    · rintro rfl
      exact .literal c
    · rintro ⟨⟩
      rfl
  | placeholder key =>
    rw [fill]
    cases hanswer : args.answer? context (Text.trim key) with
    | some value =>
      rw [Except.ok.injEq]
      constructor
      · rintro rfl
        exact .placeholder (answers_iff.2 hanswer)
      · rintro (_ | answers)
        rw [Option.some.inj (hanswer.symm.trans (answers_iff.1 answers))]
    | none =>
      refine ⟨nofun, ?_⟩
      rintro (_ | answers)
      exact absurd answers (Arguments.answer?_eq_none_iff.1 hanswer _)

theorem fill_eq_error_iff {part : FormatPart} {fault : TemplateFault} :
    part.fill args context = .error fault ↔ ∃ key, part = .placeholder key ∧
      (∀ value, ¬ Answers args context (Text.trim key) value) ∧
        fault = .unknownPlaceholder (Text.trim key) := by
  cases part with
  | literal c => exact ⟨nofun, nofun⟩
  | placeholder key =>
    simp only [placeholder.injEq, exists_eq_left', ← Arguments.answer?_eq_none_iff, fill]
    cases args.answer? context (Text.trim key) with
    | some value => simp
    | none => simp [eq_comm]

/-- Filling succeeds exactly if every part shows something. -/
theorem fillAll_eq_ok_iff {parts : List FormatPart} {t : Text} :
    fillAll args context parts = .ok t ↔
      ∃ texts, List.Forall₂ (Shows args context) parts texts ∧ t = texts.flatten := by
  induction parts generalizing t with
  | nil =>
    rw [fillAll, Except.ok.injEq]
    constructor
    · rintro rfl
      exact ⟨[], .nil, rfl⟩
    · rintro ⟨texts, ⟨⟩, rfl⟩
      rfl
  | cons part parts ih =>
    rw [fillAll, Except.bind_eq_ok_iff]
    constructor
    · rintro ⟨text, hpart, h⟩
      obtain ⟨rest, hrest, h⟩ := Except.bind_eq_ok_iff.1 h
      obtain ⟨texts, hparts, rfl⟩ := ih.1 hrest
      cases h
      exact ⟨text :: texts, .cons (fill_eq_ok_iff.1 hpart) hparts, rfl⟩
    · rintro ⟨_, ⟨⟩ | ⟨hpart, hparts⟩, rfl⟩
      refine ⟨_, fill_eq_ok_iff.2 hpart, ?_⟩
      rw [ih.2 ⟨_, hparts, rfl⟩]
      rfl

/-- Filling fails as the first part that shows nothing. -/
theorem fillAll_eq_error_iff {parts : List FormatPart} {fault : TemplateFault} :
    fillAll args context parts = .error fault ↔
      ∃ front key back texts, parts = front ++ .placeholder key :: back ∧
        List.Forall₂ (Shows args context) front texts ∧
        (∀ value, ¬ Answers args context (Text.trim key) value) ∧
        fault = .unknownPlaceholder (Text.trim key) := by
  induction parts with
  | nil => simp [fillAll]
  | cons part parts ih =>
    rw [fillAll]
    constructor
    · intro h
      -- the first part has the fault, or it is filled and one behind it has the fault
      rcases Except.bind_eq_error_iff.1 h with hpart | ⟨text, hpart, h⟩
      · obtain ⟨key, rfl, unanswered, rfl⟩ := fill_eq_error_iff.1 hpart
        exact ⟨[], key, parts, [], rfl, .nil, unanswered, rfl⟩
      · rcases Except.bind_eq_error_iff.1 h with h | ⟨rest, hrest, h⟩
        · obtain ⟨front, key, back, texts, rfl, hfront, unanswered, rfl⟩ := ih.1 h
          exact ⟨part :: front, key, back, text :: texts, rfl,
            .cons (fill_eq_ok_iff.1 hpart) hfront, unanswered, rfl⟩
        · cases h
    · rintro ⟨_, key, back, _, hsplit, ⟨⟩ | ⟨hpart, hfront⟩, unanswered, rfl⟩
      · cases hsplit
        rw [fill_eq_error_iff.2 ⟨key, rfl, unanswered, rfl⟩]
        rfl
      · cases hsplit
        rw [fill_eq_ok_iff.2 hpart, ih.2 ⟨_, key, back, _, rfl, hfront, unanswered, rfl⟩]
        rfl

/-! ### Format texts -/

/-- The outcomes of a format text that is divided into parts and what follows them. -/
inductive Rendering (args : Arguments) (context : Context) (parts : List FormatPart)
    (tail : Text) : Except TemplateFault Text → Prop
  | unknown {front back : List FormatPart} {key : Text} {texts : List Text}
      (split : parts = front ++ .placeholder key :: back)
      (shown : List.Forall₂ (Shows args context) front texts)
      (unanswered : ∀ value, ¬ Answers args context (Text.trim key) value) :
      Rendering args context parts tail (.error (.unknownPlaceholder (Text.trim key)))
  | unbalanced {texts : List Text} (shown : List.Forall₂ (Shows args context) parts texts)
      (follows : tail ≠ []) :
      Rendering args context parts tail
        (.error (.unbalancedBrace (Text.byteLength (writtenAll parts))))
  | filled {texts : List Text} (shown : List.Forall₂ (Shows args context) parts texts)
      (ends : tail = []) : Rendering args context parts tail (.ok texts.flatten)

theorem Divides.render_eq {t tail : Text} {parts : List FormatPart} (h : Divides t parts tail) :
    (Template.format t).render args context = (fillAll args context parts).bind fun text =>
      if tail = [] then .ok text
      else .error (.unbalancedBrace (Text.byteLength (writtenAll parts))) := by
  rw [Template.render, h.read_eq, FormatReading.fill]
  by_cases htail : tail = []
  · simp only [if_pos htail]
    rfl
  · simp only [if_neg htail]
    rfl

theorem Divides.rendering_iff {t tail : Text} {parts : List FormatPart} (h : Divides t parts tail)
    {outcome : Except TemplateFault Text} :
    (Template.format t).render args context = outcome ↔
      Rendering args context parts tail outcome := by
  rw [h.render_eq]
  constructor
  · rintro rfl
    cases hfill : fillAll args context parts with
    | error fault =>
      obtain ⟨front, key, back, texts, split, shown, unanswered, rfl⟩ :=
        fillAll_eq_error_iff.1 hfill
      exact .unknown split shown unanswered
    | ok text =>
      obtain ⟨texts, shown, rfl⟩ := fillAll_eq_ok_iff.1 hfill
      rw [Except.bind]
      split
      · next ends => exact .filled shown ends
      · next follows => exact .unbalanced shown follows
  · rintro (⟨split, shown, unanswered⟩ | ⟨shown, follows⟩ | ⟨shown, ends⟩)
    · rw [fillAll_eq_error_iff.2 ⟨_, _, _, _, split, shown, unanswered, rfl⟩]
      rfl
    · rw [fillAll_eq_ok_iff.2 ⟨_, shown, rfl⟩, Except.bind, if_neg follows]
    · rw [fillAll_eq_ok_iff.2 ⟨_, shown, rfl⟩, Except.bind, if_pos ends]

/-- Written parts render as they are filled. -/
theorem render_writtenAll {parts : List FormatPart} (h : ∀ part ∈ parts, part.Fits) :
    (Template.format (writtenAll parts)).render args context = fillAll args context parts := by
  have hdivides : Divides (writtenAll parts) parts [] := ⟨h, .inl rfl, (List.append_nil _).symm⟩
  rw [hdivides.render_eq]
  cases fillAll args context parts <;> rfl

/-- A format text that renders does so part by part. -/
theorem exists_shows {t out : Text} (h : (Template.format t).render args context = .ok out) :
    ∃ parts texts, Divides t parts [] ∧ List.Forall₂ (Shows args context) parts texts ∧
      out = texts.flatten := by
  obtain ⟨parts, tail, hparts⟩ := exists_divides t
  cases hparts.rendering_iff.1 h with
  | filled shown ends =>
    subst ends
    exact ⟨parts, _, hparts, shown, rfl⟩

end FormatPart

end Shortcodes
