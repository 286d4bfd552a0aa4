import Shortcodes.Proofs.Format.Filling
import Shortcodes.Proofs.Format.Rendering
import Shortcodes.Proofs.Signature.Filling
import Shortcodes.Proofs.Text

/-!
# Placeholders of declared inputs

Arguments that are filled have a value for each declared input, so that no key that is the name of
one is ever looked up in the context (`convert_congr`). A placeholder of such a name shows that
input's value, unless the name can be read as the index of another input: the index counts first
(`rendersTo_input`).
-/

namespace Shortcodes

variable {args : Arguments} {context context' : Context} {s : Signature}

/-! ### Contexts -/

/-- The context is looked up only for a key that no argument answers to. -/
theorem Arguments.answer?_congr {key : Text}
    (h : args.get? key = none → context.get? key = context'.get? key) :
    args.answer? context key = args.answer? context' key := by
  rw [answer?, answer?]
  cases (Text.toIndex? key).bind args.at? with
  | some value => rfl
  | none =>
    cases hname : args.get? key with
    | some value => rfl
    | none => rw [h hname]

theorem FormatPart.fillAll_congr
    (h : ∀ key, args.get? key = none → context.get? key = context'.get? key)
    (parts : List FormatPart) : fillAll args context parts = fillAll args context' parts := by
  induction parts with
  | nil => rfl
  | cons part parts ih =>
    have hpart : part.fill args context = part.fill args context' := by
      cases part with
      | literal c => rfl
      | placeholder key => rw [fill, fill, Arguments.answer?_congr (h _)]
    rw [fillAll, fillAll, hpart, ih]

theorem Template.render_congr (t : Text)
    (h : ∀ key, args.get? key = none → context.get? key = context'.get? key) :
    (format t).render args context = (format t).render args context' := by
  rw [render, render, FormatReading.fill, FormatReading.fill, FormatPart.fillAll_congr h]

/-- A key without a value in filled arguments is not declared. -/
theorem Signature.Complete.ne_of_get?_eq_none (h : s.Complete args) {key : Text}
    (hkey : args.get? key = none) : ∀ input ∈ s.inputs, input.name ≠ key := by
  rintro input hi rfl
  rw [h.get?_eq hi] at hkey
  cases hkey

/-- What a context has for the names of declared inputs does not count, whether a tag gave these
inputs or not. -/
theorem HtmlShortcode.convert_congr (s : HtmlShortcode) {t : Text}
    (htemplate : s.template = .format t) (args : Arguments) {context context' : Context}
    (h : ∀ name, (∀ input ∈ s.signature.inputs, input.name ≠ name) →
      context.get? name = context'.get? name) :
    s.convert args context = s.convert args context' := by
  rw [convert_eq, convert_eq]
  -- filling does not read the context, and what it gives answers to every declared name
  cases hfill : s.signature.fill args with
  | error failure => rfl
  | ok filled =>
    have hcomplete := Signature.complete_of_fill hfill
    have hrender : s.template.render filled context = s.template.render filled context' := by
      rw [htemplate]
      exact Template.render_congr t fun key hkey => h key (hcomplete.ne_of_get?_eq_none hkey)
    show s.renderFilled filled context = s.renderFilled filled context'
    rw [renderFilled, renderFilled, hrender]

/-- An input that was not given is empty, though the context has a value of its name. -/
theorem HtmlShortcode.convert_congr_omitted :
    let inputs : List Input := [{ name := ['a'] }, { name := ['b'], default := some ['d'] }]
    let format := "<b title=\"\x7ba\x7d\">\x7bsite\x7d</b>".toList
    let s : HtmlShortcode :=
      ⟨⟨⟨['v'], inputs, .positional⟩, by decide⟩, .format format, ['m'], [none, none]⟩
    let context : Context := ⟨[(['a'], .string ['x']), ("site".toList, .string ['y'])]⟩
    let context' : Context := ⟨[("site".toList, .string ['y'])]⟩
    context.get? ['a'] = some (.string ['x']) ∧ context'.get? ['a'] = none ∧
      s.convert {} context = s.convert {} context' := by
  intro inputs format s context context'
  refine ⟨rfl, rfl, s.convert_congr rfl {} fun name h => ?_⟩
  have hname : ['a'] ≠ name := h { name := ['a'] } List.mem_cons_self
  rw [Context.get?, Members.get?, if_neg hname]
  rfl

/-! ### Names -/

namespace Signature

/-- Filled arguments have a value for each input at its place. -/
theorem Complete.getElem?_values (h : s.Complete args) {i : Nat} {input : Input}
    (place : s.inputs[i]? = some input) :
    args.values[i]? = some (input.name, args.getOrEmpty input.name) := by
  rw [h.values_eq, List.getElem?_map, place, Option.map_some]

theorem Complete.length_values (h : s.Complete args) : args.values.length = s.inputs.length := by
  rw [h.values_eq, List.length_map]

end Signature

namespace FormatPart

/-- Wherever a placeholder stands among parts that render, it renders to the text. -/
def RendersTo (args : Arguments) (context : Context) (key text : Text) : Prop :=
  ∀ front back before after, (∀ part ∈ front ++ back, part.Fits) →
    (Template.format (writtenAll front)).render args context = .ok before →
      (Template.format (writtenAll back)).render args context = .ok after →
        (Template.format (writtenAll front ++ written (.placeholder key) ++ writtenAll back)).render
          args context = .ok (before ++ text ++ after)

theorem rendersTo_of_shows {key text : Text} (hkey : (placeholder key).Fits)
    (h : Shows args context (.placeholder key) text) : RendersTo args context key text := by
  intro front back before after hfits hbefore hafter
  rw [List.forall_mem_append] at hfits
  rw [render_writtenAll hfits.1] at hbefore
  rw [render_writtenAll hfits.2] at hafter
  have hmiddle : fillAll args context [.placeholder key] = .ok text := by
    rw [fillAll_eq_ok_iff]
    exact ⟨[text], .cons h .nil, by simp⟩
  have hwritten : writtenAll front ++ written (.placeholder key) ++ writtenAll back =
      writtenAll (front ++ [.placeholder key] ++ back) := by
    rw [writtenAll_append, writtenAll_append, writtenAll_cons (.placeholder key)]
    simp [writtenAll]
  rw [hwritten, render_writtenAll, fillAll_append, fillAll_append, hbefore, hmiddle, hafter]
  · rfl
  · simpa [or_imp, forall_and, hkey] using hfits

/-- A placeholder of a declared input's name shows the value of that input, unless the name can be
read as the index of another one; then it shows the value of the input at that index. -/
theorem rendersTo_input {i : Nat} {input : Input} (place : s.inputs[i]? = some input)
    (hopener : opener ∉ input.name) (hcloser : closer ∉ input.name) (htight : input.name.Tight)
    {given filled : Arguments} (hfill : s.fill given = .ok filled) (context : Context) :
    ((∀ j, Text.IsIndex input.name j → j = i ∨ s.inputs.length ≤ j) →
        ∃ value, filled.values[i]? = some (input.name, value) ∧
          RendersTo filled context input.name (escapeMarkup value)) ∧
      ∀ j other, Text.IsIndex input.name j → s.inputs[j]? = some other →
        ∃ value, filled.values[j]? = some (other.name, value) ∧
          RendersTo filled context input.name (escapeMarkup value) := by
  have hcomplete := Signature.complete_of_fill hfill
  have hfits : (placeholder input.name).Fits :=
    ⟨hcloser, fun hhead => hopener (List.mem_of_mem_head? hhead)⟩
  have hrenders : ∀ value, Answers filled context input.name value →
      RendersTo filled context input.name (escapeMarkup value) := by
    intro value answers
    refine rendersTo_of_shows hfits (.placeholder ?_)
    rwa [htight.trim_eq]
  constructor
  · intro hindex
    refine ⟨_, hcomplete.getElem?_values place, hrenders _ ?_⟩
    -- the name may be the input's own index; else no argument is at its index, and the name counts
    by_cases hown : Text.IsIndex input.name i
    · exact .atIndex hown (hcomplete.getElem?_values place)
    · refine .ofName (fun j hj => ?_) (hcomplete.get?_eq (List.mem_of_getElem? place))
      rw [hcomplete.length_values]
      rcases hindex j hj with rfl | hj
      · contradiction
      · exact hj
  · intro j other index hother
    exact ⟨_, hcomplete.getElem?_values hother,
      hrenders _ (.atIndex index (hcomplete.getElem?_values hother))⟩

/-- The name `+1` is read as the index of the second input, and `2` as that of none. -/
theorem rendersTo_input_numbered :
    let s : Signature :=
      ⟨⟨['v'], [{ name := ['+', '1'] }, { name := ['2'] }], .positional⟩, by decide⟩
    let filled : Arguments := ⟨[(['+', '1'], ['a']), (['2'], ['<'])], []⟩
    s.fill filled = .ok filled ∧
      RendersTo filled .empty ['+', '1'] "&lt;".toList ∧
      RendersTo filled .empty ['2'] "&lt;".toList := by
  intro s filled
  have hfill : s.fill filled = .ok filled := by decide
  have hplus : Text.IsIndex ['+', '1'] 1 := Text.toIndex?_eq_some_iff.1 (by decide)
  have htwo : Text.IsIndex ['2'] 2 := Text.toIndex?_eq_some_iff.1 (by decide)
  have htight : ∀ name : Text, name.all (fun c => decide (isBlank c = false)) = true → name.Tight :=
    fun name h => Text.tight_of_forall (Text.forall_mem_of_all h)
  refine ⟨hfill, ?_, ?_⟩
  · obtain ⟨-, hother⟩ := rendersTo_input (s := s) (i := 0) rfl (by decide) (by decide)
      (htight _ (by decide)) hfill .empty
    obtain ⟨value, hvalue, h⟩ := hother 1 { name := ['2'] } hplus rfl
    cases hvalue
    exact h
  · obtain ⟨hown, -⟩ := rendersTo_input (s := s) (i := 1) rfl (by decide) (by decide)
      (htight _ (by decide)) hfill .empty
    obtain ⟨value, hvalue, h⟩ := hown fun j hj => .inr (htwo.unique hj).le
    cases hvalue
    exact h

/-- Of two inputs with the names `1` and `0`, a placeholder of the first one's name shows the second
one's value. -/
theorem not_forall_rendersTo_input :
    ¬ ∀ (s : Signature) (i : Nat) (input : Input) (given filled : Arguments) (context : Context)
        (value : Text), s.inputs[i]? = some input → opener ∉ input.name → closer ∉ input.name →
          input.name.Tight → s.fill given = .ok filled →
            filled.values[i]? = some (input.name, value) →
              RendersTo filled context input.name (escapeMarkup value) := by
  intro h
  let s : Signature := ⟨⟨['v'], [{ name := ['1'] }, { name := ['0'] }], .positional⟩, by decide⟩
  let filled : Arguments := ⟨[(['1'], ['a']), (['0'], ['b'])], []⟩
  have htight : Text.Tight ['1'] := Text.tight_of_forall (Text.forall_mem_of_all (by decide))
  have hfill : s.fill filled = .ok filled := by decide
  have hshown := h s 0 { name := ['1'] } filled filled .empty ['a'] rfl (by decide) (by decide)
    htight hfill rfl
  have hplaceholder := hshown [] [] [] [] (by simp) rfl rfl
  exact absurd hplaceholder (by decide)

end FormatPart

end Shortcodes
