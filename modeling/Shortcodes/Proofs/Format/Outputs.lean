import Shortcodes.Proofs.Format.Escaping
import Shortcodes.Proofs.Format.Rendering

/-!
# Values cannot add markup

The delimiters of markup in an output are the ones that the format text has itself, whatever the
arguments and the context are. Each ampersand is a literal one too, or it begins a reference that
stands inside of a value (`AmpersandBehind`), and the references of a value can be told apart from
it: replacing them in one pass gives the value that the placeholder's key stands for (`Embeds`).
-/

namespace Shortcodes

namespace FormatPart

variable {args : Arguments} {context : Context} {parts : List FormatPart} {texts : List Text}

/-! ### Outputs -/

/-- A part in an output: a literal character, or a text that is unescaped to the value of the
placeholder's key. -/
inductive Embeds (args : Arguments) (context : Context) : FormatPart → Text → Prop
  | literal (c : Char) : Embeds args context (.literal c) [c]
  | value {key text : Text} (answers : Answers args context (Text.trim key) (unescape text)) :
      Embeds args context (.placeholder key) text

/-- Where an ampersand behind `front` comes from, if `texts` stand for `parts`: it is a literal one,
or it begins a reference inside of what stands for a placeholder. -/
inductive AmpersandBehind (parts : List FormatPart) (texts : List Text) (front : Text) : Prop
  | literal {i : Nat} (part : parts[i]? = some (.literal '&'))
      (place : front = (texts.take i).flatten)
  | reference {i : Nat} {key inside rest : Text} {r : Text × Char}
      (part : parts[i]? = some (.placeholder key)) (reference : r ∈ escapes)
      (text : texts[i]? = some (inside ++ r.1 ++ rest))
      (place : front = (texts.take i).flatten ++ inside)

theorem AmpersandBehind.cons {front : Text} (h : AmpersandBehind parts texts front)
    (part : FormatPart) (text : Text) :
    AmpersandBehind (part :: parts) (text :: texts) (text ++ front) := by
  cases h with
  | @literal i hpart hplace =>
    refine .literal (i := i + 1) hpart ?_
    rw [List.take_succ_cons, List.flatten_cons, hplace]
  | @reference i key inside rest r hpart reference htext hplace =>
    refine .reference (i := i + 1) hpart reference htext ?_
    rw [List.take_succ_cons, List.flatten_cons, hplace, List.append_assoc]

theorem ampersandBehind (h : List.Forall₂ (Shows args context) parts texts) {front back : Text}
    (hsplit : texts.flatten = front ++ '&' :: back) : AmpersandBehind parts texts front := by
  induction h generalizing front with
  | nil => exact absurd hsplit.symm (List.append_ne_nil_of_right_ne_nil _ (List.cons_ne_nil _ _))
  | @cons part text parts texts hpart _ ih =>
    rw [List.flatten_cons] at hsplit
    -- the ampersand is behind the text of the first part, or in it
    rcases List.append_eq_append_iff.1 hsplit with ⟨front, rfl, hrest⟩ | ⟨inside, htext, hback⟩
    · exact (ih hrest).cons part text
    · cases inside with
      | nil =>
        rw [List.append_nil] at htext
        subst htext
        have hrest : texts.flatten = [] ++ '&' :: back := hback.symm
        have hcons := (ih hrest).cons part text
        rwa [List.append_nil] at hcons
      | cons c inside =>
        obtain ⟨rfl, -⟩ := List.cons.inj hback
        cases hpart with
        | literal c =>
          cases front with
          | nil =>
            cases htext
            exact .literal (i := 0) rfl rfl
          | cons d front => exact absurd (List.cons.inj htext).2.symm (by simp)
        | @placeholder key value answers =>
          obtain ⟨r, hr, rest, hrest⟩ := isReferring_escapeMarkup _ front inside htext
          have hinside : escapeMarkup value = front ++ r.1 ++ rest := by
            rw [htext, List.append_assoc, hrest]
          exact .reference (i := 0) rfl hr (congrArg some hinside) rfl

/-- The delimiters among literal characters. -/
def delimiters : List FormatPart → Text
  | [] => []
  | .literal c :: parts => if delimitsMarkup c then c :: delimiters parts else delimiters parts
  | .placeholder _ :: parts => delimiters parts

theorem filter_flatten (h : List.Forall₂ (Shows args context) parts texts) :
    texts.flatten.filter delimitsMarkup = delimiters parts := by
  induction h with
  | nil => rfl
  | cons hpart _ ih =>
    rw [List.flatten_cons, List.filter_append, ih]
    cases hpart with
    | literal c =>
      rw [delimiters, List.filter_singleton]
      cases delimitsMarkup c <;> rfl
    | placeholder answers => rw [filter_escapeMarkup, List.nil_append, delimiters]

theorem embeds_of_shows {part : FormatPart} {text : Text} (h : Shows args context part text) :
    Embeds args context part text := by
  cases h with
  | literal c => exact .literal c
  | placeholder answers =>
    refine .value ?_
    rwa [unescape_escapeMarkup]

/-- Whatever the arguments and the context are, the outputs of a format text have the same
delimiters. Each ampersand in an output is a literal one or begins a reference inside of what stands
for a placeholder, and there the references stand for the value of the placeholder's key. -/
theorem render_escapes (t : Text) :
    (∀ args args' context context' out out',
      (Template.format t).render args context = .ok out →
        (Template.format t).render args' context' = .ok out' →
          out.filter delimitsMarkup = out'.filter delimitsMarkup) ∧
      ∀ args context out, (Template.format t).render args context = .ok out →
        ∃ parts texts, Divides t parts [] ∧ List.Forall₂ (Embeds args context) parts texts ∧
          out = texts.flatten ∧
          ∀ front back, out = front ++ '&' :: back → AmpersandBehind parts texts front := by
  constructor
  · intro args args' context context' out out' h h'
    obtain ⟨parts, texts, hparts, shown, rfl⟩ := exists_shows h
    obtain ⟨parts', texts', hparts', shown', rfl⟩ := exists_shows h'
    -- the parts are those that reading finds, and what delimits markup is in the literal ones
    obtain rfl : parts = parts' := by
      have hread := hparts.read_eq.symm.trans hparts'.read_eq
      exact congrArg FormatReading.parts hread
    rw [filter_flatten shown, filter_flatten shown']
  · intro args context out h
    obtain ⟨parts, texts, hparts, shown, rfl⟩ := exists_shows h
    exact ⟨parts, texts, hparts, shown.imp fun _ _ => embeds_of_shows, rfl,
      fun front back hsplit => ampersandBehind shown hsplit⟩

/-- A value that would close a tag from an argument, and a harmless one from a context. -/
theorem render_escapes_closing :
    let t := "<b>&\x7bv\x7d</b>".toList
    let args : Arguments := ⟨[(['v'], "</b>&lt;".toList)], []⟩
    let context : Context := ⟨[(['v'], .string ['x'])]⟩
    let out := "<b>&&lt;/b&gt;&amp;lt;</b>".toList
    let out' := "<b>&x</b>".toList
    (Template.format t).render args .empty = .ok out ∧
      (Template.format t).render {} context = .ok out' ∧
      out.filter delimitsMarkup = out'.filter delimitsMarkup ∧
      ∃ parts texts, Divides t parts [] ∧ List.Forall₂ (Embeds args .empty) parts texts ∧
        out = texts.flatten ∧
        ∀ front back, out = front ++ '&' :: back → AmpersandBehind parts texts front := by
  intro t args context out out'
  have hout : (Template.format t).render args .empty = .ok out := by decide
  have hout' : (Template.format t).render {} context = .ok out' := by decide
  obtain ⟨hdelimiters, hparts⟩ := render_escapes t
  exact ⟨hout, hout', hdelimiters _ _ _ _ _ _ hout hout', hparts _ _ _ hout⟩

end FormatPart

end Shortcodes
