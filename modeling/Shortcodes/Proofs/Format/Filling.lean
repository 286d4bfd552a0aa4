import Shortcodes.Format.Filling

/-!
# Filling part by part

Parts are filled one after the other and independently of each other (`fillAll_append`): literal
characters as they are, a placeholder with the value that its key stands for, written so that HTML
reads it back as text.
-/

namespace Shortcodes

namespace FormatPart

variable {args : Arguments} {context : Context}

theorem fillAll_append (front back : List FormatPart) :
    fillAll args context (front ++ back) =
      (fillAll args context front).bind fun t =>
        (fillAll args context back).bind fun u => .ok (t ++ u) := by
  induction front with
  | nil =>
    rw [List.nil_append]
    cases fillAll args context back <;> rfl
  | cons part front ih =>
    rw [List.cons_append, fillAll, fillAll, ih]
    cases part.fill args context with
    | error fault => rfl
    | ok t =>
      cases fillAll args context front with
      | error fault => rfl
      | ok u =>
        cases fillAll args context back with
        | error fault => rfl
        | ok v => exact congrArg Except.ok (List.append_assoc t u v).symm

theorem fillAll_literals (t : Text) : fillAll args context (t.map .literal) = .ok t := by
  induction t with
  | nil => rfl
  | cons c t ih =>
    rw [List.map_cons, fillAll, ih]
    rfl

theorem fillAll_placeholder {key value : Text}
    (h : args.answer? context (Text.trim key) = some value) :
    fillAll args context [.placeholder key] = .ok (escapeMarkup value) := by
  rw [fillAll, fill, h]
  exact congrArg Except.ok (List.append_nil _)

end FormatPart

end Shortcodes
