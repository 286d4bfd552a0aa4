import Shortcodes.Format.Filling

/-!
# Escaped values

An escaped value has none of the characters that delimit markup (`filter_escapeMarkup`). Each
ampersand in it begins one of the references that escaping writes (`isReferring_escapeMarkup`), and
replacing these in one pass from the left gives the value back (`unescape_escapeMarkup`).
-/

namespace Shortcodes

/-- The characters that delimit tags and attribute values. -/
def delimitsMarkup (c : Char) : Bool := c = '<' || c = '>' || c = '"' || c = '\''

/-- The references that escaping writes, each with the character that it stands for. -/
def escapes : List (Text × Char) :=
  [("&amp;".toList, '&'), ("&lt;".toList, '<'), ("&gt;".toList, '>'), ("&quot;".toList, '"'),
    ("&#39;".toList, '\'')]

/-- The text with its references replaced by what they stand for, in one pass from the left. -/
def unescape : Text → Text
  | '&' :: 'a' :: 'm' :: 'p' :: ';' :: rest => '&' :: unescape rest
  | '&' :: 'l' :: 't' :: ';' :: rest => '<' :: unescape rest
  | '&' :: 'g' :: 't' :: ';' :: rest => '>' :: unescape rest
  | '&' :: 'q' :: 'u' :: 'o' :: 't' :: ';' :: rest => '"' :: unescape rest
  | '&' :: '#' :: '3' :: '9' :: ';' :: rest => '\'' :: unescape rest
  | c :: rest => c :: unescape rest
  | [] => []

/-! ### Single characters -/

/-- Characters are escaped one by one. -/
theorem escapeMarkup_eq (t : Text) : escapeMarkup t = t.flatMap fun c => escapeMarkup [c] := by
  unfold escapeMarkup
  simp only [List.flatMap_singleton]

theorem escapeMarkup_cons (c : Char) (t : Text) :
    escapeMarkup (c :: t) = escapeMarkup [c] ++ escapeMarkup t := by
  rw [escapeMarkup_eq, List.flatMap_cons, ← escapeMarkup_eq]

/-- A character is written as its reference if it has one: an ampersand, or a delimiter. -/
theorem escapeMarkup_singleton (c : Char) :
    (escapeMarkup [c], c) ∈ escapes ∨
      (escapeMarkup [c] = [c] ∧ c ≠ '&' ∧ delimitsMarkup c = false) := by
  by_cases hamp : c = '&'
  · subst hamp
    exact .inl List.mem_cons_self
  · by_cases hdelimits : delimitsMarkup c = true
    · left
      simp only [delimitsMarkup, Bool.or_eq_true, decide_eq_true_eq] at hdelimits
      rcases hdelimits with ((rfl | rfl) | rfl) | rfl <;> decide
    · refine .inr ⟨?_, hamp, Bool.eq_false_iff.2 hdelimits⟩
      simp only [delimitsMarkup, Bool.or_eq_true, decide_eq_true_eq, not_or] at hdelimits
      obtain ⟨⟨⟨hless, hgreater⟩, hquote⟩, hapostrophe⟩ := hdelimits
      rw [escapeMarkup, List.flatMap_singleton, if_neg hamp, if_neg hless, if_neg hgreater,
        if_neg hquote, if_neg hapostrophe]

/-! ### Whole values -/

theorem filter_of_mem_escapes {r : Text × Char} (h : r ∈ escapes) :
    r.1.filter delimitsMarkup = [] := by
  revert r
  decide

theorem filter_escapeMarkup (t : Text) : (escapeMarkup t).filter delimitsMarkup = [] := by
  induction t with
  | nil => rfl
  | cons c t ih =>
    rw [escapeMarkup_cons, List.filter_append, ih, List.append_nil]
    rcases escapeMarkup_singleton c with h | ⟨h, -, hplain⟩
    · exact filter_of_mem_escapes h
    · have hkept : ¬ delimitsMarkup c = true := Bool.eq_false_iff.1 hplain
      rw [h, List.filter_cons_of_neg hkept, List.filter_nil]

theorem unescape_append_of_mem_escapes {r : Text × Char} (h : r ∈ escapes) (t : Text) :
    unescape (r.1 ++ t) = r.2 :: unescape t := by
  simp only [escapes, List.mem_cons, List.not_mem_nil, or_false] at h
  rcases h with rfl | rfl | rfl | rfl | rfl <;> rfl

theorem unescape_cons {c : Char} (h : c ≠ '&') (t : Text) :
    unescape (c :: t) = c :: unescape t := by
  rw [unescape]
  all_goals exact fun _ hc => absurd hc h

/-- Escaping loses nothing. -/
theorem unescape_escapeMarkup (t : Text) : unescape (escapeMarkup t) = t := by
  induction t with
  | nil => rfl
  | cons c t ih =>
    rw [escapeMarkup_cons]
    rcases escapeMarkup_singleton c with h | ⟨h, hamp, -⟩
    · rw [unescape_append_of_mem_escapes h, ih]
    · rw [h, List.singleton_append, unescape_cons hamp, ih]

/-! ### Ampersands -/

/-- Every ampersand begins a reference. -/
def IsReferring (t : Text) : Prop :=
  ∀ front back, t = front ++ '&' :: back → ∃ r ∈ escapes, r.1 <+: '&' :: back

theorem IsReferring.append {s t : Text} (hs : IsReferring s) (ht : IsReferring t) :
    IsReferring (s ++ t) := by
  intro front back h
  rcases List.append_eq_append_iff.1 h with ⟨inside, rfl, htail⟩ | ⟨inside, hsplit, hback⟩
  · exact ht inside back htail
  · cases inside with
    | nil => exact ht [] back hback.symm
    | cons c inside =>
      obtain ⟨rfl, rfl⟩ := List.cons.inj hback
      obtain ⟨r, hr, hstart⟩ := hs front inside hsplit
      exact ⟨r, hr, hstart.trans (List.prefix_append _ _)⟩

/-- A reference has no ampersand but its first character. -/
theorem isReferring_of_mem_escapes {r : Text × Char} (h : r ∈ escapes) : IsReferring r.1 := by
  have htail : '&' ∉ r.1.tail := by
    revert r
    decide
  intro front back hsplit
  cases front with
  | nil =>
    have hstart : r.1 = '&' :: back := hsplit
    exact ⟨r, h, hstart ▸ List.prefix_rfl⟩
  | cons c front =>
    rw [hsplit, List.cons_append, List.tail_cons] at htail
    exact absurd (List.mem_append_right front List.mem_cons_self) htail

theorem isReferring_escapeMarkup (t : Text) : IsReferring (escapeMarkup t) := by
  induction t with
  | nil =>
    intro front back h
    exact absurd h.symm (List.append_ne_nil_of_right_ne_nil _ (List.cons_ne_nil _ _))
  | cons c t ih =>
    rw [escapeMarkup_cons]
    refine IsReferring.append ?_ ih
    rcases escapeMarkup_singleton c with h | ⟨h, hamp, -⟩
    · exact isReferring_of_mem_escapes h
    · rw [h]
      intro front back hsplit
      have hmem : '&' ∈ [c] := hsplit ▸ List.mem_append_right front List.mem_cons_self
      exact absurd (List.mem_singleton.1 hmem).symm hamp

end Shortcodes
