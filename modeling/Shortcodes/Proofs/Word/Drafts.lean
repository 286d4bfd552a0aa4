import Shortcodes.Proofs.Word.Layout
import Shortcodes.Proofs.Word.Weight

/-!
# Words put together atom by atom

Words can be read in one pass that keeps the word at hand as a draft: its text so far and the byte
offset of its first bare equals sign. Cutting the finished text at that offset gives the key and the
value of the word (`Draft.pair?_ofRow`), whatever characters they are made of, and the pass ends
with a draft for each word (`exists_drafts`).
-/

namespace Shortcodes

/-- What stands before and behind the character at a byte offset; none if no character begins
there. -/
def Text.around? : (offset : Nat) → Text → Option (Text × Text)
  | _, [] => none
  | 0, _ :: rest => some ([], rest)
  | offset + 1, c :: rest =>
    if c.utf8Size ≤ offset + 1 then
      (around? (offset + 1 - c.utf8Size) rest).map fun (front, back) => (c :: front, back)
    else none

theorem Text.around?_append (front : Text) (c : Char) (back : Text) :
    around? (byteLength front) (front ++ c :: back) = some (front, back) := by
  induction front with
  | nil => rfl
  | cons d front ih =>
    obtain ⟨n, hn⟩ := Nat.exists_eq_succ_of_ne_zero d.utf8Size_pos.ne'
    have hlength : byteLength (d :: front) = n + byteLength front + 1 := by
      rw [byteLength_cons, hn]
      omega
    have hle : d.utf8Size ≤ n + byteLength front + 1 := by omega
    have hrest : n + byteLength front + 1 - d.utf8Size = byteLength front := by omega
    rw [hlength, List.cons_append, around?, if_pos hle, hrest, ih]
    rfl

namespace Word

open Atom

/-- A word that is being put together. -/
structure Draft where
  /-- Its text so far. -/
  value : Text := []
  /-- The byte offset in that of the first bare equals sign. -/
  sign? : Option Nat := none

namespace Draft

/-- The draft with what one atom adds. -/
def add (d : Draft) : Atom → Draft
  | .gap | .opening => d
  | .guarded c => { d with value := d.value ++ [c] }
  | .bare c =>
    ⟨d.value ++ [c], if c = '=' then d.sign?.or (some (Text.byteLength d.value)) else d.sign?⟩

/-- The draft of a row of atoms. -/
def ofRow (row : List Atom) : Draft := row.foldl add {}

/-- The key and the value on the two sides of the sign, unless it stands in front of all. -/
def pair? (d : Draft) : Option (Text × Text) :=
  match d.sign? with
  | none | some 0 => none
  | some offset => Text.around? offset d.value

theorem value_foldl (d : Draft) (row : List Atom) :
    (row.foldl add d).value = d.value ++ row.filterMap letter? := by
  induction row generalizing d with
  | nil => rw [List.filterMap_nil, List.append_nil, List.foldl_nil]
  | cons a row ih =>
    rw [List.foldl_cons, ih]
    cases a with
    | gap | opening => rfl
    | bare c | guarded c => exact List.append_assoc d.value [c] _

theorem sign?_foldl_of_not_mem (d : Draft) {row : List Atom} (h : .bare '=' ∉ row) :
    (row.foldl add d).sign? = d.sign? := by
  induction row generalizing d with
  | nil => rfl
  | cons a row ih =>
    rw [List.mem_cons, not_or] at h
    rw [List.foldl_cons, ih _ h.2]
    cases a with
    | gap | opening | guarded c => rfl
    | bare c => exact if_neg fun hc => h.1 (by rw [hc])

/-- The first sign counts. -/
theorem sign?_foldl_of_some {d : Draft} {offset : Nat} (h : d.sign? = some offset)
    (row : List Atom) : (row.foldl add d).sign? = some offset := by
  induction row generalizing d with
  | nil => exact h
  | cons a row ih =>
    refine ih ?_
    cases a with
    | gap | opening | guarded c => exact h
    | bare c =>
      rw [add]
      split
      · rw [h]
        rfl
      · exact h

theorem value_ofRow (row : List Atom) : (ofRow row).value = (ofAtoms row).text := by
  rw [ofRow, value_foldl, text_ofAtoms]
  rfl

/-- The first bare equals sign of a row stands behind the letters before it. -/
theorem sign?_ofRow_append {before : List Atom} (h : .bare '=' ∉ before) (after : List Atom) :
    (ofRow (before ++ .bare '=' :: after)).sign? =
      some (Text.byteLength (before.filterMap letter?)) := by
  rw [ofRow, List.foldl_append, List.foldl_cons]
  refine sign?_foldl_of_some ?_ after
  rw [add, if_pos rfl, sign?_foldl_of_not_mem {} h, value_foldl]
  rfl

/-- Cutting a draft at its sign gives the key and the value of its word. -/
theorem pair?_ofRow (row : List Atom) : (ofRow row).pair? = (ofAtoms row).pair? := by
  by_cases hsign : .bare '=' ∈ row
  · obtain ⟨before, after, rfl, unsigned⟩ := List.eq_append_cons_of_mem hsign
    have hvalue : (ofRow (before ++ .bare '=' :: after)).value =
        before.filterMap letter? ++ '=' :: after.filterMap letter? := by
      rw [ofRow, value_foldl, List.filterMap_append]
      rfl
    rw [pair?, sign?_ofRow_append unsigned, hvalue]
    cases hkey : before.filterMap letter? with
    | nil =>
      rw [ofAtoms_append_of_nameless unsigned hkey]
      rfl
    | cons c key =>
      obtain ⟨n, hn⟩ := Nat.exists_eq_succ_of_ne_zero c.utf8Size_pos.ne'
      have hoffset : Text.byteLength (c :: key) = n + Text.byteLength key + 1 := by
        rw [Text.byteLength_cons, hn]
        omega
      have hcut := Text.around?_append (c :: key) '=' (after.filterMap letter?)
      rw [ofAtoms_append unsigned (by rw [hkey]; exact List.cons_ne_nil c key), hkey]
      rw [hoffset] at hcut ⊢
      exact hcut
  · rw [ofAtoms_of_not_mem hsign, pair?, ofRow, sign?_foldl_of_not_mem {} hsign]
    rfl

end Draft

/-! ### The pass -/

/-- Where a pass over atoms stands: the drafts that are finished and the one at hand. -/
structure Drafting where
  finished : List Draft := []
  atHand : Option Draft := none

namespace Drafting

/-- Passes over one atom. A gap finishes the draft at hand, and any other atom begins one if there
is none. -/
def step (s : Drafting) : Atom → Drafting
  | .gap => ⟨s.finished ++ s.atHand.toList, none⟩
  | a => { s with atHand := some ((s.atHand.getD {}).add a) }

/-- The drafts at the end of a pass. -/
def close (s : Drafting) : List Draft := s.finished ++ s.atHand.toList

theorem step_of_ne_gap (s : Drafting) {a : Atom} (h : a ≠ .gap) :
    s.step a = { s with atHand := some ((s.atHand.getD {}).add a) } := by
  cases a with
  | gap => exact absurd rfl h
  | _ => rfl

/-- A row without gaps is added to the draft at hand. -/
theorem foldl_step_row (s : Drafting) {row : List Atom} (h : .gap ∉ row) (hne : row ≠ []) :
    row.foldl step s = { s with atHand := some (row.foldl Draft.add (s.atHand.getD {})) } := by
  induction row generalizing s with
  | nil => exact absurd rfl hne
  | cons a row ih =>
    rw [List.mem_cons, not_or] at h
    rw [List.foldl_cons, List.foldl_cons, step_of_ne_gap s (Ne.symm h.1)]
    by_cases hrow : row = []
    · rw [hrow]
      rfl
    · rw [ih _ h.2 hrow]
      rfl

/-- A pass that begins between two words ends with a draft for each row between gaps. -/
theorem close_foldl (finished : List Draft) (atoms : List Atom) :
    (atoms.foldl step ⟨finished, none⟩).close = finished ++ (groups atoms).map Draft.ofRow := by
  induction hn : atoms.length using Nat.strong_induction_on generalizing finished atoms with
  | _ n ih =>
    subst hn
    by_cases hgap : .gap ∈ atoms
    · -- at the first gap the draft of what is before it is finished
      obtain ⟨before, after, rfl, whole⟩ := List.eq_append_cons_of_mem hgap
      have hlength : after.length < (before ++ .gap :: after).length := by
        rw [List.length_append, List.length_cons]
        omega
      rw [groups_append_gap, List.map_append, List.foldl_append, List.foldl_cons]
      by_cases hne : before = []
      · subst hne
        rw [List.foldl_nil, step, ih _ hlength _ _ rfl]
        simp [groups]
      · rw [foldl_step_row _ whole hne, step, ih _ hlength _ _ rfl, groups_row hne whole]
        simp [Draft.ofRow]
    · by_cases hne : atoms = []
      · subst hne
        simp [close, groups]
      · rw [foldl_step_row _ hgap hne, groups_row hne hgap]
        simp [close, Draft.ofRow]

end Drafting

/-- The drafts of a text, in one pass over its atoms. -/
def draftAll (t : Text) : Except WordFault (List Draft) :=
  (Atom.read .outside 0 t).map fun atoms => (atoms.foldl Drafting.step {}).close

/-- A text that is read to words has a draft for each of them, with the word's text, and the word's
key and value on the two sides of its sign. -/
theorem exists_drafts {t : Text} {words : List Word} (h : readAll t = .ok words) :
    ∃ drafts, draftAll t = .ok drafts ∧
      List.Forall₂ (fun d w => d.value = w.text ∧ d.pair? = w.pair?) drafts words := by
  obtain ⟨atoms, hatoms, rfl⟩ := Except.map_eq_ok_iff.1 h
  refine ⟨_, Except.map_eq_ok_iff.2 ⟨atoms, hatoms, Drafting.close_foldl [] atoms⟩, ?_⟩
  rw [List.nil_append, List.forall₂_map_left_iff, List.forall₂_map_right_iff, List.forall₂_same]
  exact fun row _ => ⟨Draft.value_ofRow row, Draft.pair?_ofRow row⟩

/-- The sign stands behind four bytes of text, and the apostrophes and the second sign are no part
of that. -/
example : (draftAll "'é'ß=\"=ü\" x".toList).map (·.map Draft.pair?) =
    .ok [some ("éß".toList, "=ü".toList), none] := by decide

end Word

end Shortcodes
