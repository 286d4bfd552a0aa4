import Mathlib.Data.List.Forall2
import Shortcodes.Proofs.Outcome
import Shortcodes.Proofs.Tag.Gaps
import Shortcodes.Registry

/-!
# Expansion is one substitution

Every tag has one outcome, which the tag, the shortcode of its name and the context decide
(`renders_iff`). Expanding a text puts the outcomes of its tags between its gaps, or fails as the
first tag from the left that fails (`expandWith_weave`). What is put there is not looked at again.
-/

namespace Shortcodes.Registry

/-- The outcome of a tag. Its name is looked up, its words are read, they are bound, and what is
bound is converted; the first step that fails decides. -/
inductive Renders (r : Registry) (context : Context) (t : Tag) : Except Failure Text → Prop
  | unknown (hname : r.get? t.name = none) :
      Renders r context t (.error (.unknownShortcode t.name t.source))
  | badWords {s : Shortcode} {fault : WordFault} (hname : r.get? t.name = some s)
      (hwords : t.given = .error fault) : Renders r context t (.error (.badWords fault))
  | unbound {s : Shortcode} {given : Given} {failure : Failure} (hname : r.get? t.name = some s)
      (hwords : t.given = .ok given) (hbind : s.bind given = .error failure) :
      Renders r context t (.error failure)
  | converted {s : Shortcode} {given : Given} {args : Arguments} (hname : r.get? t.name = some s)
      (hwords : t.given = .ok given) (hbind : s.bind given = .ok args) :
      Renders r context t (s.convert args context)

variable {r : Registry} {context : Context}

theorem renders_renderTag (r : Registry) (context : Context) (t : Tag) :
    r.Renders context t (r.renderTag context t) := by
  rw [renderTag]
  cases hname : r.get? t.name with
  | none => exact .unknown hname
  | some s =>
    cases hwords : t.given with
    | error fault => exact .badWords hname hwords
    | ok given =>
      cases hbind : s.bind given with
      | error failure =>
        simp only [Except.mapError, Bind.bind, Except.bind, hbind]
        exact .unbound hname hwords hbind
      | ok args =>
        simp only [Except.mapError, Bind.bind, Except.bind, hbind]
        exact .converted hname hwords hbind

/-- A tag has exactly one outcome. -/
theorem renders_iff {t : Tag} {outcome : Except Failure Text} :
    r.Renders context t outcome ↔ r.renderTag context t = outcome := by
  constructor
  · rintro (hname | ⟨hname, hwords⟩ | ⟨hname, hwords, hbind⟩ | ⟨hname, hwords, hbind⟩)
    · simp only [renderTag, hname]
    · simp only [renderTag, hname, hwords, Except.mapError, Bind.bind, Except.bind]
    · simp only [renderTag, hname, hwords, Except.mapError, Bind.bind, Except.bind, hbind]
    · simp only [renderTag, hname, hwords, Except.mapError, Bind.bind, Except.bind, hbind]
  · rintro rfl
    exact renders_renderTag r context t

/-! ### Pieces -/

/-- The outcomes of tags one after the other: all of their texts, or the first failure. -/
def renderTags (r : Registry) (context : Context) : List Tag.Placed → Except Failure (List Text)
  | [] => .ok []
  | p :: ps => (r.renderTag context p.tag).bind fun part =>
      (r.renderTags context ps).map (part :: ·)

/-- Pieces render to the outcomes of the tags among them, woven with the gaps. -/
theorem renderAll_eq (r : Registry) (context : Context) (ps : List Piece) (offset : Nat) :
    r.renderAll context ps =
      (r.renderTags context (Tag.placedFrom offset ps)).map (Tag.weave (Tag.gapsOf ps)) := by
  induction ps generalizing offset with
  | nil => rfl
  | cons p ps ih =>
    cases p with
    | plain c =>
      have hweave := Tag.weave_lengthenFirst c (Tag.gapsOf_ne_nil ps)
      rw [renderAll, renderPiece, ih (offset + c.utf8Size), Tag.placedFrom]
      cases r.renderTags context (Tag.placedFrom (offset + c.utf8Size) ps) with
      | error e => rfl
      | ok parts => exact congrArg Except.ok (hweave parts).symm
    | tag t =>
      rw [renderAll, renderPiece, ih (offset + Text.byteLength t.source), Tag.placedFrom,
        renderTags]
      cases r.renderTag context t with
      | error e => rfl
      | ok part =>
        cases r.renderTags context (Tag.placedFrom (offset + Text.byteLength t.source) ps) <;> rfl

theorem renderTags_eq_ok_iff {ps : List Tag.Placed} {parts : List Text} :
    r.renderTags context ps = .ok parts ↔
      List.Forall₂ (fun p part => r.Renders context p.tag (.ok part)) ps parts := by
  constructor
  · intro h
    induction ps generalizing parts with
    | nil =>
      cases h
      exact .nil
    | cons p ps ih =>
      rw [renderTags] at h
      obtain ⟨part, hp, h⟩ := Except.bind_eq_ok_iff.1 h
      obtain ⟨rest, hps, rfl⟩ := Except.map_eq_ok_iff.1 h
      exact .cons (renders_iff.2 hp) (ih hps)
  · intro h
    induction h with
    | nil => rfl
    | cons hp _ ih =>
      rw [renderTags, renders_iff.1 hp, ih]
      rfl

theorem renderTags_eq_error_iff {ps : List Tag.Placed} {e : Failure} :
    r.renderTags context ps = .error e ↔
      ∃ before p after parts, ps = before ++ p :: after ∧
        List.Forall₂ (fun p part => r.Renders context p.tag (.ok part)) before parts ∧
        r.Renders context p.tag (.error e) := by
  constructor
  · intro h
    induction ps with
    | nil => cases h
    | cons p ps ih =>
      rw [renderTags] at h
      rcases Except.bind_eq_error_iff.1 h with hp | ⟨part, hp, h⟩
      · exact ⟨[], p, ps, [], rfl, .nil, renders_iff.2 hp⟩
      · obtain ⟨before, q, after, parts, rfl, hbefore, hq⟩ := ih (Except.map_eq_error_iff.1 h)
        exact ⟨p :: before, q, after, part :: parts, rfl, .cons (renders_iff.2 hp) hbefore, hq⟩
  · rintro ⟨before, p, after, parts, rfl, hbefore, hp⟩
    induction hbefore with
    | nil =>
      rw [List.nil_append, renderTags, renders_iff.1 hp]
      rfl
    | cons hq _ ih =>
      rw [List.cons_append, renderTags, renders_iff.1 hq, Except.bind, ih]
      rfl

/-! ### Texts -/

theorem renderAll_withContext (r : Registry) (stored context : Context) (ps : List Piece) :
    (r.withContext stored).renderAll context ps = r.renderAll context ps := by
  induction ps with
  | nil => rfl
  | cons p ps ih =>
    rw [renderAll, renderAll, ih]
    cases p <;> rfl

/-- The context that is given counts, whatever the registry's own is. -/
theorem expandWith_withContext (r : Registry) (stored context : Context) (t : Text) :
    (r.withContext stored).expandWith context t = r.expandWith context t := by
  rw [expandWith, expandWith, renderAll_withContext]
  rfl

theorem expandWith_eq_renderAll (h : r.shortcodes ≠ []) (t : Text) :
    r.expandWith context t = r.renderAll context (Tag.sweep t) := by
  have hempty : r.isEmpty = false := by
    rw [isEmpty, List.isEmpty_eq_false_iff]
    exact h
  rw [expandWith, hempty, if_neg Bool.false_ne_true]

/-- A registry with shortcodes expands a text to its gaps with the outcomes of its tags between
them, if all of them are texts, and otherwise fails as the first tag from the left that fails. The
context that is given counts, whatever the registry's own is, and that one counts where none is
given. -/
theorem expandWith_weave (r : Registry) (h : r.shortcodes ≠ []) (context : Context) (t : Text) :
    Tag.Spaced 0 t (Tag.scan t) (Tag.gaps t) ∧
      (∀ out, r.expandWith context t = .ok out ↔ ∃ parts,
        List.Forall₂ (fun p part => r.Renders context p.tag (.ok part)) (Tag.scan t) parts ∧
          out = Tag.weave (Tag.gaps t) parts) ∧
      (∀ e, r.expandWith context t = .error e ↔ ∃ before p after parts,
        Tag.scan t = before ++ p :: after ∧
          List.Forall₂ (fun p part => r.Renders context p.tag (.ok part)) before parts ∧
          r.Renders context p.tag (.error e)) ∧
      (∀ stored, (r.withContext stored).expandWith context t = r.expandWith context t) ∧
      (r.withContext context).expand t = r.expandWith context t := by
  have hempty : r.isEmpty = false := by
    rw [isEmpty, List.isEmpty_eq_false_iff]
    exact h
  -- both directions of both equivalences are read off the outcomes of the tags
  have heq : r.expandWith context t =
      (r.renderTags context (Tag.scan t)).map (Tag.weave (Tag.gaps t)) := by
    rw [expandWith, hempty, if_neg Bool.false_ne_true]
    exact renderAll_eq r context (Tag.sweep t) 0
  have hstored : ∀ stored,
      (r.withContext stored).expandWith context t = r.expandWith context t :=
    fun stored => expandWith_withContext r stored context t
  refine ⟨Tag.spaced_scan t, fun out => ?_, fun e => ?_, hstored, hstored context⟩
  · simp only [← renderTags_eq_ok_iff]
    rw [heq, Except.map_eq_ok_iff]
    simp only [eq_comm]
  · rw [← renderTags_eq_error_iff, heq, Except.map_eq_error_iff]

/-- What a tag renders to is not looked at again, though it looks like a tag. A tag of that name
in the text itself is unknown, whatever follows it. -/
theorem expandWith_weave_quoting :
    let quoting : Shortcode :=
      { signature := ⟨⟨['a'], [], .positional⟩, by decide⟩
        convert := fun _ _ => .ok "[%b%]".toList }
    let r : Registry := { shortcodes := [quoting] }
    r.expandWith .empty "x[%a%]y[% a %]".toList = .ok "x[%b%]y[%b%]".toList ∧
      r.expandWith .empty "[%a%][%b%][%a '%]".toList =
        .error (.unknownShortcode ['b'] "[%b%]".toList) := by
  intro quoting r
  have hne : r.shortcodes ≠ [] := List.cons_ne_nil _ _
  have hquoting : ∀ source, r.Renders .empty ⟨['a'], [], source⟩ (.ok "[%b%]".toList) := by
    intro source
    have hname : r.get? ['a'] = some quoting := rfl
    have hwords : Tag.given ⟨['a'], [], source⟩ = .ok .empty := rfl
    have hbind : quoting.bind .empty = .ok {} := rfl
    exact .converted hname hwords hbind
  constructor
  · obtain ⟨-, hok, -⟩ := expandWith_weave r hne .empty "x[%a%]y[% a %]".toList
    refine (hok _).2 ⟨["[%b%]".toList, "[%b%]".toList], ?_, by decide⟩
    have hscan : Tag.scan "x[%a%]y[% a %]".toList =
        [⟨⟨['a'], [], "[%a%]".toList⟩, 1⟩, ⟨⟨['a'], [], "[% a %]".toList⟩, 7⟩] := by decide
    rw [hscan]
    exact .cons (hquoting _) (.cons (hquoting _) .nil)
  · obtain ⟨-, -, herror, -⟩ := expandWith_weave r hne .empty "[%a%][%b%][%a '%]".toList
    refine (herror _).2 ⟨[⟨⟨['a'], [], "[%a%]".toList⟩, 0⟩], ⟨⟨['b'], [], "[%b%]".toList⟩, 5⟩,
      [⟨⟨['a'], ['\''], "[%a '%]".toList⟩, 10⟩], ["[%b%]".toList], by decide,
      .cons (hquoting _) .nil, .unknown rfl⟩

end Shortcodes.Registry
