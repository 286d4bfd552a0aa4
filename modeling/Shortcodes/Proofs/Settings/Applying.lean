import Shortcodes.Proofs.Context
import Shortcodes.Proofs.Registry.Expansion
import Shortcodes.Settings.Basic

/-!
# Settings fill the gaps of a context

Applying settings to a registry lays the registry's context over that of the settings. Of settings
that are applied in a row the first that have a name therefore count for it, and they count only
where the registry had no value of its own (`applyAll_fills`). Nothing else about the registry
changes.
-/

namespace Shortcodes

namespace Settings

variable {r : Registry} {applied : List Settings}

/-! ### Sorted contexts -/

theorem sorted_of_contextOf {v : Json} {c : Context} (h : contextOf v = .ok c) : c.Sorted := by
  cases v with
  | object members =>
    cases h
    exact Context.sorted_ofList _
  | null =>
    cases h
    exact Context.sorted_empty
  | _ => cases h

/-- The context of settings that were built is sorted. -/
theorem sorted_of_ofLayers {layers : List Layer} {s : Settings} (h : ofLayers layers = .ok s) :
    s.context.Sorted := by
  obtain ⟨_, -, h⟩ := Except.bind_eq_ok_iff.1 h
  obtain ⟨_, -, h⟩ := Except.bind_eq_ok_iff.1 h
  obtain ⟨context, hcontext, h⟩ := Except.bind_eq_ok_iff.1 h
  have hsorted : context.Sorted := by
    unfold orDefault at hcontext
    split at hcontext
    · cases hcontext
      exact Context.sorted_empty
    · exact sorted_of_contextOf hcontext
  split at h
  · obtain ⟨_, -, h⟩ := Except.bind_eq_ok_iff.1 h
    split at h
    · obtain ⟨_, -, h⟩ := Except.bind_eq_ok_iff.1 h
      cases h
      exact hsorted
    · cases h
  · cases h

/-! ### Settings in a row -/

/-- The registry with settings applied to it, one after the other. -/
def applyAll (applied : List Settings) (r : Registry) : Registry :=
  applied.foldl (fun r s => s.apply r) r

/-- Only the context of the registry changes. -/
theorem applyAll_eq_withContext (applied : List Settings) (r : Registry) :
    applyAll applied r = r.withContext (applyAll applied r).context := by
  induction applied generalizing r with
  | nil => rfl
  | cons s applied ih =>
    rw [applyAll, List.foldl_cons]
    exact ih (s.apply r)

theorem sorted_apply {s : Settings} (h : s.context.Sorted) (r : Registry) :
    (s.apply r).context.Sorted :=
  h.merge r.context

theorem sorted_applyAll (hr : r.context.Sorted) (hs : ∀ s ∈ applied, s.context.Sorted) :
    (applyAll applied r).context.Sorted := by
  induction applied generalizing r with
  | nil => exact hr
  | cons s applied ih =>
    obtain ⟨hfirst, hrest⟩ := List.forall_mem_cons.1 hs
    exact ih (sorted_apply hfirst r) hrest

theorem get?_apply (hr : r.context.Sorted) (s : Settings) (name : Text) :
    (s.apply r).context.get? name = (r.context.get? name).or (s.context.get? name) :=
  hr.get?_merge s.context name

/-- The first value that there is for a name counts. -/
theorem get?_applyAll (hr : r.context.Sorted) (hs : ∀ s ∈ applied, s.context.Sorted)
    (name : Text) : (applyAll applied r).context.get? name =
      (r.context.get? name).or (applied.findSome? fun s => s.context.get? name) := by
  induction applied generalizing r with
  | nil =>
    rw [List.findSome?_nil, Option.or_none]
    rfl
  | cons s applied ih =>
    obtain ⟨hfirst, hrest⟩ := List.forall_mem_cons.1 hs
    rw [applyAll, List.foldl_cons]
    have hcons := ih (sorted_apply hfirst r) hrest
    rw [get?_apply hr, Option.or_assoc] at hcons
    rw [List.findSome?_cons]
    refine hcons.trans (congrArg _ ?_)
    cases s.context.get? name <;> rfl

/-- Settings have nothing to add where all that they have is there. -/
theorem apply_eq_self {s : Settings} (hr : r.context.Sorted) (hs : s.context.Sorted)
    (h : ∀ name, s.context.get? name ≠ none → r.context.get? name ≠ none) : s.apply r = r := by
  have hcontext : (s.apply r).context = r.context := by
    refine (sorted_apply hs r).eq_of_get? hr fun name => ?_
    rw [get?_apply hr]
    cases hown : r.context.get? name with
    | some value => rfl
    | none =>
      rw [Option.none_or]
      by_contra hne
      exact h name hne hown
  exact congrArg r.withContext hcontext

/-- Settings that are applied in a row fill the gaps of a registry's context. A name keeps the value
that the registry has for it; otherwise the first of the settings that have the name give it theirs;
and there are no other names. Applying any of these settings again changes nothing. The shortcodes,
reversal and expansion with a given context are as before, and expansion without one uses the
context that came about. -/
theorem applyAll_fills (hr : r.context.Sorted) (hs : ∀ s ∈ applied, s.context.Sorted) :
    (applyAll applied r).context.Sorted ∧
      (∀ name value, (applyAll applied r).context.get? name = some value ↔
        r.context.get? name = some value ∨ r.context.get? name = none ∧
          ∃ before s after, applied = before ++ s :: after ∧
            s.context.get? name = some value ∧ ∀ b ∈ before, b.context.get? name = none) ∧
      (∀ name, name ∈ (applyAll applied r).context.entries.map (·.1) ↔
        name ∈ r.context.entries.map (·.1) ∨
          ∃ s ∈ applied, name ∈ s.context.entries.map (·.1)) ∧
      (∀ s ∈ applied, s.apply (applyAll applied r) = applyAll applied r) ∧
      (applyAll applied r).shortcodes = r.shortcodes ∧
      (∀ t, (applyAll applied r).reverse t = r.reverse t) ∧
      (∀ context t, (applyAll applied r).expandWith context t = r.expandWith context t) ∧
      ∀ t, (applyAll applied r).expand t = r.expandWith (applyAll applied r).context t := by
  have hsorted := sorted_applyAll hr hs
  have hget := get?_applyAll hr hs
  have hcontext := applyAll_eq_withContext applied r
  have hexpand : ∀ context t,
      (applyAll applied r).expandWith context t = r.expandWith context t := by
    intro context t
    rw [hcontext]
    exact Registry.expandWith_withContext r _ context t
  -- a name stands among the entries exactly if its look-up gives something
  have hnone : ∀ name, (applyAll applied r).context.get? name = none ↔
      r.context.get? name = none ∧ ∀ s ∈ applied, s.context.get? name = none := by
    intro name
    rw [hget, Option.or_eq_none_iff, List.findSome?_eq_none_iff]
  refine ⟨hsorted, fun name value => ?_, fun name => ?_, fun s hmem => ?_, ?_, fun t => ?_, hexpand,
    fun t => hexpand _ t⟩
  · rw [hget, Option.or_eq_some_iff, List.findSome?_eq_some_iff]
  · have hmem := not_congr (hnone name)
    simp only [Context.get?, Members.get?_eq_none_iff, not_not, not_and_or, not_forall,
      exists_prop] at hmem
    exact hmem
  · refine apply_eq_self hsorted (hs s hmem) fun name hname hgone => ?_
    exact hname (((hnone name).1 hgone).2 s hmem)
  · rw [hcontext]
    rfl
  · rw [hcontext]
    rfl

/-- The registry's own value stays, the first settings that have a name give it its value, and later
ones add what is still missing. -/
theorem applyAll_fills_overlapping :
    let r : Registry := { context := .ofList [(['l'], .string ['0'])] }
    let a : Settings := { context := .ofList [(['s'], .string ['1']), (['l'], .null)] }
    let b : Settings := { context := .ofList [(['w'], .null), (['s'], .bool true)] }
    r.context.Sorted ∧ (∀ s ∈ [a, b], s.context.Sorted) ∧
      (applyAll [a, b] r).context.get? ['l'] = some (.string ['0']) ∧
      (applyAll [a, b] r).context.get? ['s'] = some (.string ['1']) ∧
      (applyAll [a, b] r).context.get? ['w'] = some .null ∧
      a.apply (applyAll [a, b] r) = applyAll [a, b] r ∧
      ∀ t, (applyAll [a, b] r).reverse t = r.reverse t := by
  intro r a b
  have hr : r.context.Sorted := Context.sorted_ofList _
  have hs : ∀ s ∈ [a, b], s.context.Sorted :=
    List.forall_mem_cons.2 ⟨Context.sorted_ofList _,
      List.forall_mem_singleton.2 (Context.sorted_ofList _)⟩
  obtain ⟨-, hget, -, hagain, -, hreverse, -⟩ := applyAll_fills hr hs
  refine ⟨hr, hs, (hget _ _).2 (.inl rfl), (hget _ _).2 (.inr ⟨rfl, [], a, [b], rfl, rfl, ?_⟩),
    (hget _ _).2 (.inr ⟨rfl, [a], b, [], rfl, rfl, ?_⟩), hagain a List.mem_cons_self, hreverse⟩
  · exact List.forall_mem_nil _
  · exact List.forall_mem_singleton.2 rfl

end Settings

end Shortcodes
