import Mathlib.Data.Char
import Mathlib.Data.List.Lex
import Mathlib.Data.List.Sort
import Shortcodes.Context

/-!
# Contexts are tables

The entries of a context are sorted by name (`Context.Sorted`), and what builds contexts keeps them
so. A sorted context is what its look-ups are (`Sorted.eq_of_get?`). Merging puts the entries of one
context over those of another (`Context.get?_merge`).
-/

namespace Shortcodes

/-- The order of texts is that of the lists of their characters. -/
theorem Text.precedes_iff {s t : Text} : precedes s t = true ↔ s < t := by
  induction s generalizing t with
  | nil => cases t <;> simp [precedes]
  | cons a s ih =>
    cases t with
    | nil => simp [precedes]
    | cons b t =>
      have hchar : a.toNat < b.toNat ↔ a < b := by
        rw [Char.lt_def, UInt32.lt_iff_toNat_lt]
        rfl
      simp only [precedes, Bool.or_eq_true, Bool.and_eq_true, decide_eq_true_eq, beq_iff_eq,
        List.cons_lt_cons_iff, hchar, ih]

namespace Members

variable {α : Type} {key : Text} {members : List (Text × α)}

/-- The keys stand in order, each of them once. -/
def Sorted (members : List (Text × α)) : Prop := members.Pairwise fun p q => p.1 < q.1

/-! ### Look-ups -/

theorem get?_eq_none_iff : get? key members = none ↔ key ∉ members.map (·.1) := by
  induction members with
  | nil => simp [get?]
  | cons p members ih =>
    rw [get?, List.map_cons, List.mem_cons, not_or]
    split
    · next h => simp [h]
    · next h => rw [ih, and_iff_right (Ne.symm h)]

/-- Where no key stands twice, each member is found under its key. -/
theorem Sorted.get?_eq_some_iff (h : Sorted members) {value : α} :
    get? key members = some value ↔ (key, value) ∈ members := by
  induction members with
  | nil => simp [get?]
  | cons p members ih =>
    obtain ⟨hfirst, hrest⟩ := List.pairwise_cons.1 h
    rw [get?, List.mem_cons, Prod.ext_iff]
    split
    · next hp =>
      -- the keys behind the first one are greater
      have hnot : (key, value) ∉ members := fun hm => (hfirst _ hm).ne hp
      simp [hnot, hp, eq_comm]
    · next hp => rw [ih hrest, or_iff_right fun heq => hp heq.1.symm]

/-- Sorted members with the same look-ups are the same. -/
theorem Sorted.eq_of_get? {others : List (Text × α)} (h : Sorted members) (ho : Sorted others)
    (hget : ∀ key, get? key members = get? key others) : members = others := by
  have : Std.Irrefl fun p q : Text × α => p.1 < q.1 := ⟨fun p => lt_irrefl p.1⟩
  have : Std.Antisymm fun p q : Text × α => p.1 < q.1 :=
    ⟨fun _ _ hpq hqp => absurd hqp hpq.asymm⟩
  refine List.Pairwise.eq_of_mem_iff h ho fun p => ?_
  rw [← h.get?_eq_some_iff, ← ho.get?_eq_some_iff, hget]

/-! ### Setting a member -/

theorem get?_set (key name : Text) (value : α) (members : List (Text × α)) :
    get? name (set key value members) = if name = key then some value else get? name members := by
  induction members with
  | nil => simp only [set, get?, eq_comm]
  | cons p members ih =>
    rw [set]
    split
    · next hp =>
      rw [get?, get?, hp]
      simp only [eq_comm]
      split <;> rfl
    · next hp =>
      split
      · rw [get?]
        simp only [eq_comm]
      · rw [get?, get?, ih]
        by_cases hname : p.1 = name
        · rw [if_pos hname, if_pos hname, if_neg (hname ▸ hp)]
        · rw [if_neg hname, if_neg hname]

theorem mem_of_mem_set {value : α} {p : Text × α} (h : p ∈ set key value members) :
    p = (key, value) ∨ p ∈ members := by
  induction members with
  | nil => exact .inl (List.mem_singleton.1 h)
  | cons q members ih =>
    rw [set] at h
    split at h
    · exact (List.mem_cons.1 h).imp_right (List.mem_cons_of_mem q)
    · split at h
      · exact List.mem_cons.1 h
      · rcases List.mem_cons.1 h with rfl | h
        · exact .inr List.mem_cons_self
        · exact (ih h).imp_right (List.mem_cons_of_mem q)

theorem Sorted.set (h : Sorted members) (key : Text) (value : α) :
    Sorted (Members.set key value members) := by
  induction members with
  | nil => exact List.pairwise_singleton _ _
  | cons p members ih =>
    obtain ⟨hfirst, hrest⟩ := List.pairwise_cons.1 h
    rw [Members.set]
    -- the key takes its own place, the one in front of a greater key, or one further back
    split
    · next hp => exact List.pairwise_cons.2 ⟨hp ▸ hfirst, hrest⟩
    · next hp =>
      split
      · next hbefore =>
        have hlt : key < p.1 := Text.precedes_iff.1 hbefore
        refine List.pairwise_cons.2 ⟨?_, h⟩
        exact List.forall_mem_cons.2 ⟨hlt, fun q hq => hlt.trans (hfirst q hq)⟩
      · next hbehind =>
        have hlt : p.1 < key := by
          rw [Text.precedes_iff, not_lt] at hbehind
          exact lt_of_le_of_ne hbehind hp
        refine List.pairwise_cons.2 ⟨fun q hq => ?_, ih hrest⟩
        rcases mem_of_mem_set hq with rfl | hq
        · exact hlt
        · exact hfirst q hq

/-- Setting members in a row keeps the order. -/
theorem Sorted.foldl_set (h : Sorted members) (pairs : List (Text × α)) :
    Sorted (pairs.foldl (fun members p => Members.set p.1 p.2 members) members) := by
  induction pairs generalizing members with
  | nil => exact h
  | cons p pairs ih => exact ih (h.set p.1 p.2)

/-- Of members that are set in a row, those of a sorted list take the place of what was there. -/
theorem Sorted.get?_foldl_set {pairs : List (Text × α)} (h : Sorted pairs) (name : Text)
    (members : List (Text × α)) :
    get? name (pairs.foldl (fun members p => Members.set p.1 p.2 members) members) =
      (get? name pairs).or (get? name members) := by
  induction pairs generalizing members with
  | nil => rfl
  | cons p pairs ih =>
    obtain ⟨hfirst, hrest⟩ := List.pairwise_cons.1 h
    rw [List.foldl_cons, ih hrest, get?_set, get?]
    by_cases hname : p.1 = name
    · have hnone : get? name pairs = none := by
        rw [get?_eq_none_iff, List.mem_map]
        rintro ⟨q, hq, heq⟩
        exact (hfirst q hq).ne (hname.trans heq.symm)
      rw [hnone, if_pos hname.symm, if_pos hname]
      rfl
    · rw [if_neg (Ne.symm hname), if_neg hname]

end Members

namespace Context

variable {base own : Context}

/-- The names stand in order, each of them once. -/
def Sorted (c : Context) : Prop := Members.Sorted c.entries

theorem sorted_empty : Sorted empty := List.Pairwise.nil

theorem Sorted.set (h : base.Sorted) (name : Text) (value : Json) : (base.set name value).Sorted :=
  Members.Sorted.set h name value

theorem sorted_ofList (pairs : List (Text × Json)) : (ofList pairs).Sorted :=
  Members.Sorted.foldl_set List.Pairwise.nil pairs

/-- A sorted context is what its look-ups are. -/
theorem Sorted.eq_of_get? (h : base.Sorted) (ho : own.Sorted)
    (hget : ∀ name, base.get? name = own.get? name) : base = own := by
  cases base
  cases own
  exact congrArg mk (Members.Sorted.eq_of_get? h ho hget)

theorem entries_merge (base own : Context) : (base.merge own).entries =
    own.entries.foldl (fun members p => Members.set p.1 p.2 members) base.entries := by
  obtain ⟨entries⟩ := own
  rw [merge]
  induction entries generalizing base with
  | nil => rfl
  | cons p entries ih => exact ih (base.set p.1 p.2)

theorem Sorted.merge (h : base.Sorted) (own : Context) : (base.merge own).Sorted := by
  rw [Sorted, entries_merge]
  exact Members.Sorted.foldl_set h own.entries

/-- A name has the value of the context that is laid over the other one, if it has one there. -/
theorem Sorted.get?_merge (h : own.Sorted) (base : Context) (name : Text) :
    (base.merge own).get? name = (own.get? name).or (base.get? name) := by
  rw [get?, entries_merge]
  exact Members.Sorted.get?_foldl_set h name base.entries

end Context

end Shortcodes
