import Shortcodes.Proofs.Html.Crossing
import Shortcodes.Proofs.Html.TagExpression

/-!
# The search for a closing tag

The search for the closing tag of an element goes over the loose tags of a text, which are the
matches of their expression one behind the other, and keeps a depth (`map_closeAt?`). A tag of the
same name adds one to the depth or takes one from it. As long as the depth has not been zero it is
what it was at the start with all these changes added up, and never below zero
(`depthThrough_eq`). So the search ends with the first closing tag at which one and the changes up
to it add up to zero (`closingEnd?_balances`).
-/

namespace Shortcodes.Html.LooseTag

open Expression

variable {name : Text} {depth : Nat} {tag : LooseTag} {tags : List LooseTag}

/-! ### Adding up changes -/

/-- What a tag adds to the depth among the elements of a name. -/
def change (name : Text) : LooseTag → Int
  | comment => 0
  | closing other => if Text.sameUpToCase other name then -1 else 0
  | opening other selfClosing => if Text.sameUpToCase other name && !selfClosing then 1 else 0

/-- What tags add to the depth. -/
def balance (name : Text) : List LooseTag → Int
  | [] => 0
  | tag :: tags => change name tag + balance name tags

@[simp] theorem balance_nil (name : Text) : balance name [] = 0 := rfl

@[simp] theorem balance_cons (name : Text) (tag : LooseTag) (tags : List LooseTag) :
    balance name (tag :: tags) = change name tag + balance name tags := rfl

@[simp] theorem balance_append (name : Text) (s t : List LooseTag) :
    balance name (s ++ t) = balance name s + balance name t := by
  induction s with
  | nil => simp
  | cons tag s ih => simp [ih, Int.add_assoc]

/-- At a depth that is not zero, a step of the search adds the change of the tag. -/
theorem depthAfter_eq (hpos : 0 < depth) (tag : LooseTag) :
    (depthAfter name depth tag : Int) = depth + change name tag := by
  cases tag with
  | comment => simp [depthAfter, change]
  | closing other =>
    rw [depthAfter, change]
    split <;> omega
  | opening other selfClosing =>
    rw [depthAfter, change]
    split <;> omega

/-- The first of some tags moves the depth from which the others count. -/
theorem add_balance_cons (hpos : 0 < depth) (tag : LooseTag) (tags : List LooseTag) :
    (depth : Int) + balance name (tag :: tags) =
      depthAfter name depth tag + balance name tags := by
  rw [balance_cons, ← Int.add_assoc, ← depthAfter_eq hpos]

/-- Only closing tags of the name take from the depth. -/
theorem exists_of_change_neg (h : change name tag < 0) :
    ∃ other, tag = .closing other ∧ Text.sameUpToCase other name = true := by
  cases tag with
  | comment => simp [change] at h
  | closing other =>
    rw [change] at h
    split at h
    · next hsame => exact ⟨other, rfl, hsame⟩
    · omega
  | opening other selfClosing =>
    rw [change] at h
    split at h <;> omega

/-! ### The depth on the way -/

/-- The depth that the search counts behind tags, from a depth in front of them on. -/
def depthThrough (name : Text) (depth : Nat) (tags : List LooseTag) : Nat :=
  tags.foldl (depthAfter name) depth

/-- Neither in front of the tags nor behind one of them has all been closed that is open at a
depth. -/
def StaysOpen (name : Text) (depth : Nat) (tags : List LooseTag) : Prop :=
  ∀ seen, seen <+: tags → (depth : Int) + balance name seen ≠ 0

theorem StaysOpen.pos (h : StaysOpen name depth tags) : 0 < depth := by
  have hnil := h [] List.nil_prefix
  rw [balance_nil] at hnil
  omega

theorem staysOpen_nil_iff : StaysOpen name depth [] ↔ 0 < depth := by
  refine ⟨StaysOpen.pos, fun hpos seen hseen => ?_⟩
  rw [List.prefix_nil.1 hseen, balance_nil]
  omega

theorem staysOpen_cons_iff :
    StaysOpen name depth (tag :: tags) ↔
      0 < depth ∧ StaysOpen name (depthAfter name depth tag) tags := by
  constructor
  · intro h
    refine ⟨h.pos, fun seen hseen => ?_⟩
    have hmore := h (tag :: seen) ((List.prefix_cons_inj tag).2 hseen)
    rwa [add_balance_cons h.pos] at hmore
  · rintro ⟨hpos, h⟩ seen hseen
    rcases List.prefix_cons_iff.1 hseen with rfl | ⟨more, rfl, hmore⟩
    · rw [balance_nil]
      omega
    · rw [add_balance_cons hpos]
      exact h more hmore

/-- As long as all stays open the depth is the sum of the changes: nothing is ever taken from a
depth of zero. -/
theorem depthThrough_eq (h : StaysOpen name depth tags) :
    (depthThrough name depth tags : Int) = depth + balance name tags := by
  induction tags generalizing depth with
  | nil => simp [depthThrough]
  | cons tag tags ih =>
    obtain ⟨hpos, hrest⟩ := staysOpen_cons_iff.1 h
    rw [add_balance_cons hpos]
    exact ih hrest

theorem StaysOpen.depthThrough_pos (h : StaysOpen name depth tags) :
    0 < depthThrough name depth tags := by
  have hsum := depthThrough_eq h
  have hne := h tags List.prefix_rfl
  omega

/-- This holds up to and with the tag that closes the last of what was open. -/
theorem depthThrough_concat (h : StaysOpen name depth tags) (tag : LooseTag) :
    (depthThrough name depth (tags ++ [tag]) : Int) = depth + balance name (tags ++ [tag]) := by
  have hlast : depthThrough name depth (tags ++ [tag]) =
      depthAfter name (depthThrough name depth tags) tag := List.foldl_concat ..
  rw [hlast, depthAfter_eq h.depthThrough_pos, depthThrough_eq h, balance_append, balance_cons,
    balance_nil, Int.add_zero, Int.add_assoc]

/-- What closes the last of what was open is a closing tag. -/
theorem StaysOpen.exists_closing (h : StaysOpen name depth tags)
    (hzero : (depth : Int) + balance name (tags ++ [tag]) = 0) :
    ∃ other, tag = .closing other ∧ Text.sameUpToCase other name = true := by
  refine exists_of_change_neg ?_
  have hpos := h.depthThrough_pos
  have hsum := depthThrough_eq h
  rw [balance_append, balance_cons, balance_nil] at hzero
  omega

/-! ### The search among tags -/

/-- The loose tag that a match shows. -/
def shown (m : Occurrence) : LooseTag := ofGroups m.way.groups

/-- The byte offset at which the match ends whose tag brings the depth to zero. -/
def closeAmong? (name : Text) : (depth : Nat) → List Occurrence → Option Nat
  | _, [] => none
  | depth, m :: ms =>
    let depth := depthAfter name depth (shown m)
    if depth = 0 then some m.stop else closeAmong? name depth ms

/-- The search ends with the first match at which the depth and all changes up to it add up to
zero. -/
theorem closeAmong?_eq_some_iff {ms : List Occurrence} {stop : Nat} (hpos : 0 < depth) :
    closeAmong? name depth ms = some stop ↔ ∃ front m back, ms = front ++ m :: back ∧
      StaysOpen name depth (front.map shown) ∧
      (depth : Int) + balance name ((front ++ [m]).map shown) = 0 ∧ m.stop = stop := by
  induction ms generalizing depth with
  | nil => simp [closeAmong?]
  | cons m ms ih =>
    have hfirst : (depth : Int) + balance name [shown m] = depthAfter name depth (shown m) := by
      rw [add_balance_cons hpos, balance_nil, Int.add_zero]
    rw [closeAmong?]
    split
    · next hzero =>
      rw [Option.some.injEq]
      constructor
      · intro hstop
        refine ⟨[], m, ms, rfl, staysOpen_nil_iff.2 hpos, ?_, hstop⟩
        rw [hzero] at hfirst
        exact hfirst
      · rintro ⟨front, m', back, hms, hopen, -, hstop⟩
        cases front with
        | nil =>
          rw [(List.cons.inj hms).1]
          exact hstop
        | cons first front =>
          -- behind the first match nothing is open any more
          obtain ⟨rfl, -⟩ := List.cons.inj hms
          have hpos := (staysOpen_cons_iff.1 hopen).2.pos
          exact absurd hzero (Nat.ne_of_gt hpos)
    · next hdepth =>
      rw [ih (Nat.pos_of_ne_zero hdepth)]
      constructor
      · rintro ⟨front, m', back, rfl, hopen, hzero, hstop⟩
        refine ⟨m :: front, m', back, rfl, staysOpen_cons_iff.2 ⟨hpos, hopen⟩, ?_, hstop⟩
        rw [List.cons_append, List.map_cons, add_balance_cons hpos]
        exact hzero
      · rintro ⟨front, m', back, hms, hopen, hzero, hstop⟩
        cases front with
        | nil =>
          obtain ⟨rfl, -⟩ := List.cons.inj hms
          have hdepth' := hfirst.symm.trans hzero
          omega
        | cons first front =>
          obtain ⟨rfl, rfl⟩ := List.cons.inj hms
          refine ⟨front, m', back, rfl, (staysOpen_cons_iff.1 hopen).2, ?_, hstop⟩
          rw [← add_balance_cons hpos]
          exact hzero

/-! ### The search in a text -/

theorem exists_first?_of_at? {t : Text} {seen : Sighting} (h : at? t = some seen) :
    ∃ w, expression.first? t = some w ∧ ofWay w = seen :=
  Option.map_eq_some_iff.1 ((at?_eq_first? t).symm.trans h)

theorem takesSome_expression : expression.TakesSome := by
  intro t w hw
  have hat : at? t = some (ofWay w) := by rw [at?_eq_first?, hw, Option.map_some]
  obtain ⟨-, more, hmore⟩ := at?_eq_some hat
  have htaken : w.taken = '<' :: more := hmore
  rw [htaken]
  exact List.cons_ne_nil _ _

/-- The search in a text that begins at an offset is the search among the matches in it. -/
theorem map_closeAt? (name : Text) (depth offset : Nat) (t : Text) :
    (closeAt? name depth t).map (fun r => offset + Text.byteLength r.1) =
      closeAmong? name depth (expression.occurrences offset t) := by
  induction hn : t.length using Nat.strong_induction_on generalizing depth offset t with
  | _ n ih =>
    subst hn
    cases hat : at? t with
    | none =>
      cases t with
      | nil => rfl
      | cons c t =>
        have hnone : expression.first? (c :: t) = none :=
          Option.map_eq_none_iff.1 ((at?_eq_first? _).symm.trans hat)
        rw [closeAt?_of_at?_eq_none hat, occurrences_of_first?_eq_none takesSome_expression hnone,
          ← ih t.length (Nat.lt_succ_self _) depth (offset + c.utf8Size) t rfl, Option.map_map]
        congr 1
        funext r
        simp [Nat.add_assoc]
    | some seen =>
      obtain ⟨w, hfirst, rfl⟩ := exists_first?_of_at? hat
      have htag : shown ⟨offset, w⟩ = (ofWay w).tag := rfl
      -- a match takes some of the text, so that what is left is shorter
      have hrest : w.rest.length < t.length := by
        have happend : w.taken ++ w.rest = t := (at?_eq_some hat).1
        have hpos := List.length_pos_iff.2 (takesSome_expression t w hfirst)
        rw [← happend, List.length_append]
        omega
      rw [closeAt?_of_at?_eq_some hat, occurrences_of_first? takesSome_expression hfirst,
        closeAmong?, htag]
      dsimp only
      split
      · rfl
      · rw [← ih w.rest.length hrest _ _ w.rest rfl, Option.map_map]
        congr 1
        funext r
        simp [Nat.add_assoc, ofWay]

/-- The byte offset in a text at which the element ends that was opened right in front of the rest
`t` of the text. -/
def closingEnd? (name front t : Text) : Option Nat :=
  (close? name t).map fun r => Text.byteLength front + Text.byteLength r.1

/-- What closes an element ends behind its opening tag and in the text. -/
theorem bounds_of_closingEnd? {name front t : Text} {stop : Nat}
    (h : closingEnd? name front t = some stop) :
    Text.byteLength front < stop ∧ stop ≤ Text.byteLength (front ++ t) := by
  obtain ⟨⟨content, tail⟩, hclose, rfl⟩ := Option.map_eq_some_iff.1 h
  have hne : content ≠ [] := ne_nil_of_closeAt? hclose
  have happend : content ++ tail = t := closeFrom?_eq_some hclose
  obtain ⟨c, more, rfl⟩ := List.exists_cons_of_ne_nil hne
  have hpos := c.utf8Size_pos
  rw [← happend]
  simp only [Text.byteLength_append, Text.byteLength_cons]
  omega

/-- The search for the closing tag of an element goes over the loose tags of what follows the
opening tag. It ends with the first one at which one and the changes up to it add up to zero, which
is a closing tag, and with nothing if there is none. It ends behind its start and in the text. The
depth on the way is this sum, which is never below zero. -/
theorem closingEnd?_balances (name front t : Text) :
    (∀ stop, closingEnd? name front t = some stop ↔
      ∃ before m after other,
        expression.occurrences (Text.byteLength front) t = before ++ m :: after ∧
        shown m = .closing other ∧
        (∀ seen, seen <+: before.map shown → 1 + balance name seen ≠ 0) ∧
        1 + balance name ((before ++ [m]).map shown) = 0 ∧ m.stop = stop) ∧
    (∀ stop, closingEnd? name front t = some stop →
      Text.byteLength front < stop ∧ stop ≤ Text.byteLength (front ++ t)) ∧
    ∀ before m after,
      expression.occurrences (Text.byteLength front) t = before ++ m :: after →
      (∀ seen, seen <+: before.map shown → 1 + balance name seen ≠ 0) →
      0 ≤ 1 + balance name ((before ++ [m]).map shown) ∧
      depthThrough name 1 ((before ++ [m]).map shown) =
        1 + balance name ((before ++ [m]).map shown) := by
  refine ⟨fun stop => ?_, fun stop => bounds_of_closingEnd?, fun before m after _ hopen => ?_⟩
  · have hsearch : closingEnd? name front t =
        closeAmong? name 1 (expression.occurrences (Text.byteLength front) t) :=
      map_closeAt? name 1 (Text.byteLength front) t
    rw [hsearch, closeAmong?_eq_some_iff Nat.one_pos]
    constructor
    · rintro ⟨before, m, after, htags, hopen, hzero, hstop⟩
      have hlast := hzero
      rw [List.map_append] at hlast
      -- only a closing tag takes the depth to zero
      obtain ⟨other, hclosing, -⟩ := hopen.exists_closing hlast
      exact ⟨before, m, after, other, htags, hclosing, hopen, hzero, hstop⟩
    · rintro ⟨before, m, after, other, htags, -, hopen, hzero, hstop⟩
      exact ⟨before, m, after, htags, hopen, hzero, hstop⟩
  · have hopen : StaysOpen name 1 (before.map shown) := hopen
    have hdepth : (depthThrough name 1 (before.map shown ++ [shown m]) : Int) =
        1 + balance name (before.map shown ++ [shown m]) := depthThrough_concat hopen (shown m)
    rw [List.map_append, List.map_singleton]
    exact ⟨by omega, hdepth⟩

/-- A closing tag inside of a comment does not count. -/
example : closingEnd? "b".toList "<b>".toList "x<!-- </b> -->y</b>".toList = some 22 := rfl

end Shortcodes.Html.LooseTag
