import Shortcodes.Html.Builder.Modes
import Shortcodes.Proofs.Html.Arena

/-!
# Reading leaves an element where it stands

Once an element stands in the head or the body, the rules for the tokens that follow touch the
open elements above it only. `Stands` says so of a state: the element stands in its part of the
document, and what else the state remembers is not older than it. This module proves that the
basic changes of a state and those of formatting elements keep it.
-/

namespace Shortcodes.Html

namespace Builder

/-! ### The open elements -/

/-- Below the open elements that are younger than the element `k` there are at most the element
itself, its part `p` and the root. -/
def Sunk (k p : Nat) (stack : List OpenElement) : Prop :=
  ∃ young old, stack = young ++ old ∧ (∀ e ∈ young, k < e.id) ∧ old.map (·.id) <:+ [k, p, 1]

namespace Sunk

variable {k p : Nat} {stack : List OpenElement}

theorem of_suffix (h : Sunk k p stack) {s : List OpenElement} (hs : s <:+ stack) :
    Sunk k p s := by
  obtain ⟨young, old, rfl, hyoung, hold⟩ := h
  rw [List.suffix_iff_eq_drop] at hs
  rw [hs, List.drop_append]
  refine ⟨_, _, rfl, fun e he => hyoung e (List.mem_of_mem_drop he), ?_⟩
  rw [List.map_drop]
  exact (List.drop_suffix _ _).trans hold

theorem cons (h : Sunk k p stack) {e : OpenElement} (he : k < e.id) : Sunk k p (e :: stack) := by
  obtain ⟨young, old, rfl, hyoung, hold⟩ := h
  exact ⟨e :: young, old, rfl, List.forall_mem_cons.2 ⟨he, hyoung⟩, hold⟩

theorem append {front : List OpenElement} (h : Sunk k p stack) (hf : ∀ e ∈ front, k < e.id) :
    Sunk k p (front ++ stack) := by
  induction front with
  | nil => exact h
  | cons e front ih =>
    rw [List.forall_mem_cons] at hf
    exact (ih hf.2).cons hf.1

/-- What lies above an element that is not older lies above all that are. -/
theorem lt_of_mem_above (hp : p < k) (hroot : 1 < k) {above below : List OpenElement}
    {e : OpenElement} (h : Sunk k p (above ++ e :: below)) (he : k ≤ e.id) :
    ∀ x ∈ above, k < x.id := by
  obtain ⟨young, old, hsplit, hyoung, hold⟩ := h
  intro x hx
  rcases List.append_eq_append_iff.1 hsplit with ⟨rest, hy, -⟩ | ⟨rest, ha, ho⟩
  · exact hyoung x (by rw [hy]; exact List.mem_append_left _ hx)
  · cases rest with
    | nil => exact hyoung x (by rwa [ha, List.append_nil] at hx)
    | cons r rest =>
      -- below an old element all are older
      exfalso
      have hmem : e.id ∈ rest.map (·.id) ++ e.id :: below.map (·.id) := by simp
      have hlt : e.id = p ∨ e.id = 1 := by
        rw [ho, List.map_append, List.map_cons, List.map_cons, List.cons_append,
          List.suffix_cons_iff] at hold
        rcases hold with heq | hsub
        · rw [(List.cons.inj heq).2] at hmem
          simpa using hmem
        · have := hsub.subset (List.mem_cons_of_mem r.id hmem)
          simpa using this
      omega

/-- An element that is not older is taken away, wherever it is. -/
theorem eraseP (hp : p < k) (hroot : 1 < k) (h : Sunk k p stack) {id : Nat} (hid : k ≤ id) :
    Sunk k p (stack.eraseP (·.id = id)) := by
  obtain ⟨young, old, rfl, hyoung, hold⟩ := h
  by_cases hfound : ∃ e ∈ young, e.id = id
  · obtain ⟨e, he, hei⟩ := hfound
    rw [List.eraseP_append_left (a := e) (by simpa using hei) _ he]
    exact ⟨_, old, rfl, fun x hx => hyoung x (List.mem_of_mem_eraseP hx), hold⟩
  · rw [List.eraseP_append_right _ (by simpa using hfound)]
    refine ⟨young, _, rfl, hyoung, ?_⟩
    cases old with
    | nil => exact hold
    | cons e old =>
      -- only the first of these can be the element, those behind it are its part and the root
      have hold' : ∀ x ∈ old, x.id ≠ id := by
        intro x hx he
        rw [List.map_cons, List.suffix_cons_iff] at hold
        have hmem : x.id ∈ old.map (·.id) := List.mem_map_of_mem hx
        rcases hold with heq | hsub
        · rw [(List.cons.inj heq).2] at hmem
          simp at hmem
          omega
        · have := hsub.subset (List.mem_cons_of_mem e.id hmem)
          simp at this
          omega
      by_cases he : e.id = id
      · rw [List.eraseP_cons_of_pos (by simpa using he)]
        exact (List.suffix_cons e.id _).trans hold
      · rw [List.eraseP_cons_of_neg (by simpa using he),
          List.eraseP_of_forall_not (by simpa using hold')]
        exact hold

/-- An element that is open only while a younger one is opened does not count. -/
theorem eraseP_aside (h : Sunk k p stack) {new e : OpenElement} (hn : k < new.id) :
    Sunk k p ((new :: e :: stack).eraseP (·.id = e.id)) := by
  by_cases hid : new.id = e.id
  · rw [List.eraseP_cons_of_pos (by simpa using hid)]
    exact h.cons (hid ▸ hn)
  · rw [List.eraseP_cons_of_neg (by simpa using hid), List.eraseP_cons_of_pos (by simp)]
    exact h.cons hn

/-- The outermost open elements: the root and the part, or younger ones. -/
theorem reverse_cases (h : Sunk k p stack) {e : OpenElement} {rest : List OpenElement}
    (hs : stack.reverse = e :: rest) :
    (∀ d ∈ e :: rest, k < d.id) ∨ (e.id = 1 ∧ ∀ d ∈ rest.head?, d.id = p ∨ k < d.id) := by
  obtain ⟨young, old, rfl, hyoung, hold⟩ := h
  rw [List.reverse_append] at hs
  -- the oldest entries are what is left of the element, its part and the root
  have hids : old.map (·.id) = [k, p, 1] ∨ old.map (·.id) = [p, 1] ∨ old.map (·.id) = [1] ∨
      old.map (·.id) = [] := by
    simpa [List.suffix_cons_iff] using hold
  have hyoung' : ∀ i ∈ young.reverse.map (·.id), k < i := by
    intro i hi
    obtain ⟨x, hx, rfl⟩ := List.mem_map.1 hi
    exact hyoung x (List.mem_reverse.1 hx)
  have hmap := congrArg (List.map (·.id)) hs
  rw [List.map_append, List.map_reverse (l := old), List.map_cons] at hmap
  have hhead : ∀ {i : Nat} {tail : List Nat}, rest.map (·.id) = i :: tail →
      ∀ d ∈ rest.head?, d.id = i := by
    intro i tail ht d hd
    cases rest with
    | nil => cases hd
    | cons x rest =>
      obtain rfl : x = d := by simpa using hd
      exact (List.cons.inj ht).1
  rcases hids with ho | ho | ho | ho <;> rw [ho] at hmap
  · exact .inr ⟨(List.cons.inj hmap).1.symm, fun d hd =>
      .inl (hhead (List.cons.inj hmap).2.symm d hd)⟩
  · exact .inr ⟨(List.cons.inj hmap).1.symm, fun d hd =>
      .inl (hhead (List.cons.inj hmap).2.symm d hd)⟩
  · refine .inr ⟨(List.cons.inj hmap).1.symm, fun d hd => .inr (hyoung' d.id ?_)⟩
    have hrest : young.reverse.map (·.id) = rest.map (·.id) := (List.cons.inj hmap).2
    rw [hrest]
    exact List.mem_map_of_mem (List.mem_of_mem_head? hd)
  · have hall : young.reverse.map (·.id) = (e :: rest).map (·.id) := hmap
    exact .inl fun d hd => hyoung' d.id (by rw [hall]; exact List.mem_map_of_mem hd)

end Sunk

/-! ### New nodes -/

theorem insertAt_eq (b : Builder) (place : Place) (id : Nat) :
    b.insertAt place id = { b with arena := (b.insertAt place id).arena } := by
  unfold insertAt
  split
  · rfl
  · split <;> rfl

theorem createElement_eq (b : Builder) (l : Label) :
    (b.createElement l).1 = { b with arena := (b.createElement l).1.arena } := rfl

theorem insertLeaf_eq (b : Builder) (l : Label) :
    (b.insertLeaf l).1 = { b with arena := (b.insertLeaf l).1.arena } :=
  insertAt_eq (b.createElement l).1 _ _

end Builder

namespace Arena.Standing

variable {k p : Nat} {label : Label} {b : Builder}

theorem insertAt (h : b.arena.Standing k p label) (place : Builder.Place) {id : Nat}
    (hid : k < id) : (b.insertAt place id).arena.Standing k p label := by
  unfold Builder.insertAt
  split
  · exact h.append _ hid
  · split
    · exact h.insertBefore _ hid
    · exact h.append _ hid

theorem createElement (h : b.arena.Standing k p label) (l : Label) :
    (b.createElement l).1.arena.Standing k p label ∧ k < (b.createElement l).2.id := by
  have hinner := h.create .document
  unfold Builder.createElement
  by_cases htemplate : (decide (l.space = .html) && l.name == "template") = true
  · rw [if_pos htemplate]
    exact ⟨hinner.create _, hinner.lt_size⟩
  · rw [if_neg htemplate]
    exact ⟨h.create _, h.lt_size⟩

theorem insertLeaf (h : b.arena.Standing k p label) (l : Label) :
    (b.insertLeaf l).1.arena.Standing k p label ∧ k < (b.insertLeaf l).2.id := by
  obtain ⟨hb, he⟩ := h.createElement l
  exact ⟨hb.insertAt _ he, he⟩

end Arena.Standing

namespace Builder

/-! ### States -/

/-- The parts of a state on which it depends that the element `k` stays in its part `p`. -/
structure StandsIn (k p : Nat) (label : Label) (arena : Arena) (stack : List OpenElement)
    (formatting : List Formatting) (form : Option Nat) : Prop where
  arena : arena.Standing k p label
  stack : Sunk k p stack
  formatting : ∀ id tag, .element id tag ∈ formatting → k ≤ id
  form : ∀ id, form = some id → k ≤ id

/-- In a state the element `k` stands in the part `p` of the document, and stays there. -/
def Stands (k p : Nat) (label : Label) (b : Builder) : Prop :=
  StandsIn k p label b.arena b.stack b.formatting b.form

/-- The state after a round. -/
def Round.state : Round → Builder
  | .finished b | .further b => b

namespace Stands

variable {k p : Nat} {label : Label} {b : Builder}

theorem root_lt (h : Stands k p label b) : 1 < k := by
  have hroot := h.arena.root_lt
  have hpart := h.arena.part_lt
  omega

theorem withArena (h : Stands k p label b) {arena : Arena} (ha : arena.Standing k p label) :
    Stands k p label { b with arena } := ⟨ha, h.stack, h.formatting, h.form⟩

theorem withStack (h : Stands k p label b) {stack : List OpenElement} (hs : Sunk k p stack) :
    Stands k p label { b with stack } := ⟨h.arena, hs, h.formatting, h.form⟩

theorem withParts (h : Stands k p label b) {arena : Arena} {stack : List OpenElement}
    (ha : arena.Standing k p label) (hs : Sunk k p stack) :
    Stands k p label { b with arena, stack } := ⟨ha, hs, h.formatting, h.form⟩

theorem withFormatting (h : Stands k p label b) {formatting : List Formatting}
    (hf : ∀ id tag, .element id tag ∈ formatting → k ≤ id) :
    Stands k p label { b with formatting } := ⟨h.arena, h.stack, hf, h.form⟩

theorem withForm (h : Stands k p label b) {id : Nat} (hid : k ≤ id) :
    Stands k p label { b with form := some id } :=
  ⟨h.arena, h.stack, h.formatting, fun _ he => Option.some.inj he ▸ hid⟩

theorem withoutForm (h : Stands k p label b) : Stands k p label { b with form := none } :=
  ⟨h.arena, h.stack, h.formatting, fun _ he => nomatch he⟩

/-! #### Closing elements -/

theorem withSuffix (h : Stands k p label b) {stack : List OpenElement} (hs : stack <:+ b.stack) :
    Stands k p label { b with stack } := h.withStack (h.stack.of_suffix hs)

theorem pop (h : Stands k p label b) : Stands k p label b.pop := h.withSuffix (List.tail_suffix _)

theorem popUntil (h : Stands k p label b) (wanted : OpenElement → Bool) :
    Stands k p label (b.popUntil wanted) :=
  h.withSuffix ((List.tail_suffix _).trans (List.dropWhile_suffix _))

theorem popUntilHtml (h : Stands k p label b) (name : String) :
    Stands k p label (b.popUntilHtml name) := h.popUntil _

theorem popTo (h : Stands k p label b) (names : List String) : Stands k p label (b.popTo names) :=
  h.withSuffix (List.dropWhile_suffix _)

theorem closeImplied (h : Stands k p label b) (names : List String) :
    Stands k p label (b.closeImplied names) := h.withSuffix (List.dropWhile_suffix _)

theorem closeImpliedExcept (h : Stands k p label b) (name : String) :
    Stands k p label (b.closeImpliedExcept name) := h.closeImplied _

theorem closeParagraph (h : Stands k p label b) : Stands k p label b.closeParagraph :=
  (h.closeImpliedExcept "p").popUntilHtml "p"

theorem closeParagraphInScope (h : Stands k p label b) :
    Stands k p label b.closeParagraphInScope := by
  unfold Builder.closeParagraphInScope
  split
  · exact h.closeParagraph
  · exact h

theorem removeOpen (h : Stands k p label b) {id : Nat} (hid : k ≤ id) :
    Stands k p label (b.removeOpen id) :=
  h.withStack (h.stack.eraseP h.arena.part_lt h.root_lt hid)

/-! #### New nodes -/

theorem insertAt (h : Stands k p label b) (place : Place) {id : Nat} (hid : k < id) :
    Stands k p label (b.insertAt place id) := by
  rw [insertAt_eq]
  exact h.withArena (h.arena.insertAt place hid)

theorem insertIn (h : Stands k p label b) (target : OpenElement) {id : Nat} (hid : k < id) :
    Stands k p label (b.insertAt (b.placeIn target) id) := h.insertAt _ hid

theorem insertChar (h : Stands k p label b) (c : Char) : Stands k p label (b.insertChar c) := by
  unfold Builder.insertChar
  split
  · exact h.withArena (h.arena.appendChar _ c)
  · split
    · exact h.withArena (h.arena.insertCharBefore _ c)
    · exact h.withArena (h.arena.appendChar _ c)

theorem insertComment (h : Stands k p label b) (content : Text) :
    Stands k p label (b.insertComment content) :=
  (h.withArena (h.arena.create (.comment content))).insertAt _ h.arena.lt_size

theorem appendComment (h : Stands k p label b) (parent : Nat) (content : Text) :
    Stands k p label (b.appendComment parent content) :=
  h.withArena (h.arena.appendNew parent (.comment content))

theorem createElement (h : Stands k p label b) (l : Label) :
    Stands k p label (b.createElement l).1 ∧ k < (b.createElement l).2.id := by
  rw [createElement_eq]
  exact ⟨h.withArena (h.arena.createElement l).1, (h.arena.createElement l).2⟩

theorem insertLeaf (h : Stands k p label b) (l : Label) :
    Stands k p label (b.insertLeaf l).1 ∧ k < (b.insertLeaf l).2.id := by
  rw [insertLeaf_eq]
  exact ⟨h.withArena (h.arena.insertLeaf l).1, (h.arena.insertLeaf l).2⟩

theorem insertLabel (h : Stands k p label b) (l : Label) :
    Stands k p label (b.insertLabel l).1 ∧ k < (b.insertLabel l).2.id := by
  obtain ⟨hb, he⟩ := h.insertLeaf l
  exact ⟨hb.withStack (hb.stack.cons he), he⟩

theorem insert (h : Stands k p label b) (tag : StartTag) : Stands k p label (b.insert tag) :=
  (h.insertLabel (htmlLabel tag)).1

theorem insertClosed (h : Stands k p label b) (tag : StartTag) :
    Stands k p label (b.insertClosed tag) := (h.insertLeaf (htmlLabel tag)).1

theorem insertNamed (h : Stands k p label b) (name : String) :
    Stands k p label (b.insertNamed name) := h.insert _

theorem insertRoot (h : Stands k p label b) (attributes : List (String × Text)) :
    Stands k p label (b.insertRoot attributes) := by
  obtain ⟨hb, he⟩ := h.createElement ⟨.html, "html", ownAttributes attributes⟩
  exact (hb.withArena (hb.arena.append 0 he)).withStack (hb.stack.cons he)

theorem insertRaw (h : Stands k p label b) (tag : StartTag) (lexing : Lexing) :
    Stands k p label (b.insertRaw tag lexing) := h.insert tag

/-! #### The root and the body -/

/-- The root, as the state knows it, is not the element. -/
theorem root_ne (h : Stands k p label b) : b.root ≠ k := by
  have hlt := h.root_lt
  unfold root
  cases hs : b.stack.reverse with
  | nil =>
    rw [List.reverse_eq_nil_iff] at hs
    rw [hs]
    simp
    omega
  | cons e rest =>
    have hlast : b.stack.getLast? = some e := by
      rw [← List.head?_reverse, hs, List.head?_cons]
    rw [hlast]
    show e.id ≠ k
    rcases h.stack.reverse_cases hs with hyoung | ⟨he, -⟩
    · have := hyoung e List.mem_cons_self
      omega
    · omega

/-- The body, as the state knows it, is neither the element nor the root. -/
theorem body?_ne (h : Stands k p label b) {e : OpenElement} (he : b.body? = some e) :
    e.id ≠ k ∧ e.id ≠ 1 := by
  have hroot := h.arena.root_lt
  have hpart := h.arena.part_lt
  unfold body? at he
  split at he
  · next html d rest hs =>
    obtain rfl : d = e := by
      split at he
      · exact Option.some.inj he
      · cases he
    rcases h.stack.reverse_cases hs with hyoung | ⟨-, hd⟩
    · have := hyoung d (by simp)
      omega
    · rcases hd d rfl with hd | hd
      · omega
      · omega
  · cases he

theorem mergeRoot (h : Stands k p label b) (tag : StartTag) :
    Stands k p label (b.mergeRoot tag).1 := by
  unfold Builder.mergeRoot
  split
  · exact h
  · exact h.withArena (h.arena.addMissing h.root_ne _)

/-! #### Formatting -/

theorem forgetToBound (h : Stands k p label b) : Stands k p label b.forgetToBound :=
  h.withFormatting fun id tag hm => h.formatting id tag
    (((List.tail_suffix _).trans (List.dropWhile_suffix _)).mem hm)

theorem pushBound (h : Stands k p label b) : Stands k p label b.pushBound :=
  h.withFormatting fun id tag hm => h.formatting id tag (by simpa using hm)

theorem forget (h : Stands k p label b) (id : Nat) : Stands k p label (b.forget id) :=
  h.withFormatting fun i tag hm => h.formatting i tag (List.mem_of_mem_eraseP hm)

theorem replaceEntry (h : Stands k p label b) (id : Nat) {new : Nat} (hn : k ≤ new)
    (tag : StartTag) : Stands k p label (b.replaceEntry id (.element new tag)) := by
  refine h.withFormatting fun i t hm => ?_
  obtain ⟨entry, he, heq⟩ := List.mem_map.1 hm
  split at heq
  · cases heq
    exact hn
  · exact h.formatting i t (heq ▸ he)

theorem makeRoom (h : Stands k p label b) (tag : StartTag) : Stands k p label (b.makeRoom tag) := by
  unfold Builder.makeRoom
  dsimp only
  split
  · split
    · exact h.forget _
    · exact h
  · exact h

theorem insertFormatting (h : Stands k p label b) (tag : StartTag) :
    Stands k p label (b.insertFormatting tag) := by
  obtain ⟨hb, he⟩ := (h.makeRoom tag).insertLabel (htmlLabel tag)
  refine hb.withFormatting fun id t hm => ?_
  rcases List.mem_cons.1 hm with heq | hm
  · cases heq
    exact Nat.le_of_lt he
  · exact hb.formatting id t hm

theorem reopen (h : Stands k p label b) (entry : Formatting) :
    Stands k p label (b.reopen entry) := by
  unfold Builder.reopen
  split
  · exact h
  · next id tag =>
    obtain ⟨hb, he⟩ := h.insertLabel (htmlLabel { tag with selfClosing := false })
    exact hb.replaceEntry id (Nat.le_of_lt he) tag

/-- A run of changes that each leave the element where it is. -/
theorem foldl {α : Type} {f : Builder → α → Builder}
    (hf : ∀ {b : Builder} (x : α), Stands k p label b → Stands k p label (f b x)) (l : List α)
    (h : Stands k p label b) : Stands k p label (l.foldl f b) := by
  induction l generalizing b with
  | nil => exact h
  | cons x l ih => exact ih (hf x h)

theorem reopenFormatting (h : Stands k p label b) : Stands k p label b.reopenFormatting :=
  foldl (fun entry hb => hb.reopen entry) _ h

theorem closeNamed (h : Stands k p label b) (name : String) :
    Stands k p label (b.closeNamed name) := by
  unfold Builder.closeNamed
  split
  · exact h
  · split
    · exact (h.closeImpliedExcept name).withSuffix
        ((List.tail_suffix _).trans (List.dropWhile_suffix _))
    · exact h

/-! #### Splitting formatting elements -/

/-- While formatting is split, what was moved last and what is kept open are young. -/
structure Splits (k p : Nat) (label : Label) (s : Splitting) : Prop where
  builder : Stands k p label s.builder
  kept : ∀ e ∈ s.kept, k < e.id
  last : k < s.last
  follows : ∀ id, s.follows = some id → k ≤ id

theorem splitOne {s : Splitting} (h : Splits k p label s) (count block : Nat) (e : OpenElement) :
    Splits k p label (splitOne s count block e) := by
  have hroot := h.builder.root_lt
  have hlast := h.last
  unfold Builder.splitOne
  split
  · exact ⟨h.builder.forget e.id, h.kept, h.last, h.follows⟩
  · split
    · next tag _ =>
      obtain ⟨hb, he⟩ := h.builder.createElement (htmlLabel tag)
      have hentry := hb.replaceEntry e.id (Nat.le_of_lt he) tag
      have hdetached : Arena.Standing k p label (Arena.detach _ s.last) :=
        hentry.arena.detach (by omega) (by omega)
      have hmoved := hdetached.append (s.builder.createElement (htmlLabel tag)).2.id h.last
      refine ⟨hentry.withArena hmoved, ?_, he, ?_⟩
      · intro x hx
        rcases List.mem_append.1 hx with hx | hx
        · exact h.kept x hx
        · rw [List.mem_singleton.1 hx]
          exact he
      · intro id hid
        dsimp only at hid
        split at hid
        · cases hid
          exact Nat.le_of_lt he
        · exact h.follows id hid
    · exact h

theorem splitAll (block : Nat) (between : List OpenElement) (count : Nat) {s : Splitting}
    (h : Splits k p label s) : Splits k p label (splitAll s count block between) := by
  induction between generalizing s count with
  | nil => exact h
  | cons e between ih => exact ih (count + 1) (splitOne h count block e)

theorem le_of_mem_addNewerThan {other new : Nat} {tag : StartTag} {l : List Formatting}
    (hl : ∀ id t, .element id t ∈ l → k ≤ id) (hn : k ≤ new) :
    ∀ id t, .element id t ∈ addNewerThan other (.element new tag) l → k ≤ id := by
  induction l with
  | nil => exact fun id t hm => nomatch hm
  | cons entry l ih =>
    intro id t hm
    rw [addNewerThan] at hm
    split at hm
    · rcases List.mem_cons.1 hm with heq | hm
      · cases heq
        exact hn
      · exact hl id t hm
    · rcases List.mem_cons.1 hm with heq | hm
      · exact hl id t (heq ▸ List.mem_cons_self)
      · exact ih (fun id t hm => hl id t (List.mem_cons_of_mem entry hm)) id t hm

/-- The second half of splitting: a clone takes the children of a young block. -/
theorem cloneInto (h : Stands k p label b) (tag : StartTag) {block formatting : Nat}
    (hblock : k < block) (follows : Option Nat) {inner kept outer : List OpenElement}
    (hinner : ∀ e ∈ inner, k < e.id) (hkept : ∀ e ∈ kept, k < e.id) (houter : Sunk k p outer) :
    Stands k p label
      (let (b, clone) := b.createElement (htmlLabel tag)
      let b := { b with arena := (b.arena.moveChildren block clone.id).append block clone.id }
      let entry := Formatting.element clone.id tag
      let b := match follows with
        | none => b.replaceEntry formatting entry
        | some other =>
          { b with formatting := addNewerThan other entry b.formatting }.forget formatting
      { b with stack := inner ++ clone :: kept ++ outer }) := by
  obtain ⟨hcloned, hclone⟩ := h.createElement (htmlLabel tag)
  have hmoved := hcloned.withArena ((hcloned.arena.moveChildren hblock
    (b.createElement (htmlLabel tag)).2.id).append block hclone)
  -- the clone is new, so that it stands above the element like the rest
  have hstack : Sunk k p (inner ++ (b.createElement (htmlLabel tag)).2 :: kept ++ outer) := by
    refine houter.append fun e he => ?_
    rcases List.mem_append.1 he with he | he
    · exact hinner e he
    · rcases List.mem_cons.1 he with rfl | he
      · exact hclone
      · exact hkept e he
  cases follows with
  | none => exact (hmoved.replaceEntry formatting (Nat.le_of_lt hclone) tag).withStack hstack
  | some other =>
    exact ((hmoved.withFormatting (le_of_mem_addNewerThan hmoved.formatting
      (Nat.le_of_lt hclone))).forget formatting).withStack hstack

/-- Splitting leaves the element where it is: the formatting element is not older, so what lies
above it is young. -/
theorem splitAround (h : Stands k p label b) {formatting block : OpenElement} (tag : StartTag)
    {inner between outer : List OpenElement}
    (hstack : b.stack = inner ++ block :: between ++ formatting :: outer)
    (hf : k ≤ formatting.id) :
    Stands k p label (b.splitAround formatting tag block inner between outer) := by
  have hroot := h.root_lt
  have hsunk := h.stack
  rw [hstack] at hsunk
  have habove := hsunk.lt_of_mem_above h.arena.part_lt hroot hf
  have hblock : k < block.id := habove block (by simp)
  have hinner : ∀ e ∈ inner, k < e.id := fun e he => habove e (by simp [he])
  have houter : Sunk k p outer :=
    hsunk.of_suffix ((List.suffix_cons formatting outer).trans (List.suffix_append _ _))
  have hsplit : Splits k p label
      (Builder.splitAll { builder := b, last := block.id } 1 block.id between) :=
    splitAll block.id between 1 ⟨h, List.forall_mem_nil _, hblock, fun id hid => nomatch hid⟩
  unfold Builder.splitAround
  generalize Builder.splitAll { builder := b, last := block.id } 1 block.id between = s at hsplit ⊢
  have hlast := hsplit.last
  have hkept : ∀ e ∈ block :: s.kept, k < e.id := List.forall_mem_cons.2 ⟨hblock, hsplit.kept⟩
  -- what was moved last goes where the formatting element stands
  have hdetached : Arena.Standing k p label (s.builder.arena.detach s.last) :=
    hsplit.builder.arena.detach (by omega) (by omega)
  have hopen : Sunk k p (inner ++ block :: s.kept ++ formatting :: outer) :=
    (hsunk.of_suffix (List.suffix_append _ _)).append
      (List.forall_mem_append.2 ⟨hinner, hkept⟩)
  have hplaced := (hsplit.builder.withParts hdetached hopen).insertIn (outer.headD default) hlast
  exact hplaced.cloneInto tag hblock s.follows hinner hkept houter

/-! #### End tags of formatting elements -/

theorem mem_of_mem_sinceBound {id : Nat} {tag : StartTag} {l : List Formatting}
    (h : (id, tag) ∈ sinceBound l) : .element id tag ∈ l := by
  induction l with
  | nil => cases h
  | cons entry l ih =>
    cases entry with
    | bound => cases h
    | element i t =>
      rw [sinceBound] at h
      rcases List.mem_cons.1 h with heq | h
      · cases heq
        exact List.mem_cons_self
      · exact List.mem_cons_of_mem _ (ih h)

theorem closeRound (h : Stands k p label b) (name : String) :
    Stands k p label (b.closeRound name).state := by
  unfold Builder.closeRound
  split
  · exact h.closeNamed name
  · next id tag hfind =>
    have hid : k ≤ id :=
      h.formatting id tag (mem_of_mem_sinceBound (List.mem_of_find?_eq_some hfind))
    split
    · exact h.forget id
    · next formatting outer hdrop =>
      -- the element of the entry and what lies above it
      have hat : formatting.id = id := by
        have hhead := List.head?_dropWhile_not (·.id ≠ id) b.stack
        rw [hdrop] at hhead
        simpa using hhead
      have hstack : b.stack = b.stack.takeWhile (·.id ≠ id) ++ formatting :: outer := by
        rw [← hdrop, List.takeWhile_append_dropWhile]
      split
      · exact h
      · dsimp only
        generalize b.stack.takeWhile (·.id ≠ id) = above at hstack ⊢
        have hsplit := List.takeWhile_append_dropWhile (p := fun e => !e.isAnyOf Names.special)
          (l := above.reverse)
        split
        · refine (h.withSuffix ?_).forget id
          rw [hstack]
          exact (List.suffix_cons formatting outer).trans (List.suffix_append _ _)
        · next block innerReversed hblock =>
          rw [hblock] at hsplit
          refine h.splitAround tag ?_ (hat.symm ▸ hid)
          generalize above.reverse.takeWhile _ = betweenReversed at hsplit ⊢
          have habove : above = innerReversed.reverse ++ [block] ++ betweenReversed.reverse := by
            rw [← List.reverse_reverse above, ← hsplit, List.reverse_append, List.reverse_cons]
          rw [hstack, habove, List.append_assoc _ [block]]
          rfl

theorem closeRounds (name : String) (rounds : Nat) (h : Stands k p label b) :
    Stands k p label (closeRounds name rounds b) := by
  induction rounds generalizing b with
  | zero => exact h
  | succ rounds ih =>
    have hround := h.closeRound name
    rw [Builder.closeRounds]
    split
    · next hr =>
      rw [hr] at hround
      exact hround
    · next hr =>
      rw [hr] at hround
      exact ih hround

theorem closeFormatting (h : Stands k p label b) (name : String) :
    Stands k p label (b.closeFormatting name) := by
  unfold Builder.closeFormatting
  split
  · split
    · exact h.pop
    · exact closeRounds name 8 h
  · exact h

theorem closeOpenLink (h : Stands k p label b) : Stands k p label b.closeOpenLink := by
  unfold Builder.closeOpenLink
  split
  · exact h
  · next id tag hfind =>
    have hid := h.formatting id tag (mem_of_mem_sinceBound (List.mem_of_find?_eq_some hfind))
    exact ((h.closeFormatting "a").forget id).removeOpen hid

end Stands

end Builder

end Shortcodes.Html
