import Shortcodes.Proofs.Html.FirstTag
import Shortcodes.Proofs.Shortcode.Link
import Shortcodes.Proofs.Shortcode.Reversal

/-!
# Whose markup reversal claims

Markup is owned if it begins with an opening tag that has the marker as a class and the element of
that tag is all there is at its top level (`Owns`). Reversal looks at the first element that the
parser leaves at the top level only. For the markup that it claims this comes to the same exactly
if nothing else is at the top level, the first tag makes an element there, and no frameset takes
the place of the body that holds it (`reverse_owns_iff`). Where the parser drops the first tag the
markup of an unmarked element is claimed (`claimed_and_not_owned`).
-/

namespace Shortcodes

open Html Html.Builder

namespace HtmlShortcode

/-- The markup begins with an opening tag that has the marker as a class. The cell `k` that the tag
makes is the one at the top level right behind the tag, and at the end. -/
def Owns (s : HtmlShortcode) (markup : Text) : Prop :=
  ∃ first k, Document.firstTag? markup = some first ∧
    (htmlLabel first).hasClass s.marker = true ∧
    (opened first).arena.topLevelIds = [k] ∧
    (Document.finalState markup).arena.topLevelIds = [k]

/-- The markup begins with an opening tag that makes an element at the top level, and the head or
body that holds it is still a part of the document at the end. -/
def KeepsFirst (markup : Text) : Prop :=
  ∃ first, Document.firstTag? markup = some first ∧ first.name ∉ placeless ∧
    partOf first ∈ ((Document.finalState markup).arena.cell 1).children

/-- The nodes that a fragment counts are those of the cells at the top level. -/
theorem topLevelNodes_read {markup : Text}
    (hsize : 2 ≤ (Document.finalState markup).arena.size) :
    ∃ fuel, Fragment.topLevelNodes (Document.read markup) =
      (Document.finalState markup).arena.topLevelIds.filterMap fun id =>
        (Document.finalState markup).arena.nodeOf? fuel
          ((Document.finalState markup).arena.cell id) := by
  obtain ⟨fuel, hfuel⟩ := Nat.exists_eq_add_of_le' hsize
  refine ⟨fuel, ?_⟩
  unfold Document.read
  dsimp only
  rw [hfuel]
  exact Arena.topLevelNodes_toNodes _ fuel

theorem topLevel_of_read? {markup : Text} {f : Fragment} (h : Fragment.read? markup = some f)
    (hsize : 2 ≤ (Document.finalState markup).arena.size) :
    f.topLevel = (Document.finalState markup).arena.topLevelIds.length := by
  obtain ⟨fuel, hnodes⟩ := topLevelNodes_read hsize
  unfold Fragment.read? at h
  obtain ⟨root, -, rfl⟩ := Option.map_eq_some_iff.1 h
  show (Fragment.topLevelNodes (Document.read markup)).length = _
  rw [hnodes]
  exact Arena.length_filterMap_topLevelIds _ fuel

/-- The root of a fragment is the element that is alone at the top level. -/
theorem label_of_read? {markup : Text} {f : Fragment} (h : Fragment.read? markup = some f)
    {k p : Nat} {label : Label} (hs : (Document.finalState markup).arena.Standing k p label)
    (hk : (Document.finalState markup).arena.topLevelIds = [k]) : f.root.label = label := by
  have hlt := hs.lt_size
  have hroot := hs.root_lt
  have hpart := hs.part_lt
  have hsize : 2 ≤ (Document.finalState markup).arena.size := by omega
  obtain ⟨fuel, hnodes⟩ := topLevelNodes_read hsize
  unfold Fragment.read? at h
  obtain ⟨root, hhead, rfl⟩ := Option.map_eq_some_iff.1 h
  rw [hnodes, hk, List.filterMap_cons, hs.nodeOf?_self fuel] at hhead
  cases hhead
  rfl

variable {s : HtmlShortcode}

/-- Markup that is claimed is owned if one node is at its top level and the first tag's element
keeps its place. -/
theorem Claims.owns_iff {f : Fragment} {markup tag : Text} (h : s.Claims f markup tag) :
    s.Owns markup ↔ f.topLevel = 1 ∧ KeepsFirst markup := by
  constructor
  · rintro ⟨first, k, hfirst, -, hopened, hfinal⟩
    have hplace : first.name ∉ placeless := by
      intro hm
      rw [topLevelIds_opened_of_mem hm] at hopened
      cases hopened
    obtain ⟨k', label, hstands, htop, -⟩ := placed_opened hplace
    rw [htop] at hopened
    cases hopened
    -- the element stands where it was put, and its place says what else is on the top level
    have hend := (Document.stands_finalState hfirst hstands).arena
    obtain ⟨hlength, hpart⟩ := hend.topLevelIds_eq_iff.1 hfinal
    have hlt := hend.lt_size
    have hroot := hend.root_lt
    have hpartlt := hend.part_lt
    refine ⟨?_, first, hfirst, hplace, hpart⟩
    rw [topLevel_of_read? h.read (by omega), hlength]
  · rintro ⟨hlength, first, hfirst, hplace, hpart⟩
    obtain ⟨k, label, hstands, htop, hclass⟩ := placed_opened hplace
    have hend := (Document.stands_finalState hfirst hstands).arena
    have hlt := hend.lt_size
    have hroot := hend.root_lt
    have hpartlt := hend.part_lt
    rw [topLevel_of_read? h.read (by omega)] at hlength
    have hfinal := hend.topLevelIds_eq_iff.2 ⟨hlength, hpart⟩
    refine ⟨first, k, hfirst, ?_, htop, hfinal⟩
    rw [← hclass, ← label_of_read? h.read hend hfinal]
    exact h.hasClass

/-! ### Markup that is not owned -/

open Link

/-- A table cell that shows the marker of links in its title only, with a link in it. -/
def unmarkedCell : Text :=
  "<td title=\"shortcode-link\"><a href=\"x\" class=\"shortcode-link\">y</a></td>".toList

/-- A marked paragraph that a block ends before its end tag. -/
def brokenParagraph : Text := "<p class=\"shortcode-link\">a<div>b</div></p>".toList

theorem passages_unmarkedCell :
    link.passages unmarkedCell = .ok [.claimed unmarkedCell "[%link x y %]".toList] :=
  rfl

theorem passages_brokenParagraph :
    link.passages brokenParagraph = .ok [.claimed brokenParagraph "[%link \"\" a %]".toList] :=
  rfl

theorem reverse_unmarkedCell : link.reverse unmarkedCell = .ok "[%link x y %]".toList := by
  unfold reverse
  rw [passages_unmarkedCell]
  rfl

theorem reverse_brokenParagraph :
    link.reverse brokenParagraph = .ok "[%link \"\" a %]".toList := by
  unfold reverse
  rw [passages_brokenParagraph]
  rfl

/-- The parser drops the cell's tag, so nothing of it is at the top level. -/
theorem not_owns_unmarkedCell : ¬link.Owns unmarkedCell := by
  rintro ⟨first, k, hfirst, -, hopened, -⟩
  have hcell : Document.firstTag? unmarkedCell =
    some ⟨"td", [("title", "shortcode-link".toList)], false⟩ := rfl
  rw [hcell] at hfirst
  cases hfirst
  rw [topLevelIds_opened_of_mem (by decide)] at hopened
  cases hopened

/-- The block stands beside the paragraph, and its text is lost. -/
theorem not_owns_brokenParagraph : ¬link.Owns brokenParagraph := by
  rintro ⟨first, k, -, -, -, hfinal⟩
  have hlength : (Document.finalState brokenParagraph).arena.topLevelIds.length = 3 := rfl
  rw [hfinal] at hlength
  cases hlength

/-- Reversal claims markup that is not the shortcode's: that of an element without the marker among
its classes, and text beside the marked element. -/
theorem claimed_and_not_owned :
    link.isReversible = true ∧
      link.reverse unmarkedCell = .ok "[%link x y %]".toList ∧
      link.passages unmarkedCell = .ok [.claimed unmarkedCell "[%link x y %]".toList] ∧
      ¬link.Owns unmarkedCell ∧
      link.reverse brokenParagraph = .ok "[%link \"\" a %]".toList ∧
      link.passages brokenParagraph = .ok [.claimed brokenParagraph "[%link \"\" a %]".toList] ∧
      ¬link.Owns brokenParagraph :=
  ⟨by decide, reverse_unmarkedCell, passages_unmarkedCell, not_owns_unmarkedCell,
    reverse_brokenParagraph, passages_brokenParagraph, not_owns_brokenParagraph⟩

/-! ### What is owned -/

/-- A text that reversal takes splits into what stays and what is claimed. All of it stays but for
claimed markup, and of that what is owned is told by its top level and its first tag. -/
theorem reverse_owns_iff {t r : Text} (h : s.reverse t = .ok r) :
    ∃ ps, s.passages t = .ok ps ∧ ps.flatMap Passage.source = t ∧
      ps.flatMap Passage.result = r ∧
      ∀ markup tag, .claimed markup tag ∈ ps → ∃ f, s.Claims f markup tag ∧
        (s.Owns markup ↔ f.topLevel = 1 ∧ KeepsFirst markup) := by
  obtain ⟨ps, hps, hresult⟩ := reverse_eq_ok h
  obtain ⟨hsource, hclaims⟩ := passages_eq_ok hps
  refine ⟨ps, hps, hsource, hresult, fun markup tag hm => ?_⟩
  obtain ⟨f, hf⟩ := hclaims markup tag hm
  exact ⟨f, hf, hf.owns_iff⟩

/-- The cell is claimed although its tag makes no element. -/
theorem reverse_owns_iff_unmarkedCell :
    ∃ f, link.Claims f unmarkedCell "[%link x y %]".toList ∧
      (link.Owns unmarkedCell ↔ f.topLevel = 1 ∧ KeepsFirst unmarkedCell) := by
  obtain ⟨ps, hps, -, -, hclaimed⟩ := reverse_owns_iff reverse_unmarkedCell
  rw [passages_unmarkedCell] at hps
  cases hps
  exact hclaimed _ _ List.mem_cons_self

end HtmlShortcode

end Shortcodes
