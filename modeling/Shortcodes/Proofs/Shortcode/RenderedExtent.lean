import Shortcodes.Proofs.Html.Extent
import Shortcodes.Proofs.Shortcode.Built
import Shortcodes.Proofs.Shortcode.Reversal

/-!
# Where rendered markup ends

Marked markup is one written element. If its tags are loose tags and the search for its closing tag
goes through its content, reversal sees its opening tag first and takes the element whole, in front
of any text, unless it takes a void element for one with content (`mark_extent`). There are void
elements that it does not know, and raw text and names of tags that mislead it, and so there is
rendered markup that it fails on, takes in part or does not see (`not_taken_whole`).
-/

namespace Shortcodes

open Html

/-- Marked markup is the element that was read, with the marker added. Reversal does not see its
opening tag if its name is none of a loose tag. If its tags are loose and its content can be gone
through, the first loose tag of the markup and any text behind it is the opening tag, and its extent
is the element exactly if reversal knows whether the element is void. Then a shortcode that claims
the markup turns it into one tag; on a void element that it does not know it fails. -/
theorem mark_extent {markup marker F : Text} (h : mark markup marker = .ok F) :
    ∃ f, Fragment.read? markup = some f ∧
      let e := (f.addClass marker).root
      let name := e.label.name.toList
      F = e.written ∧
      (LooseTag.isName name = false → ∀ tail seen selfClosing,
        LooseTag.at? (F ++ tail) = some seen → seen.tag ≠ .opening name selfClosing) ∧
      (f.root.label.isLoose = true → f.root.Passable →
        (∀ tail, LooseTag.at? (F ++ tail) = some (e.sighting tail) ∧
          ((e.sighting tail).extent? = some (F, tail) ↔
            e.label.isVoid = LooseTag.standsAlone name false)) ∧
        ∀ s : HtmlShortcode, s.marker = marker → s.isReversible = true →
          Text.has marker e.label.openingTag = true → ∀ root, s.claim? F = some root →
            (e.label.isVoid = LooseTag.standsAlone name false →
              s.reverse F = .ok (s.tagOf root)) ∧
            (e.label.isVoid = true → LooseTag.standsAlone name false = false →
              s.reverse F = .error (.unclosedMarkup s.name F))) := by
  obtain ⟨f, hread, -, rfl⟩ := mark_eq_ok_iff.1 h
  refine ⟨f, hread, rfl, fun hname tail seen selfClosing hat htag => ?_, fun hloose hpass => ?_⟩
  · rw [LooseTag.isName_of_at? hat htag] at hname
    cases hname
  have hwritten : (f.addClass marker).written = (f.addClass marker).root.written := rfl
  rw [hwritten]
  -- the marker changes neither the names of the root nor what stands below it
  have hpass' := Element.passable_addClass hpass marker
  have hloose' : (f.addClass marker).root.label.isLoose = true :=
    (Label.isLoose_addClass f.root.label marker).trans hloose
  generalize (f.addClass marker).root = e at hpass' hloose' ⊢
  refine ⟨fun tail => ⟨Element.at?_written hloose' tail,
    Element.extent?_eq_iff hloose' hpass' tail⟩, fun s hmarker hr hshown root hclaim => ?_⟩
  rw [← hmarker] at hshown
  rw [HtmlShortcode.reverse, if_pos hr]
  constructor
  · intro hknown
    rw [HtmlShortcode.passages_written hloose' hpass' hknown hshown hclaim]
    simp [Except.map, HtmlShortcode.Passage.result]
  · intro hvoid halone
    rw [HtmlShortcode.passages_written_unknown hloose' hvoid halone hshown hclaim]
    rfl

/-! ### Rendered markup at work -/

/-- A block with a block, a void element, a script and a comment in it. -/
def block : Text :=
  "<div title=\"a>b\"><div>&lt;/div></div><br><script>1<2</script><!-- </div> --></div>".toList

/-- The block as it is read. -/
def blockRead : Fragment :=
  { root :=
      { label := ⟨.html, "div", [{ name := "title", value := "a>b".toList }]⟩
        children := [.element ⟨.html, "div", []⟩ [.text "</div>".toList],
          .element ⟨.html, "br", []⟩ [], .element ⟨.html, "script", []⟩ [.text "1<2".toList],
          .comment " </div> ".toList] }
    topLevel := 1 }

/-- The block with a marker. -/
def markedBlock : Text :=
  ("<div title=\"a>b\" class=\"m\"><div>&lt;/div&gt;</div><br><script>1<2</script>" ++
    "<!-- </div> --></div>").toList

set_option maxRecDepth 10000 in
theorem read?_block : Fragment.read? block = some blockRead := by
  rfl

/-- The marked block is taken whole in front of another closing tag. -/
theorem mark_extent_block :
    mark block ['m'] = .ok markedBlock ∧
      ∃ seen, LooseTag.at? (markedBlock ++ "</div>".toList) = some seen ∧
        seen.extent? = some (markedBlock, "</div>".toList) := by
  have hmark : mark block ['m'] = .ok markedBlock := mark_of_read read?_block rfl (by decide)
  refine ⟨hmark, ?_⟩
  obtain ⟨f, hread, -, -, hextent⟩ := mark_extent hmark
  obtain rfl := Option.some.inj (hread.symm.trans read?_block)
  have hpass : blockRead.root.Passable := fun _ => Node.passableAll_of_isPassableAll _ (by decide)
  obtain ⟨hsight, hwhole⟩ := (hextent (by decide) hpass).1 "</div>".toList
  exact ⟨_, hsight, hwhole.2 (by decide)⟩

/-- A shortcode without inputs. -/
def constant (template : String) : HtmlShortcode :=
  { signature := ⟨⟨['k'], [], .positional⟩, by decide⟩
    template := .format template.toList
    marker := "shortcode-k".toList
    paths := [] }

theorem convert_constant {template : String} {f : Fragment} {F : Text}
    (hrender : (Template.format template.toList).render ⟨[], []⟩ .empty = .ok template.toList)
    (hread : Fragment.read? template.toList = some f) (hone : f.topLevel = 1)
    (hwritten : (f.addClass "shortcode-k".toList).written = F) :
    (constant template).convert {} .empty = .ok F :=
  HtmlShortcode.convert_of_mark rfl hrender (mark_of_read hread hone hwritten)

set_option maxRecDepth 10000 in
/-- Rendered markup on which reversal fails, of which it takes a part, and which it does not see: a
void element that it does not know, a closing tag in raw text, and a name with an underscore. -/
theorem not_taken_whole :
    (constant "<keygen>").convert {} .empty = .ok "<keygen class=\"shortcode-k\">".toList ∧
      (constant "<keygen>").reverse "<keygen class=\"shortcode-k\">".toList =
        .error (.unclosedMarkup ['k'] "<keygen class=\"shortcode-k\">".toList) ∧
      (constant "<div><script>'</div>'</script></div>").convert {} .empty =
        .ok "<div class=\"shortcode-k\"><script>'</div>'</script></div>".toList ∧
      (constant "<div><script>'</div>'</script></div>").reverse
          "<div class=\"shortcode-k\"><script>'</div>'</script></div>".toList =
        .ok "[%k %]'</script></div>".toList ∧
      (constant "<a_b></a_b>").convert {} .empty =
        .ok "<a_b class=\"shortcode-k\"></a_b>".toList ∧
      (constant "<a_b></a_b>").reverse "<a_b class=\"shortcode-k\"></a_b>".toList =
        .ok "<a_b class=\"shortcode-k\"></a_b>".toList := by
  have hkeygen : Fragment.read? "<keygen>".toList = some ⟨⟨⟨.html, "keygen", []⟩, []⟩, 1⟩ := rfl
  have hscript : Fragment.read? "<div><script>'</div>'</script></div>".toList =
      some ⟨⟨⟨.html, "div", []⟩,
        [.element ⟨.html, "script", []⟩ [.text "'</div>'".toList]]⟩, 1⟩ := rfl
  have hunderscore : Fragment.read? "<a_b></a_b>".toList =
      some ⟨⟨⟨.html, "a_b", []⟩, []⟩, 1⟩ := rfl
  exact ⟨convert_constant (by decide) hkeygen rfl rfl, rfl,
    convert_constant (by decide) hscript rfl rfl, rfl,
    convert_constant (by decide) hunderscore rfl rfl, rfl⟩

end Shortcodes
