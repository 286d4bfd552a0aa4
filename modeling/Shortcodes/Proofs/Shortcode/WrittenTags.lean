import Mathlib.Data.List.Find
import Shortcodes.Proofs.Shortcode.Built
import Shortcodes.Proofs.Shortcode.Reversal

/-!
# The tags that reversal writes

A tag that reversal writes is read as one tag of the shortcode, and its words can be told apart
(`exists_read?_tagOf`). Whether the words bind is another matter: a path that finds nothing in the
markup makes the value empty, and a required input may not be empty. So a written tag binds exactly
if the path of every required input finds something (`reverse_binds_iff`). Markup that nobody
rendered may well be without it, and keys that cannot be told apart from words, or required inputs
without a path, make tags that do not bind either (`not_forall_expandable`).
-/

namespace Shortcodes.HtmlShortcode

open Html

variable {s : HtmlShortcode} {root : Element}

/-- Tags can carry the inputs: by position any, by key those whose names are keys, as long as a
required one has a path. -/
def CarriesInputs (s : HtmlShortcode) : Prop :=
  s.signature.binding = .positional ∨
    ∀ p ∈ s.signature.inputs.zip s.paths,
      Signature.IsKey p.1.name ∧ (p.1.required = true → p.2.isSome = true)

/-- Whether an input must have a value and its path finds none in an element, or an empty one. -/
def misses (root : Element) (p : Input × Option Lookup) : Bool :=
  match p.2 with
  | some path => p.1.required && (path.value? root).getD [] = []
  | none => false

/-- A tag that is the shortcode's alone and can be expanded. -/
def Expandable (s : HtmlShortcode) (tag : Text) : Prop :=
  ∃ read given bound, Tag.scan tag = [⟨read, 0⟩] ∧ read.name = s.name ∧
    read.given = .ok given ∧ s.signature.bind given = .ok bound

/-! ### Required inputs have paths -/

/-- Reversal by position asks for a path wherever there is no default, and a required input has
none. -/
theorem isSome_path (hr : s.isReversible = true) (hc : s.CarriesInputs)
    {p : Input × Option Lookup} (hp : p ∈ s.signature.inputs.zip s.paths)
    (hq : p.1.required = true) : p.2.isSome = true := by
  rcases hc with hpos | hkeys
  · have hrestores : s.canRestore p.1 p.2 = true := List.all_eq_true.1 hr p hp
    have hdefault := s.signature.default_eq_none (List.of_mem_zip hp).1 hq
    simpa [canRestore, hpos, hdefault] using hrestores
  · exact (hkeys p hp).2 hq

/-- An input lacks its value if its path misses it. -/
theorem lacks_restoreAll (hr : s.isReversible = true) (hc : s.CarriesInputs)
    {value : Input → Text} {p : Input × Option Lookup}
    (hp : p ∈ s.signature.inputs.zip s.paths)
    (hv : p.1.required = true → value p.1 = (s.restoreAll root).getOrEmpty p.1.name) :
    Signature.lacks value p.1 = misses root p := by
  -- nothing lacks an optional value, and a required one is looked up along a path
  obtain ⟨input, path⟩ := p
  cases hq : input.required with
  | false => cases path <;> simp [Signature.lacks, misses, hq]
  | true =>
    obtain ⟨path, rfl⟩ := Option.isSome_iff_exists.1 (isSome_path hr hc hp hq)
    rw [Signature.lacks, misses, hv hq, getOrEmpty_restoreAll s root hp]
    simp only [restore, hq, Bool.true_and]
    exact decide_eq_decide.2 Iff.rfl

/-! ### Reading written tags -/

/-- An input that must have a value gets what the arguments have for it, be the pair left out or
not: its fallback is empty. -/
theorem restored_of_required {signature : Signature} {omission : Omission} {args : Arguments}
    {input : Input} (hi : input ∈ signature.inputs) (hq : input.required = true) :
    Signature.restored omission args input = args.getOrEmpty input.name := by
  rw [Signature.restored]
  split
  · next h =>
    have hfallback := signature.fallback_eq_nil hi hq
    cases omission <;> simp [Signature.omits, hfallback] at h <;> rw [h, hfallback]
  · rfl

/-- A written tag is read back with the shortcode's name, and binding goes by values that are
those of the element for all required inputs. -/
theorem exists_read?_tagOf (hb : s.Built) (hc : s.CarriesInputs) (root : Element) (tail : Text) :
    ∃ tag given value, Tag.read? (s.tagOf root ++ tail) = some (tag, tail) ∧
      tag.source = s.tagOf root ∧ tag.name = s.name ∧ tag.given = .ok given ∧
      s.signature.bind given =
        (Signature.resolved s.name value s.signature.inputs).map (fun values => ⟨values, []⟩) ∧
      ∀ input ∈ s.signature.inputs, input.required = true →
        value input = (s.restoreAll root).getOrEmpty input.name := by
  cases hs : s.signature.binding with
  | positional =>
    obtain ⟨tag, given, hread, hsource, hname, hgiven, hbind⟩ :=
      Signature.exists_read?_positional hs (s.restoreAll root) tail
    exact ⟨tag, given, _, hread, hsource, hname, hgiven, hbind, fun _ _ _ => rfl⟩
  | keyword policy =>
    have hkeys : ∀ input ∈ s.signature.inputs, Signature.IsKey input.name := by
      intro input hi
      rw [← hb.map_zip] at hi
      obtain ⟨p, hp, rfl⟩ := List.mem_map.1 hi
      rcases hc with hpos | hkeys
      · rw [hs] at hpos
        cases hpos
      · exact (hkeys p hp).1
    obtain ⟨tag, given, hread, hsource, hname, hgiven, hbind⟩ :=
      Signature.exists_read?_keyword hs hkeys (s.restoreAll root) tail
    exact ⟨tag, given, _, hread, hsource, hname, hgiven, hbind,
      fun input hi hq => restored_of_required hi hq⟩

/-- The first input that lacks a value is the first whose path misses it. -/
theorem find?_lacks (root : Element) (hb : s.Built) (hr : s.isReversible = true)
    (hc : s.CarriesInputs) {value : Input → Text}
    (hv : ∀ input ∈ s.signature.inputs, input.required = true →
      value input = (s.restoreAll root).getOrEmpty input.name) :
    s.signature.inputs.find? (Signature.lacks value) =
      ((s.signature.inputs.zip s.paths).find? (misses root)).map (·.1) := by
  calc s.signature.inputs.find? (Signature.lacks value)
      = ((s.signature.inputs.zip s.paths).map (·.1)).find? (Signature.lacks value) := by
        rw [hb.map_zip]
    _ = ((s.signature.inputs.zip s.paths).find? (Signature.lacks value ∘ (·.1))).map (·.1) :=
        List.find?_map ..
    _ = _ := by
        congr 1
        refine List.find?_congr fun p hp => ?_
        exact lacks_restoreAll hr hc hp (hv p.1 (List.of_mem_zip hp).1)

/-- A written tag is the shortcode's and all of its text, and it binds exactly if no path misses a
required value; the first that does is reported. -/
theorem binds_tagOf (hb : s.Built) (hr : s.isReversible = true) (hc : s.CarriesInputs)
    (root : Element) :
    ∃ read given, Tag.scan (s.tagOf root) = [⟨read, 0⟩] ∧ read.source = s.tagOf root ∧
      read.name = s.name ∧ read.given = .ok given ∧
      ((∃ bound, s.signature.bind given = .ok bound) ↔
        ∀ p ∈ s.signature.inputs.zip s.paths, misses root p = false) ∧
      ∀ p, (s.signature.inputs.zip s.paths).find? (misses root) = some p →
        s.signature.bind given = .error (.missingInput s.name p.1.name) := by
  obtain ⟨read, given, value, hread, hsource, hname, hgiven, hbind, hv⟩ :=
    exists_read?_tagOf hb hc root []
  have hfind := find?_lacks root hb hr hc hv
  rw [List.append_nil] at hread
  refine ⟨read, given, Tag.scan_of_read? hread, hsource, hname, hgiven, ?_, fun p hp => ?_⟩
  -- binding succeeds if nothing is lacking, and then no path misses
  · rw [hbind, Signature.resolved, hfind]
    cases hmiss : (s.signature.inputs.zip s.paths).find? (misses root) with
    | none => simpa [Except.map] using List.find?_eq_none.1 hmiss
    | some p =>
      simp only [Option.map_some, Except.map, reduceCtorEq, exists_false, false_iff]
      intro hall
      have htrue := List.find?_some hmiss
      rw [hall p (List.mem_of_find?_eq_some hmiss)] at htrue
      cases htrue
  · rw [hbind, Signature.resolved, hfind, hp]
    rfl

/-! ### Reversal -/

/-- Where reversal takes a text, each tag that it writes is read as one tag of the shortcode. The
tag binds exactly if the path of every required input finds a value in the element whose place it
takes, and otherwise the first of these inputs is reported missing. -/
theorem reverse_binds_iff (hb : s.Built) (hc : s.CarriesInputs) {t r : Text}
    (h : s.reverse t = .ok r) :
    ∃ ps, s.passages t = .ok ps ∧ ps.flatMap Passage.source = t ∧
      ps.flatMap Passage.result = r ∧
      ∀ markup tag, .claimed markup tag ∈ ps → ∃ f read given, s.Claims f markup tag ∧
        Tag.scan tag = [⟨read, 0⟩] ∧ read.source = tag ∧ read.name = s.name ∧
        read.given = .ok given ∧
        ((∃ bound, s.signature.bind given = .ok bound) ↔
          ∀ p ∈ s.signature.inputs.zip s.paths, misses f.root p = false) ∧
        ∀ p, (s.signature.inputs.zip s.paths).find? (misses f.root) = some p →
          s.signature.bind given = .error (.missingInput s.name p.1.name) := by
  obtain ⟨ps, hps, hresult⟩ := reverse_eq_ok h
  obtain ⟨hsource, hclaims⟩ := passages_eq_ok hps
  refine ⟨ps, hps, hsource, hresult, fun markup tag hm => ?_⟩
  obtain ⟨f, hf⟩ := hclaims markup tag hm
  obtain ⟨read, given, hbinds⟩ := binds_tagOf hb (isReversible_of_reverse h) hc f.root
  rw [← hf.tag_eq] at hbinds
  exact ⟨f, read, given, hf, hbinds⟩

/-! ### Markup that nobody rendered -/

/-- An image by its address, which a tag must give by key. -/
def imageDeclaration : Declaration :=
  ⟨"img".toList, [{ name := "src".toList, path := some "@src".toList, required := true }],
    .keyword {}⟩

/-- The shortcode for images, with the default marker. -/
def image : HtmlShortcode :=
  { signature := ⟨imageDeclaration, by decide⟩
    template := .format "<img src=\"\x7bsrc\x7d\">".toList
    marker := "shortcode-img".toList
    paths := [some ⟨"@src".toList, [(.child, .attribute "src".toList)]⟩] }

theorem ofSignature_image : ofSignature image.signature image.template = .ok image := by
  rfl

theorem built_image : image.Built := built_of_ofSignature ofSignature_image

theorem carriesInputs_image : image.CarriesInputs := by
  refine .inr fun p hp => ?_
  obtain rfl := List.mem_singleton.1 hp
  exact ⟨⟨by decide, Text.forall_mem_of_all (by decide), Text.forall_mem_of_all (by decide),
    by decide⟩, fun _ => rfl⟩

/-- The only input of images, and where its value stands. -/
def sourcePair : Input × Option Lookup :=
  ⟨{ name := "src".toList, path := some "@src".toList, required := true },
    some ⟨"@src".toList, [(.child, .attribute "src".toList)]⟩⟩

/-- A marked image with an address. -/
def sourced : Text := "<img src=\"a.png\" class=\"shortcode-img\">".toList

/-- A marked image without an address. -/
def sourceless : Text := "<img class=\"shortcode-img\">".toList

/-- Of two images the one with an address binds. -/
theorem reverse_binds_iff_images :
    image.Expandable "[%img src=a.png %]".toList ∧
      ∃ f read given, image.Claims f sourceless "[%img %]".toList ∧
        Tag.scan "[%img %]".toList = [⟨read, 0⟩] ∧ read.given = .ok given ∧
        image.signature.bind given = .error (.missingInput "img".toList "src".toList) := by
  have hpassages : image.passages (sourced ++ sourceless) =
      .ok [.claimed sourced "[%img src=a.png %]".toList,
        .claimed sourceless "[%img %]".toList] :=
    rfl
  have hreverse : image.reverse (sourced ++ sourceless) =
      .ok "[%img src=a.png %][%img %]".toList := by
    unfold reverse
    rw [hpassages]
    rfl
  obtain ⟨ps, hps, -, -, hclaimed⟩ := reverse_binds_iff built_image carriesInputs_image hreverse
  obtain rfl := Except.ok.inj (hps.symm.trans hpassages)
  have hinputs : image.signature.inputs.zip image.paths = [sourcePair] := rfl
  obtain ⟨f, read, given, hf, hscan, -, hname, hgiven, hbinds, -⟩ :=
    hclaimed sourced _ List.mem_cons_self
  obtain ⟨f', read', given', hf', hscan', -, -, hgiven', -, hmissing⟩ :=
    hclaimed sourceless _ (List.mem_cons_of_mem _ List.mem_cons_self)
  have hfinds : (Fragment.read? sourced).map (misses ·.root sourcePair) = some false := rfl
  have hmisses : (Fragment.read? sourceless).map (misses ·.root sourcePair) = some true := rfl
  rw [hf.read] at hfinds
  rw [hf'.read] at hmisses
  constructor
  · obtain ⟨bound, hbound⟩ := hbinds.2 fun p hp => by
      rw [hinputs, List.mem_singleton] at hp
      rw [hp]
      exact Option.some.inj hfinds
    exact ⟨read, given, bound, hscan, hname, hgiven, hbound⟩
  · refine ⟨f', read', given', hf', hscan', hgiven', hmissing sourcePair ?_⟩
    rw [hinputs, List.find?_cons_of_pos (Option.some.inj hmisses)]

/-- A tag whose words do not bind cannot be expanded. -/
theorem not_expandable_of_error {tag : Text} {read : Tag} {given : Given} {e : Failure}
    (hscan : Tag.scan tag = [⟨read, 0⟩]) (hgiven : read.given = .ok given)
    (hbind : s.signature.bind given = .error e) : ¬s.Expandable tag := by
  rintro ⟨read', given', bound, hscan', -, hgiven', hbind'⟩
  rw [hscan'] at hscan
  cases hscan
  rw [hgiven'] at hgiven
  cases hgiven
  rw [hbind'] at hbind
  cases hbind

/-- Whether all tags that reversal writes can be expanded. -/
def WritesExpandable (s : HtmlShortcode) : Prop :=
  ∀ t r ps, s.reverse t = .ok r → s.passages t = .ok ps →
    ∀ markup tag, .claimed markup tag ∈ ps → s.Expandable tag

theorem not_writesExpandable {markup tag : Text} (hr : s.isReversible = true)
    (hpassages : s.passages markup = .ok [.claimed markup tag]) (h : ¬s.Expandable tag) :
    ¬s.WritesExpandable := by
  intro hall
  have hreverse : s.reverse markup = .ok tag := by
    rw [reverse, if_pos hr, hpassages]
    exact congrArg Except.ok (List.append_nil tag)
  exact h (hall markup tag _ hreverse hpassages markup tag List.mem_cons_self)

theorem passages_sourceless :
    image.passages sourceless = .ok [.claimed sourceless "[%img %]".toList] :=
  rfl

/-- The tag that is written for an image without an address lacks the address. -/
theorem not_writesExpandable_image : ¬image.WritesExpandable := by
  have hscan : Tag.scan "[%img %]".toList = [⟨⟨"img".toList, [], "[%img %]".toList⟩, 0⟩] := by
    decide
  exact not_writesExpandable (by decide) passages_sourceless
    (not_expandable_of_error hscan rfl rfl)

/-- A shortcode with one optional input by key, whose name has a blank. -/
def parted : HtmlShortcode :=
  { signature := ⟨⟨['k'], [{ name := "a b".toList, path := some "@title".toList }],
      .keyword {}⟩, by decide⟩
    template := .format "<b title=\"\x7ba b\x7d\"></b>".toList
    marker := "shortcode-k".toList
    paths := [some ⟨"@title".toList, [(.child, .attribute "title".toList)]⟩] }

theorem built_parted : parted.Built :=
  built_of_ofSignature (rfl : ofSignature parted.signature parted.template = .ok parted)

/-- The first part of the name is read as a word by itself. -/
theorem not_writesExpandable_parted : ¬parted.WritesExpandable := by
  have hpassages : parted.passages "<b title=\"x\" class=\"shortcode-k\"></b>".toList =
      .ok [.claimed "<b title=\"x\" class=\"shortcode-k\"></b>".toList "[%k a b=x %]".toList] :=
    rfl
  have hscan : Tag.scan "[%k a b=x %]".toList =
      [⟨⟨['k'], "a b=x".toList, "[%k a b=x %]".toList⟩, 0⟩] := by
    decide
  exact not_writesExpandable (by decide) hpassages (not_expandable_of_error hscan rfl rfl)

/-- A shortcode with one required input by key, which reversal cannot look up. -/
def pathless : HtmlShortcode :=
  { signature := ⟨⟨['k'], [{ name := ['a'], required := true }], .keyword {}⟩, by decide⟩
    template := .format "<b></b>".toList
    marker := "shortcode-k".toList
    paths := [none] }

theorem built_pathless : pathless.Built :=
  built_of_ofSignature (rfl : ofSignature pathless.signature pathless.template = .ok pathless)

theorem not_writesExpandable_pathless : ¬pathless.WritesExpandable := by
  have hpassages : pathless.passages "<b class=\"shortcode-k\"></b>".toList =
      .ok [.claimed "<b class=\"shortcode-k\"></b>".toList "[%k %]".toList] :=
    rfl
  have hscan : Tag.scan "[%k %]".toList = [⟨⟨['k'], [], "[%k %]".toList⟩, 0⟩] := by decide
  exact not_writesExpandable (by decide) hpassages (not_expandable_of_error hscan rfl rfl)

/-- Not every tag that reversal writes can be expanded: a value may be missing though tags can carry
the inputs, a name may not be a key though nothing is required, and a required input may have no
path though all names are keys. -/
theorem not_forall_expandable :
    (¬∀ s : HtmlShortcode, s.Built → s.CarriesInputs → s.WritesExpandable) ∧
      (¬∀ s : HtmlShortcode, s.Built →
        (∀ input ∈ s.signature.inputs, input.required = false) → s.WritesExpandable) ∧
      ¬∀ s : HtmlShortcode, s.Built →
        (∀ input ∈ s.signature.inputs, Signature.IsKey input.name) →
        (∀ root, ∀ p ∈ s.signature.inputs.zip s.paths, misses root p = false) →
        s.WritesExpandable := by
  refine ⟨fun h => ?_, fun h => ?_, fun h => ?_⟩
  · exact not_writesExpandable_image (h image built_image carriesInputs_image)
  · refine not_writesExpandable_parted (h parted built_parted fun input hi => ?_)
    rw [List.mem_singleton.1 hi]
  · refine not_writesExpandable_pathless (h pathless built_pathless (fun input hi => ?_) ?_)
    · rw [List.mem_singleton.1 hi]
      exact ⟨by decide, Text.forall_mem_of_all (by decide), Text.forall_mem_of_all (by decide),
        by decide⟩
    · intro root p hp
      rw [List.mem_singleton.1 hp]
      rfl

end Shortcodes.HtmlShortcode
