import Shortcodes.Proofs.Html.Marking
import Shortcodes.Proofs.Outcome
import Shortcodes.Proofs.Signature.Keyword
import Shortcodes.Shortcode.Html

/-!
# HTML shortcodes as they are built

An HTML shortcode is built from a signature, whose look-up paths are read, and may then be given
another marker. What is built this way has a path or none for every input, in order, and its marker
is a class name (`built_iff`).
-/

namespace Shortcodes.HtmlShortcode

open Html

/-- The paths are those of the signature's inputs, and the marker is a class name. -/
structure Built (s : HtmlShortcode) : Prop where
  paths : readPaths s.signature.name s.signature.inputs = .ok s.paths
  marker : IsMarker s.marker

variable {s base : HtmlShortcode}

theorem ofSignature_eq_ok_iff {signature : Signature} {template : Template} :
    ofSignature signature template = .ok s ↔
      readPaths signature.name signature.inputs = .ok s.paths ∧ s.signature = signature ∧
        s.template = template ∧ s.marker = markerPrefix ++ signature.name := by
  rw [ofSignature, Except.bind_eq_ok_iff]
  constructor
  · rintro ⟨paths, hpaths, h⟩
    cases h
    exact ⟨hpaths, rfl, rfl, rfl⟩
  · rintro ⟨hpaths, rfl, rfl, hmarker⟩
    refine ⟨s.paths, hpaths, ?_⟩
    rw [← hmarker]
    rfl

theorem withMarker_eq_ok_iff {marker : Text} :
    base.withMarker marker = .ok s ↔ IsMarker marker ∧ s = { base with marker } := by
  rw [withMarker]
  split
  · next h =>
    simp only [Bool.or_eq_true, decide_eq_true_eq, List.any_eq_true] at h
    simp only [reduceCtorEq, false_iff, not_and]
    rintro ⟨hne, hblank⟩ -
    rcases h with h | ⟨c, hc, hb⟩
    · exact hne h
    · rw [hblank c hc] at hb
      cases hb
  · next h =>
    simp only [Bool.or_eq_true, decide_eq_true_eq, not_or, Bool.not_eq_true,
      List.any_eq_false] at h
    have hmarker : IsMarker marker := ⟨h.1, fun c hc => by simpa using h.2 c hc⟩
    simp only [Except.ok.injEq, hmarker, true_and]
    exact eq_comm

/-- The default marker is a class name, since the name of a signature has no blanks. -/
theorem isMarker_default (signature : Signature) : IsMarker (markerPrefix ++ signature.name) := by
  obtain ⟨c, cs, -, -, -, hblank⟩ := Declaration.nameFits_iff.1 signature.nameFits
  have hstart : ∀ d ∈ markerPrefix, isBlank d = false := Text.forall_mem_of_all (by decide)
  refine ⟨List.append_ne_nil_of_left_ne_nil (by decide) _, fun d hd => ?_⟩
  rcases List.mem_append.1 hd with hd | hd
  · exact hstart d hd
  · exact hblank d hd

theorem built_of_ofSignature {signature : Signature} {template : Template}
    (h : ofSignature signature template = .ok s) : s.Built := by
  obtain ⟨hpaths, rfl, -, hmarker⟩ := ofSignature_eq_ok_iff.1 h
  exact ⟨hpaths, hmarker ▸ isMarker_default s.signature⟩

theorem Built.withMarker (hb : base.Built) {marker : Text} (h : base.withMarker marker = .ok s) :
    s.Built := by
  obtain ⟨hmarker, rfl⟩ := withMarker_eq_ok_iff.1 h
  exact ⟨hb.paths, hmarker⟩

/-- The shortcodes of this kind are those that a signature and a choice of the marker give. -/
theorem built_iff : s.Built ↔ ∃ base marker, ofSignature s.signature s.template = .ok base ∧
    base.withMarker marker = .ok s := by
  constructor
  · intro h
    refine ⟨{ s with marker := markerPrefix ++ s.signature.name }, s.marker, ?_, ?_⟩
    · exact ofSignature_eq_ok_iff.2 ⟨h.paths, rfl, rfl, rfl⟩
    · exact withMarker_eq_ok_iff.2 ⟨h.marker, rfl⟩
  · rintro ⟨base, marker, hbase, h⟩
    exact (built_of_ofSignature hbase).withMarker h

/-! ### Rendering -/

/-- What a shortcode renders is the marked form of what its template makes of the arguments. -/
theorem mark_of_convert {args : Arguments} {context : Context} {F : Text}
    (h : s.convert args context = .ok F) :
    ∃ filled markup, s.signature.fill args = .ok filled ∧
      s.template.render filled context = .ok markup ∧ mark markup s.marker = .ok F := by
  rw [convert] at h
  obtain ⟨filled, hfill, h⟩ := Except.bind_eq_ok_iff.1 h
  obtain ⟨markup, hrender, h⟩ := Except.bind_eq_ok_iff.1 h
  exact ⟨filled, markup, Except.mapError_eq_ok_iff.1 hfill, Except.mapError_eq_ok_iff.1 hrender,
    Except.mapError_eq_ok_iff.1 h⟩

theorem convert_of_mark {args filled : Arguments} {context : Context} {markup F : Text}
    (hfill : s.signature.fill args = .ok filled)
    (hrender : s.template.render filled context = .ok markup)
    (hmark : mark markup s.marker = .ok F) : s.convert args context = .ok F := by
  rw [convert, hfill]
  simp only [Except.mapError, Bind.bind, Except.bind, hrender, hmark]

/-! ### Paths and values -/

theorem length_of_readPaths {shortcode : Text} {inputs : List Input}
    {paths : List (Option Lookup)} (h : readPaths shortcode inputs = .ok paths) :
    paths.length = inputs.length := by
  induction inputs generalizing paths with
  | nil =>
    cases h
    rfl
  | cons input inputs ih =>
    have htail : ∀ path : Option Lookup,
        (do return path :: (← readPaths shortcode inputs)) = .ok paths →
          paths.length = (input :: inputs).length := by
      intro path h
      obtain ⟨others, hothers, h⟩ := Except.bind_eq_ok_iff.1 h
      cases h
      rw [List.length_cons, List.length_cons, ih hothers]
    rw [readPaths] at h
    split at h
    · exact htail none h
    · split at h
      · next path _ => exact htail (some path) h
      · cases h

/-- An input has a path or none, at its place. -/
theorem Built.length_paths (h : s.Built) : s.paths.length = s.signature.inputs.length :=
  length_of_readPaths h.paths

/-- The inputs are those that stand beside a path or none. -/
theorem Built.map_zip (h : s.Built) :
    (s.signature.inputs.zip s.paths).map (·.1) = s.signature.inputs :=
  List.map_fst_zip h.length_paths.ge

/-- The names of inputs differ, so a pair stands first among those of its name. -/
theorem find?_zip_name {inputs : List Input} {paths : List (Option Lookup)}
    (hn : (inputs.map (·.name)).Nodup) {p : Input × Option Lookup} (hp : p ∈ inputs.zip paths) :
    (inputs.zip paths).find? (·.1.name = p.1.name) = some p := by
  induction inputs generalizing paths with
  | nil => cases hp
  | cons input inputs ih =>
    cases paths with
    | nil => cases hp
    | cons path paths =>
      rw [List.map_cons, List.nodup_cons] at hn
      rw [List.zip_cons_cons] at hp ⊢
      rcases List.mem_cons.1 hp with rfl | hp
      · exact List.find?_cons_of_pos (by simp)
      · have hne : input.name ≠ p.1.name := fun he =>
          hn.1 (he ▸ List.mem_map_of_mem (List.of_mem_zip hp).1)
        rw [List.find?_cons_of_neg (by simpa using hne)]
        exact ih hn.2 hp

/-- The arguments of an element have the value that was looked up for each input. -/
theorem getOrEmpty_restoreAll (s : HtmlShortcode) (root : Element) {input : Input}
    {path : Option Lookup} (h : (input, path) ∈ s.signature.inputs.zip s.paths) :
    (s.restoreAll root).getOrEmpty input.name = restore root input path := by
  have hfind := find?_zip_name s.signature.nodup_names h
  rw [Arguments.getOrEmpty, Arguments.get?, restoreAll, List.find?_map]
  change ((((s.signature.inputs.zip s.paths).find? (·.1.name = input.name)).map _).map _).getD _ = _
  rw [hfind]
  rfl

end Shortcodes.HtmlShortcode
