import Shortcodes.Proofs.Outcome
import Shortcodes.Proofs.Signature.Canonical
import Shortcodes.Proofs.Signature.Resolution

/-!
# Positional tags in a text

The canonical tag of a positional signature is found again in any text that has no opening mark
before it, and binding what it gives restores the values it was written from
(`scan_canonical_positional`). Leaving words out at the end is made up for by the fallbacks
(`resolveInOrder_eq`), and a required input without a value is what binding reports.
-/

namespace Shortcodes

/-! ### What is left out -/

/-- What is dropped at the end is droppable. -/
theorem dropTrailing_append {α : Type} (p : α → Bool) (l : List α) :
    ∃ dropped, l = dropTrailing p l ++ dropped ∧ ∀ a ∈ dropped, p a = true := by
  refine ⟨(l.reverse.takeWhile p).reverse, ?_, fun a ha => ?_⟩
  · rw [dropTrailing, ← List.reverse_append, List.takeWhile_append_dropWhile, List.reverse_reverse]
  · exact List.mem_takeWhile_imp (List.mem_reverse.1 ha)

namespace Signature

/-- Whether an input must have a value and has none. -/
def lacks (value : Input → Text) (input : Input) : Bool := input.required && value input = []

/-- The outcome of giving each input its value: the first input that lacks one is reported. -/
def resolved (shortcode : Text) (value : Input → Text) (inputs : List Input) :
    Except Failure (List (Text × Text)) :=
  match inputs.find? (lacks value) with
  | some input => .error (.missingInput shortcode input.name)
  | none => .ok (inputs.map fun input => (input.name, value input))

theorem resolved_cons (shortcode : Text) (value : Input → Text) (input : Input)
    (inputs : List Input) :
    resolved shortcode value (input :: inputs) =
      if lacks value input then .error (.missingInput shortcode input.name)
      else (resolved shortcode value inputs).map ((input.name, value input) :: ·) := by
  rw [resolved, List.find?_cons]
  by_cases h : lacks value input
  · simp [h]
  · simp only [h, if_false, Bool.false_eq_true, resolved]
    cases inputs.find? (lacks value) <;> rfl

theorem eq_map_of_resolved {shortcode : Text} {value : Input → Text} {inputs : List Input}
    {values : List (Text × Text)} (h : resolved shortcode value inputs = .ok values) :
    values = inputs.map fun input => (input.name, value input) := by
  rw [resolved] at h
  split at h
  · cases h
  · exact (Except.ok.inj h).symm

/-- Where every required input has a value, each input gets its value. -/
theorem resolved_eq_ok {shortcode : Text} {value : Input → Text} {inputs : List Input}
    (h : ∀ input ∈ inputs, input.required = true → value input ≠ []) :
    resolved shortcode value inputs = .ok (inputs.map fun input => (input.name, value input)) := by
  have hnone : inputs.find? (lacks value) = none := by
    rw [List.find?_eq_none]
    intro input hi
    by_cases hq : input.required = true
    · simp [lacks, hq, h input hi hq]
    · simp [lacks, hq]
  rw [resolved, hnone]

/-- An input that got its value, or that got none and falls back to its value, resolves to
it. -/
theorem resolve_eq {shortcode : Text} {value : Input → Text} {input : Input} {given : Option Text}
    (h : given = some (value input) ∨ (given = none ∧ value input = input.fallback))
    (hr : input.required = true → input.fallback = []) :
    input.resolve shortcode given =
      if lacks value input then .error (.missingInput shortcode input.name)
      else .ok (value input) := by
  rw [lacks]
  obtain rfl | ⟨rfl, hv⟩ := h
  · rw [Input.resolve]
  · by_cases hq : input.required = true
    · simp [Input.resolve, hq, hv, hr hq]
    · simp [Input.resolve, hq, hv]

/-- Inputs of a row that are all given their values, or fall back to them, resolve to their
values. -/
theorem resolveRow_eq_resolved {shortcode : Text} {value : Input → Text}
    {row : List (Input × Option Text)}
    (hv : ∀ p ∈ row, p.2 = some (value p.1) ∨ (p.2 = none ∧ value p.1 = p.1.fallback))
    (hr : ∀ p ∈ row, p.1.required = true → p.1.fallback = []) :
    resolveRow shortcode row = resolved shortcode value (row.map (·.1)) := by
  induction row with
  | nil => rfl
  | cons first row ih =>
    obtain ⟨hfirst, hrow⟩ := List.forall_mem_cons.1 hv
    obtain ⟨hfirst', hrow'⟩ := List.forall_mem_cons.1 hr
    rw [resolveRow, resolve_eq hfirst hfirst', ih hrow hrow', List.map_cons, resolved_cons]
    split
    · rfl
    · cases resolved shortcode value (row.map (·.1)) <;> rfl

/-- Inputs that get their values, the last of them by falling back, resolve to their values. -/
theorem resolveInOrder_eq {shortcode : Text} {value : Input → Text} {kept dropped : List Input}
    (hv : ∀ input ∈ dropped, value input = input.fallback)
    (hr : ∀ input ∈ kept ++ dropped, input.required = true → input.fallback = []) :
    resolveInOrder shortcode (kept ++ dropped) (kept.map value) =
      resolved shortcode value (kept ++ dropped) := by
  have hmem : ∀ p ∈ givenInOrder (kept ++ dropped) (kept.map value), p.1 ∈ kept ++ dropped := by
    intro p hp
    rw [← map_fst_givenInOrder (kept ++ dropped) (kept.map value)]
    exact List.mem_map_of_mem hp
  rw [resolveInOrder_eq_row, resolveRow_eq_resolved ?_ fun p hp => hr p.1 (hmem p hp),
    map_fst_givenInOrder]
  rintro ⟨input, given⟩ hp
  obtain ⟨i, hi⟩ := List.mem_iff_getElem?.1 hp
  obtain ⟨place, rfl⟩ := getElem?_givenInOrder.1 hi
  -- an input that was kept has its word, and one that was dropped has none
  by_cases hkept : i < kept.length
  · rw [List.getElem?_append_left hkept] at place
    exact .inl (by rw [List.getElem?_map, place]; rfl)
  · have hle : kept.length ≤ i := Nat.le_of_not_lt hkept
    rw [List.getElem?_append_right hle] at place
    refine .inr ⟨List.getElem?_eq_none (by rwa [List.length_map]), ?_⟩
    exact hv input (List.mem_of_getElem? place)

/-- What binding by position succeeds with are the inputs resolved with the words. -/
theorem resolveInOrder_of_bind {s : Signature} (hs : s.binding = .positional) {given : Given}
    {bound : Arguments} (h : s.bind given = .ok bound) :
    resolveInOrder s.name s.inputs given.positional = .ok bound.values := by
  rw [bind, hs] at h
  simp only [bindPositional] at h
  split at h
  · cases h
  · split at h
    · cases h
    · obtain ⟨values, hr, rfl⟩ := Except.map_eq_ok_iff.1 h
      exact hr

/-! ### The round trip -/

variable {s : Signature} {args : Arguments}

/-- The values that the canonical tag by position has. -/
def keptValues (s : Signature) (args : Arguments) : List Text :=
  (dropTrailing (fun (input, value) => value = input.fallback)
    (s.inputs.map fun input => (input, args.getOrEmpty input.name))).map (·.2)

theorem positionalWords_eq (s : Signature) (args : Arguments) :
    s.positionalWords args = (s.keptValues args).map Word.writtenPlain := by
  rw [keptValues, List.map_map]
  rfl

/-- The values of some inputs are kept, and the other inputs, behind them, fall back to theirs. -/
theorem exists_keptValues (s : Signature) (args : Arguments) :
    ∃ kept dropped, s.inputs = kept ++ dropped ∧
      s.keptValues args = (kept.map fun input => args.getOrEmpty input.name) ∧
      ∀ input ∈ dropped, args.getOrEmpty input.name = input.fallback := by
  obtain ⟨dropped, hd, hall⟩ := dropTrailing_append
    (fun p : Input × Text => decide (p.2 = p.1.fallback))
    (s.inputs.map fun input => (input, args.getOrEmpty input.name))
  obtain ⟨kept, dropped, hs, hk, hdr⟩ := List.map_eq_append_iff.1 hd
  refine ⟨kept, dropped, hs, ?_, fun input hi => ?_⟩
  · rw [keptValues, ← hk, List.map_map]
    rfl
  · have := hall (input, args.getOrEmpty input.name) (hdr ▸ List.mem_map_of_mem hi)
    simpa using this

/-- A positional tag gives the values that were not left out. -/
theorem exists_read?_keptValues (hs : s.binding = .positional) (args : Arguments) (tail : Text) :
    ∃ tag, Tag.read? (s.canonical args ++ tail) = some (tag, tail) ∧
      tag.source = s.canonical args ∧ tag.name = s.name ∧
      tag.given = .ok ⟨s.keptValues args, []⟩ := by
  have hforms : List.Forall₂ Word.Form (s.canonicalWords args)
      ((s.keptValues args).map Word.plain) := by
    rw [canonicalWords, hs]
    simp only [positionalWords_eq]
    rw [List.forall₂_map_left_iff, List.forall₂_map_right_iff, List.forall₂_same]
    exact fun value _ => Word.form_writtenPlain value
  rw [← Given.ofWords_map_plain]
  exact exists_read?_canonical hforms tail

/-- Binding the kept values gives each input its value. -/
theorem bind_keptValues (hs : s.binding = .positional) (args : Arguments) :
    s.bind ⟨s.keptValues args, []⟩ =
      (resolved s.name (fun input => args.getOrEmpty input.name) s.inputs).map
        fun values => ⟨values, []⟩ := by
  obtain ⟨kept, dropped, hi, hk, hd⟩ := s.exists_keptValues args
  have hr : ∀ input ∈ kept ++ dropped, input.required = true → input.fallback = [] :=
    fun input hm hq => s.fallback_eq_nil (hi ▸ hm) hq
  have hlen : ¬ s.inputs.length < (kept.map fun input => args.getOrEmpty input.name).length := by
    rw [hi, List.length_append, List.length_map]
    omega
  rw [hk, bind, hs]
  simp only [bindPositional, ne_eq, not_true_eq_false, if_false, hlen]
  rw [hi, resolveInOrder_eq hd hr]

/-- A positional tag is read to what binds to the values. -/
theorem exists_read?_positional (hs : s.binding = .positional) (args : Arguments) (tail : Text) :
    ∃ tag given, Tag.read? (s.canonical args ++ tail) = some (tag, tail) ∧
      tag.source = s.canonical args ∧ tag.name = s.name ∧ tag.given = .ok given ∧
      s.bind given = (resolved s.name (fun input => args.getOrEmpty input.name) s.inputs).map
        fun values => ⟨values, []⟩ := by
  obtain ⟨tag, hread, hsource, hname, hgiven⟩ := exists_read?_keptValues hs args tail
  exact ⟨tag, _, hread, hsource, hname, hgiven, bind_keptValues hs args⟩

/-- The first tag behind a text without opening marks, and the tags behind that one. -/
theorem scan_canonical {pre post : Text} {tag : Tag}
    (hread : Tag.read? (s.canonical args ++ post) = some (tag, post))
    (hsource : tag.source = s.canonical args) (hpre : Text.has Tag.opener pre = false) :
    Tag.scan (pre ++ s.canonical args ++ post) =
      ⟨tag, Text.byteLength pre⟩ :: (Tag.scan post).map
        (Tag.Placed.shift (Text.byteLength (pre ++ s.canonical args))) := by
  have hhead : (s.canonical args ++ post).take 1 = ['['] := by
    rw [canonical_eq]
    rfl
  have hjoint : ¬ Tag.opener <:+: pre ++ (s.canonical args ++ post).take 1 := by
    rw [hhead, Tag.opener, Text.infix_pair_append_iff]
    rintro (hi | hi | ⟨-, hi⟩)
    · exact Text.has_eq_false_iff.1 hpre hi
    · simpa using hi.length_le
    · simp at hi
  have hshift : ∀ a b : Nat,
      Tag.Placed.shift a ∘ Tag.Placed.shift b = Tag.Placed.shift (a + b) := by
    intro a b
    funext p
    simp only [Function.comp, Tag.Placed.shift, Nat.add_comm a b, Nat.add_assoc]
  rw [List.append_assoc, Tag.scan_append hjoint, Tag.scan_of_read? hread, List.map_cons,
    List.map_map, hshift, hsource, Text.byteLength_append]
  simp [Tag.Placed.shift]

/-- A canonical positional tag is the first tag of every text in which no opening mark stands
before it, and binding it restores each value; the first required input without a value is
reported. -/
theorem scan_canonical_positional (s : Signature) (hs : s.binding = .positional)
    (args : Arguments) (pre post : Text) (hpre : Text.has Tag.opener pre = false) :
    ∃ tag given,
      Tag.scan (pre ++ s.canonical args ++ post) =
        ⟨tag, Text.byteLength pre⟩ :: (Tag.scan post).map
          (Tag.Placed.shift (Text.byteLength (pre ++ s.canonical args))) ∧
      tag.source = s.canonical args ∧ tag.name = s.name ∧ tag.given = .ok given ∧
      ((∀ input ∈ s.inputs, input.required = true → args.getOrEmpty input.name ≠ []) →
        s.bind given =
          .ok ⟨s.inputs.map fun input => (input.name, args.getOrEmpty input.name), []⟩) ∧
      ∀ input, s.inputs.find? (fun i => i.required && args.getOrEmpty i.name = []) = some input →
        s.bind given = .error (.missingInput s.name input.name) := by
  obtain ⟨tag, given, hread, hsource, hname, hgiven, hbind⟩ := exists_read?_positional hs args post
  refine ⟨tag, given, scan_canonical hread hsource hpre, hsource, hname, hgiven, ?_, ?_⟩
  · intro hvalues
    rw [hbind, resolved_eq_ok hvalues]
    rfl
  · intro input hf
    have hsome : s.inputs.find? (lacks fun input => args.getOrEmpty input.name) = some input := hf
    rw [hbind, resolved, hsome]
    rfl

/-- A value with a closing mark and one with an equals sign, a default left out, and a text before
the tag that ends like an opening mark begins. -/
theorem scan_canonical_positional_example :
    let s : Signature :=
      ⟨⟨['v'], [{ name := ['a'], required := true }, { name := ['b'] },
        { name := ['c'], default := some ['d'] }], .positional⟩, by decide⟩
    let args : Arguments := ⟨[(['a'], ['%', ']', '"']), (['b'], ['x', '=']), (['c'], ['d'])], []⟩
    let canonical := "[%v \"%\"\\]\"\\\"\" \"x=\" %]".toList
    ∃ tag given,
      Tag.scan ("a[".toList ++ canonical ++ "[%w%]".toList) =
        [⟨tag, 2⟩, ⟨⟨['w'], [], "[%w%]".toList⟩, 23⟩] ∧
      tag.source = canonical ∧ tag.name = ['v'] ∧ tag.given = .ok given ∧
      s.bind given = .ok args := by
  intro s args canonical
  have hcanonical : s.canonical args = canonical := by decide
  have hpost : Tag.scan "[%w%]".toList = [⟨⟨['w'], [], "[%w%]".toList⟩, 0⟩] := by decide
  obtain ⟨tag, given, hscan, hsource, hname, hgiven, hbind, -⟩ :=
    scan_canonical_positional s rfl args "a[".toList "[%w%]".toList (by decide)
  rw [hcanonical, hpost] at hscan
  exact ⟨tag, given, hscan, hsource.trans hcanonical, hname, hgiven, hbind (by decide)⟩

end Signature

end Shortcodes
