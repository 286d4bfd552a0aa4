import Mathlib
import Shortcodes.Proofs.Signature.Keyword
import Shortcodes.Proofs.Word.Weight

/-!
# Which keyword signatures can be restored

The canonical tag by key restores all values exactly when every input name is a key and no
fallback fills the place of an empty value that was left out (`restores_iff`). That the names
must be keys is a matter of counting. The words of a tag that gives one pair to every input weigh as
much as its text can hold (`Word.sum_weight_le`), so reading has lost no quotation mark, backslash or
trimmed blank, and no name has a blank or an equals sign: oddly named inputs cannot repair each
other.
-/

namespace Shortcodes

namespace Signature

variable {s : Signature}

/-- The canonical tag of arguments stands as one whole tag of the signature's name, and binding
it restores the value of every input. -/
def Restores (s : Signature) (args : Arguments) : Prop :=
  ∃ tag given, Tag.scan (s.canonical args) = [⟨tag, 0⟩] ∧ tag.source = s.canonical args ∧
    tag.name = s.name ∧ tag.given = .ok given ∧
    s.bind given = .ok ⟨s.inputs.map fun input => (input.name, args.getOrEmpty input.name), []⟩

/-- Arguments that give each input a value of its own. -/
def argumentsOf (s : Signature) (value : Input → Text) : Arguments :=
  ⟨s.inputs.map fun input => (input.name, value input), []⟩

theorem getOrEmpty_argumentsOf (value : Input → Text) {input : Input} (h : input ∈ s.inputs) :
    (s.argumentsOf value).getOrEmpty input.name = value input := by
  have hnames : ((s.argumentsOf value).values.map (·.1)).Nodup := by
    rw [argumentsOf, List.map_map]
    exact s.nodup_names
  have hmem : (input.name, value input) ∈ (s.argumentsOf value).values := List.mem_map_of_mem h
  rw [Arguments.getOrEmpty, Arguments.get?_of_mem hnames hmem]
  rfl

/-- A value that is neither empty nor the fallback and stands as it is. -/
def probe (input : Input) : Text := if input.fallback = ['v'] then ['w'] else ['v']

theorem written_probe (input : Input) : Word.written (probe input) = probe input := by
  rw [probe]
  split <;> decide

theorem probe_ne_fallback (input : Input) : probe input ≠ input.fallback := by
  rw [probe]
  split
  · next h => rw [h]; decide
  · next h => exact Ne.symm h

theorem probe_ne_nil (input : Input) : probe input ≠ [] := by
  rw [probe]
  split <;> decide

/-- The form of an input with its probe. -/
def probeForm (input : Input) : Text := input.name ++ '=' :: probe input

theorem canonicalWords_probe {policy : KeywordPolicy} (hs : s.binding = .keyword policy) :
    s.canonicalWords (s.argumentsOf probe) = s.inputs.map probeForm := by
  have hkept : s.keptInputs policy.omission (s.argumentsOf probe) = s.inputs := by
    refine List.filter_eq_self.2 fun input hi => ?_
    rw [getOrEmpty_argumentsOf probe hi]
    cases hp : policy.omission with
    | defaults => simpa [omits] using probe_ne_fallback input
    | empties => simpa [omits] using probe_ne_nil input
  rw [canonicalWords, hs]
  simp only [keywordWords_eq, hkept]
  refine List.map_congr_left fun input hi => ?_
  rw [getOrEmpty_argumentsOf probe hi, written_probe, probeForm]

/-- The words of a restored tag: its argument text, less the blanks around it, is read to them,
and they hold a pair for every probe. -/
theorem exists_words_of_restores {policy : KeywordPolicy} (hs : s.binding = .keyword policy)
    (h : s.Restores (s.argumentsOf probe)) (hne : s.inputs ≠ []) :
    ∃ t words, t <:+: Text.join [' '] (s.inputs.map probeForm) ∧ Word.readAll t = .ok words ∧
      (∀ input ∈ s.inputs, .keyed input.name (probe input) ∈ words) ∧
      ¬ Word.closer <:+: Text.join [' '] (s.inputs.map probeForm) := by
  obtain ⟨tag, given, hscan, hsource, -, hgiven, hbind⟩ := h
  have hread := Tag.read?_of_scan hscan hsource
  obtain ⟨input, inputs, hinputs⟩ := List.exists_cons_of_ne_nil hne
  have hcanonical := s.canonical_eq (s.argumentsOf probe)
  rw [canonicalWords_probe hs] at hcanonical
  have hbetween : between (s.inputs.map probeForm) =
      ' ' :: (Text.join [' '] (s.inputs.map probeForm) ++ [' ']) := by
    rw [hinputs]
    rfl
  rw [hcanonical] at hread
  have hcloser := Tag.not_closer_of_read? s.nameFits hread
  -- what was read is the tag that its name and the text between determine
  have hsame := Tag.read?_of_nameFits s.nameFits (between_eq_cons _) hcloser []
  rw [List.append_nil, hread, Option.some.injEq, Prod.mk.injEq] at hsame
  obtain ⟨rfl, -⟩ := hsame
  rw [hbetween] at hcloser hgiven
  obtain ⟨words, hwords, rfl⟩ : ∃ words, Word.readAll (Text.trim
      (' ' :: (Text.join [' '] (s.inputs.map probeForm) ++ [' ']))) = .ok words ∧
      Given.ofWords words = given := by
    rw [Tag.given, Given.ofText] at hgiven
    cases hr : Word.readAll (Text.trim
        (' ' :: (Text.join [' '] (s.inputs.map probeForm) ++ [' ']))) with
    | error e => simp [hr, Except.map] at hgiven
    | ok words => exact ⟨words, rfl, by simpa [hr, Except.map] using hgiven⟩
  refine ⟨_, words, Text.trim_blank_append_blank (by decide) (by decide) _, hwords, ?_, ?_⟩
  · intro input hi
    have hvalue : (input.name, probe input) ∈ s.inputs.map fun i =>
        (i.name, (s.argumentsOf probe).getOrEmpty i.name) :=
      List.mem_map.2 ⟨input, hi, by rw [getOrEmpty_argumentsOf probe hi]⟩
    obtain hpair | ⟨i, hi', he⟩ :=
      mem_or_eq_fallback_of_resolveByKey (resolveByKey_of_bind hs hbind) hvalue
    · exact Given.exists_word_of_mem_keyed (List.mem_of_mem_filter hpair)
    · rw [Prod.mk.injEq] at he
      rw [s.eq_of_name_eq hi hi' he.1] at he
      exact absurd he.2 (probe_ne_fallback i)
  · intro hi
    refine hcloser (hi.trans ?_)
    rw [List.cons_append, List.append_assoc]
    exact (List.infix_append [' '] _ ([' '] ++ ['%']))

/-- The pairs that the probes are to be read to. -/
def probePairs (s : Signature) : List Word :=
  s.inputs.map fun input => .keyed input.name (probe input)

theorem nodup_probePairs (s : Signature) : s.probePairs.Nodup := by
  have hnames := s.nodup_names.map (Option.some_injective Text)
  have hkeys : (s.probePairs.map fun w => w.pair?.map (·.1)).Nodup := by
    rw [List.map_map] at hnames
    rw [probePairs, List.map_map]
    exact hnames
  exact hkeys.of_map _

theorem weights_probePairs (s : Signature) :
    s.probePairs.map Word.weight = (s.inputs.map probeForm).map fun form => form.length + 1 := by
  rw [probePairs, List.map_map, List.map_map]
  rfl

/-- The forms of probes are read as they stand if probes are restored, and give the pairs. -/
theorem perm_of_restores {policy : KeywordPolicy} (hs : s.binding = .keyword policy)
    (h : s.Restores (s.argumentsOf probe)) (hne : s.inputs ≠ []) :
    s.probePairs.Perm (s.inputs.map fun input => Word.ofAtoms ((probeForm input).map .bare)) ∧
      ∀ input ∈ s.inputs, (∀ c ∈ probeForm input, Atom.IsPlain c ∧ isBlank c = false) ∧
        ¬ Word.closer <:+: probeForm input := by
  obtain ⟨t, words, hinfix, hwords, hpairs, hcloser⟩ := exists_words_of_restores hs h hne
  have hsubset : s.probePairs ⊆ words := by
    intro w hw
    obtain ⟨input, hi, rfl⟩ := List.mem_map.1 hw
    exact hpairs input hi
  obtain ⟨hperm, hgroups, hplain, hblank⟩ := Word.plain_of_weights
    (by simpa using hne) hinfix hwords s.nodup_probePairs hsubset s.weights_probePairs
  have hforms : ∀ form ∈ s.inputs.map probeForm, form ≠ [] := by
    intro form hform
    obtain ⟨input, -, rfl⟩ := List.mem_map.1 hform
    simp [probeForm]
  rw [Word.groups_map_ofPlain_join hforms hplain hblank, List.map_map, List.map_map] at hgroups
  refine ⟨hgroups ▸ hperm, fun input hi => ?_⟩
  have hform : probeForm input ∈ s.inputs.map probeForm := List.mem_map_of_mem hi
  have hjoined : probeForm input <:+: Text.join [' '] (s.inputs.map probeForm) :=
    Word.infix_join hform
  exact ⟨fun c hc => ⟨hplain c (hjoined.subset hc), hblank _ hform c hc⟩,
    fun hc => hcloser (hc.trans hjoined)⟩

theorem map_bare_probeForm (input : Input) :
    (probeForm input).map Atom.bare =
      input.name.map .bare ++ .bare '=' :: (probe input).map .bare := by
  rw [probeForm, List.map_append]
  rfl

/-- The keys that the forms are read to are as long together as the names, so each is its name. -/
theorem not_mem_equals_of_perm
    (hperm : s.probePairs.Perm
      (s.inputs.map fun input => Word.ofAtoms ((probeForm input).map .bare))) :
    ∀ input ∈ s.inputs, '=' ∉ input.name := by
  intro input hi hm
  have hkeys := ((hperm.map Word.keyLength).sum_eq).symm
  rw [probePairs, List.map_map, List.map_map] at hkeys
  refine absurd hkeys (ne_of_lt (List.sum_lt_sum _ _ (fun i hi => ?_) ⟨input, hi, ?_⟩))
  · rw [Function.comp, Function.comp, map_bare_probeForm]
    exact (Word.keyLength_ofAtoms_append_le i.name _).1
  · rw [Function.comp, Function.comp, map_bare_probeForm]
    exact (Word.keyLength_ofAtoms_append_le input.name _).2 hm

/-- If probes are restored, every name is a key. -/
theorem isKey_of_restores {policy : KeywordPolicy} (hs : s.binding = .keyword policy)
    (h : s.Restores (s.argumentsOf probe)) : ∀ input ∈ s.inputs, IsKey input.name := by
  intro input hi
  obtain ⟨hperm, hforms⟩ := perm_of_restores hs h (List.ne_nil_of_mem hi)
  obtain ⟨hplain, hcloser⟩ := hforms input hi
  have hname : ∀ c ∈ input.name, Atom.IsPlain c ∧ isBlank c = false :=
    fun c hc => hplain c (List.mem_append_left _ hc)
  refine ⟨?_, fun c hc => (hname c hc).2, fun c hc => ?_, ?_⟩
  · intro hempty
    have hword := hperm.mem_iff.2 (List.mem_map_of_mem hi)
    obtain ⟨i, -, he⟩ := List.mem_map.1 hword
    rw [map_bare_probeForm, hempty, List.map_nil, List.nil_append, Word.ofAtoms] at he
    simp at he
  · obtain ⟨hquote, happostrophe, hbackslash⟩ := (hname c hc).1
    refine ⟨hquote, happostrophe, hbackslash, ?_⟩
    rintro rfl
    exact not_mem_equals_of_perm hperm input hi hc
  · rw [Text.has_eq_false_iff]
    exact fun hc => hcloser (hc.trans (List.prefix_append _ _).isInfix)

/-! ### The exact condition -/

/-- A value is restored if it was not left out, or if the fallback takes its place. -/
theorem restored_eq {omission : Omission} {args : Arguments} {input : Input}
    (h : omission = .defaults ∨ ∀ value, input.default = some value → value = []) :
    restored omission args input = args.getOrEmpty input.name := by
  rw [restored]
  split
  · next ho =>
    cases omission with
    | defaults => exact (by simpa [omits] using ho : args.getOrEmpty input.name = _).symm
    | empties =>
      have hvalue : args.getOrEmpty input.name = [] := by simpa [omits] using ho
      have hdefault := h.resolve_left (by simp)
      rw [hvalue, Input.fallback]
      cases hd : input.default with
      | none => rfl
      | some value => exact hdefault value hd
  · rfl

/-- An empty value is not restored where its pair is left out and a default takes its place. -/
theorem default_eq_nil_of_restores {policy : KeywordPolicy} (hs : s.binding = .keyword policy)
    (hkeys : ∀ input ∈ s.inputs, IsKey input.name) (hp : policy.omission = .empties)
    {input : Input} (hi : input ∈ s.inputs) {value : Text} (hd : input.default = some value)
    (h : s.Restores (s.argumentsOf fun i => if i = input then [] else probe i)) : value = [] := by
  set args := s.argumentsOf fun i => if i = input then [] else probe i with hargs
  obtain ⟨tag, given, hscan, hsource, -, hgiven, hbind⟩ := h
  obtain ⟨tag', given', hread, -, -, hgiven', hbind'⟩ := exists_read?_keyword hs hkeys args []
  rw [List.append_nil, Tag.read?_of_scan hscan hsource, Option.some.injEq, Prod.mk.injEq] at hread
  obtain ⟨rfl, -⟩ := hread
  obtain rfl := Except.ok.inj (hgiven.symm.trans hgiven')
  rw [hbind, hp] at hbind'
  have hresolved : resolved s.name (restored .empties args) s.inputs =
      .ok (s.inputs.map fun i => (i.name, args.getOrEmpty i.name)) := by
    cases hr : resolved s.name (restored .empties args) s.inputs with
    | error e => simp [hr, Except.map] at hbind'
    | ok values =>
      simp only [hr, Except.map, Except.ok.injEq, Arguments.mk.injEq, and_true] at hbind'
      rw [hbind']
  have hempty : args.getOrEmpty input.name = [] := by
    rw [hargs, getOrEmpty_argumentsOf _ hi]
    exact if_pos rfl
  have hvalue := List.map_inj_left.1 (eq_map_of_resolved hresolved) input hi
  rw [hempty, restored, hempty, if_pos (by simp [omits]), Prod.mk.injEq, Input.fallback, hd]
    at hvalue
  exact hvalue.2.symm

/-- Canonical tags by key restore all arguments in which the required inputs have values exactly
when every name is a key and no default takes the place of an empty value. -/
theorem restores_iff (s : Signature) (policy : KeywordPolicy) (hs : s.binding = .keyword policy) :
    (∀ args : Arguments,
      (∀ input ∈ s.inputs, input.required = true → args.getOrEmpty input.name ≠ []) →
        s.Restores args) ↔
      (∀ input ∈ s.inputs, IsKey input.name) ∧
        (policy.omission = .defaults ∨
          ∀ input ∈ s.inputs, ∀ value, input.default = some value → value = []) := by
  constructor
  · intro h
    -- a value for every input, none of them its default, comes back only if every name is a key
    have hkeys : ∀ input ∈ s.inputs, IsKey input.name := by
      refine isKey_of_restores hs (h _ fun input hi _ => ?_)
      rw [getOrEmpty_argumentsOf probe hi]
      exact probe_ne_nil input
    refine ⟨hkeys, ?_⟩
    cases hp : policy.omission with
    | defaults => exact .inl rfl
    | empties =>
      refine .inr fun input hi value hd =>
        default_eq_nil_of_restores hs hkeys hp hi hd (h _ fun i hm hq => ?_)
      -- a required input has no default, so that the empty value is not asked of it
      have hne : i ≠ input := by
        rintro rfl
        rw [s.default_eq_none hi hq] at hd
        cases hd
      rw [getOrEmpty_argumentsOf _ hm, if_neg hne]
      exact probe_ne_nil i
  · rintro ⟨hkeys, hdefaults⟩ args hvalues
    obtain ⟨tag, given, hread, hsource, hname, hgiven, hbind⟩ :=
      exists_read?_keyword hs hkeys args []
    rw [List.append_nil] at hread
    have hrestored : ∀ input ∈ s.inputs,
        restored policy.omission args input = args.getOrEmpty input.name :=
      fun input hi => restored_eq (hdefaults.imp_right fun h => h input hi)
    refine ⟨tag, given, Tag.scan_of_read? hread, hsource, hname, hgiven, ?_⟩
    have hfilled : ∀ input ∈ s.inputs, input.required = true →
        restored policy.omission args input ≠ [] := by
      intro input hi hq
      rw [hrestored input hi]
      exact hvalues input hi hq
    rw [hbind, resolved_eq_ok hfilled]
    simp only [Except.map]
    rw [List.map_congr_left fun input hi => by rw [hrestored input hi]]

/-- Inputs named like the halves of a closing mark are restored; one whose name has a quotation
mark is not, although another input has that name without it. -/
theorem restores_iff_marks :
    let s : Signature :=
      ⟨⟨['v'], [{ name := ['%'], default := some ['d'] }, { name := [']'], required := true }],
        .keyword {}⟩, by decide⟩
    let t : Signature := ⟨⟨['v'], [{ name := ['a', '\''] }, { name := ['a'] }], .keyword {}⟩,
      by decide⟩
    s.Restores ⟨[(['%'], ['%', ']']), ([']'], [']', '"'])], []⟩ ∧
      ¬ ∀ args, (∀ input ∈ t.inputs, input.required = true → args.getOrEmpty input.name ≠ []) →
        t.Restores args := by
  intro s t
  constructor
  · have hkeys : ∀ input ∈ s.inputs, IsKey input.name := by
      intro input hi
      simp only [s, List.mem_cons, List.not_mem_nil, or_false] at hi
      rcases hi with rfl | rfl
      · exact ⟨by decide, Text.forall_mem_of_all (by decide), Text.forall_mem_of_all (by decide),
          by decide⟩
      · exact ⟨by decide, Text.forall_mem_of_all (by decide), Text.forall_mem_of_all (by decide),
          by decide⟩
    exact (restores_iff s {} rfl).2 ⟨hkeys, .inl rfl⟩ _ (by decide)
  · intro h
    have hkey := ((restores_iff t {} rfl).1 h).1 { name := ['a', '\''] } List.mem_cons_self
    exact (hkey.plain '\'' (by decide)).1 rfl

end Signature

end Shortcodes
