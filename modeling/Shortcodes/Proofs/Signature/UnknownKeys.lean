import Shortcodes.Proofs.Signature.Filling

/-!
# Keys that are not declared

A policy either refuses undeclared keys or keeps their pairs aside. A signature that keeps them
binds as the one that refuses them binds the declared part of what is given, and sets the rest
aside; the one that refuses them binds what has no such keys alike, and reports them all
otherwise. What was set aside stays there in filling, and the canonical tag knows nothing of it
(`bind_lenient`).
-/

namespace Shortcodes.Signature

/-- Signatures by key that differ only in what they do with undeclared keys: `strict` refuses them
and `lenient` keeps them. -/
structure Loosens (strict lenient : Signature) : Prop where
  name : lenient.name = strict.name
  inputs : lenient.inputs = strict.inputs
  binding : ∃ omission, strict.binding = .keyword ⟨true, omission⟩ ∧
    lenient.binding = .keyword ⟨false, omission⟩

variable {strict lenient : Signature} {given : Given}

/-! ### The declared part -/

theorem declaredPart_of_undeclared_eq_nil {s : Signature} (h : s.undeclared given = []) :
    s.declaredPart given = given := by
  have hall : ∀ p ∈ given.keyed, s.declares p.1 = true := by
    intro p hp
    simpa using List.filter_eq_nil_iff.1 h p hp
  rw [declaredPart, List.filter_eq_self.2 hall]

theorem undeclared_declaredPart (s : Signature) (given : Given) :
    s.undeclared (s.declaredPart given) = [] := by
  refine List.filter_eq_nil_iff.2 fun p hp => ?_
  simpa using (List.mem_filter.1 hp).2

theorem declaredPart_declaredPart (s : Signature) (given : Given) :
    s.declaredPart (s.declaredPart given) = s.declaredPart given :=
  declaredPart_of_undeclared_eq_nil (undeclared_declaredPart s given)

/-- The same keys are declared. -/
theorem Loosens.declares_eq (h : Loosens strict lenient) : lenient.declares = strict.declares := by
  funext key
  rw [declares, h.inputs, declares]

theorem Loosens.declaredPart_eq (h : Loosens strict lenient) (given : Given) :
    lenient.declaredPart given = strict.declaredPart given := by
  rw [declaredPart, h.declares_eq, declaredPart]

theorem Loosens.undeclared_eq (h : Loosens strict lenient) (given : Given) :
    lenient.undeclared given = strict.undeclared given := by
  rw [undeclared, h.declares_eq, undeclared]

/-! ### Binding and what comes after it -/

/-- Where undeclared keys are kept, the declared part is bound as it is by the strict signature. -/
theorem Loosens.bind_eq (h : Loosens strict lenient) (given : Given) :
    lenient.bind given = (strict.bind (strict.declaredPart given)).map
      fun bound => ⟨bound.values, strict.undeclared given⟩ := by
  obtain ⟨omission, hstrict, hlenient⟩ := h.binding
  rw [bind_keyword hlenient, bind_keyword hstrict, h.undeclared_eq, h.declaredPart_eq,
    undeclared_declaredPart, declaredPart_declaredPart, h.name, h.inputs]
  -- words are refused by both, and nothing in the declared part is refused by either
  by_cases hwords : given.positional = []
  · have hpart : (strict.declaredPart given).positional = [] := hwords
    simp only [hwords, hpart, ne_eq, not_true_eq_false, if_false, Bool.false_and, decide_false,
      Bool.and_false, Bool.false_eq_true]
    cases resolveByKey strict.name strict.inputs (strict.declaredPart given).keyed <;> rfl
  · have hpart : (strict.declaredPart given).positional ≠ [] := hwords
    rw [if_pos hwords, if_pos hpart]
    rfl

/-- The pairs that are kept aside stay there. -/
theorem extra_of_fill {s : Signature} {args filled : Arguments} (h : s.fill args = .ok filled) :
    filled.extra = args.extra := by
  rw [fill] at h
  obtain ⟨values, -, rfl⟩ := Except.map_eq_ok_iff.1 h
  rfl

/-- Canonical tags are made of the values alone. -/
theorem Loosens.canonical_eq (h : Loosens strict lenient)
    (values extra extra' : List (Text × Text)) :
    lenient.canonical ⟨values, extra⟩ = strict.canonical ⟨values, extra'⟩ := by
  obtain ⟨omission, hstrict, hlenient⟩ := h.binding
  have hwords :
      lenient.canonicalWords ⟨values, extra⟩ = strict.canonicalWords ⟨values, extra'⟩ := by
    rw [canonicalWords, canonicalWords, hstrict, hlenient]
    show lenient.keywordWords omission _ = strict.keywordWords omission _
    rw [keywordWords, keywordWords, h.inputs]
    rfl
  rw [canonical, canonical, hwords, h.name]

/-- Keeping undeclared keys is refusing them, of what has none, with their pairs set aside: the same
values, or the same failure. Refusing them makes a difference only where there are some, and all of
them are reported then. Filling leaves what is set aside, and the canonical tag is the same. -/
theorem bind_lenient {strict lenient : Signature} (h : Loosens strict lenient) (given : Given) :
    lenient.bind given = (strict.bind (strict.declaredPart given)).map
        (fun bound => ⟨bound.values, strict.undeclared given⟩) ∧
      (strict.undeclared given = [] ∨ given.positional ≠ [] →
        strict.bind given = strict.bind (strict.declaredPart given)) ∧
      (strict.undeclared given ≠ [] → given.positional = [] →
        strict.bind given = .error (.unknownKeys strict.name
          ((strict.undeclared given).map (·.1)) (strict.inputs.map (·.name)))) ∧
      (∀ args filled, lenient.fill args = .ok filled → filled.extra = args.extra) ∧
      ∀ bound, strict.bind (strict.declaredPart given) = .ok bound →
        let kept : Arguments := ⟨bound.values, strict.undeclared given⟩
        lenient.fill kept = .ok kept ∧ lenient.canonical kept = strict.canonical bound := by
  obtain ⟨omission, hstrict, -⟩ := h.binding
  have hlenient := h.bind_eq given
  refine ⟨hlenient, ?_, fun hsome hwords => ?_, fun _ _ => extra_of_fill, ?_⟩
  · rintro (hnone | hwords)
    · rw [declaredPart_of_undeclared_eq_nil hnone]
    · have hpart : (strict.declaredPart given).positional ≠ [] := hwords
      rw [bind_keyword hstrict, if_pos hwords, bind_keyword hstrict, if_pos hpart]
      rfl
  · rw [bind_keyword hstrict, if_neg (not_not_intro hwords), if_pos (by simpa using hsome)]
  · rintro ⟨values, extra⟩ hbound
    rw [hbound] at hlenient
    exact ⟨fill_of_complete (complete_of_bind hlenient), h.canonical_eq values _ extra⟩

/-- Undeclared keys around declared ones, one of them twice: they are set aside in their order, or
all of them are reported. -/
theorem bind_lenient_mixed :
    let inputs : List Input := [{ name := ['a'], required := true },
      { name := ['b'], default := some ['d'] }]
    let strict : Signature := ⟨⟨['v'], inputs, .keyword {}⟩, by decide⟩
    let lenient : Signature := ⟨⟨['v'], inputs, .keyword { rejectUnknown := false }⟩, by decide⟩
    let given : Given := ⟨[], [(['x'], ['1']), (['b'], ['2']), (['y'], ['3']), (['a'], ['4']),
      (['x'], ['5'])]⟩
    Loosens strict lenient ∧
      lenient.bind given = .ok ⟨[(['a'], ['4']), (['b'], ['2'])],
        [(['x'], ['1']), (['y'], ['3']), (['x'], ['5'])]⟩ ∧
      strict.bind given =
        .error (.unknownKeys ['v'] [['x'], ['y'], ['x']] [['a'], ['b']]) := by
  intro inputs strict lenient given
  have h : Loosens strict lenient := ⟨rfl, rfl, .defaults, rfl, rfl⟩
  obtain ⟨hkept, -, hrefused, -⟩ := bind_lenient h given
  exact ⟨h, hkept.trans (by decide), hrefused (by decide) rfl⟩

end Shortcodes.Signature
