import Shortcodes.Proofs.Signature.Canonical

/-!
# Which declarations are accepted

A declaration becomes a signature exactly if it is usable (`Usable`): the tag with its name and
nothing else is found again as that tag, its inputs are sound (`SoundInputs`), and by position no
input without a default follows one with a default (`TrailingDefaults`). The test of a name
knows nothing of how tags are read, so that the two have to be compared for every text
(`carries_iff_nameFits`); the test of the defaults runs from the end. What is refused, is refused
for a fault that it has, and the first one in the order of the tests is named
(`Refused`, `ofDeclaration_usable`).
-/

namespace Shortcodes

namespace Declaration

/-! ### Names -/

/-- The tag of a name that gives nothing. -/
def emptyTag (name : Text) : Text := Tag.opener ++ name ++ ' ' :: Word.closer

/-- The tag of the name is found again, alone and as a whole. -/
def Carries (name : Text) : Prop :=
  Tag.scan (emptyTag name) = [⟨⟨name, [], emptyTag name⟩, 0⟩]

theorem carries_of_nameFits {name : Text} (h : nameFits name = true) : Carries name := by
  have hmiddle : ¬ Word.closer <:+: [' '] ++ ['%'] := by decide
  have hread := Tag.read?_of_nameFits h ⟨' ', [], rfl, by decide⟩ hmiddle []
  have htag : Tag.opener ++ name ++ [' '] ++ Word.closer = emptyTag name := by
    rw [emptyTag, List.append_assoc _ [' ']]
    rfl
  rw [List.append_nil, htag] at hread
  exact Tag.scan_of_read? hread

theorem nameFits_of_carries {name : Text} (h : Carries name) : nameFits name = true := by
  obtain ⟨blanks, c, body, -, htag, -, hblank, hpercent, hbody⟩ :=
    Tag.read?_eq_some_iff.1 (Tag.read?_of_scan h rfl)
  have hname : name = c :: body.takeWhile fun d => !isBlank d := congrArg Tag.name htag
  have hletters : body.takeWhile (fun d => !isBlank d) <+: body ++ ['%'] :=
    (List.takeWhile_prefix _).trans (List.prefix_append body ['%'])
  refine nameFits_iff.2 ⟨c, _, hname, hpercent, ?_, ?_⟩
  · -- a closing mark in the name would have ended the tag, or begins with the first character
    rw [hname, List.infix_cons_iff]
    rintro (hstart | hinside)
    · exact hpercent (List.cons_prefix_cons.1 hstart).1.symm
    · exact hbody (hinside.trans hletters.isInfix)
  · rw [hname]
    intro d hd
    rcases List.mem_cons.1 hd with rfl | hd
    · exact hblank
    · simpa using List.mem_takeWhile_imp hd

/-- A name passes its test exactly if a tag can carry it. -/
theorem carries_iff_nameFits {name : Text} : Carries name ↔ nameFits name = true :=
  ⟨nameFits_of_carries, carries_of_nameFits⟩

/-- Half of a mark is no mark, at either end of a name. -/
example : Carries "][%é%".toList ∧ ¬ Carries "a%]".toList := by
  rw [carries_iff_nameFits, carries_iff_nameFits]
  decide

/-! ### Inputs -/

/-- Inputs have different names, and none is both required and defaulted. -/
structure SoundInputs (inputs : List Input) : Prop where
  distinct : (inputs.map (·.name)).Nodup
  exclusive : ∀ input ∈ inputs, input.required = true → input.default = none

theorem soundInputs_iff {inputs : List Input} :
    SoundInputs inputs ↔ inputFault? [] inputs = none := by
  rw [inputFault?_eq_none_iff]
  constructor
  · rintro ⟨hdistinct, hexclusive⟩
    exact ⟨hdistinct, fun _ _ => List.not_mem_nil, hexclusive⟩
  · rintro ⟨hdistinct, -, hexclusive⟩
    exact ⟨hdistinct, hexclusive⟩

/-- What is wrong with an input behind inputs of these names. -/
inductive Spoils (names : List Text) (input : Input) : DefinitionFault → Prop
  | again (known : input.name ∈ names) : Spoils names input (.repeatedInput input.name)
  | both (new : input.name ∉ names) (required : input.required = true)
      (default : input.default ≠ none) : Spoils names input (.requiredWithDefault input.name)

theorem Spoils.congr {names names' : List Text} {input : Input} {fault : DefinitionFault}
    (h : Spoils names input fault) (hnames : ∀ name, name ∈ names ↔ name ∈ names') :
    Spoils names' input fault := by
  cases h with
  | again known => exact .again ((hnames _).1 known)
  | both new required default => exact .both (mt (hnames _).2 new) required default

/-- The fault of inputs is that of the first one at which they are no longer sound. -/
theorem exists_of_inputFault? {seen : List Text} {inputs : List Input} {fault : DefinitionFault}
    (h : inputFault? seen inputs = some fault) :
    ∃ front input back, inputs = front ++ input :: back ∧ inputFault? seen front = none ∧
      Spoils (seen ++ front.map (·.name)) input fault := by
  induction inputs generalizing seen with
  | nil => cases h
  | cons input inputs ih =>
    rw [inputFault?] at h
    split at h
    · next hseen =>
      cases h
      exact ⟨[], input, inputs, rfl, rfl, .again (by simpa using hseen)⟩
    · next hseen =>
      split at h
      · next hboth =>
        cases h
        rw [Bool.and_eq_true, Option.isSome_iff_ne_none] at hboth
        exact ⟨[], input, inputs, rfl, rfl, .both (by simpa using hseen) hboth.1 hboth.2⟩
      · next hboth =>
        obtain ⟨front, found, back, rfl, hfront, hspoils⟩ := ih h
        refine ⟨input :: front, found, back, rfl, ?_, hspoils.congr fun name => ?_⟩
        · rw [inputFault?, if_neg hseen, if_neg hboth, hfront]
        · -- the name of this input counts as seen by those behind it
          rw [List.map_cons]
          exact List.perm_middle.mem_iff.symm

/-- Where an input is spoiled by those in front of it, the inputs are not sound. -/
theorem Spoils.not_soundInputs {front back : List Input} {input : Input} {fault : DefinitionFault}
    (h : Spoils (front.map (·.name)) input fault) : ¬ SoundInputs (front ++ input :: back) := by
  rintro ⟨hdistinct, hexclusive⟩
  cases h with
  | again known =>
    rw [List.map_append, List.map_cons, List.nodup_append] at hdistinct
    exact hdistinct.2.2 _ known _ List.mem_cons_self rfl
  | both _ required default =>
    apply default
    exact hexclusive input (List.mem_append_right front List.mem_cons_self) required

/-! ### Defaults -/

/-- The inputs with a default stand behind all others. -/
def TrailingDefaults (inputs : List Input) : Prop :=
  ∃ plain defaulted, inputs = plain ++ defaulted ∧ (∀ input ∈ plain, input.default = none) ∧
    ∀ input ∈ defaulted, input.default ≠ none

theorem trailingDefaults_cons_of_none {input : Input} (h : input.default = none)
    (inputs : List Input) : TrailingDefaults (input :: inputs) ↔ TrailingDefaults inputs := by
  constructor
  · rintro ⟨plain, defaulted, hsplit, hplain, hdefaulted⟩
    cases plain with
    | nil =>
      rw [List.nil_append] at hsplit
      exact absurd h (hdefaulted input (hsplit ▸ List.mem_cons_self))
    | cons first plain =>
      obtain ⟨-, rfl⟩ := List.cons.inj hsplit
      exact ⟨plain, defaulted, rfl, fun i hi => hplain i (List.mem_cons_of_mem _ hi), hdefaulted⟩
  · rintro ⟨plain, defaulted, rfl, hplain, hdefaulted⟩
    exact ⟨input :: plain, defaulted, rfl, by simpa [h] using hplain, hdefaulted⟩

theorem trailingDefaults_cons_of_ne_none {input : Input} (h : input.default ≠ none)
    (inputs : List Input) :
    TrailingDefaults (input :: inputs) ↔ ∀ i ∈ inputs, i.default ≠ none := by
  constructor
  · rintro ⟨plain, defaulted, hsplit, hplain, hdefaulted⟩ i hi
    cases plain with
    | nil =>
      rw [List.nil_append] at hsplit
      exact hdefaulted i (hsplit ▸ List.mem_cons_of_mem _ hi)
    | cons first plain =>
      obtain ⟨rfl, -⟩ := List.cons.inj hsplit
      exact absurd (hplain input List.mem_cons_self) h
  · intro hall
    exact ⟨[], input :: inputs, rfl, by simp, by simpa [h] using hall⟩

/-- Inputs that all have a default are all behind those without. -/
theorem trailingDefaults_of_forall {inputs : List Input} (h : ∀ i ∈ inputs, i.default ≠ none) :
    TrailingDefaults inputs :=
  ⟨[], inputs, rfl, by simp, h⟩

/-- The test runs from the end, and an input counts only if none behind it has a fault. -/
theorem defaultFault?_cons (input : Input) (inputs : List Input) :
    defaultFault? (input :: inputs) = (defaultFault? inputs).or (input.default.bind fun value =>
      if inputs.any (·.default.isNone) then some (.defaultNotTrailing input.name value)
      else none) := by
  rw [defaultFault?]
  cases defaultFault? inputs with
  | some fault => rfl
  | none => cases input.default <;> rfl

theorem any_isNone_iff {inputs : List Input} :
    inputs.any (·.default.isNone) = true ↔ ∃ i ∈ inputs, i.default = none := by
  simp

theorem defaultFault?_eq_none_iff {inputs : List Input} :
    defaultFault? inputs = none ↔ TrailingDefaults inputs := by
  induction inputs with
  | nil => exact ⟨fun _ => trailingDefaults_of_forall (by simp), fun _ => rfl⟩
  | cons input inputs ih =>
    rw [defaultFault?_cons, Option.or_eq_none_iff, ih]
    cases hdefault : input.default with
    | none => simp [trailingDefaults_cons_of_none hdefault]
    | some value =>
      have hne : input.default ≠ none := by simp [hdefault]
      rw [trailingDefaults_cons_of_ne_none hne, Option.bind_some, ite_eq_right_iff]
      constructor
      · rintro ⟨-, hnone⟩ i hi hdefault
        cases hnone (any_isNone_iff.2 ⟨i, hi, hdefault⟩)
      · intro hall
        refine ⟨trailingDefaults_of_forall hall, fun hany => ?_⟩
        obtain ⟨i, hi, hdefault⟩ := any_isNone_iff.1 hany
        exact absurd hdefault (hall i hi)

/-- The fault of defaults is that of the last input with a default that one without follows. -/
theorem exists_of_defaultFault? {inputs : List Input} {fault : DefinitionFault}
    (h : defaultFault? inputs = some fault) :
    ∃ front input value back, inputs = front ++ input :: back ∧ input.default = some value ∧
      (∃ i ∈ back, i.default = none) ∧ TrailingDefaults back ∧
      fault = .defaultNotTrailing input.name value := by
  induction inputs with
  | nil => cases h
  | cons input inputs ih =>
    rw [defaultFault?_cons, Option.or_eq_some_iff] at h
    rcases h with h | ⟨hbehind, h⟩
    · obtain ⟨front, found, value, back, rfl, hfound⟩ := ih h
      exact ⟨input :: front, found, value, back, rfl, hfound⟩
    · obtain ⟨value, hvalue, h⟩ := Option.bind_eq_some_iff.1 h
      split at h
      · next hany =>
        cases h
        exact ⟨[], input, value, inputs, rfl, hvalue, any_isNone_iff.1 hany,
          defaultFault?_eq_none_iff.1 hbehind, rfl⟩
      · cases h

/-- Behind an input with a default there is none without. -/
theorem TrailingDefaults.of_append {front inputs : List Input}
    (h : TrailingDefaults (front ++ inputs)) : TrailingDefaults inputs := by
  induction front with
  | nil => exact h
  | cons input front ih =>
    apply ih
    by_cases hdefault : input.default = none
    · exact (trailingDefaults_cons_of_none hdefault _).1 h
    · exact trailingDefaults_of_forall ((trailingDefaults_cons_of_ne_none hdefault _).1 h)

/-! ### Declarations -/

/-- A tag can carry the name, the inputs are sound, and by position those with a default trail. -/
structure Usable (d : Declaration) : Prop where
  carries : Carries d.name
  sound : SoundInputs d.inputs
  trailing : d.binding = .positional → TrailingDefaults d.inputs

/-- The declaration has the fault, and none that is tested before it. -/
inductive Refused (d : Declaration) : DefinitionFault → Prop
  | name (name : ¬ Carries d.name) : Refused d .badName
  | input {front back : List Input} {input : Input} {fault : DefinitionFault}
      (name : Carries d.name) (inputs : d.inputs = front ++ input :: back)
      (sound : SoundInputs front) (spoils : Spoils (front.map (·.name)) input fault) :
      Refused d fault
  | default {front back : List Input} {input : Input} {value : Text}
      (name : Carries d.name) (sound : SoundInputs d.inputs) (binding : d.binding = .positional)
      (inputs : d.inputs = front ++ input :: back) (default : input.default = some value)
      (follows : ∃ i ∈ back, i.default = none) (trailing : TrailingDefaults back) :
      Refused d (.defaultNotTrailing input.name value)

theorem usable_of_fault?_eq_none {d : Declaration} (h : d.fault? = none) : Usable d := by
  have hname : nameFits d.name = true := Signature.nameFits ⟨d, h⟩
  have hinputs : inputFault? [] d.inputs = none := Signature.inputFault?_eq_none ⟨d, h⟩
  refine ⟨carries_of_nameFits hname, soundInputs_iff.2 hinputs, fun hbinding => ?_⟩
  apply defaultFault?_eq_none_iff.1
  simpa [fault?, hname, hinputs, hbinding] using h

theorem refused_of_fault? {d : Declaration} {fault : DefinitionFault} (h : d.fault? = some fault) :
    Refused d fault := by
  rw [fault?] at h
  split at h
  · next hname =>
    cases h
    exact .name (mt nameFits_of_carries (by simpa using hname))
  · next hname =>
    have hcarries : Carries d.name := carries_of_nameFits (by simpa using hname)
    split at h
    · next hfault =>
      cases h
      obtain ⟨front, input, back, hinputs, hfront, hspoils⟩ := exists_of_inputFault? hfault
      exact .input hcarries hinputs (soundInputs_iff.2 hfront) hspoils
    · next hnone =>
      split at h
      · next hbinding =>
        obtain ⟨front, input, value, back, hinputs, hvalue, hfollows, htrailing, rfl⟩ :=
          exists_of_defaultFault? h
        exact .default hcarries (soundInputs_iff.2 hnone) hbinding hinputs hvalue hfollows
          htrailing
      · cases h

theorem Refused.not_usable {d : Declaration} {fault : DefinitionFault} (h : Refused d fault) :
    ¬ Usable d := by
  rintro ⟨hcarries, hsound, htrailing⟩
  cases h with
  | name hname => exact hname hcarries
  | input _ hinputs _ hspoils => exact hspoils.not_soundInputs (hinputs ▸ hsound)
  | default _ _ hbinding hinputs hvalue hfollows _ =>
    -- from the input on, those with a default are not the last ones
    have hfrom := (hinputs ▸ htrailing hbinding).of_append
    obtain ⟨i, hi, hdefault⟩ := hfollows
    exact (trailingDefaults_cons_of_ne_none (by simp [hvalue]) _).1 hfrom i hi hdefault

end Declaration

namespace Signature

theorem ofDeclaration_of_none {d : Declaration} (h : d.fault? = none) :
    ofDeclaration d = .ok ⟨d, h⟩ := by
  unfold ofDeclaration
  split
  · rfl
  · next hsome =>
    rw [h] at hsome
    cases hsome

theorem ofDeclaration_of_some {d : Declaration} {fault : DefinitionFault}
    (h : d.fault? = some fault) : ofDeclaration d = .error (.badDefinition d.name fault) := by
  unfold ofDeclaration
  split
  · next hnone =>
    rw [h] at hnone
    cases hnone
  · next hsome =>
    rw [h] at hsome
    cases hsome
    rfl

/-- Exactly the usable declarations are accepted, as they are. Every other one is refused for a
fault that it has. -/
theorem ofDeclaration_usable (d : Declaration) :
    ((∃ s, ofDeclaration d = .ok s ∧ s.toDeclaration = d) ↔ d.Usable) ∧
      ((∃ fault, ofDeclaration d = .error (.badDefinition d.name fault) ∧ d.Refused fault) ↔
        ¬ d.Usable) := by
  cases hfault : d.fault? with
  | none =>
    have hok := ofDeclaration_of_none hfault
    have husable := Declaration.usable_of_fault?_eq_none hfault
    refine ⟨iff_of_true ⟨_, hok, rfl⟩ husable, iff_of_false ?_ (not_not_intro husable)⟩
    rintro ⟨fault, -, hrefused⟩
    exact hrefused.not_usable husable
  | some fault =>
    have herror := ofDeclaration_of_some hfault
    have hrefused := Declaration.refused_of_fault? hfault
    have hnot := hrefused.not_usable
    refine ⟨iff_of_false ?_ hnot, iff_of_true ⟨fault, herror, hrefused⟩ hnot⟩
    rintro ⟨s, hok, -⟩
    rw [herror] at hok
    cases hok

end Signature

end Shortcodes
