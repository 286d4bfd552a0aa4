import Shortcodes.Failure
import Shortcodes.Tag.Given

/-!
# Signatures

A signature says what a shortcode is called, which inputs it takes and how the words of a tag
bind to them: by position or by key. A declaration becomes a signature when it has no fault: a
tag can carry its name, input names differ, no input is both required and defaulted, and, by
position, only a trailing run of inputs has defaults, so that leaving words out is never
ambiguous.
-/

namespace Shortcodes

/-- A parameter of a shortcode. -/
structure Input where
  name : Text
  /-- Where reversal finds the value in rendered markup. -/
  path : Option Text := none
  default : Option Text := none
  required : Bool := false
  deriving DecidableEq, Repr

/-- The value of an input that a tag leaves out. -/
def Input.fallback (input : Input) : Text := input.default.getD []

/-- Which pairs the canonical tag of a keyword shortcode leaves out. -/
inductive Omission where
  /-- Pairs whose value is the input's fallback. -/
  | defaults
  /-- Pairs whose value is empty. -/
  | empties
  deriving DecidableEq, Repr

/-- How a keyword shortcode treats keys. -/
structure KeywordPolicy where
  /-- Whether undeclared keys are refused; otherwise they are kept aside. -/
  rejectUnknown : Bool := true
  omission : Omission := .defaults
  deriving DecidableEq, Repr

/-- How words bind to inputs. -/
inductive Binding where
  | positional
  | keyword (policy : KeywordPolicy)
  deriving DecidableEq, Repr

/-- What a definition states, before any check. -/
structure Declaration where
  name : Text
  inputs : List Input
  binding : Binding
  deriving DecidableEq, Repr

namespace Declaration

/-- Whether a tag can carry the name: it is not empty, does not start with `%`, and has no
    closing mark and no blank. -/
def nameFits (name : Text) : Bool :=
  name != [] && name.head? != some '%' && !Text.has ['%', ']'] name && !name.any isBlank

/-- The first input with a name that was declared before, or with a default although it is
    required. -/
def inputFault? (seen : List Text) : List Input → Option DefinitionFault
  | [] => none
  | input :: rest =>
    if seen.contains input.name then some (.repeatedInput input.name)
    else if input.required && input.default.isSome then some (.requiredWithDefault input.name)
    else inputFault? (input.name :: seen) rest

/-- The last defaulted input that some input without a default follows. -/
def defaultFault? : List Input → Option DefinitionFault
  | [] => none
  | input :: rest =>
    match defaultFault? rest with
    | some fault => some fault
    | none =>
      match input.default with
      | some value =>
        if rest.any (·.default.isNone) then some (.defaultNotTrailing input.name value) else none
      | none => none

/-- The fault for which a declaration is refused. -/
def fault? (d : Declaration) : Option DefinitionFault :=
  if !nameFits d.name then some .badName
  else
    match inputFault? [] d.inputs with
    | some fault => some fault
    | none => if d.binding = .positional then defaultFault? d.inputs else none

end Declaration

/-- A declaration without fault. -/
structure Signature extends Declaration where
  faultless : toDeclaration.fault? = none
  deriving DecidableEq, Repr

namespace Signature

/-- Accepts a declaration that has no fault. -/
def ofDeclaration (d : Declaration) : Except Failure Signature :=
  match h : d.fault? with
  | none => .ok ⟨d, h⟩
  | some fault => .error (.badDefinition d.name fault)

/-- The declared input of a name. -/
def input? (s : Signature) (name : Text) : Option Input := s.inputs.find? (·.name = name)

/-- The position of the declared input of a name. -/
def position? (s : Signature) (name : Text) : Option Nat := s.inputs.findIdx? (·.name = name)

end Signature

end Shortcodes
