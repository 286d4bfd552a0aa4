import Shortcodes.Signature.Basic

/-!
# Binding the words of a tag

Binding turns what a tag gives into one value per declared input. A required input must get a
value that is not empty; any other input that gets none takes its fallback.
-/

namespace Shortcodes

/-- Values bound to the inputs of a shortcode. -/
structure Arguments where
  /-- Name and value of each input, in declaration order. -/
  values : List (Text × Text) := []
  /-- Pairs with undeclared keys that the policy kept. -/
  extra : List (Text × Text) := []
  deriving DecidableEq, Repr

namespace Arguments

/-- The first value of a name. -/
def get? (a : Arguments) (name : Text) : Option Text :=
  (a.values.find? (·.1 = name)).map (·.2)

/-- The value at a position. -/
def at? (a : Arguments) (index : Nat) : Option Text := a.values[index]?.map (·.2)

/-- The value of a name, empty if it has none. -/
def getOrEmpty (a : Arguments) (name : Text) : Text := (a.get? name).getD []

end Arguments

/-- The value that an input takes when it was given `value`. -/
def Input.resolve (shortcode : Text) (input : Input) (value : Option Text) : Except Failure Text :=
  match value with
  | some v =>
    if input.required && v = [] then .error (.missingInput shortcode input.name) else .ok v
  | none =>
    if input.required then .error (.missingInput shortcode input.name) else .ok input.fallback

namespace Signature

/-- Resolves inputs with the words at their positions. -/
def resolveInOrder (shortcode : Text) :
    List Input → List Text → Except Failure (List (Text × Text))
  | [], _ => .ok []
  | input :: inputs, words => do
    let value ← input.resolve shortcode words.head?
    let rest ← resolveInOrder shortcode inputs words.tail
    return (input.name, value) :: rest

/-- Takes the first pair with `key` out of a list of pairs. The last pair of the list moves into
    its place. -/
def takeKey (key : Text) (pairs : List (Text × Text)) :
    Option Text × List (Text × Text) :=
  match pairs.findIdx? (·.1 = key) with
  | none => (none, pairs)
  | some i =>
    let value := (pairs[i]?.map (·.2))
    match pairs.getLast? with
    | none => (value, pairs)
    | some last => (value, (pairs.set i last).dropLast)

/-- Resolves inputs with the pairs of their names, each pair used up by its input. -/
def resolveByKey (shortcode : Text) :
    List Input → List (Text × Text) → Except Failure (List (Text × Text))
  | [], _ => .ok []
  | input :: inputs, pairs => do
    let (given, others) := takeKey input.name pairs
    let value ← input.resolve shortcode given
    let rest ← resolveByKey shortcode inputs others
    return (input.name, value) :: rest

/-- Binds words by position. -/
def bindPositional (s : Signature) (given : Given) : Except Failure Arguments :=
  if given.keyed ≠ [] then .error (.unknownKeys s.name (given.keyed.map (·.1)) [])
  else if s.inputs.length < given.positional.length then
    .error (.tooManyWords s.name given.positional.length s.inputs.length)
  else (resolveInOrder s.name s.inputs given.positional).map fun values => ⟨values, []⟩

/-- Whether a key is the name of a declared input. -/
def declares (s : Signature) (key : Text) : Bool := s.inputs.any (·.name = key)

/-- Binds words by key. -/
def bindKeyword (s : Signature) (policy : KeywordPolicy) (given : Given) :
    Except Failure Arguments :=
  if given.positional ≠ [] then .error (.tooManyWords s.name given.positional.length 0)
  else
    let declared := given.keyed.filter fun (key, _) => s.declares key
    let extra := given.keyed.filter fun (key, _) => !s.declares key
    if policy.rejectUnknown && extra ≠ [] then
      .error (.unknownKeys s.name (extra.map (·.1)) (s.inputs.map (·.name)))
    else (resolveByKey s.name s.inputs declared).map fun values => ⟨values, extra⟩

/-- Binds what a tag gives to the declared inputs. -/
def bind (s : Signature) (given : Given) : Except Failure Arguments :=
  match s.binding with
  | .positional => s.bindPositional given
  | .keyword policy => s.bindKeyword policy given

/-- Resolves inputs with the values that arguments have for their names. -/
def resolveFrom (shortcode : Text) (args : Arguments) :
    List Input → Except Failure (List (Text × Text))
  | [] => .ok []
  | input :: inputs => do
    let value ← input.resolve shortcode (args.get? input.name)
    let rest ← resolveFrom shortcode args inputs
    return (input.name, value) :: rest

/-- Gives every declared input a value from arguments that may lack some. Extra pairs carry
    over. -/
def fill (s : Signature) (args : Arguments) : Except Failure Arguments :=
  (resolveFrom s.name args s.inputs).map fun values => ⟨values, args.extra⟩

end Signature

end Shortcodes
