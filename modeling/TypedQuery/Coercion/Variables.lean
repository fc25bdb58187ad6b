import TypedQuery.Coercion.Value
import TypedQuery.Document.Basic
/-!
The values of an operation's variables, computed from the values that a request provides.
-/

namespace TypedQuery

inductive VariableFault where
  | notInput
  | missing
  | null
  | invalid (value : Json) (rejection : Rejection)
  deriving Repr

namespace VariableDefinition

def faultMessage (definition : VariableDefinition) (fault : VariableFault) : String :=
  let name := definition.name
  let type := definition.type.text
  match fault with
  | .notInput =>
    s!"Variable \"${name}\" expected value of type \"{type}\" which cannot be used as an " ++
      "input type."
  | .missing => s!"Variable \"${name}\" of required type \"{type}\" was not provided."
  | .null => s!"Variable \"${name}\" of non-null type \"{type}\" must not be null."
  | .invalid value rejection =>
    s!"Variable \"${name}\" got invalid value {value.excerpt}; {rejection.message}"

def faultReport (definition : VariableDefinition) (fault : VariableFault) : ResponseError :=
  (Failure.invalidVariable (definition.faultMessage fault)).report [definition.location] none

/-- A variable of non-null type is absent and has no default, or it is null. -/
def requiredFault? (definition : VariableDefinition) (inputs : Json.Fields) :
    Option VariableFault :=
  if definition.type.isNonNull then
    match inputs.lookup definition.name with
    | none => if definition.defaultValue.isNone then some .missing else none
    | some .null => some .null
    | some _ => none
  else none

/-- The value of one variable, which has none when it is absent and has no default.  A default is
taken as it is written. -/
def value (schema : Schema) (inputs : Json.Fields) (definition : VariableDefinition) :
    Except VariableFault (Option Json) :=
  if !schema.isInput definition.type then .error .notInput
  else
    match definition.requiredFault? inputs with
    | some fault => .error fault
    | none =>
      match inputs.lookup definition.name with
      | none => .ok (definition.defaultValue.map (Literal.toJson []))
      | some provided =>
        match schema.coerceInput definition.type provided with
        | .ok coerced => .ok (some coerced)
        | .error rejection => .error (.invalid provided rejection)

/-- The error of a variable whose value is at fault. -/
def valueError? (schema : Schema) (inputs : Json.Fields) (definition : VariableDefinition) :
    Option ResponseError :=
  match definition.value schema inputs with
  | .ok _ => none
  | .error fault => some (definition.faultReport fault)

def binding? (schema : Schema) (inputs : Json.Fields) (definition : VariableDefinition) :
    Option (String × Json) :=
  match definition.value schema inputs with
  | .ok (some v) => some (definition.name, v)
  | _ => none

end VariableDefinition

namespace Schema

/-- The values of all variables, or an error for each that is at fault. -/
def coerceVariables (schema : Schema) (definitions : List VariableDefinition)
    (inputs : Json.Fields) : Except (List ResponseError) Json.Fields :=
  match definitions.filterMap (·.valueError? schema inputs) with
  | [] => .ok (Keyed.ofList (definitions.filterMap (·.binding? schema inputs)))
  | errors => .error errors

/-- The errors of required variables alone.  Provided values are not coerced, so a document may be
checked this way whatever else is wrong with it. -/
def requiredErrors (schema : Schema) (definitions : List VariableDefinition)
    (inputs : Json.Fields) : List ResponseError :=
  definitions.filterMap fun definition =>
    if schema.isInput definition.type then
      (definition.requiredFault? inputs).map definition.faultReport
    else none

end Schema

end TypedQuery
