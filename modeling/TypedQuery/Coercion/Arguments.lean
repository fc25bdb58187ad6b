import TypedQuery.Coercion.Value
/-!
The arguments that a resolver receives, computed from those that a query supplies.
-/

namespace TypedQuery
namespace Schema

/-- What a query supplies for an argument: the literal under its name, unless that is a variable
without a value. -/
def suppliedLiteral? (name : String) (supplied : List (String × Literal))
    (bindings : Json.Fields) : Option Literal :=
  match supplied.lookup name with
  | some (.var variableName) =>
    if bindings.has variableName then some (.var variableName) else none
  | literal => literal

/-- The value of one argument.  Nothing supplied means the default, and without one the argument is
left out. -/
def coerceArgument (schema : Schema) (arg : ArgumentDef) (supplied : List (String × Literal))
    (bindings : Json.Fields) : Except Rejection (Option Json) :=
  match suppliedLiteral? arg.name supplied bindings with
  | none =>
    if arg.isRequired then
      .error { cause := .missingArgument arg.name arg.type, value := .null }
    else .ok arg.defaultValue
  | some literal =>
    let value := literal.toJson bindings
    if value.isNull && arg.type.isNonNull then
      .error { cause := .nullArgument arg.name arg.type, value := value }
    else
      match schema.coerceInput arg.type value with
      | .ok coerced => .ok (some coerced)
      | .error rejection =>
        .error { cause := .invalidArgument arg.name literal, value := rejection.value }

/-- The arguments of a field in the order of their declaration, or the first rejection in that
order.  Supplied arguments that the field does not declare are ignored. -/
def coerceArguments (schema : Schema) (field : FieldDef) (supplied : List (String × Literal))
    (bindings : Json.Fields) : Except Rejection Json.Fields := do
  let entries ← field.arguments.values.mapM fun arg => do
    return (← schema.coerceArgument arg supplied bindings).map fun value => (arg.name, value)
  return entries.filterMap id

end Schema
end TypedQuery
