import TypedQuery.Schema.Basic
/-!
Coercion of results to leaf types, and of inputs to input types.
-/

namespace TypedQuery
namespace Schema

/-- A result, which is not null, in the form of a leaf type. -/
def coerceResult (schema : Schema) (name : String) (value : Json) : Except Rejection Json :=
  match schema.type? name with
  | some (.scalar type) => (type.serialize value).mapError .ofScalar
  | some (.enum type) =>
    match value with
    | .str text =>
      if type.values.contains text then .ok (.str text)
      else .error { cause := .notEnumResult type.name, value := value }
    | _ => .error { cause := .notEnumResult type.name, value := value }
  | _ => .error { cause := .notLeafType name, value := value }

/-- An input, which is not null, in the form of a named type. -/
def coerceNamedInput (schema : Schema) (name : String) (value : Json) : Except Rejection Json :=
  match schema.type? name with
  | some (.scalar type) => (type.parse value).mapError .ofScalar
  | some (.enum type) =>
    match value with
    | .str text =>
      if type.values.contains text then .ok (.str text)
      else .error { cause := .unknownEnumValue type.name text, value := value }
    | _ => .error { cause := .notEnumName type.name, value := value }
  | _ => .error { cause := .notInputType name, value := value }

/-- An input in the form of a type.  Where a list is expected, any other value stands for the list
of that one value. -/
def coerceInput (schema : Schema) : TypeExpr → Json → Except Rejection Json
  | .nonNull inner, value =>
    if value.isNull then .error { cause := .nullForNonNull (.nonNull inner), value := value }
    else schema.coerceInput inner value
  | .list item, value =>
    match value with
    | .null => .ok .null
    | .arr items => .arr <$> items.mapM (schema.coerceInput item)
    | single => (fun coerced => .arr [coerced]) <$> schema.coerceInput item single
  | .named name, value => if value.isNull then .ok .null else schema.coerceNamedInput name value

end Schema
end TypedQuery
