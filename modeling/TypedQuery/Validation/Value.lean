import TypedQuery.Coercion.Value
import TypedQuery.Validation.Findings
/-!
Values in a document against the types that are expected of them.
-/

namespace TypedQuery
namespace Schema

/-- A literal without variables fits a named type.  Null is settled before. -/
def acceptsNamed (schema : Schema) (name : String) (literal : Literal) : Bool :=
  match schema.type? name with
  | some (.enum type) =>
    match literal with
    | .enum value => type.values.contains value
    | _ => false
  | some (.scalar type) =>
    let isEnum :=
      match literal with
      | .enum _ => true
      | _ => false
    !(isEnum && BuiltIn.isName type.name) &&
      (schema.coerceInput (.named name) (literal.toJson [])).isOk
  | _ => false

/-- A literal without variables fits a type.  Where a list is expected, a single value does. -/
def accepts (schema : Schema) : TypeExpr → Literal → Bool
  | .nonNull inner, literal =>
    match literal with
    | .null => false
    | literal => schema.accepts inner literal
  | .list item, literal =>
    match literal with
    | .null => true
    | .list items => items.all (schema.accepts item)
    | literal => schema.accepts item literal
  | .named name, literal =>
    match literal with
    | .null => true
    | literal => schema.acceptsNamed name literal

end Schema

namespace Literal

/-- The variables of a value of which no type is known. -/
def untypedUses (location : Location) (literal : Literal) : List VariableUse :=
  literal.variableNames.map fun name =>
    { name := name, location := location, expected := none, hasDefault := false }

mutual

/-- The uses of variables in a value where `type` is expected, and whether the rest of the value
fits.  Items of a list have types of their own; other values that hold variables never fit. -/
def typedUses (schema : Schema) (location : Location) (type : TypeExpr) (hasDefault : Bool) :
    Literal → List VariableUse × Bool
  | var name =>
    let use : VariableUse :=
      { name := name, location := location, expected := some type, hasDefault := hasDefault }
    ([use], true)
  | list items =>
    if !(list items).hasVariable then ([], schema.accepts type (list items))
    else
      match type.nullable with
      | .list item => typedUsesItems schema location item items
      | _ => ((list items).untypedUses location, false)
  | literal =>
    if !literal.hasVariable then ([], schema.accepts type literal)
    else (literal.untypedUses location, false)

def typedUsesItems (schema : Schema) (location : Location) (type : TypeExpr) :
    List Literal → List VariableUse × Bool
  | [] => ([], true)
  | item :: rest =>
    let (uses, fits) := typedUses schema location type false item
    let (restUses, restFits) := typedUsesItems schema location type rest
    (uses ++ restUses, fits && restFits)

end

end Literal

end TypedQuery
