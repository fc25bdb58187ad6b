import TypedQuery.Execution.Collection
import TypedQuery.Coercion.Arguments
import TypedQuery.Coercion.Variables
import TypedQuery.Schema.Root
/-!
Schemas that differ in nothing but their resolvers.  Only calls look at resolvers: types, coercion
and collection are the same.
-/

namespace TypedQuery
namespace Keyed

variable {α β : Type}

def mapValues (f : String → α → β) (entries : Keyed α) : Keyed β :=
  entries.map fun entry => (entry.1, f entry.1 entry.2)

theorem lookup_mapValues (f : String → α → β) (entries : Keyed α) (key : String) :
    (mapValues f entries).lookup key = (entries.lookup key).map (f key) := by
  induction entries with
  | nil => rfl
  | cons entry rest ih =>
    obtain ⟨k, v⟩ := entry
    rw [mapValues, List.map_cons, List.lookup_cons, List.lookup_cons]
    cases hk : key == k with
    | true =>
      rw [eq_of_beq hk]
      rfl
    | false => exact ih

end Keyed

def FieldDef.withResolver (resolver : Option Resolver) (field : FieldDef) : FieldDef :=
  { field with resolver := resolver }

def ObjectDef.withResolvers (resolvers : String → Option Resolver) (type : ObjectDef) : ObjectDef :=
  { type with fields := type.fields.mapValues fun name => FieldDef.withResolver (resolvers name) }

namespace TypeDef

def withResolvers (resolvers : String → Option Resolver) : TypeDef → TypeDef
  | object type => object (type.withResolvers resolvers)
  | interface type =>
    interface
      { type with
        fields := type.fields.mapValues fun name => FieldDef.withResolver (resolvers name) }
  | type => type

end TypeDef

namespace Schema

/-- The schema with other resolvers, given for the name of a type and that of a field. -/
def withResolvers (resolvers : String → String → Option Resolver) (schema : Schema) : Schema :=
  { schema with types := schema.types.mapValues fun name => TypeDef.withResolvers (resolvers name) }

variable (schema : Schema) (resolvers : String → String → Option Resolver)

theorem type?_withResolvers (name : String) :
    (schema.withResolvers resolvers).type? name =
      (schema.type? name).map (TypeDef.withResolvers (resolvers name)) :=
  Keyed.lookup_mapValues (fun name => TypeDef.withResolvers (resolvers name)) schema.types name

theorem object?_withResolvers (name : String) :
    (schema.withResolvers resolvers).object? name =
      (schema.object? name).map (ObjectDef.withResolvers (resolvers name)) := by
  unfold object?
  rw [type?_withResolvers]
  cases schema.type? name with
  | none => rfl
  | some type => cases type <;> rfl

theorem field?_withResolvers (type name : String) :
    (schema.withResolvers resolvers).field? type name =
      (schema.field? type name).map (FieldDef.withResolver (resolvers type name)) := by
  have hlookup (fields : Keyed FieldDef) :=
    Keyed.lookup_mapValues (fun name => FieldDef.withResolver (resolvers type name)) fields name
  unfold field? fields?
  rw [type?_withResolvers]
  cases schema.type? type with
  | none => rfl
  | some owner =>
    cases owner with
    | object owner => exact hlookup owner.fields
    | interface owner => exact hlookup owner.fields
    | _ => rfl

theorem implementers_withResolvers (interface : String) :
    (schema.withResolvers resolvers).implementers interface = schema.implementers interface := by
  unfold implementers withResolvers Keyed.values Keyed.mapValues
  dsimp only
  rw [List.map_map, List.flatMap_map, List.flatMap_map]
  congr 1
  funext entry
  rcases entry with ⟨name, type⟩
  cases type <;> rfl

theorem isPossible_withResolvers (abstract_ object : String) :
    (schema.withResolvers resolvers).isPossible abstract_ object =
      schema.isPossible abstract_ object := by
  unfold isPossible
  rw [type?_withResolvers, implementers_withResolvers]
  cases schema.type? abstract_ with
  | none => rfl
  | some type => cases type <;> rfl

theorem isInput_withResolvers (type : TypeExpr) :
    (schema.withResolvers resolvers).isInput type = schema.isInput type := by
  unfold isInput isLeaf
  rw [type?_withResolvers]
  cases schema.type? type.base with
  | none => rfl
  | some found => cases found <;> rfl

/-! ## Coercion -/

theorem coerceResult_withResolvers (name : String) (value : Json) :
    (schema.withResolvers resolvers).coerceResult name value = schema.coerceResult name value := by
  unfold coerceResult
  rw [type?_withResolvers]
  cases schema.type? name with
  | none => rfl
  | some type => cases type <;> rfl

theorem coerceInput_withResolvers (type : TypeExpr) :
    (schema.withResolvers resolvers).coerceInput type = schema.coerceInput type := by
  induction type with
  | named name =>
    funext value
    rw [coerceInput, coerceInput, coerceNamedInput, coerceNamedInput, type?_withResolvers]
    cases schema.type? name with
    | none => rfl
    | some type => cases type <;> rfl
  | list item ih =>
    funext value
    cases value with
    | null => rfl
    | _ => simp only [coerceInput, ih]
  | nonNull inner ih =>
    funext value
    rw [coerceInput, coerceInput, ih]

theorem coerceArguments_withResolvers (field : FieldDef) (supplied : List (String × Literal))
    (bindings : Json.Fields) :
    (schema.withResolvers resolvers).coerceArguments field supplied bindings =
      schema.coerceArguments field supplied bindings := by
  have harg (arg : ArgumentDef) :
      (schema.withResolvers resolvers).coerceArgument arg supplied bindings =
        schema.coerceArgument arg supplied bindings := by
    unfold coerceArgument
    rw [coerceInput_withResolvers]
  unfold coerceArguments
  simp only [harg]

theorem coerceVariables_withResolvers (definitions : List VariableDefinition)
    (inputs : Json.Fields) :
    (schema.withResolvers resolvers).coerceVariables definitions inputs =
      schema.coerceVariables definitions inputs := by
  have hvalue (definition : VariableDefinition) :
      definition.value (schema.withResolvers resolvers) inputs = definition.value schema inputs := by
    unfold VariableDefinition.value
    rw [isInput_withResolvers, coerceInput_withResolvers]
  unfold coerceVariables VariableDefinition.valueError? VariableDefinition.binding?
  simp only [hvalue]

end Schema

/-! ## Collection -/

namespace Selector

/-- The same selections on a schema with other resolvers. -/
def withResolvers (resolvers : String → String → Option Resolver) (s : Selector) : Selector :=
  { s with schema := s.schema.withResolvers resolvers }

variable (s : Selector) (resolvers : String → String → Option Resolver)

theorem applies_withResolvers (condition object : String) :
    (s.withResolvers resolvers).schema.applies condition object =
      s.schema.applies condition object := by
  unfold Schema.applies
  rw [show (s.withResolvers resolvers).schema = s.schema.withResolvers resolvers from rfl,
    Schema.isPossible_withResolvers]

variable (enter : Fragment → Collected → Collected) (object : String)

mutual

theorem collectSelection_withResolvers : ∀ (selection : Selection) (state : Collected),
    (s.withResolvers resolvers).collectSelection enter object selection state =
      s.collectSelection enter object selection state
  | .field head inner, state => by
    rw [collectSelection, collectSelection]
    rfl
  | .spread location name directives, state => by
    rw [collectSelection, collectSelection]
    simp only [applies_withResolvers]
    rfl
  | .inline location condition directives inner, state => by
    cases condition with
    | none =>
      rw [collectSelection, collectSelection, collectWith_withResolvers inner state]
      rfl
    | some condition =>
      rw [collectSelection, collectSelection, collectWith_withResolvers inner state,
        applies_withResolvers]
      rfl

theorem collectWith_withResolvers : ∀ (selections : List Selection) (state : Collected),
    (s.withResolvers resolvers).collectWith enter object selections state =
      s.collectWith enter object selections state
  | [], state => by rw [collectWith, collectWith]
  | first :: rest, state => by
    rw [collectWith, collectWith, collectSelection_withResolvers first state,
      collectWith_withResolvers rest]

end

theorem collect_withResolvers (sets : List (List Selection)) :
    (s.withResolvers resolvers).collect object sets = s.collect object sets := by
  have hdeep (depth : Nat) :
      (s.withResolvers resolvers).collectDeep object depth = s.collectDeep object depth := by
    induction depth with
    | zero =>
      funext selections state
      exact s.collectWith_withResolvers resolvers _ object selections state
    | succ depth ih =>
      funext selections state
      rw [collectDeep, collectDeep, ih]
      exact s.collectWith_withResolvers resolvers _ object selections state
  unfold collect
  rw [hdeep]
  rfl

end Selector
end TypedQuery
