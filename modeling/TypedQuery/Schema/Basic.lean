import TypedQuery.Schema.BuiltIn
/-!
Schemas and the relations between their types.
-/

namespace TypedQuery

structure Schema where
  queryType : String
  mutationType : Option String
  types : Keyed TypeDef

namespace Schema

def type? (schema : Schema) (name : String) : Option TypeDef := schema.types.lookup name

def object? (schema : Schema) (name : String) : Option ObjectDef :=
  match schema.type? name with
  | some (.object type) => some type
  | _ => none

/-- The fields of an object or interface type. -/
def fields? (schema : Schema) (type : String) : Option (Keyed FieldDef) :=
  (schema.type? type).bind TypeDef.fields?

def field? (schema : Schema) (type field : String) : Option FieldDef :=
  (schema.fields? type).bind fun fields => fields.lookup field

/-! ## Abstract types -/

/-- The objects that declare an interface, in the order of the types.  One that declares it more
than once is listed as often. -/
def implementers (schema : Schema) (interface : String) : List String :=
  schema.types.values.flatMap fun
    | .object type => (type.interfaces.filter (· == interface)).map fun _ => type.name
    | _ => []

/-- The object types that a value of a type may have. -/
def possibleTypes (schema : Schema) (name : String) : List String :=
  match schema.type? name with
  | some (.object type) => [type.name]
  | some (.union type) => type.members
  | some (.interface _) => schema.implementers name
  | _ => []

/-- An object type belongs to an abstract type.  No type belongs to an object type, itself
included. -/
def isPossible (schema : Schema) (abstract_ object : String) : Bool :=
  match schema.type? abstract_ with
  | some (.union type) => type.members.contains object
  | some (.interface _) => (schema.implementers abstract_).contains object
  | _ => false

/-- Some object type may stand for both types. -/
def overlap (schema : Schema) (a b : String) : Bool :=
  a == b || (schema.possibleTypes a).any fun t => (schema.possibleTypes b).contains t

/-- A value of the first type may be used where the second is expected. -/
def isSubtype (schema : Schema) : TypeExpr → TypeExpr → Bool
  | .nonNull sub, .nonNull sup => schema.isSubtype sub sup
  | _, .nonNull _ => false
  | .nonNull sub, sup => schema.isSubtype sub sup
  | .list sub, .list sup => schema.isSubtype sub sup
  | _, .list _ => false
  | .list _, _ => false
  | .named sub, .named sup => sub == sup || schema.isPossible sup sub

theorem isSubtype_nonNull_iff {schema : Schema} {sub sup : TypeExpr} :
    schema.isSubtype sub (.nonNull sup) = true ↔
      ∃ inner, sub = .nonNull inner ∧ schema.isSubtype inner sup = true := by
  cases sub with
  | nonNull inner =>
    rw [isSubtype]
    refine ⟨fun h => ⟨inner, rfl, h⟩, ?_⟩
    rintro ⟨other, he, h⟩
    rwa [TypeExpr.nonNull.inj he]
  | named name => simp [isSubtype]
  | list item => simp [isSubtype]

/-- Where no mark is wanted, one that is there does not count. -/
theorem isSubtype_of_nonNull {schema : Schema} {sub sup : TypeExpr} (hsup : sup.isNonNull = false) :
    schema.isSubtype (.nonNull sub) sup = schema.isSubtype sub sup := by
  cases sup with
  | nonNull inner => cases hsup
  | named name => simp [isSubtype]
  | list item => simp [isSubtype]

theorem isSubtype_named_iff {schema : Schema} {sub sup : String} :
    schema.isSubtype (.named sub) (.named sup) = true ↔
      sub = sup ∨ schema.isPossible sup sub = true := by
  rw [isSubtype, Bool.or_eq_true, beq_iff_eq]

/-! ## Kinds of types -/

def isLeaf (schema : Schema) (name : String) : Bool :=
  match schema.type? name with
  | some type => type.isLeaf
  | none => false

def isComposite (schema : Schema) (name : String) : Bool :=
  match schema.type? name with
  | some type => type.isComposite
  | none => false

/-- Inputs are of leaf types, under any wrappers. -/
def isInput (schema : Schema) (type : TypeExpr) : Bool := schema.isLeaf type.base

end Schema

end TypedQuery
