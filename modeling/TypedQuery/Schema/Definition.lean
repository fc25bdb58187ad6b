import TypedQuery.Resolver.Basic
/-!
Definitions of types.  Types refer to each other by name, so they may be recursive without further
ado.
-/

namespace TypedQuery

/-- A scalar coerces results and inputs by functions of its own. -/
structure ScalarDef where
  name : String
  description : Option String
  serialize : Json → Except ScalarRejection Json
  parse : Json → Except ScalarRejection Json

/-- A scalar that passes values through. -/
def ScalarDef.plain (name : String) : ScalarDef :=
  { name := name, description := none, serialize := .ok, parse := .ok }

structure EnumDef where
  name : String
  values : List String
  deriving Repr

structure ArgumentDef where
  name : String
  type : TypeExpr
  defaultValue : Option Json
  deriving Repr

/-- A value must be supplied: null is not allowed and there is no default. -/
def ArgumentDef.isRequired (arg : ArgumentDef) : Bool :=
  arg.type.isNonNull && arg.defaultValue.isNone

structure FieldDef where
  name : String
  description : Option String
  type : TypeExpr
  arguments : Keyed ArgumentDef
  /-- Absent, the property of the parent is read. -/
  resolver : Option Resolver

/-- Where a value of an abstract type belongs. -/
inductive Placement where
  | type (name : String)
  | unknown
  | panicked (message : Option String)
  deriving DecidableEq, Repr

abbrev Placer := Json → Context → Placement

/-- Without a function of the type's own, a value is placed by its property `__typename`. -/
def Placer.byTypename : Placer := fun value _ =>
  match (value.field? "__typename").bind Json.str? with
  | some name => .type name
  | none => .unknown

structure ObjectDef where
  name : String
  description : Option String
  fields : Keyed FieldDef
  interfaces : List String

structure InterfaceDef where
  name : String
  fields : Keyed FieldDef
  placer : Option Placer

structure UnionDef where
  name : String
  members : List String
  placer : Option Placer

inductive TypeDef where
  | scalar (type : ScalarDef)
  | enum (type : EnumDef)
  | object (type : ObjectDef)
  | interface (type : InterfaceDef)
  | union (type : UnionDef)

namespace TypeDef

def name : TypeDef → String
  | scalar type => type.name
  | enum type => type.name
  | object type => type.name
  | interface type => type.name
  | union type => type.name

def description? : TypeDef → Option String
  | scalar type => type.description
  | object type => type.description
  | _ => none

def fields? : TypeDef → Option (Keyed FieldDef)
  | object type => some type.fields
  | interface type => some type.fields
  | _ => none

/-- Leaf types have no selections. -/
def isLeaf : TypeDef → Bool
  | scalar _ | enum _ => true
  | _ => false

/-- Composite types need selections. -/
def isComposite : TypeDef → Bool
  | object _ | interface _ | union _ => true
  | _ => false

end TypeDef

end TypedQuery
