import TypedQuery.Schema.Basic
/-!
Making a schema from its parts.  A blueprint becomes a schema only when every reference in it is in
order; otherwise the first fault is reported.
-/

namespace TypedQuery

/-- The parts of a schema: its roots, and the types in the order in which they were added. -/
structure Blueprint where
  queryType : Option String
  mutationType : Option String
  added : List TypeDef

namespace Blueprint

/-- What can be done to a blueprint before it is built. -/
inductive Step where
  | queryType (name : String)
  | mutationType (name : String)
  | addType (type : TypeDef)

def empty : Blueprint := { queryType := none, mutationType := none, added := [] }

/-- A root that is named again takes the place of the one before. -/
def take (b : Blueprint) : Step → Blueprint
  | .queryType name => { b with queryType := some name }
  | .mutationType name => { b with mutationType := some name }
  | .addType type => { b with added := b.added ++ [type] }

def ofSteps (steps : List Step) : Blueprint := steps.foldl take empty

end Blueprint

inductive RootKind where
  | query
  | mutation
  deriving DecidableEq, Repr

def RootKind.text : RootKind → String
  | query => "Query"
  | mutation => "Mutation"

/-- A place in a schema that refers to a type. -/
inductive Site where
  | root (kind : RootKind)
  | type (name : String)
  | field (owner name : String)
  | argument (owner holder name : String)
  deriving DecidableEq, Repr

def Site.text : Site → String
  | root kind => s!"the {kind.text} root"
  | type name => s!"\"{name}\""
  | field owner name => s!"\"{owner}.{name}\""
  | argument owner holder name => s!"\"{owner}.{holder}({name}:)\""

inductive SchemaFault where
  | duplicateType (name : String)
  | missingQueryType
  | unknownType (name : String) (site : Site)
  | rootNotObject (name : String) (kind : RootKind)
  | memberNotObject (name union : String)
  | notInterface (name object : String)
  | notInput (type : TypeExpr) (site : Site)
  | markedTwice (type : TypeExpr) (site : Site)
  deriving DecidableEq, Repr

def SchemaFault.message : SchemaFault → String
  | duplicateType name => s!"Type \"{name}\" is defined more than once."
  | missingQueryType => "Query root type must be provided."
  | unknownType name site => s!"Unknown type \"{name}\" referenced by {site.text}."
  | rootNotObject name kind => s!"{kind.text} type \"{name}\" must be an Object type."
  | memberNotObject name union =>
    s!"Union \"{union}\" member type \"{name}\" must be an Object type."
  | notInterface name object =>
    s!"Type \"{name}\" implemented by \"{object}\" must be an Interface type."
  | notInput type site =>
    s!"The type of {site.text} must be an input type but got \"{type.text}\"."
  | markedTwice type site =>
    s!"The type of {site.text} wraps a non-null type in another non-null type: \"{type.text}\"."

namespace Blueprint

/-- The types by name: the built-in scalars first, each in its place even when it is replaced. -/
def table (b : Blueprint) : Keyed TypeDef :=
  Keyed.ofList <|
    (BuiltIn.scalars.map fun scalar => (scalar.name, TypeDef.scalar scalar)) ++
      b.added.map fun type => (type.name, type)

/-- The first name that was added before. -/
def firstDuplicate? : List String → Option String
  | names => go [] names
where
  go (seen : List String) : List String → Option String
    | [] => none
    | name :: rest => if seen.contains name then some name else go (name :: seen) rest

def checkRoot (types : Keyed TypeDef) (kind : RootKind) (name : String) :
    Except SchemaFault Unit :=
  match types.lookup name with
  | some (.object _) => .ok ()
  | some _ => .error (.rootNotObject name kind)
  | none => .error (.unknownType name (.root kind))

def checkReference (types : Keyed TypeDef) (site : Site) (type : TypeExpr) :
    Except SchemaFault Unit :=
  if type.marksTwice then .error (.markedTwice type site)
  else if types.has type.base then .ok ()
  else .error (.unknownType type.base site)

def checkArgument (types : Keyed TypeDef) (type field : String) (arg : ArgumentDef) :
    Except SchemaFault Unit := do
  let site := Site.argument type field arg.name
  checkReference types site arg.type
  match types.lookup arg.type.base with
  | some base => if base.isLeaf then .ok () else .error (.notInput arg.type site)
  | none => .error (.notInput arg.type site)

def checkField (types : Keyed TypeDef) (type : String) (field : FieldDef) :
    Except SchemaFault Unit := do
  checkReference types (.field type field.name) field.type
  field.arguments.values.forM (checkArgument types type field.name)

def checkInterface (types : Keyed TypeDef) (object interface : String) :
    Except SchemaFault Unit :=
  match types.lookup interface with
  | some (.interface _) => .ok ()
  | some _ => .error (.notInterface interface object)
  | none => .error (.unknownType interface (.type object))

def checkMember (types : Keyed TypeDef) (union member : String) : Except SchemaFault Unit :=
  match types.lookup member with
  | some (.object _) => .ok ()
  | some _ => .error (.memberNotObject member union)
  | none => .error (.unknownType member (.type union))

def checkType (types : Keyed TypeDef) : TypeDef → Except SchemaFault Unit
  | .object type => do
    type.fields.values.forM (checkField types type.name)
    type.interfaces.forM (checkInterface types type.name)
  | .interface type => type.fields.values.forM (checkField types type.name)
  | .union type => type.members.forM (checkMember types type.name)
  | .scalar _ | .enum _ => .ok ()

/-- The schema of a blueprint, or its first fault.  Repeated names come first, then the roots, then
the types in their order. -/
def build (b : Blueprint) : Except SchemaFault Schema := do
  match firstDuplicate? (b.added.map TypeDef.name) with
  | some name => throw (.duplicateType name)
  | none => pure ()
  let some queryType := b.queryType | throw .missingQueryType
  let types := b.table
  checkRoot types .query queryType
  match b.mutationType with
  | some mutationType => checkRoot types .mutation mutationType
  | none => pure ()
  types.values.forM (checkType types)
  return { queryType := queryType, mutationType := b.mutationType, types := types }

end Blueprint

end TypedQuery
