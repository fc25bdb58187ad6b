import TypedQuery.Schema.Definition
/-!
Scalars and placements that are described by data.
-/

namespace TypedQuery

/-- How a described scalar treats a value. -/
inductive ScalarRule where
  | pass
  | null
  /-- The value becomes the only field of an object. -/
  | wrap
  | fail
  deriving DecidableEq, Repr

/-- The coercion of a rule; `verb` says in its message what the scalar could not do. -/
def ScalarRule.coercion (scalar verb : String) (rule : ScalarRule) (value : Json) :
    Except ScalarRejection Json :=
  match rule with
  | pass => .ok value
  | .null => .ok .null
  | wrap => .ok (.obj [("wrapped", value)])
  | fail =>
    .error { fault := .stated s!"{scalar} cannot {verb}: {value.excerpt}", value := value }

def ScalarDef.scripted (name : String) (description : Option String)
    (serialize parse : ScalarRule) : ScalarDef :=
  { name := name
    description := description
    serialize := serialize.coercion name "serialize"
    parse := parse.coercion name "parse" }

/-- How the values of an abstract type are placed. -/
inductive PlacementRule where
  | panic (message : String)
  | constant (type : String)
  /-- The string under a property names the type. -/
  | property (name : String)
  /-- One type or the other, by whether the value is an object with the property. -/
  | presence (key : String) (present absent : Option String)
  /-- The text of the context names the type. -/
  | contextText
  | nowhere
  deriving DecidableEq, Repr

namespace PlacementRule

def ofName? : Option String → Placement
  | some name => .type name
  | none => .unknown

def toPlacer (rule : PlacementRule) : Placer := fun value context =>
  match rule with
  | panic message => .panicked (some message)
  | constant type => .type type
  | property name => ofName? ((value.field? name).bind Json.str?)
  | presence key present absent =>
    ofName? (if (value.field? key).isSome then present else absent)
  | contextText => ofName? context.text
  | nowhere => .unknown

end PlacementRule

end TypedQuery
