import TypedQuery.Document.Literal
import TypedQuery.Location
import TypedQuery.TypeExpr
/-!
Query documents: operations and fragments, and the selections they are made of.
-/

namespace TypedQuery

structure Directive where
  location : Location
  name : String
  arguments : List (String × Literal)
  deriving Repr, Inhabited

/-- A selected field without its own selections. -/
structure FieldHead where
  location : Location
  aliasName : Option String
  name : String
  arguments : List (String × Literal)
  directives : List Directive
  deriving Repr, Inhabited

inductive Selection where
  | field (head : FieldHead) (selections : List Selection)
  | spread (location : Location) (fragment : String) (directives : List Directive)
  | inline (location : Location) (condition : Option String) (directives : List Directive)
      (selections : List Selection)
  deriving Repr, Inhabited

/-- A selected field on its own. -/
structure FieldNode extends FieldHead where
  selections : List Selection
  deriving Repr, Inhabited

/-- The key under which a field answers: its alias, or its name when it has none. -/
def FieldHead.responseKey (head : FieldHead) : String := head.aliasName.getD head.name

inductive OperationKind where
  | query
  | mutation
  | subscription
  deriving DecidableEq, Repr, Inhabited

def OperationKind.text : OperationKind → String
  | query => "query"
  | mutation => "mutation"
  | subscription => "subscription"

structure VariableDefinition where
  location : Location
  name : String
  type : TypeExpr
  defaultValue : Option Literal
  deriving Repr, Inhabited

/-- An operation.  The short form, selections alone, is a query without a name and variables. -/
structure Operation where
  location : Location
  kind : OperationKind
  name : Option String
  variableDefs : List VariableDefinition
  directives : List Directive
  selections : List Selection
  deriving Repr, Inhabited

structure Fragment where
  location : Location
  name : String
  condition : String
  directives : List Directive
  selections : List Selection
  deriving Repr, Inhabited

inductive Definition where
  | operation (op : Operation)
  | fragment (frag : Fragment)
  deriving Repr, Inhabited

structure Document where
  definitions : List Definition
  deriving Repr, Inhabited

namespace Document

def operations (doc : Document) : List Operation :=
  doc.definitions.filterMap fun
    | .operation op => some op
    | .fragment _ => none

def fragments (doc : Document) : List Fragment :=
  doc.definitions.filterMap fun
    | .fragment frag => some frag
    | .operation _ => none

/-- Why no operation of a document can be chosen. -/
inductive SelectionProblem where
  | unknownName (name : String)
  | noOperation
  | ambiguous
  deriving DecidableEq, Repr

def SelectionProblem.message : SelectionProblem → String
  | unknownName name => s!"Unknown operation named \"{name}\"."
  | noOperation => "Must provide an operation."
  | ambiguous => "Must provide operation name if query contains multiple operations."

/-- The operation to run: the first of the given name, or the only one when no name is given. -/
def select (doc : Document) : Option String → Except SelectionProblem Operation
  | some name =>
    match doc.operations.find? (·.name == some name) with
    | some op => .ok op
    | none => .error (.unknownName name)
  | none =>
    match doc.operations with
    | [] => .error .noOperation
    | [op] => .ok op
    | _ :: _ :: _ => .error .ambiguous

end Document

end TypedQuery
