import TypedQuery.Document.Basic
import TypedQuery.Error.Failure
/-!
The faults that validation finds in a document, and how they are reported.
-/

namespace TypedQuery

inductive Fault where
  | duplicateOperation (name : String)
  /-- An operation without a name stands beside others. -/
  | anonymousAmongOthers
  | duplicateFragment (name : String)
  | notConfigured (kind : OperationKind)
  | duplicateVariable (name : String)
  | notInputVariable (name : String) (type : TypeExpr)
  | unknownType (name : String)
  /-- A condition on a type without fields; an inline fragment has no name. -/
  | leafCondition (fragment : Option String) (condition : String)
  | unknownFragment (name : String)
  /-- No object of the one type can be of the other. -/
  | impossibleSpread (fragment : Option String) (parent condition : String)
  | unknownField (field parent : String)
  /-- Selections on a field whose type, given in full, has none. -/
  | leafSelections (field type : String)
  | missingSelections (field : String) (type : TypeExpr)
  | unknownArgument (argument parent field : String)
  | invalidArgument (argument : String) (literal : Literal)
  | missingArgument (field argument : String) (type : TypeExpr)
  | unknownDirective (name : String)
  | unknownDirectiveArgument (argument directive : String)
  | missingCondition (directive : String)
  | undefinedVariable (name : String) (operation : Option String)
  | misplacedVariable (name : String) (type expected : TypeExpr)
  | unusedVariable (name : String) (operation : Option String)
  /-- A fragment is spread within itself, by way of the listed fragments. -/
  | cycle (fragment : String) (via : List String)
  | unusedFragment (name : String)
  deriving Repr

namespace Fault

def quote (name : String) : String := "\"" ++ name ++ "\""

/-- How a fragment begins a sentence. -/
def subject : Option String → String
  | some name => s!"Fragment {quote name}"
  | none => "Fragment"

def message : Fault → String
  | duplicateOperation name => s!"There can be only one operation named {quote name}."
  | anonymousAmongOthers => "This anonymous operation must be the only defined operation."
  | duplicateFragment name => s!"There can be only one fragment named {quote name}."
  | notConfigured kind => s!"Schema is not configured to execute {kind.text} operation."
  | duplicateVariable name => s!"There can be only one variable named \"${name}\"."
  | notInputVariable name type =>
    s!"Variable \"${name}\" cannot be non-input type {quote type.text}."
  | unknownType name => s!"Unknown type {quote name}."
  | leafCondition fragment condition =>
    s!"{subject fragment} cannot condition on non composite type {quote condition}."
  | unknownFragment name => s!"Unknown fragment {quote name}."
  | impossibleSpread fragment parent condition =>
    s!"{subject fragment} cannot be spread here as objects of type {quote parent} can never be " ++
      s!"of type {quote condition}."
  | unknownField field parent => s!"Cannot query field {quote field} on type {quote parent}."
  | leafSelections field type =>
    s!"Field {quote field} must not have a selection since type {quote type} has no subfields."
  | missingSelections field type =>
    s!"Field {quote field} of type {quote type.text} must have a selection of subfields. " ++
      s!"Did you mean \"{field} \x7b ... \x7d\"?"
  | unknownArgument argument parent field =>
    s!"Unknown argument {quote argument} on field \"{parent}.{field}\"."
  | invalidArgument argument literal =>
    s!"Argument {quote argument} has invalid value {literal.text}."
  | missingArgument field argument type =>
    s!"Field {quote field} argument {quote argument} of type {quote type.text} is required, " ++
      "but it was not provided."
  | unknownDirective name => s!"Unknown directive \"@{name}\"."
  | unknownDirectiveArgument argument directive =>
    s!"Unknown argument {quote argument} on directive \"@{directive}\"."
  | missingCondition directive =>
    s!"Directive \"@{directive}\" argument \"if\" of type \"Boolean!\" is required, but it " ++
      "was not provided."
  | undefinedVariable name (some operation) =>
    s!"Variable \"${name}\" is not defined by operation {quote operation}."
  | undefinedVariable name none => s!"Variable \"${name}\" is not defined."
  | misplacedVariable name type expected =>
    s!"Variable \"${name}\" of type {quote type.text} used in position expecting type " ++
      s!"{quote expected.text}."
  | unusedVariable name (some operation) =>
    s!"Variable \"${name}\" is never used in operation {quote operation}."
  | unusedVariable name none => s!"Variable \"${name}\" is never used."
  | cycle fragment [] => s!"Cannot spread fragment {quote fragment} within itself."
  | cycle fragment (first :: rest) =>
    let names := ", ".intercalate ((first :: rest).map quote)
    s!"Cannot spread fragment {quote fragment} within itself via {names}."
  | unusedFragment name => s!"Fragment {quote name} is never used."

end Fault

/-- A fault and the places that have part in it. -/
structure Diagnostic where
  fault : Fault
  locations : List Location
  deriving Repr

def Diagnostic.report (d : Diagnostic) : ResponseError :=
  (Failure.invalidDocument d.fault.message).report d.locations none

end TypedQuery
