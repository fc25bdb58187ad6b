import TypedQuery.Coercion.Variables
import TypedQuery.Response
import TypedQuery.Validation.Cycle
import TypedQuery.Validation.Usage
/-!
Validation of a request: first the whole document, whichever operation is chosen, and then the
choice of the operation and the values of its variables.
-/

namespace TypedQuery

/-- Everything that is wrong with a document: what the visit found, then variables, cycles and
fragments that are not used. -/
def Document.diagnostics (doc : Document) (schema : Schema) : List Diagnostic :=
  let survey := Survey.ofDocument schema doc
  survey.visited.flatMap (fun (_, findings) => findings.diagnostics) ++
    survey.variableDiagnostics ++ survey.cycleDiagnostics ++ survey.unusedFragmentDiagnostics

/-- The errors of the chosen operation's variables.  Their values are only coerced for a document
that is in order. -/
def Schema.variableErrors (schema : Schema) (op : Operation) (inputs : Json.Fields)
    (inOrder : Bool) : List ResponseError :=
  if inOrder then
    match schema.coerceVariables op.variableDefs inputs with
    | .ok _ => []
    | .error errors => errors
  else schema.requiredErrors op.variableDefs inputs

/-- The errors of a request, none if it may be executed. -/
def Schema.validate (schema : Schema) (doc : Document) (operation : Option String)
    (inputs : Json.Fields) : List ResponseError :=
  let diagnostics := doc.diagnostics schema
  diagnostics.map Diagnostic.report ++
    match doc.select operation with
    | .ok op => schema.variableErrors op inputs diagnostics.isEmpty
    | .error problem => [(Failure.invalidDocument problem.message).report [] none]

end TypedQuery
