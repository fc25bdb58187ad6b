import TypedQuery.Document.Basic
import TypedQuery.Error.Failure
import TypedQuery.Json.Compact
/-!
Requests and responses.
-/

namespace TypedQuery

structure Request where
  document : Document
  /-- The operation to run, which a document of several operations needs. -/
  operation : Option String
  inputs : Json.Fields
  /-- The parent of the root fields. -/
  root : Json

/-- A response without data tells that execution never began; data that is null, that a null went
all the way up. -/
structure Response where
  data : Option Json
  errors : List ResponseError

namespace Response

def ofErrors (errors : List ResponseError) : Response := { data := none, errors := errors }

def ofFailure (failure : Failure) (locations : List Location) : Response :=
  ofErrors [failure.report locations none]

/-- Members that are missing or empty are left out. -/
def toJson (response : Response) : Json :=
  .obj <|
    (match response.data with
      | some data => [("data", data)]
      | none => []) ++
    (if response.errors.isEmpty then []
      else [("errors", .arr (response.errors.map ResponseError.toJson))])

end Response

end TypedQuery
