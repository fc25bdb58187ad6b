import TypedQuery.Document.Basic
import TypedQuery.Schema.Basic
/-!
Where operations start.
-/

namespace TypedQuery

/-- The object type on which an operation selects, if the schema has one for its kind.
Subscriptions have none. -/
def Schema.rootType? (schema : Schema) : OperationKind → Option String
  | .query => some schema.queryType
  | .mutation => schema.mutationType
  | .subscription => none

end TypedQuery
