import TypedQuery.Validation.Visit
/-!
What the visit recorded, seen as a graph: fragments are the nodes, and each recorded spread is an
edge.  From here on the document is not read again.
-/

namespace TypedQuery

/-- The definitions of a document with the findings of their visit. -/
structure Survey where
  scope : Scope
  visited : List (Definition × Findings)

namespace Survey

def ofDocument (schema : Schema) (doc : Document) : Survey :=
  let scope : Scope := { schema := schema, fragments := doc.fragments }
  { scope := scope, visited := scope.visitDefinitions doc [] doc.definitions }

def operations (survey : Survey) : List (Operation × Findings) :=
  survey.visited.filterMap fun
    | (.operation op, findings) => some (op, findings)
    | (.fragment _, _) => none

/-- The findings of a fragment.  Fragments of one name share theirs. -/
def fragmentFindings (survey : Survey) (name : String) : Findings :=
  .concat <| survey.visited.filterMap fun
    | (.fragment frag, findings) => if frag.name = name then some findings else none
    | (.operation _, _) => none

def isDefined (survey : Survey) (name : String) : Bool := (survey.scope.fragment? name).isSome

/-- The defined fragments that some findings spread, as often as they do. -/
def targets (survey : Survey) (findings : Findings) : List String :=
  (findings.spreads.map Spread.fragment).filter survey.isDefined

/-- The names of a list that are not yet known, each once. -/
def fresh (known : List String) : List String → List String
  | [] => []
  | name :: rest =>
    if known.contains name then fresh known rest else name :: fresh (name :: known) rest

/-- Follows spreads breadth first.  `pending` are the fragments that were reached but not yet
followed, and each round follows one of them, so as many rounds as there are fragments are
enough. -/
def follow (survey : Survey) : Nat → List String → List String → List String
  | 0, _, reached => reached
  | _ + 1, [], reached => reached
  | rounds + 1, name :: pending, reached =>
    let found := fresh reached (survey.targets (survey.fragmentFindings name))
    survey.follow rounds (pending ++ found) (reached ++ found)

/-- The fragments that are reached from a definition by one spread or more, nearest first. -/
def reachable (survey : Survey) (findings : Findings) : List String :=
  let found := fresh [] (survey.targets findings)
  survey.follow survey.scope.fragments.length found found

end Survey

end TypedQuery
