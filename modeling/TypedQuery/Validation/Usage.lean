import TypedQuery.Validation.Reach
/-!
The variables of operations: each use must be of a variable that the operation defines and that fits
the place, and each definition must be used.
-/

namespace TypedQuery

/-- A variable may stand where a type is expected.  One that may be null may still stand where null
is not allowed, when it has a default other than null or the place has one. -/
def Schema.allowsUse (schema : Schema) (definition : VariableDefinition) (expected : TypeExpr)
    (hasDefault : Bool) : Bool :=
  match expected with
  | .nonNull inner =>
    if definition.type.isNonNull then schema.isSubtype definition.type expected
    else
      let ownDefault :=
        match definition.defaultValue with
        | none | some .null => false
        | some _ => true
      (ownDefault || hasDefault) && schema.isSubtype definition.type inner
  | _ => schema.isSubtype definition.type expected

namespace Survey

/-- The uses in the text of an operation: its own, then those of each fragment that it reaches. -/
def uses (survey : Survey) (findings : Findings) : List VariableUse :=
  findings.uses ++
    (survey.reachable findings).flatMap fun name => (survey.fragmentFindings name).uses

def useDiagnostic? (schema : Schema) (op : Operation) (use : VariableUse) : Option Diagnostic :=
  match op.variableDefs.find? fun definition => definition.name == use.name with
  | none =>
    some
      { fault := .undefinedVariable use.name op.name
        locations := [use.location, op.location] }
  | some definition =>
    match use.expected with
    | none => none
    | some expected =>
      if (schema.type? definition.type.base).isSome &&
          !schema.allowsUse definition expected use.hasDefault then
        some
          { fault := .misplacedVariable use.name definition.type expected
            locations := [definition.location, use.location] }
      else none

def unusedDiagnostic? (op : Operation) (uses : List VariableUse)
    (definition : VariableDefinition) : Option Diagnostic :=
  if uses.any fun use => use.name == definition.name then none
  else
    some
      { fault := .unusedVariable definition.name op.name
        locations := [definition.location] }

def variableDiagnostics (survey : Survey) : List Diagnostic :=
  survey.operations.flatMap fun (op, findings) =>
    let uses := survey.uses findings
    uses.filterMap (useDiagnostic? survey.scope.schema op) ++
      op.variableDefs.filterMap (unusedDiagnostic? op uses)

/-- Fragments that no operation reaches. -/
def unusedFragmentDiagnostics (survey : Survey) : List Diagnostic :=
  let used := survey.operations.flatMap fun (_, findings) => survey.reachable findings
  survey.scope.fragments.filterMap fun frag =>
    if used.contains frag.name then none
    else some { fault := .unusedFragment frag.name, locations := [frag.location] }

end Survey
end TypedQuery
