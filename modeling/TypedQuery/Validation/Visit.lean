import TypedQuery.Schema.Root
import TypedQuery.Validation.Value
/-!
The visit of a document: every selection is checked against the schema once, where it stands.  The
type of the parent is missing below anything that could not be typed, and there nothing is checked
but directives and the names of fragments and types.
-/

namespace TypedQuery

/-- What a visit looks things up in. -/
structure Scope where
  schema : Schema
  fragments : List Fragment

namespace Scope

/-- The fragment of a name, the first of several. -/
def fragment? (scope : Scope) (name : String) : Option Fragment :=
  scope.fragments.find? fun frag => frag.name == name

/-! ## Arguments -/

def untyped (location : Location) (arguments : List (String × Literal)) : Findings :=
  .ofUses (arguments.flatMap fun (_, literal) => literal.untypedUses location)

/-- A value for an argument or a directive condition of a known type. -/
def visitValue (scope : Scope) (location : Location) (name : String) (type : TypeExpr)
    (hasDefault : Bool) (literal : Literal) : Findings :=
  let (uses, fits) := literal.typedUses scope.schema location type hasDefault
  .ofUses uses ++ .when (!fits) (.invalidArgument name literal) [location]

def visitArgument (scope : Scope) (parent : String) (field : FieldDef) (head : FieldHead)
    (argument : String × Literal) : Findings :=
  let (name, literal) := argument
  match field.arguments.lookup name with
  | some arg => scope.visitValue head.location name arg.type arg.defaultValue.isSome literal
  | none =>
    .ofFault (.unknownArgument name parent head.name) [head.location] ++
      .ofUses (literal.untypedUses head.location)

def missingArgument (head : FieldHead) (arg : ArgumentDef) : Findings :=
  .when (arg.isRequired && !Keyed.has arg.name head.arguments)
    (.missingArgument head.name arg.name arg.type) [head.location]

def visitArguments (scope : Scope) (parent : String) (field : FieldDef) (head : FieldHead) :
    Findings :=
  .concat (head.arguments.map (scope.visitArgument parent field head)) ++
    .concat (field.arguments.values.map (missingArgument head))

/-! ## Directives -/

def knownDirectives : List String := ["skip", "include"]

def visitDirectiveArgument (scope : Scope) (directive : Directive) (argument : String × Literal) :
    Findings :=
  let (name, literal) := argument
  if name = "if" then
    scope.visitValue directive.location name (.nonNull (.named "Boolean")) false literal
  else
    .ofFault (.unknownDirectiveArgument name directive.name) [directive.location] ++
      .ofUses (literal.untypedUses directive.location)

def visitDirective (scope : Scope) (directive : Directive) : Findings :=
  if knownDirectives.contains directive.name then
    .concat (directive.arguments.map (scope.visitDirectiveArgument directive)) ++
      .when (!Keyed.has "if" directive.arguments) (.missingCondition directive.name)
        [directive.location]
  else
    .ofFault (.unknownDirective directive.name) [directive.location] ++
      untyped directive.location directive.arguments

def visitDirectives (scope : Scope) (directives : List Directive) : Findings :=
  .concat (directives.map scope.visitDirective)

/-! ## Selections -/

/-- A parent and a condition that no object type satisfies together. -/
def visitOverlap (scope : Scope) (fragment parent : Option String) (condition : String)
    (location : Location) : Findings :=
  match parent with
  | some parent =>
    .when (!scope.schema.overlap parent condition) (.impossibleSpread fragment parent condition)
      [location]
  | none => .none

/-- A condition must name a composite type, which then is the parent of the selections below. -/
def visitCondition (scope : Scope) (fragment : Option String) (condition : String)
    (location : Location) : Findings × Option String :=
  match scope.schema.type? condition with
  | none => (.ofFault (.unknownType condition) [location], none)
  | some type =>
    if type.isComposite then (.none, some condition)
    else (.ofFault (.leafCondition fragment condition) [location], none)

def visitSpread (scope : Scope) (parent : Option String) (location : Location) (name : String) :
    Findings :=
  .ofSpread { fragment := name, location := location } ++
    match scope.fragment? name with
    | none => .ofFault (.unknownFragment name) [location]
    | some frag =>
      if scope.schema.isComposite frag.condition then
        scope.visitOverlap (some name) parent frag.condition location
      else .none

mutual

def visitSelection (scope : Scope) (parent : Option String) : Selection → Findings
  | .field head selections =>
    scope.visitDirectives head.directives ++
      match parent with
      | none => untyped head.location head.arguments ++ scope.visitSelections none selections
      | some parent =>
        if head.name = "__typename" then
          untyped head.location head.arguments ++
            .when (!selections.isEmpty) (.leafSelections head.name "String!") [head.location]
        else
          match scope.schema.field? parent head.name with
          | none =>
            .ofFault (.unknownField head.name parent) [head.location] ++
              untyped head.location head.arguments ++ scope.visitSelections none selections
          | some field =>
            scope.visitArguments parent field head ++
              if scope.schema.isLeaf field.type.base then
                .when (!selections.isEmpty) (.leafSelections head.name field.type.text)
                    [head.location] ++
                  scope.visitSelections none selections
              else
                .when selections.isEmpty (.missingSelections head.name field.type)
                    [head.location] ++
                  scope.visitSelections (some field.type.base) selections
  | .spread location name directives =>
    scope.visitDirectives directives ++ scope.visitSpread parent location name
  | .inline location condition directives selections =>
    scope.visitDirectives directives ++
      match condition with
      | none => scope.visitSelections parent selections
      | some condition =>
        match scope.visitCondition none condition location with
        | (findings, none) => findings ++ scope.visitSelections none selections
        | (findings, some target) =>
          findings ++ scope.visitOverlap none parent target location ++
            scope.visitSelections (some target) selections

def visitSelections (scope : Scope) (parent : Option String) : List Selection → Findings
  | [] => .none
  | first :: rest => scope.visitSelection parent first ++ scope.visitSelections parent rest

end

/-! ## Definitions -/

/-- Variable definitions; the earlier ones are listed from the latest on. -/
def visitVariables (scope : Scope) (earlier : List VariableDefinition) :
    List VariableDefinition → Findings
  | [] => .none
  | definition :: rest =>
    (match earlier.find? fun other => other.name == definition.name with
      | some other =>
        .ofFault (.duplicateVariable definition.name) [other.location, definition.location]
      | none => .none) ++
    (match scope.schema.type? definition.type.base with
      | none => .ofFault (.unknownType definition.type.base) [definition.location]
      | some type =>
        .when (!type.isLeaf) (.notInputVariable definition.name definition.type)
          [definition.location]) ++
    scope.visitVariables (definition :: earlier) rest

/-- The first definition of a name among earlier operations is the one that a later one repeats. -/
def visitOperationName (doc : Document) (earlier : List Definition) (op : Operation) : Findings :=
  match op.name with
  | some name =>
    let sameName : Definition → Option Location
      | .operation other => if other.name = some name then some other.location else none
      | .fragment _ => none
    match earlier.findSome? sameName with
    | some first => .ofFault (.duplicateOperation name) [first, op.location]
    | none => .none
  | none => .when (decide (1 < doc.operations.length)) .anonymousAmongOthers [op.location]

def visitOperation (scope : Scope) (op : Operation) : Findings :=
  scope.visitVariables [] op.variableDefs ++ scope.visitDirectives op.directives ++
    .when (scope.schema.rootType? op.kind).isNone (.notConfigured op.kind) [op.location] ++
    scope.visitSelections (scope.schema.rootType? op.kind) op.selections

def visitFragmentName (earlier : List Definition) (frag : Fragment) : Findings :=
  let sameName : Definition → Option Location
    | .fragment other => if other.name = frag.name then some other.location else none
    | .operation _ => none
  match earlier.findSome? sameName with
  | some first => .ofFault (.duplicateFragment frag.name) [first, frag.location]
  | none => .none

def visitFragment (scope : Scope) (frag : Fragment) : Findings :=
  let (findings, target) := scope.visitCondition (some frag.name) frag.condition frag.location
  scope.visitDirectives frag.directives ++ findings ++ scope.visitSelections target frag.selections

def visitDefinition (scope : Scope) (doc : Document) (earlier : List Definition) :
    Definition → Findings
  | .operation op => visitOperationName doc earlier op ++ scope.visitOperation op
  | .fragment frag => visitFragmentName earlier frag ++ scope.visitFragment frag

/-- Visits the definitions in their order; `earlier` are those that went before. -/
def visitDefinitions (scope : Scope) (doc : Document) (earlier : List Definition) :
    List Definition → List (Definition × Findings)
  | [] => []
  | first :: rest =>
    (first, scope.visitDefinition doc earlier first) ::
      scope.visitDefinitions doc (earlier ++ [first]) rest

end Scope

end TypedQuery
