import TypedQuery.Proofs.Schema.Resolvers
import TypedQuery.Validation.Basic
/-!
Validation looks at no resolver: a schema with other resolvers finds the same errors in a request
(`Schema.validate_withResolvers`).
-/

namespace TypedQuery

/-! ## Types and literals -/

namespace TypeDef

variable (resolvers : String → Option Resolver) (type : TypeDef)

theorem isLeaf_withResolvers : (type.withResolvers resolvers).isLeaf = type.isLeaf := by
  cases type <;> rfl

theorem isComposite_withResolvers :
    (type.withResolvers resolvers).isComposite = type.isComposite := by
  cases type <;> rfl

end TypeDef

namespace Schema

variable (schema : Schema) (resolvers : String → String → Option Resolver)

theorem isLeaf_withResolvers (name : String) :
    (schema.withResolvers resolvers).isLeaf name = schema.isLeaf name := by
  unfold isLeaf
  rw [type?_withResolvers]
  cases schema.type? name with
  | none => rfl
  | some type => exact type.isLeaf_withResolvers (resolvers name)

theorem isComposite_withResolvers (name : String) :
    (schema.withResolvers resolvers).isComposite name = schema.isComposite name := by
  unfold isComposite
  rw [type?_withResolvers]
  cases schema.type? name with
  | none => rfl
  | some type => exact type.isComposite_withResolvers (resolvers name)

theorem possibleTypes_withResolvers (name : String) :
    (schema.withResolvers resolvers).possibleTypes name = schema.possibleTypes name := by
  unfold possibleTypes
  rw [type?_withResolvers, implementers_withResolvers]
  cases schema.type? name with
  | none => rfl
  | some type => cases type <;> rfl

theorem overlap_withResolvers (a b : String) :
    (schema.withResolvers resolvers).overlap a b = schema.overlap a b := by
  unfold overlap
  rw [possibleTypes_withResolvers, possibleTypes_withResolvers]

theorem isSubtype_withResolvers : ∀ sub sup : TypeExpr,
    (schema.withResolvers resolvers).isSubtype sub sup = schema.isSubtype sub sup
  | .nonNull sub, .nonNull sup => isSubtype_withResolvers sub sup
  | .nonNull sub, .list sup => isSubtype_withResolvers sub (.list sup)
  | .nonNull sub, .named sup => isSubtype_withResolvers sub (.named sup)
  | .list sub, .list sup => isSubtype_withResolvers sub sup
  | .list _, .nonNull _ => rfl
  | .list _, .named _ => rfl
  | .named _, .nonNull _ => rfl
  | .named _, .list _ => rfl
  | .named sub, .named sup => by rw [isSubtype, isSubtype, isPossible_withResolvers]

theorem accepts_withResolvers (type : TypeExpr) (literal : Literal) :
    (schema.withResolvers resolvers).accepts type literal = schema.accepts type literal := by
  induction type generalizing literal with
  | named name =>
    have hnamed : (schema.withResolvers resolvers).acceptsNamed name literal =
        schema.acceptsNamed name literal := by
      unfold acceptsNamed
      rw [type?_withResolvers, coerceInput_withResolvers]
      cases schema.type? name with
      | none => rfl
      | some type => cases type <;> rfl
    cases literal with
    | null => rfl
    | _ => exact hnamed
  | list item ih =>
    have hitems : (schema.withResolvers resolvers).accepts item = schema.accepts item := funext ih
    cases literal with
    | null => rfl
    | list items => rw [accepts, accepts, hitems]
    | _ => exact ih _
  | nonNull inner ih =>
    cases literal with
    | null => rfl
    | _ => exact ih _

theorem allowsUse_withResolvers (definition : VariableDefinition) (expected : TypeExpr)
    (hasDefault : Bool) :
    (schema.withResolvers resolvers).allowsUse definition expected hasDefault =
      schema.allowsUse definition expected hasDefault := by
  cases expected with
  | nonNull inner =>
    simp only [allowsUse, isSubtype_withResolvers]
  | named name => exact schema.isSubtype_withResolvers resolvers _ _
  | list item => exact schema.isSubtype_withResolvers resolvers _ _

theorem requiredErrors_withResolvers (definitions : List VariableDefinition)
    (inputs : Json.Fields) :
    (schema.withResolvers resolvers).requiredErrors definitions inputs =
      schema.requiredErrors definitions inputs := by
  unfold requiredErrors
  simp only [isInput_withResolvers]

end Schema

namespace Literal

variable (schema : Schema) (resolvers : String → String → Option Resolver) (location : Location)

mutual

theorem typedUses_withResolvers (type : TypeExpr) (hasDefault : Bool) : ∀ literal : Literal,
    literal.typedUses (schema.withResolvers resolvers) location type hasDefault =
      literal.typedUses schema location type hasDefault
  | list items => by
    have hitems (item : TypeExpr) :
        typedUsesItems (schema.withResolvers resolvers) location item items =
          typedUsesItems schema location item items := typedUsesItems_withResolvers item items
    rw [typedUses, typedUses, Schema.accepts_withResolvers]
    simp only [hitems]
  | var name => by rw [typedUses, typedUses]
  | int n => by simp only [typedUses, Schema.accepts_withResolvers]
  | float x => by simp only [typedUses, Schema.accepts_withResolvers]
  | str text => by simp only [typedUses, Schema.accepts_withResolvers]
  | bool b => by simp only [typedUses, Schema.accepts_withResolvers]
  | null => by simp only [typedUses, Schema.accepts_withResolvers]
  | enum name => by simp only [typedUses, Schema.accepts_withResolvers]
  | object fields => by simp only [typedUses, Schema.accepts_withResolvers]

theorem typedUsesItems_withResolvers (type : TypeExpr) : ∀ items : List Literal,
    typedUsesItems (schema.withResolvers resolvers) location type items =
      typedUsesItems schema location type items
  | [] => by rw [typedUsesItems, typedUsesItems]
  | item :: rest => by
    rw [typedUsesItems, typedUsesItems, typedUses_withResolvers type false item,
      typedUsesItems_withResolvers type rest]

end

end Literal

/-! ## The visit -/

namespace Scope

def withResolvers (resolvers : String → String → Option Resolver) (scope : Scope) : Scope :=
  { scope with schema := scope.schema.withResolvers resolvers }

variable (scope : Scope) (resolvers : String → String → Option Resolver)

theorem visitValue_withResolvers (location : Location) (name : String) (type : TypeExpr)
    (hasDefault : Bool) (literal : Literal) :
    (scope.withResolvers resolvers).visitValue location name type hasDefault literal =
      scope.visitValue location name type hasDefault literal := by
  unfold visitValue
  rw [show (scope.withResolvers resolvers).schema = scope.schema.withResolvers resolvers from rfl,
    Literal.typedUses_withResolvers]

theorem visitArguments_withResolvers (parent : String) (field : FieldDef)
    (resolver : Option Resolver) (head : FieldHead) :
    (scope.withResolvers resolvers).visitArguments parent (field.withResolver resolver) head =
      scope.visitArguments parent field head := by
  have hargument : (scope.withResolvers resolvers).visitArgument parent
      (field.withResolver resolver) head = scope.visitArgument parent field head := by
    funext argument
    unfold visitArgument
    simp only [visitValue_withResolvers]
    rfl
  unfold visitArguments
  rw [hargument]
  rfl

theorem visitDirectives_withResolvers (directives : List Directive) :
    (scope.withResolvers resolvers).visitDirectives directives =
      scope.visitDirectives directives := by
  have hdirective : (scope.withResolvers resolvers).visitDirective = scope.visitDirective := by
    funext directive
    have hargument : (scope.withResolvers resolvers).visitDirectiveArgument directive =
        scope.visitDirectiveArgument directive := by
      funext argument
      unfold visitDirectiveArgument
      simp only [visitValue_withResolvers]
    unfold visitDirective
    rw [hargument]
  unfold visitDirectives
  rw [hdirective]

theorem visitOverlap_withResolvers (fragment parent : Option String) (condition : String)
    (location : Location) :
    (scope.withResolvers resolvers).visitOverlap fragment parent condition location =
      scope.visitOverlap fragment parent condition location := by
  cases parent with
  | none => rfl
  | some parent =>
    unfold visitOverlap
    dsimp only
    rw [show (scope.withResolvers resolvers).schema = scope.schema.withResolvers resolvers from rfl,
      Schema.overlap_withResolvers]

theorem visitCondition_withResolvers (fragment : Option String) (condition : String)
    (location : Location) :
    (scope.withResolvers resolvers).visitCondition fragment condition location =
      scope.visitCondition fragment condition location := by
  unfold visitCondition
  rw [show (scope.withResolvers resolvers).schema = scope.schema.withResolvers resolvers from rfl,
    Schema.type?_withResolvers]
  cases scope.schema.type? condition with
  | none => rfl
  | some type =>
    dsimp only [Option.map_some]
    rw [TypeDef.isComposite_withResolvers]

theorem visitSpread_withResolvers (parent : Option String) (location : Location) (name : String) :
    (scope.withResolvers resolvers).visitSpread parent location name =
      scope.visitSpread parent location name := by
  unfold visitSpread
  rw [show (scope.withResolvers resolvers).fragment? name = scope.fragment? name from rfl]
  cases scope.fragment? name with
  | none => rfl
  | some frag =>
    dsimp only
    rw [visitOverlap_withResolvers,
      show (scope.withResolvers resolvers).schema = scope.schema.withResolvers resolvers from rfl,
      Schema.isComposite_withResolvers]

mutual

theorem visitSelection_withResolvers (parent : Option String) : ∀ selection : Selection,
    (scope.withResolvers resolvers).visitSelection parent selection =
      scope.visitSelection parent selection
  | .field head selections => by
    have hbelow (parent : Option String) := visitSelections_withResolvers parent selections
    have hschema : (scope.withResolvers resolvers).schema = scope.schema.withResolvers resolvers :=
      rfl
    cases parent with
    | none => rw [visitSelection, visitSelection, visitDirectives_withResolvers, hbelow none]
    | some parent =>
      rw [visitSelection, visitSelection, visitDirectives_withResolvers, hbelow none, hschema,
        Schema.field?_withResolvers]
      cases scope.schema.field? parent head.name with
      | none => rfl
      | some field =>
        dsimp only [Option.map_some]
        rw [visitArguments_withResolvers, Schema.isLeaf_withResolvers,
          hbelow (some (field.withResolver (resolvers parent head.name)).type.base)]
        rfl
  | .spread location name directives => by
    rw [visitSelection, visitSelection, visitDirectives_withResolvers, visitSpread_withResolvers]
  | .inline location condition directives selections => by
    have hbelow (parent : Option String) := visitSelections_withResolvers parent selections
    cases condition with
    | none => rw [visitSelection, visitSelection, visitDirectives_withResolvers, hbelow parent]
    | some condition =>
      rw [visitSelection, visitSelection, visitDirectives_withResolvers,
        visitCondition_withResolvers, hbelow none]
      cases scope.visitCondition none condition location with
      | mk findings target =>
        cases target with
        | none => rfl
        | some target =>
          dsimp only
          rw [visitOverlap_withResolvers, hbelow (some target)]

theorem visitSelections_withResolvers (parent : Option String) : ∀ selections : List Selection,
    (scope.withResolvers resolvers).visitSelections parent selections =
      scope.visitSelections parent selections
  | [] => by rw [visitSelections, visitSelections]
  | first :: rest => by
    rw [visitSelections, visitSelections, visitSelection_withResolvers parent first,
      visitSelections_withResolvers parent rest]

end

theorem visitVariables_withResolvers (earlier definitions : List VariableDefinition) :
    (scope.withResolvers resolvers).visitVariables earlier definitions =
      scope.visitVariables earlier definitions := by
  induction definitions generalizing earlier with
  | nil => rfl
  | cons definition rest ih =>
    rw [visitVariables, visitVariables, ih,
      show (scope.withResolvers resolvers).schema = scope.schema.withResolvers resolvers from rfl,
      Schema.type?_withResolvers]
    cases scope.schema.type? definition.type.base with
    | none => rfl
    | some type =>
      dsimp only [Option.map_some]
      rw [TypeDef.isLeaf_withResolvers]

theorem visitDefinition_withResolvers (doc : Document) (earlier : List Definition)
    (definition : Definition) :
    (scope.withResolvers resolvers).visitDefinition doc earlier definition =
      scope.visitDefinition doc earlier definition := by
  cases definition with
  | operation op =>
    have hroot : (scope.withResolvers resolvers).schema.rootType? op.kind =
        scope.schema.rootType? op.kind := rfl
    rw [visitDefinition, visitDefinition, visitOperation, visitOperation, hroot,
      visitVariables_withResolvers, visitDirectives_withResolvers, visitSelections_withResolvers]
  | fragment frag =>
    rw [visitDefinition, visitDefinition, visitFragment, visitFragment,
      visitCondition_withResolvers]
    simp only [visitDirectives_withResolvers, visitSelections_withResolvers]

theorem visitDefinitions_withResolvers (doc : Document) (earlier definitions : List Definition) :
    (scope.withResolvers resolvers).visitDefinitions doc earlier definitions =
      scope.visitDefinitions doc earlier definitions := by
  induction definitions generalizing earlier with
  | nil => rfl
  | cons first rest ih =>
    rw [visitDefinitions, visitDefinitions, visitDefinition_withResolvers, ih]

end Scope

/-! ## The survey -/

namespace Survey

def withResolvers (resolvers : String → String → Option Resolver) (survey : Survey) : Survey :=
  { survey with scope := survey.scope.withResolvers resolvers }

variable (survey : Survey) (resolvers : String → String → Option Resolver)

theorem ofDocument_withResolvers (schema : Schema) (doc : Document) :
    ofDocument (schema.withResolvers resolvers) doc =
      (ofDocument schema doc).withResolvers resolvers := by
  have hvisited := Scope.visitDefinitions_withResolvers
    { schema := schema, fragments := doc.fragments } resolvers doc [] doc.definitions
  exact congrArg (Survey.mk _) hvisited

theorem follow_withResolvers (rounds : Nat) (pending reached : List String) :
    (survey.withResolvers resolvers).follow rounds pending reached =
      survey.follow rounds pending reached := by
  induction rounds generalizing pending reached with
  | zero => rfl
  | succ rounds ih =>
    cases pending with
    | nil => rfl
    | cons name pending => exact ih _ _

theorem reachable_withResolvers (findings : Findings) :
    (survey.withResolvers resolvers).reachable findings = survey.reachable findings :=
  survey.follow_withResolvers resolvers _ _ _

theorem searchCycles_withResolvers (depth : Nat) (inside : List String) (walk : List Spread)
    (name : String) (state : CycleSearch) :
    (survey.withResolvers resolvers).searchCycles depth inside walk name state =
      survey.searchCycles depth inside walk name state := by
  induction depth generalizing inside walk name state with
  | zero => rfl
  | succ depth ih =>
    rw [searchCycles, searchCycles]
    simp only [ih]
    rfl

theorem cycleDiagnostics_withResolvers :
    (survey.withResolvers resolvers).cycleDiagnostics = survey.cycleDiagnostics := by
  unfold cycleDiagnostics
  simp only [searchCycles_withResolvers]
  rfl

theorem variableDiagnostics_withResolvers :
    (survey.withResolvers resolvers).variableDiagnostics = survey.variableDiagnostics := by
  have huse : useDiagnostic? (survey.scope.schema.withResolvers resolvers) =
      useDiagnostic? survey.scope.schema := by
    funext op use
    unfold useDiagnostic?
    simp only [Schema.allowsUse_withResolvers, Schema.type?_withResolvers, Option.isSome_map]
  unfold variableDiagnostics uses
  simp only [reachable_withResolvers]
  rw [show (survey.withResolvers resolvers).scope.schema =
    survey.scope.schema.withResolvers resolvers from rfl, huse]
  rfl

theorem unusedFragmentDiagnostics_withResolvers :
    (survey.withResolvers resolvers).unusedFragmentDiagnostics =
      survey.unusedFragmentDiagnostics := by
  unfold unusedFragmentDiagnostics
  simp only [reachable_withResolvers]
  rfl

end Survey

/-! ## Requests -/

theorem Document.diagnostics_withResolvers (doc : Document) (schema : Schema)
    (resolvers : String → String → Option Resolver) :
    doc.diagnostics (schema.withResolvers resolvers) = doc.diagnostics schema := by
  unfold diagnostics
  dsimp only
  rw [Survey.ofDocument_withResolvers, Survey.variableDiagnostics_withResolvers,
    Survey.cycleDiagnostics_withResolvers, Survey.unusedFragmentDiagnostics_withResolvers]
  rfl

theorem Schema.validate_withResolvers (schema : Schema)
    (resolvers : String → String → Option Resolver) (doc : Document) (operation : Option String)
    (inputs : Json.Fields) :
    (schema.withResolvers resolvers).validate doc operation inputs =
      schema.validate doc operation inputs := by
  unfold validate
  rw [Document.diagnostics_withResolvers]
  simp only [variableErrors, coerceVariables_withResolvers, requiredErrors_withResolvers]

end TypedQuery
