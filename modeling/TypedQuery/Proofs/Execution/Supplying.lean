import TypedQuery.Proofs.Coercion.Literals
import TypedQuery.Proofs.Execution.Answering
/-!
The literals that a checked document supplies for arguments.  Each was accepted for the argument
that the parent's type declares, and in a run it is coerced for the argument that the object's type
declares.  Where the two agree (`Schema.SharesArguments`), no literal without variables is rejected,
apart from a float beyond the finite numbers that stands where null is not allowed:
`constants_supplied`.
-/

namespace TypedQuery

/-- The arguments of an object type's fields are of the types that they have in the types that the
objects may stand for. -/
def Schema.SharesArguments (schema : Schema) : Prop :=
  ∀ entry ∈ schema.types, ∀ object ∈ schema.possibleTypes entry.1,
    ∀ field ∈ entry.2.fields?.getD [], ∀ own ∈ schema.field? object field.1,
      ∀ arg ∈ own.arguments.values, ∀ other ∈ field.2.arguments.lookup arg.name,
        other.type = arg.type

instance (schema : Schema) : Decidable schema.SharesArguments :=
  inferInstanceAs (Decidable (∀ entry ∈ schema.types, ∀ object ∈ schema.possibleTypes entry.1,
    ∀ field ∈ entry.2.fields?.getD [], ∀ own ∈ schema.field? object field.1,
      ∀ arg ∈ own.arguments.values, ∀ other ∈ field.2.arguments.lookup arg.name,
        other.type = arg.type))

theorem Schema.SharesArguments.type_eq {schema : Schema} (h : schema.SharesArguments)
    {type object name : String} {field own : FieldDef}
    (hobject : object ∈ schema.possibleTypes type) (hfield : schema.field? type name = some field)
    (hown : schema.field? object name = some own) {arg other : ArgumentDef}
    (harg : arg ∈ own.arguments.values) (hother : field.arguments.lookup arg.name = some other) :
    other.type = arg.type := by
  obtain ⟨owner, fields, howner, hfields, hmem⟩ := mem_fields hfield
  have hin : (name, field) ∈ owner.fields?.getD [] := by
    rw [hfields]
    exact hmem
  exact h (type, owner) howner object hobject (name, field) hin own hown arg harg other hother

/-! ## What the visit says of a field's arguments -/

namespace Findings

theorem clean_concat {parts : List Findings} :
    (concat parts).Clean ↔ ∀ part ∈ parts, part.Clean := by
  induction parts with
  | nil => simp [concat, clean_none]
  | cons first rest ih =>
    rw [List.forall_mem_cons, ← ih]
    exact clean_append

end Findings

namespace Scope

variable {scope : Scope} {parent : String} {head : FieldHead} {field : FieldDef}

theorem clean_visitArguments {selections : List Selection}
    (h : (scope.visitSelection (some parent) (.field head selections)).Clean)
    (hname : head.name ≠ "__typename")
    (hfield : scope.schema.field? parent head.name = some field) :
    (scope.visitArguments parent field head).Clean := by
  rw [visitSelection, if_neg hname, hfield, Findings.clean_append, Findings.clean_append] at h
  exact h.2.1

/-- A literal without variables that was visited in order is accepted for a known argument. -/
theorem accepts_of_clean (h : (scope.visitArguments parent field head).Clean) {name : String}
    {literal : Literal} (hsupplied : head.arguments.lookup name = some literal)
    (hconstant : literal.hasVariable = false) :
    ∃ arg, field.arguments.lookup name = some arg ∧
      scope.schema.accepts arg.type literal = true := by
  have hvisited := Findings.clean_concat.1 (Findings.clean_append.1 h).1 _
    (List.mem_map_of_mem (Keyed.mem_of_lookup hsupplied))
  unfold visitArgument at hvisited
  dsimp only at hvisited
  cases harg : field.arguments.lookup name with
  | none =>
    rw [harg] at hvisited
    exact absurd (Findings.clean_append.1 hvisited).1 Findings.not_clean_ofFault
  | some arg =>
    rw [harg] at hvisited
    dsimp only at hvisited
    unfold visitValue at hvisited
    rw [Literal.typedUses_of_constant hconstant, Findings.clean_append] at hvisited
    exact ⟨arg, rfl, by simpa using Findings.clean_when hvisited.2⟩

end Scope

/-! ## What arrives -/

/-- An accepted literal without variables is coerced for its argument. -/
theorem Schema.exists_coerceArgument {schema : Schema} {arg : ArgumentDef}
    {supplied : List (String × Literal)} {literal : Literal}
    (hsupplied : supplied.lookup arg.name = some literal) (hconstant : literal.hasVariable = false)
    (haccepts : schema.accepts arg.type literal = true)
    (hfinite : literal.overflows arg.type = false) (bindings : Json.Fields) :
    ∃ value, schema.coerceArgument arg supplied bindings = .ok (some value) := by
  have hnames := Literal.variableNames_eq_nil hconstant
  have hliteral : suppliedLiteral? arg.name supplied bindings = some literal := by
    rw [suppliedLiteral?, hsupplied]
    cases literal with
    | var name => cases hnames
    | _ => rfl
  obtain ⟨value, hvalue⟩ := (exists_coerceInput_iff hnames haccepts).2 hfinite
  refine ⟨value, (coerceArgument_eq_ok hliteral).2 ?_⟩
  rw [Literal.toJson_of_constant hnames]
  exact hvalue

namespace Run

/-- What a field of a checked run is asked with, as far as it is without variables, is coerced. -/
theorem Checked.exists_coerceArgument {run : Run} {doc : Document} {schema : Schema}
    (hrun : run.Checked doc schema) (hconforms : schema.Conforms) (hshares : schema.SharesArguments)
    (hmerges : run.Merges) {object : String} {sets : List (List Selection)}
    (hasks : run.Asks object sets) {group : FieldGroup} (hgroup : group ∈ run.groups object sets)
    (hname : group.first.name ≠ "__typename") {own : FieldDef}
    (hown : schema.field? object group.first.name = some own) {arg : ArgumentDef}
    (harg : arg ∈ own.arguments.values) {literal : Literal}
    (hsupplied : group.first.arguments.lookup arg.name = some literal)
    (hconstant : literal.hasVariable = false) (hfinite : literal.overflows arg.type = false) :
    ∃ value, schema.coerceArgument arg group.first.arguments run.selector.bindings =
      .ok (some value) := by
  have hfirst : group.first ∈ run.selector.collect object sets :=
    FieldGroup.mem_of_mem_ofNodes hgroup List.mem_cons_self
  obtain ⟨set, hset, hpicks⟩ := run.selector.picks_of_mem_collect object hfirst
  have hsuits := hrun.suits_of_asks hconforms hmerges hasks set hset
  have hself := Schema.mem_possibleTypes_self hrun.names (hrun.isObject hasks)
  obtain ⟨bindings, hselector⟩ := hrun.selector
  rw [hselector] at hpicks
  -- where the first node was visited, its argument had the type that it has here
  obtain ⟨type, head, inner, hobject, hhead, hvisit⟩ :=
    Document.visited_of_picks hrun.clean hself hpicks hsuits
  rw [hhead] at hname hown hsupplied ⊢
  rcases Scope.clean_field hvisit with ⟨htypename, -⟩ | ⟨-, field, hfield, -⟩
  · exact absurd htypename hname
  · obtain ⟨other, hother, haccepts⟩ := Scope.accepts_of_clean
      (Scope.clean_visitArguments hvisit hname hfield) hsupplied hconstant
    rw [hshares.type_eq hobject hfield hown harg hother] at haccepts
    exact Schema.exists_coerceArgument hsupplied hconstant haccepts hfinite _

end Run

/-- An accepted literal without variables has a value that depends on no variables.  It is coerced
just when no float beyond the finite numbers stands in it where null is not allowed, and not null
just when it is no such float itself.  So where object types take the arguments of their interfaces,
and one response key stands for one field, no other literal without variables is rejected in the run
of a request without errors. -/
theorem constants_supplied {blueprint : Blueprint} {schema : Schema}
    (hbuild : blueprint.build = .ok schema) :
    (∀ (type : TypeExpr) (literal : Literal), literal.hasVariable = false →
      schema.accepts type literal = true →
      (∀ bindings, literal.toJson bindings = literal.toJson []) ∧
      ((∃ value, schema.coerceInput type (literal.toJson []) = .ok value) ↔
        literal.overflows type = false) ∧
      (type.isNonNull = true → (literal.toJson [] ≠ .null ↔ literal.isInfinite = false))) ∧
    ∀ (config : Config) (context : Context) (request : Request), schema.Conforms →
      schema.SharesArguments →
      schema.validate request.document request.operation request.inputs = [] →
      ∀ run, schema.prepare config context request = .ok run → run.Merges →
      ∀ object sets, run.Asks object sets → ∀ group ∈ run.groups object sets,
      group.first.name ≠ "__typename" → ∀ own, schema.field? object group.first.name = some own →
      ∀ arg ∈ own.arguments.values, ∀ literal,
        group.first.arguments.lookup arg.name = some literal → literal.hasVariable = false →
        literal.overflows arg.type = false →
        ∃ value, schema.coerceArgument arg group.first.arguments run.selector.bindings =
          .ok (some value) := by
  constructor
  · intro type literal hconstant haccepts
    have hnames := Literal.variableNames_eq_nil hconstant
    refine ⟨fun bindings => Literal.toJson_of_constant hnames,
      Schema.exists_coerceInput_iff hnames haccepts, fun hn => ?_⟩
    cases type with
    | nonNull inner =>
      obtain ⟨hnull, -⟩ := Schema.accepts_nonNull.1 haccepts
      rw [← Literal.isNull_toJson hnames hnull, Ne, ← Json.isNull_iff, Bool.not_eq_true]
    | named name => cases hn
    | list item => cases hn
  · intro config context request hconforms hshares hvalid run hrun hmerges object sets hasks group
      hgroup hname own hown arg harg literal hsupplied hconstant hfinite
    exact (Run.checked_of_validate hbuild hvalid hrun).exists_coerceArgument hconforms hshares
      hmerges hasks hgroup hname hown harg hsupplied hconstant hfinite

namespace Scales

def argument (type : TypeExpr) : String × ArgumentDef :=
  ("by", { name := "by", type := type, defaultValue := none })

/-- A field with an argument, whose value is the argument's. -/
def field (name : String) (type : TypeExpr) : String × FieldDef :=
  (name,
    { name := name
      description := none
      type := .named "Float"
      arguments := [argument type]
      resolver := none })

/-- A root that can be scaled, and a shape, which is scaled by a type of its own. -/
def blueprint (own : TypeExpr) : Blueprint :=
  { queryType := some "Query"
    mutationType := none
    added :=
      [.interface
          { name := "Shape"
            fields := [field "scaled" (.nonNull (.named "Float"))]
            placer := none },
        .object
          { name := "Circle"
            description := none
            fields := [field "scaled" own]
            interfaces := ["Shape"] },
        .object
          { name := "Query"
            description := none
            fields :=
              [field "scaled" (.nonNull (.named "Float")), Sample.field "shape" (.named "Shape")]
            interfaces := [] }] }

def schema (own : TypeExpr) : Schema :=
  { queryType := "Query", mutationType := none, types := (blueprint own).table }

def scaled (literal : Literal) : FieldNode :=
  { location := Sample.place
    aliasName := none
    name := "scaled"
    arguments := [("by", literal)]
    directives := []
    selections := [] }

def select (literal : Literal) : Selection := .field (scaled literal).toFieldHead []

def request (selections : List Selection) : Request :=
  { document :=
      { definitions :=
          [.operation
            { location := Sample.place
              kind := .query
              name := none
              variableDefs := []
              directives := []
              selections := selections }] }
    operation := none
    inputs := []
    root := .obj [("shape", .obj [("__typename", .str "Circle")])] }

def run (own : TypeExpr) (selections : List Selection) : Run :=
  { selector := .ofDocument (schema own) (request selections).document []
    context := .empty
    config := .standard
    rootType := "Query"
    root := (request selections).root
    selections := selections
    serial := false
    depth := (request selections).document.depthLimit }

theorem prepare_request (own : TypeExpr) (selections : List Selection) :
    (schema own).prepare .standard .empty (request selections) = .ok (run own selections) := by
  rfl

def float : TypeExpr := .nonNull (.named "Float")

theorem groups_scaled (literal : Literal) :
    (run float [select literal]).groups "Query" [[select literal]] =
      [{ key := "scaled", first := scaled literal, others := [] }] := by rfl

/-- A number is asked for nothing. -/
theorem asks_scaled {literal : Literal} {object : String} {sets : List (List Selection)}
    (h : (run float [select literal]).Asks object sets) :
    object = "Query" ∧ sets = [[select literal]] := by
  induction h with
  | root => exact ⟨rfl, rfl⟩
  | @field object next sets group own _ hgroup _ hfield hnext _ ih =>
    obtain ⟨rfl, rfl⟩ := ih
    rw [groups_scaled] at hgroup
    obtain rfl := List.mem_singleton.1 hgroup
    obtain rfl : (field "scaled" float).2 = own := Option.some.inj hfield
    exact absurd hnext List.not_mem_nil

theorem merges_scaled (literal : Literal) : (run float [select literal]).Merges := by
  intro object sets h group hgroup node hnode
  obtain ⟨rfl, rfl⟩ := asks_scaled h
  rw [groups_scaled] at hgroup
  obtain rfl := List.mem_singleton.1 hgroup
  rw [List.mem_singleton.1 hnode]

/-- An integer where a float is expected, before the run and in it. -/
theorem constants_supplied_scaled :
    (∃ value, (schema float).coerceInput float (.int 2) = .ok value) ∧
      ∃ value, (schema float).coerceArgument (argument float).2 [("by", .int 2)] [] =
        .ok (some value) := by
  have hbuild : (blueprint float).build = .ok (schema float) := by rfl
  have hvalid : (schema float).validate (request [select (.int 2)]).document none [] = [] := by rfl
  have hgroup := List.mem_singleton.2 (rfl : FieldGroup.mk "scaled" (scaled (.int 2)) [] = _)
  obtain ⟨hliterals, hruns⟩ := constants_supplied hbuild
  obtain ⟨-, hcoerced, -⟩ := hliterals float (.int 2) rfl rfl
  refine ⟨hcoerced.2 rfl, ?_⟩
  exact hruns .standard .empty (request [select (.int 2)]) (by decide) (by decide) hvalid _
    (prepare_request _ _) (merges_scaled _) "Query" _ .root _ hgroup
    (show "scaled" ≠ "__typename" by decide) (field "scaled" float).2 rfl (argument float).2
    (List.mem_singleton.2 rfl) (.int 2) rfl rfl rfl

/-- A float beyond the finite numbers is accepted for an argument that may not be null, and null is
its value. -/
theorem constant_rejected :
    (blueprint float).build = .ok (schema float) ∧
      (schema float).accepts float (.float (.infinite false)) = true ∧
      (schema float).validate (request [select (.float (.infinite false))]).document none [] = [] ∧
      ((schema float).execute .standard .empty
          (request [select (.float (.infinite false))])).response? =
        some
          { data := some (.obj [("scaled", .null)])
            errors :=
              [(Failure.rejected { cause := .nullArgument "by" float, value := .null }).report
                [Sample.place] (some [.key "scaled"])] } := by
  have hvalid : (schema float).validate
      (request [select (.float (.infinite false))]).document none [] = [] := by rfl
  refine ⟨rfl, rfl, hvalid, ?_⟩
  rw [Schema.execute_of_no_errors hvalid (prepare_request _ _)]
  exact Run.response?_ending _

def boolean : TypeExpr := .named "Boolean"

/-- A number for the argument that shapes are scaled by. -/
def ofShape : List Selection :=
  [.field (Pets.node none "shape" []).toFieldHead [select (.int 2)]]

/-- A number is accepted for the argument of an interface's field, and reaches the field of an
object, whose argument is of another type. -/
theorem constant_misdirected :
    (blueprint boolean).build = .ok (schema boolean) ∧ (schema boolean).Conforms ∧
      (schema boolean).validate (request ofShape).document none [] = [] ∧
      ((schema boolean).execute .standard .empty (request ofShape)).response? =
        some
          { data := some (.obj [("shape", .obj [("scaled", .null)])])
            errors :=
              [(Failure.rejected { cause := .invalidArgument "by" (.int 2), value := .int 2 }).report
                [Sample.place] (some [.key "shape", .key "scaled"])] } := by
  have hvalid : (schema boolean).validate (request ofShape).document none [] = [] := by rfl
  refine ⟨rfl, by decide, hvalid, ?_⟩
  rw [Schema.execute_of_no_errors hvalid (prepare_request _ _)]
  exact Run.response?_ending _

end Scales

end TypedQuery
