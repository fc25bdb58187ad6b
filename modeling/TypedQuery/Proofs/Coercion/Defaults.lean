import TypedQuery.Proofs.Coercion.Variables
/-!
The values of an operation's variables against the types that the variables are declared with.  A
value that the request provides is coerced, and where the types are those that every schema starts
with, or enums, coercing it once more changes nothing.  A variable that is not provided takes its
default as it is written, so the default fits the type just when its author saw to that:
`coerced_variables_keep`.
-/

namespace TypedQuery

/-- No type that is added replaces a scalar that every schema starts with. -/
def Blueprint.KeepsBuiltIns (b : Blueprint) : Prop :=
  ∀ type ∈ b.added, BuiltIn.isName type.name = false

namespace Schema

/-- The value is one that the type leaves as it is.  In particular it is not null when the type is
marked as non-null. -/
def Keeps (schema : Schema) (type : TypeExpr) (value : Json) : Prop :=
  schema.coerceInput type value = .ok value

/-- The name is that of a scalar that every schema starts with, or of an enum. -/
def IsStandard (schema : Schema) (name : String) : Prop :=
  BuiltIn.isName name = true ∨ ∃ enum, schema.type? name = some (.enum enum)

variable {schema : Schema}

theorem Keeps.ne_null {type : TypeExpr} {value : Json} (h : schema.Keeps type value)
    (hn : type.isNonNull = true) : value ≠ .null := by
  rintro rfl
  exact coerceInput_null_of_nonNull hn h

end Schema

/-! ## The scalars that every schema starts with -/

namespace Blueprint

variable {b : Blueprint} {schema : Schema}

/-- Unless it is replaced, a scalar stands under its name in every schema. -/
theorem type?_scalar (hbuild : b.build = .ok schema) (hkeeps : b.KeepsBuiltIns) {scalar : ScalarDef}
    (h : scalar ∈ BuiltIn.scalars) : schema.type? scalar.name = some (.scalar scalar) := by
  obtain ⟨-, htypes, -⟩ := build_eq_ok.1 hbuild
  rw [Schema.type?, htypes, table, Keyed.lookup_ofList]
  apply Keyed.lookup_eq_some_of_unique
  · rw [List.mem_reverse]
    exact List.mem_append_left _ (List.mem_map.2 ⟨scalar, h, rfl⟩)
  · intro other hother
    rw [List.mem_reverse] at hother
    rcases List.mem_append.1 hother with hmem | hmem
    · obtain ⟨same, hsame, he⟩ := List.mem_map.1 hmem
      obtain ⟨hname, rfl⟩ := Prod.mk.inj he
      rw [BuiltIn.eq_of_name hsame h hname]
    · obtain ⟨added, hadded, he⟩ := List.mem_map.1 hmem
      have hreplaced : BuiltIn.isName added.name = true := by
        rw [(Prod.mk.inj he).1]
        exact BuiltIn.isName_of_mem h
      rw [hkeeps added hadded] at hreplaced
      cases hreplaced

theorem settles_of_isStandard (hbuild : b.build = .ok schema) (hkeeps : b.KeepsBuiltIns)
    {name : String} (h : schema.IsStandard name) : schema.Settles name := by
  intro scalar hscalar
  rcases h with hname | ⟨enum, henum⟩
  · obtain ⟨builtIn, hmem, rfl⟩ := BuiltIn.exists_scalar hname
    rw [type?_scalar hbuild hkeeps hmem] at hscalar
    obtain rfl : builtIn = scalar := TypeDef.scalar.inj (Option.some.inj hscalar)
    exact BuiltIn.settles_of_mem hmem
  · rw [henum] at hscalar
    cases hscalar

end Blueprint

/-! ## One variable -/

namespace VariableDefinition

variable {schema : Schema} {definition : VariableDefinition} {inputs : Json.Fields}

/-- A provided value counts for what its type makes of it, whatever the default. -/
theorem value_of_lookup_eq_some {value? : Option Json}
    (hvalue : definition.value schema inputs = .ok value?) {provided : Json}
    (hprovided : inputs.lookup definition.name = some provided) :
    ∃ value, value? = some value ∧ schema.coerceInput definition.type provided = .ok value := by
  rcases value_cases schema inputs definition with
    ⟨fault, hoffends⟩ | ⟨value, hsome, htakes⟩ | ⟨-, hempty, -⟩
  · rw [value_of_offends hoffends] at hvalue
    cases hvalue
  · rw [hsome] at hvalue
    refine ⟨value, (Except.ok.inj hvalue).symm, ?_⟩
    cases htakes with
    | default habsent _ =>
      rw [hprovided] at habsent
      cases habsent
    | given hother hcoerce =>
      rw [hprovided] at hother
      rwa [Option.some.inj hother]
  · exact absurd (.inl ⟨provided, hprovided⟩) hempty

/-- A variable that is not provided takes its default, and it has one when it is required. -/
theorem value_of_lookup_eq_none {value? : Option Json}
    (hvalue : definition.value schema inputs = .ok value?)
    (habsent : inputs.lookup definition.name = none) :
    value? = definition.defaultValue.map (Literal.toJson []) ∧
      (definition.type.isNonNull = true → value?.isSome = true) := by
  rcases value_cases schema inputs definition with
    ⟨fault, hoffends⟩ | ⟨value, hsome, htakes⟩ | ⟨hnone, hempty, hmark⟩
  · rw [value_of_offends hoffends] at hvalue
    cases hvalue
  · rw [hsome] at hvalue
    obtain rfl := Except.ok.inj hvalue
    cases htakes with
    | default _ hdefault =>
      rw [hdefault]
      exact ⟨rfl, fun _ => rfl⟩
    | given hprovided _ =>
      rw [habsent] at hprovided
      cases hprovided
  · rw [hnone] at hvalue
    obtain rfl := Except.ok.inj hvalue
    rw [hmark]
    refine ⟨?_, nofun⟩
    cases hdefault : definition.defaultValue with
    | none => rfl
    | some literal => exact absurd (.inr ⟨literal, hdefault⟩) hempty

end VariableDefinition

/-! ## All variables -/

namespace Schema

variable {schema : Schema} {definitions : List VariableDefinition} {inputs bindings : Json.Fields}

/-- Values are given out only when no variable is at fault. -/
theorem exists_value_of_coerceVariables
    (hok : schema.coerceVariables definitions inputs = .ok bindings)
    {definition : VariableDefinition} (hmem : definition ∈ definitions) :
    ∃ value?, definition.value schema inputs = .ok value? := by
  obtain ⟨hreports, -⟩ := coerceVariables_eq_ok.1 hok
  cases hvalue : definition.value schema inputs with
  | ok value? => exact ⟨value?, rfl⟩
  | error fault =>
    have hoffends := VariableDefinition.value_eq_error.1 hvalue
    exact absurd hoffends (variableReports_eq_nil.1 hreports definition hmem fault)

variable (hnames : (definitions.map VariableDefinition.name).Nodup)
  (hok : schema.coerceVariables definitions inputs = .ok bindings)

include hnames hok

theorem standsIn_of_nodup {definition : VariableDefinition} (hmem : definition ∈ definitions) :
    definition.StandsIn schema definitions inputs where
  mem := hmem
  others := by
    intro other hother
    by_cases hname : other.name = definition.name
    · exact .inl (List.inj_on_of_nodup_map hnames hother hmem hname)
    · exact .inr ⟨hname, exists_value_of_coerceVariables hok hother⟩

/-- Under the name of a variable stands its own value, or nothing when it has none. -/
theorem lookup_of_coerceVariables {definition : VariableDefinition} (hmem : definition ∈ definitions)
    {value? : Option Json} (hvalue : definition.value schema inputs = .ok value?) :
    bindings.lookup definition.name = value? := by
  have hstands := standsIn_of_nodup hnames hok hmem
  cases value? with
  | some value =>
    obtain ⟨found, hfound, hlookup⟩ := hstands.lookup hvalue
    rw [hok] at hfound
    rw [Except.ok.inj hfound]
    exact hlookup
  | none =>
    rw [(coerceVariables_eq_ok.1 hok).2, Keyed.lookup_ofList, List.lookup_eq_none_iff]
    intro entry hentry
    rw [List.mem_reverse] at hentry
    obtain ⟨other, hother, hbinding⟩ := List.mem_filterMap.1 hentry
    unfold VariableDefinition.binding? at hbinding
    rcases hstands.others other hother with rfl | ⟨hne, -⟩
    · rw [hvalue] at hbinding
      cases hbinding
    · split at hbinding
      · obtain rfl := Option.some.inj hbinding
        exact bne_iff_ne.2 (Ne.symm hne)
      · cases hbinding

end Schema

/-- The values that an operation's variables come to, where their types are scalars that every
schema starts with, or enums, under any lists and marks.  A provided value is there, not null when
its type is marked, and one that its type leaves as it is.  A variable that is not provided has its
default as it is written, and nothing when it has no default, which its type then allows: so the
type leaves that value as it is just when it does the default. -/
theorem coerced_variables_keep {blueprint : Blueprint} {schema : Schema}
    (hbuild : blueprint.build = .ok schema) (hkeeps : blueprint.KeepsBuiltIns)
    {definitions : List VariableDefinition}
    (hnames : (definitions.map VariableDefinition.name).Nodup) {inputs bindings : Json.Fields}
    (hok : schema.coerceVariables definitions inputs = .ok bindings)
    {definition : VariableDefinition} (hmem : definition ∈ definitions)
    (hstandard : schema.IsStandard definition.type.base) :
    (∀ provided, inputs.lookup definition.name = some provided →
      ∃ value, bindings.lookup definition.name = some value ∧
        schema.coerceInput definition.type provided = .ok value ∧
        schema.Keeps definition.type value ∧
        (definition.type.isNonNull = true → value ≠ .null)) ∧
      (inputs.lookup definition.name = none →
        bindings.lookup definition.name = definition.defaultValue.map (Literal.toJson []) ∧
        (definition.type.isNonNull = true → (bindings.lookup definition.name).isSome = true)) := by
  have hsettles := Blueprint.settles_of_isStandard hbuild hkeeps hstandard
  obtain ⟨value?, hvalue⟩ := Schema.exists_value_of_coerceVariables hok hmem
  have hlookup := Schema.lookup_of_coerceVariables hnames hok hmem hvalue
  constructor
  · intro provided hprovided
    obtain ⟨value, rfl, hcoerce⟩ :=
      VariableDefinition.value_of_lookup_eq_some hvalue hprovided
    have hagain : schema.Keeps definition.type value := (Schema.coerceInput_again hsettles hcoerce).2
    exact ⟨value, hlookup, hcoerce, hagain, hagain.ne_null⟩
  · intro habsent
    rw [hlookup]
    exact VariableDefinition.value_of_lookup_eq_none hvalue habsent

namespace Defaults

def blueprint : Blueprint :=
  { queryType := some "Query"
    mutationType := none
    added :=
      [.object
        { name := "Query"
          description := none
          fields := .ofList
            [("f",
              { name := "f"
                description := none
                type := .named "Float"
                arguments := []
                resolver := none })]
          interfaces := [] }] }

def schema : Schema := { queryType := "Query", mutationType := none, types := blueprint.table }

theorem build_blueprint : blueprint.build = .ok schema := by rfl

theorem keepsBuiltIns_blueprint : blueprint.KeepsBuiltIns := by
  intro type htype
  obtain rfl := List.mem_singleton.1 htype
  decide

/-- A variable for a list of strings, with a single string for its default. -/
def definition : VariableDefinition :=
  { location := { line := 1, column := 9 }
    name := "b"
    type := .list (.named "String")
    defaultValue := some (.str "one") }

end Defaults

/-- The same text, provided and left to the default, comes to be the list of it and itself. -/
theorem coerced_variables_keep_list :
    Defaults.schema.Keeps Defaults.definition.type (.arr [.str "one"]) ∧
      Defaults.schema.coerceVariables [Defaults.definition] [("b", .str "one")] =
        .ok [("b", .arr [.str "one"])] ∧
      Defaults.schema.coerceVariables [Defaults.definition] [] = .ok [("b", .str "one")] := by
  have hmem : Defaults.definition ∈ [Defaults.definition] := List.mem_singleton.2 rfl
  have hstandard : Defaults.schema.IsStandard Defaults.definition.type.base := .inl (by decide)
  have hnames : ([Defaults.definition].map VariableDefinition.name).Nodup := by decide
  have hprovided : Defaults.schema.coerceVariables [Defaults.definition] [("b", .str "one")] =
      .ok [("b", .arr [.str "one"])] := by rfl
  obtain ⟨hkeep, -⟩ := coerced_variables_keep Defaults.build_blueprint
    Defaults.keepsBuiltIns_blueprint hnames hprovided hmem hstandard
  obtain ⟨value, hlookup, -, hvalue, -⟩ := hkeep (.str "one") rfl
  obtain rfl : Json.arr [.str "one"] = value := Option.some.inj hlookup
  exact ⟨hvalue, hprovided, rfl⟩

/-- A default need not be a value that its type leaves as it is. -/
theorem default_not_kept :
    ¬ ∀ (blueprint : Blueprint) (schema : Schema), blueprint.build = .ok schema →
      blueprint.KeepsBuiltIns → ∀ definitions : List VariableDefinition,
      (definitions.map VariableDefinition.name).Nodup → ∀ inputs bindings : Json.Fields,
      schema.coerceVariables definitions inputs = .ok bindings →
      ∀ definition ∈ definitions, schema.IsStandard definition.type.base →
        (definition.type.isNonNull = true →
          ∃ value, bindings.lookup definition.name = some value ∧ value ≠ .null) ∧
        ∀ value, bindings.lookup definition.name = some value →
          schema.Keeps definition.type value := by
  intro hall
  have hbindings : Defaults.schema.coerceVariables [Defaults.definition] [] =
      .ok [("b", .str "one")] := by rfl
  obtain ⟨-, hkeeps⟩ := hall Defaults.blueprint Defaults.schema Defaults.build_blueprint
    Defaults.keepsBuiltIns_blueprint [Defaults.definition] (by decide) [] _ hbindings
    Defaults.definition (List.mem_singleton.2 rfl) (.inl (by decide))
  cases hkeeps (.str "one") rfl

end TypedQuery
