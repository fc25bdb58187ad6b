import TypedQuery.Proofs.Coercion.Passing
import TypedQuery.Proofs.Schema.WellFormed
/-!
The two checks of an operation's variables.  One computes the values of all variables, or an error
for each that is at fault; the other looks for required variables alone and coerces nothing.
`Offends` and `Takes` say of one variable what is wrong with it, or what comes of it.  What the
second check reports are those errors of the first that belong to required variables, and neither
asks for more of a request than the values of the variables that are declared:
`variable_checks_agree`.
-/

namespace TypedQuery

namespace Keyed

variable {α : Type}

theorem put_of_notMem {key : String} {entries : Keyed α} (h : key ∉ entries.keys) (value : α) :
    put key value entries = entries ++ [(key, value)] := by
  induction entries with
  | nil => rfl
  | cons entry rest ih =>
    obtain ⟨k, v⟩ := entry
    have hne : ¬ k = key := fun he => h (he ▸ List.mem_cons_self)
    have hrest : key ∉ keys rest := fun hmem => h (List.mem_cons_of_mem _ hmem)
    rw [put, if_neg hne, ih hrest, List.cons_append]

/-- Entries under distinct keys are a table as they stand. -/
theorem ofList_of_nodup {entries : List (String × α)} (h : (entries.map Prod.fst).Nodup) :
    ofList entries = entries := by
  induction entries using List.reverseRecOn with
  | nil => rfl
  | append_singleton entries entry ih =>
    rw [List.map_append, List.map_singleton] at h
    obtain ⟨hentries, -, hdisjoint⟩ := List.nodup_append.1 h
    have hnew : entry.1 ∉ keys entries := fun hmem =>
      hdisjoint entry.1 hmem entry.1 List.mem_cons_self rfl
    have htable : ofList (entries ++ [entry]) = put entry.1 entry.2 (ofList entries) := by
      rw [ofList, List.foldl_append]
      rfl
    rw [htable, ih hentries, put_of_notMem hnew]

end Keyed

/-! ## One variable -/

namespace VariableDefinition

/-- What is wrong with a variable: no input has its type, it is required and absent or null, or its
type rejects what is provided. -/
inductive Offends (schema : Schema) (inputs : Json.Fields) (definition : VariableDefinition) :
    VariableFault → Prop
  | notInput (hinput : schema.isInput definition.type = false) :
      Offends schema inputs definition .notInput
  | missing (hinput : schema.isInput definition.type = true)
      (hmark : definition.type.isNonNull = true)
      (habsent : inputs.lookup definition.name = none)
      (hdefault : definition.defaultValue = none) : Offends schema inputs definition .missing
  | null (hinput : schema.isInput definition.type = true)
      (hmark : definition.type.isNonNull = true)
      (hnull : inputs.lookup definition.name = some .null) :
      Offends schema inputs definition .null
  | invalid {provided : Json} {rejection : Rejection}
      (hinput : schema.isInput definition.type = true)
      (hprovided : inputs.lookup definition.name = some provided)
      (hvalue : provided = .null → definition.type.isNonNull = false)
      (hrejects : schema.coerceInput definition.type provided = .error rejection) :
      Offends schema inputs definition (.invalid provided rejection)

/-- What a variable comes to: its default as it stands, if nothing is provided, or what its type
makes of what is provided. -/
inductive Takes (schema : Schema) (inputs : Json.Fields) (definition : VariableDefinition) :
    Json → Prop
  | default {literal : Literal} (habsent : inputs.lookup definition.name = none)
      (hdefault : definition.defaultValue = some literal) :
      Takes schema inputs definition (literal.toJson [])
  | given {provided value : Json} (hprovided : inputs.lookup definition.name = some provided)
      (hvalue : schema.coerceInput definition.type provided = .ok value) :
      Takes schema inputs definition value

/-- Something is provided for the variable, or else there is a default. -/
def Filled (inputs : Json.Fields) (definition : VariableDefinition) : Prop :=
  (∃ provided, inputs.lookup definition.name = some provided) ∨
    ∃ literal, definition.defaultValue = some literal

/-- The variable is of a type that must not be null and that inputs have, and it is absent without a
default, or null. -/
structure Lacks (schema : Schema) (inputs : Json.Fields) (definition : VariableDefinition) :
    Prop where
  input : schema.isInput definition.type = true
  mark : definition.type.isNonNull = true
  value : inputs.lookup definition.name = none ∧ definition.defaultValue = none ∨
    inputs.lookup definition.name = some .null

variable {schema : Schema} {definition : VariableDefinition} {inputs : Json.Fields}

instance : Decidable (Filled inputs definition) :=
  decidable_of_iff
    ((inputs.lookup definition.name).isSome = true ∨ definition.defaultValue.isSome = true)
    (by simp only [Option.isSome_iff_exists, Filled])

theorem requiredFault?_eq_some {fault : VariableFault} :
    definition.requiredFault? inputs = some fault ↔ definition.type.isNonNull = true ∧
      (fault = .missing ∧ inputs.lookup definition.name = none ∧ definition.defaultValue = none ∨
        fault = .null ∧ inputs.lookup definition.name = some .null) := by
  unfold requiredFault?
  by_cases hmark : definition.type.isNonNull = true
  · rw [if_pos hmark]
    cases hprovided : inputs.lookup definition.name with
    | none => cases hdefault : definition.defaultValue <;> simp [hmark, eq_comm]
    | some provided => cases provided <;> simp [hmark, eq_comm]
  · simp [hmark]

/-- A required variable lacks a value just when the check for that finds a fault. -/
theorem lacks_iff : definition.Lacks schema inputs ↔
    schema.isInput definition.type = true ∧
      ∃ fault, definition.requiredFault? inputs = some fault := by
  simp only [requiredFault?_eq_some]
  constructor
  · rintro ⟨hinput, hmark, habsent | hnull⟩
    · exact ⟨hinput, .missing, hmark, .inl ⟨rfl, habsent⟩⟩
    · exact ⟨hinput, .null, hmark, .inr ⟨rfl, hnull⟩⟩
  · rintro ⟨hinput, fault, hmark, ⟨-, habsent⟩ | ⟨-, hnull⟩⟩
    · exact ⟨hinput, hmark, .inl habsent⟩
    · exact ⟨hinput, hmark, .inr hnull⟩

instance : Decidable (Lacks schema inputs definition) :=
  decidable_of_iff
    (schema.isInput definition.type = true ∧ (definition.requiredFault? inputs).isSome = true)
    (by rw [lacks_iff, Option.isSome_iff_exists])

/-- A variable that is not required to have a value, or has one, is not at fault for that. -/
theorem requiredFault?_eq_none
    (hvalue : inputs.lookup definition.name = some .null → definition.type.isNonNull = false)
    (hdefault : inputs.lookup definition.name = none →
      definition.defaultValue.isSome = true ∨ definition.type.isNonNull = false) :
    definition.requiredFault? inputs = none := by
  rw [Option.eq_none_iff_forall_ne_some]
  intro fault hfault
  obtain ⟨hmark, ⟨-, habsent, hnone⟩ | ⟨-, hnull⟩⟩ := requiredFault?_eq_some.1 hfault
  · rcases hdefault habsent with hsome | hmark'
    · rw [hnone] at hsome
      cases hsome
    · rw [hmark] at hmark'
      cases hmark'
  · rw [hvalue hnull] at hmark
    cases hmark

theorem value_of_offends {fault : VariableFault} (h : definition.Offends schema inputs fault) :
    definition.value schema inputs = .error fault := by
  cases h with
  | notInput hinput =>
    rw [value, hinput]
    rfl
  | missing hinput hmark habsent hdefault =>
    rw [value, hinput, requiredFault?_eq_some.2 ⟨hmark, .inl ⟨rfl, habsent, hdefault⟩⟩]
    rfl
  | null hinput hmark hnull =>
    rw [value, hinput, requiredFault?_eq_some.2 ⟨hmark, .inr ⟨rfl, hnull⟩⟩]
    rfl
  | invalid hinput hprovided hvalue hrejects =>
    have hfault : definition.requiredFault? inputs = none := by
      refine requiredFault?_eq_none (fun hnull => hvalue ?_) (fun habsent => ?_)
      · rw [hprovided] at hnull
        exact Option.some.inj hnull
      · rw [hprovided] at habsent
        cases habsent
    rw [value, hinput, hfault, hprovided]
    dsimp only
    rw [hrejects]
    rfl

/-- A variable is at fault, has a value or goes without one, which its type then allows. -/
theorem value_cases (schema : Schema) (inputs : Json.Fields) (definition : VariableDefinition) :
    (∃ fault, definition.Offends schema inputs fault) ∨
      (∃ value, definition.value schema inputs = .ok (some value) ∧
        definition.Takes schema inputs value) ∨
      definition.value schema inputs = .ok none ∧ ¬ definition.Filled inputs ∧
        definition.type.isNonNull = false := by
  cases hinput : schema.isInput definition.type with
  | false => exact .inl ⟨.notInput, .notInput hinput⟩
  | true =>
    cases hfault : definition.requiredFault? inputs with
    | some fault =>
      obtain ⟨hmark, ⟨rfl, habsent, hdefault⟩ | ⟨rfl, hnull⟩⟩ := requiredFault?_eq_some.1 hfault
      · exact .inl ⟨_, .missing hinput hmark habsent hdefault⟩
      · exact .inl ⟨_, .null hinput hmark hnull⟩
    | none =>
      cases hprovided : inputs.lookup definition.name with
      | none =>
        have hvalue : definition.value schema inputs =
            .ok (definition.defaultValue.map (Literal.toJson [])) := by
          rw [value, hinput, hfault, hprovided]
          rfl
        cases hdefault : definition.defaultValue with
        | some literal =>
          rw [hdefault] at hvalue
          exact .inr (.inl ⟨_, hvalue, .default hprovided hdefault⟩)
        | none =>
          rw [hdefault] at hvalue
          refine .inr (.inr ⟨hvalue, ?_, Bool.eq_false_iff.2 fun hmark => ?_⟩)
          · rintro (⟨provided, hsome⟩ | ⟨literal, hsome⟩)
            · rw [hprovided] at hsome
              cases hsome
            · rw [hdefault] at hsome
              cases hsome
          · have hsome := requiredFault?_eq_some.2 ⟨hmark, .inl ⟨rfl, hprovided, hdefault⟩⟩
            rw [hfault] at hsome
            cases hsome
      | some provided =>
        cases hcoerce : schema.coerceInput definition.type provided with
        | ok coerced =>
          refine .inr (.inl ⟨coerced, ?_, .given hprovided hcoerce⟩)
          exact value_of_provided hinput hprovided hcoerce
        | error rejection =>
          refine .inl ⟨_, .invalid hinput hprovided (fun hnull => ?_) hcoerce⟩
          rw [Bool.eq_false_iff]
          intro hmark
          have hsome := requiredFault?_eq_some.2 ⟨hmark, .inr ⟨rfl, hnull ▸ hprovided⟩⟩
          rw [hfault] at hsome
          cases hsome

theorem value_eq_error {fault : VariableFault} :
    definition.value schema inputs = .error fault ↔ definition.Offends schema inputs fault := by
  refine ⟨fun h => ?_, value_of_offends⟩
  rcases value_cases schema inputs definition with
    ⟨other, hoffends⟩ | ⟨value, hvalue, -⟩ | ⟨hvalue, -, -⟩
  · rw [value_of_offends hoffends] at h
    rwa [← Except.error.inj h]
  · rw [hvalue] at h
    cases h
  · rw [hvalue] at h
    cases h

theorem Takes.filled {value : Json} (h : definition.Takes schema inputs value) :
    definition.Filled inputs := by
  cases h with
  | default _ hdefault => exact .inr ⟨_, hdefault⟩
  | given hprovided _ => exact .inl ⟨_, hprovided⟩

theorem valueError?_eq_some {e : ResponseError} :
    definition.valueError? schema inputs = some e ↔
      ∃ fault, definition.Offends schema inputs fault ∧ e = definition.faultReport fault := by
  simp only [← value_eq_error]
  unfold valueError?
  cases definition.value schema inputs <;> simp [eq_comm]

theorem isSome_valueError? :
    (definition.valueError? schema inputs).isSome = true ↔
      ∃ fault, definition.Offends schema inputs fault := by
  simp only [Option.isSome_iff_exists, valueError?_eq_some]
  exact ⟨fun ⟨_, fault, h, _⟩ => ⟨fault, h⟩, fun ⟨fault, h⟩ => ⟨_, fault, h, rfl⟩⟩

instance : Decidable (∃ fault, definition.Offends schema inputs fault) :=
  decidable_of_iff _ isSome_valueError?

/-- A required variable without a value is reported alike by both checks. -/
theorem requiredReport_eq (schema : Schema) (inputs : Json.Fields)
    (definition : VariableDefinition) :
    (if schema.isInput definition.type then
        (definition.requiredFault? inputs).map definition.faultReport
      else none) =
      if definition.Lacks schema inputs then definition.valueError? schema inputs else none := by
  by_cases hlacks : definition.Lacks schema inputs
  · obtain ⟨hinput, fault, hfault⟩ := lacks_iff.1 hlacks
    rw [if_pos hlacks, if_pos hinput, hfault, valueError?, value, hinput, hfault]
    rfl
  · rw [if_neg hlacks]
    by_cases hinput : schema.isInput definition.type = true
    · cases hfault : definition.requiredFault? inputs with
      | none => rw [if_pos hinput, Option.map_none]
      | some fault => exact absurd (lacks_iff.2 ⟨hinput, fault, hfault⟩) hlacks
    · rw [if_neg hinput]

theorem value_congr {others : Json.Fields}
    (h : inputs.lookup definition.name = others.lookup definition.name) :
    definition.requiredFault? inputs = definition.requiredFault? others ∧
      definition.value schema inputs = definition.value schema others := by
  have hfault : definition.requiredFault? inputs = definition.requiredFault? others := by
    rw [requiredFault?, requiredFault?, h]
  exact ⟨hfault, by rw [value, value, hfault, h]⟩

end VariableDefinition

/-! ## All variables -/

namespace Schema

variable {schema : Schema} {definitions : List VariableDefinition} {inputs : Json.Fields}

/-- The variables that are at fault, each with its error. -/
def variableReports (schema : Schema) (definitions : List VariableDefinition)
    (inputs : Json.Fields) : List (VariableDefinition × ResponseError) :=
  definitions.filterMap fun definition =>
    (definition.valueError? schema inputs).map fun e => (definition, e)

theorem map_snd_variableReports :
    (schema.variableReports definitions inputs).map Prod.snd =
      definitions.filterMap (·.valueError? schema inputs) := by
  rw [variableReports, List.map_filterMap]
  refine List.filterMap_congr fun definition _ => ?_
  cases definition.valueError? schema inputs <;> rfl

/-- A variable has a report just when something is wrong with it. -/
theorem map_fst_variableReports :
    (schema.variableReports definitions inputs).map Prod.fst =
      definitions.filter fun definition => ∃ fault, definition.Offends schema inputs fault := by
  rw [variableReports, List.map_filterMap, ← List.filterMap_eq_filter]
  refine List.filterMap_congr fun definition _ => ?_
  simp only [← VariableDefinition.isSome_valueError?, Option.guard]
  cases definition.valueError? schema inputs <;> rfl

theorem offends_of_mem_variableReports {report : VariableDefinition × ResponseError}
    (h : report ∈ schema.variableReports definitions inputs) :
    ∃ fault, report.1.Offends schema inputs fault ∧ report.2 = report.1.faultReport fault := by
  obtain ⟨definition, -, hreport⟩ := List.mem_filterMap.1 h
  obtain ⟨e, he, rfl⟩ := Option.map_eq_some_iff.1 hreport
  exact VariableDefinition.valueError?_eq_some.1 he

theorem variableReports_eq_nil :
    schema.variableReports definitions inputs = [] ↔
      ∀ definition ∈ definitions, ∀ fault, ¬ definition.Offends schema inputs fault := by
  rw [← List.map_eq_nil_iff (f := Prod.fst), map_fst_variableReports, List.filter_eq_nil_iff]
  simp only [decide_eq_true_eq, not_exists]

theorem coerceVariables_eq_error {errors : List ResponseError} :
    schema.coerceVariables definitions inputs = .error errors ↔
      schema.variableReports definitions inputs ≠ [] ∧
        errors = (schema.variableReports definitions inputs).map Prod.snd := by
  rw [coerceVariables, ← map_snd_variableReports]
  cases schema.variableReports definitions inputs <;> simp [eq_comm]

theorem coerceVariables_eq_ok {bindings : Json.Fields} :
    schema.coerceVariables definitions inputs = .ok bindings ↔
      schema.variableReports definitions inputs = [] ∧
        bindings = Keyed.ofList (definitions.filterMap (·.binding? schema inputs)) := by
  rw [coerceVariables, ← map_snd_variableReports]
  cases schema.variableReports definitions inputs <;> simp [eq_comm]

/-- The errors of required variables are those of all variables that belong to them. -/
theorem requiredErrors_eq :
    schema.requiredErrors definitions inputs =
      ((schema.variableReports definitions inputs).filter fun report =>
        report.1.Lacks schema inputs).map Prod.snd := by
  rw [requiredErrors, variableReports, List.filter_filterMap, List.map_filterMap]
  refine List.filterMap_congr fun definition _ => ?_
  rw [VariableDefinition.requiredReport_eq]
  cases definition.valueError? schema inputs with
  | none => simp
  | some e => by_cases hlacks : definition.Lacks schema inputs <;> simp [Option.filter, hlacks]

/-- When nothing is wrong with any variable, those that are provided or have a default come to a
value. -/
theorem forall₂_bindings (h : ∀ definition ∈ definitions, ∀ fault,
    ¬ definition.Offends schema inputs fault) :
    List.Forall₂
      (fun definition entry => entry.1 = definition.name ∧ definition.Takes schema inputs entry.2)
      (definitions.filter fun definition => definition.Filled inputs)
      (definitions.filterMap (·.binding? schema inputs)) := by
  induction definitions with
  | nil => exact .nil
  | cons definition rest ih =>
    obtain ⟨hfirst, hrest⟩ := List.forall_mem_cons.1 h
    rcases VariableDefinition.value_cases schema inputs definition with
      ⟨fault, hoffends⟩ | ⟨value, hvalue, htakes⟩ | ⟨hvalue, hempty, -⟩
    · exact absurd hoffends (hfirst fault)
    · have hbinding : definition.binding? schema inputs = some (definition.name, value) := by
        rw [VariableDefinition.binding?, hvalue]
      rw [List.filter_cons, if_pos (decide_eq_true htakes.filled),
        List.filterMap_cons_some hbinding]
      exact .cons ⟨rfl, htakes⟩ (ih hrest)
    · have hbinding : definition.binding? schema inputs = none := by
        rw [VariableDefinition.binding?, hvalue]
      rw [List.filter_cons_of_neg (by simpa using hempty), List.filterMap_cons_none hbinding]
      exact ih hrest

theorem keys_of_forall₂ {bindings : Json.Fields}
    (h : List.Forall₂
      (fun definition entry => entry.1 = definition.name ∧ definition.Takes schema inputs entry.2)
      definitions bindings) :
    bindings.map Prod.fst = definitions.map VariableDefinition.name := by
  induction h with
  | nil => rfl
  | cons hentry _ ih => rw [List.map_cons, List.map_cons, hentry.1, ih]

/-- Only what is provided for the variables themselves counts. -/
theorem variableChecks_congr {others : Json.Fields}
    (h : ∀ definition ∈ definitions,
      inputs.lookup definition.name = others.lookup definition.name) :
    schema.coerceVariables definitions inputs = schema.coerceVariables definitions others ∧
      schema.requiredErrors definitions inputs = schema.requiredErrors definitions others := by
  have hvalue (definition : VariableDefinition) (hmem : definition ∈ definitions) :
      definition.requiredFault? inputs = definition.requiredFault? others ∧
        definition.value schema inputs = definition.value schema others :=
    VariableDefinition.value_congr (h definition hmem)
  have herrors : definitions.filterMap (·.valueError? schema inputs) =
      definitions.filterMap (·.valueError? schema others) := by
    refine List.filterMap_congr fun definition hmem => ?_
    rw [VariableDefinition.valueError?, VariableDefinition.valueError?, (hvalue _ hmem).2]
  have hbindings : definitions.filterMap (·.binding? schema inputs) =
      definitions.filterMap (·.binding? schema others) := by
    refine List.filterMap_congr fun definition hmem => ?_
    rw [VariableDefinition.binding?, VariableDefinition.binding?, (hvalue _ hmem).2]
  refine ⟨by rw [coerceVariables, coerceVariables, herrors, hbindings], ?_⟩
  refine List.filterMap_congr fun definition hmem => ?_
  rw [(hvalue _ hmem).1]

end Schema

/-- The two checks of an operation's variables go by the same errors, one for each variable with
which something is wrong, in the order of their declaration.  When there are any, the first check
gives all of them.  Otherwise it gives the values of the variables that are provided or have a
default, in the order of their declaration and each under its name.  The second check gives the
errors that belong to required variables which are absent without a default, or null.  What is
provided under other names is nothing to either. -/
theorem variable_checks_agree (schema : Schema) {definitions : List VariableDefinition}
    (hnames : (definitions.map VariableDefinition.name).Nodup) (inputs : Json.Fields) :
    ∃ reports : List (VariableDefinition × ResponseError),
      reports.map Prod.fst =
        (definitions.filter fun definition => ∃ fault, definition.Offends schema inputs fault) ∧
      (∀ report ∈ reports, ∃ fault, report.1.Offends schema inputs fault ∧
        report.2 = report.1.faultReport fault) ∧
      (reports ≠ [] →
        schema.coerceVariables definitions inputs = .error (reports.map Prod.snd)) ∧
      (reports = [] → ∃ bindings, schema.coerceVariables definitions inputs = .ok bindings ∧
        List.Forall₂
          (fun definition entry =>
            entry.1 = definition.name ∧ definition.Takes schema inputs entry.2)
          (definitions.filter fun definition => definition.Filled inputs) bindings) ∧
      schema.requiredErrors definitions inputs =
        (reports.filter fun report => report.1.Lacks schema inputs).map Prod.snd ∧
      ∀ others : Json.Fields,
        (inputs.filter fun entry => entry.1 ∈ definitions.map VariableDefinition.name) =
          (others.filter fun entry => entry.1 ∈ definitions.map VariableDefinition.name) →
        schema.coerceVariables definitions inputs = schema.coerceVariables definitions others ∧
          schema.requiredErrors definitions inputs = schema.requiredErrors definitions others := by
  refine ⟨schema.variableReports definitions inputs, Schema.map_fst_variableReports,
    fun _ => Schema.offends_of_mem_variableReports,
    fun hsome => Schema.coerceVariables_eq_error.2 ⟨hsome, rfl⟩, fun hnone => ?_,
    Schema.requiredErrors_eq, fun others hdeclared => ?_⟩
  · have hbindings := Schema.forall₂_bindings (Schema.variableReports_eq_nil.1 hnone)
    refine ⟨_, Schema.coerceVariables_eq_ok.2 ⟨hnone, (Keyed.ofList_of_nodup ?_).symm⟩, hbindings⟩
    rw [Schema.keys_of_forall₂ hbindings]
    exact hnames.sublist (List.filter_sublist.map _)
  · refine Schema.variableChecks_congr fun definition hmem => ?_
    have hkeep (given : Json.Fields) :
        (given.filter fun entry => entry.1 ∈ definitions.map VariableDefinition.name).lookup
          definition.name = given.lookup definition.name :=
      Keyed.lookup_filter (fun name => name ∈ definitions.map VariableDefinition.name)
        (decide_eq_true (List.mem_map_of_mem hmem))
    rw [← hkeep inputs, hdeclared, hkeep others]

namespace Kennel

def takes (column : Nat) (name : String) (type : TypeExpr) : VariableDefinition :=
  { location := { line := 1, column := column }
    name := name
    type := type
    defaultValue := none }

def count : VariableDefinition := takes 9 "count" (.nonNull (.named "Int"))

def owner : VariableDefinition := takes 23 "owner" (.nonNull (.named "String"))

def age : VariableDefinition := takes 40 "age" (.named "Int")

def found : VariableDefinition := takes 51 "found" (.nonNull (.named "Pet"))

/-- What is provided for some of the variables. -/
def inputs : Json.Fields := [("owner", .null), ("age", .str "old")]

def definitions : List VariableDefinition := [count, owner, age, found]

/-- Each of the variables is at fault for another reason. -/
def errors : List ResponseError :=
  [count.faultReport .missing,
   owner.faultReport .null,
   age.faultReport (.invalid (.str "old") { cause := .scalar .notInteger, value := .str "old" }),
   found.faultReport .notInput]

end Kennel

/-- Two of the four errors belong to required variables, and a page that is provided as well makes
no difference. -/
theorem variable_checks_kennel :
    (Kennel.definitions.map VariableDefinition.name).Nodup ∧
      Kennel.schema.coerceVariables Kennel.definitions (("page", .int 2) :: Kennel.inputs) =
        .error Kennel.errors ∧
      Kennel.schema.requiredErrors Kennel.definitions Kennel.inputs =
        [Kennel.count.faultReport .missing, Kennel.owner.faultReport .null] ∧
      (Kennel.schema.requiredErrors Kennel.definitions Kennel.inputs).Sublist Kennel.errors := by
  have hnames : (Kennel.definitions.map VariableDefinition.name).Nodup := by decide
  obtain ⟨reports, hfst, -, herror, -, hrequired, hothers⟩ :=
    variable_checks_agree Kennel.schema hnames Kennel.inputs
  have hall : Kennel.schema.coerceVariables Kennel.definitions Kennel.inputs =
      .error Kennel.errors := by rfl
  have hsome : reports ≠ [] := by
    rintro rfl
    have hoffends : Kennel.count.Offends Kennel.schema Kennel.inputs .missing :=
      .missing rfl rfl rfl rfl
    exact List.filter_eq_nil_iff.1 hfst.symm Kennel.count List.mem_cons_self
      (decide_eq_true ⟨_, hoffends⟩)
  have hreports : Kennel.errors = reports.map Prod.snd :=
    Except.error.inj (hall.symm.trans (herror hsome))
  refine ⟨hnames, ?_, rfl, ?_⟩
  · rw [← (hothers (("page", .int 2) :: Kennel.inputs) rfl).1]
    exact hall
  · rw [hrequired, hreports]
    exact List.filter_sublist.map _

end TypedQuery
