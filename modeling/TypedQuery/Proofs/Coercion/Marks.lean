import Mathlib.Data.List.Nodup
import TypedQuery.Proofs.Coercion.Passing
/-!
Where null stands in the arguments of a resolver.  A value is looked at before it is coerced: null
is rejected where the type is marked as non-null.  What a scalar makes of a value is not looked at
any more, so a scalar that makes null of something else puts null behind the mark, and nothing
else does: `supplied_arguments_marked`.
-/

namespace TypedQuery

/-- Null stands somewhere in the value where the type is marked as non-null. -/
def TypeExpr.marksNull : TypeExpr → Json → Bool
  | named _, _ => false
  | list item, value =>
    match value with
    | .arr items => items.any item.marksNull
    | _ => false
  | nonNull inner, value => value.isNull || inner.marksNull value

/-- What the scalar makes of a value other than null is never null. -/
def ScalarDef.SparesNull (scalar : ScalarDef) : Prop :=
  ∀ value, value ≠ .null → scalar.parse value ≠ .ok .null

theorem ScalarDef.Settles.sparesNull {scalar : ScalarDef} (h : scalar.Settles) :
    scalar.SparesNull :=
  fun value hvalue hparse => (h value .null hvalue hparse).1 rfl

theorem TypeExpr.ne_null_of_marksNull {type : TypeExpr} {value : Json}
    (h : type.marksNull value = false) (hn : type.isNonNull = true) : value ≠ .null := by
  cases type with
  | nonNull inner =>
    rintro rfl
    cases h
  | named name => cases hn
  | list item => cases hn

namespace Schema

/-- The value is of a scalar, under any marks, which makes null of it. -/
def makesNull (schema : Schema) : TypeExpr → Json → Bool
  | .named name, value =>
    match schema.type? name with
    | some (.scalar scalar) =>
      match scalar.parse value with
      | .ok result => result.isNull
      | .error _ => false
    | _ => false
  | .list _, _ => false
  | .nonNull inner, value => schema.makesNull inner value

/-- Somewhere in the value, where the type is marked as non-null, stands something else than null of
which its scalar makes null. -/
def erases (schema : Schema) : TypeExpr → Json → Bool
  | .named _, _ => false
  | .list item, value => !value.isNull && value.items.any (schema.erases item)
  | .nonNull inner, value => schema.makesNull inner value || schema.erases inner value

variable {schema : Schema}

/-! ## One value -/

theorem isNull_of_coerceNamedInput {name : String} {value result : Json}
    (h : schema.coerceNamedInput name value = .ok result) :
    result.isNull = schema.makesNull (.named name) value := by
  unfold coerceNamedInput at h
  unfold makesNull
  cases htype : schema.type? name with
  | none =>
    rw [htype] at h
    cases h
  | some type =>
    rw [htype] at h
    cases type with
    | scalar scalar =>
      dsimp only at h ⊢
      cases hparse : scalar.parse value with
      | error rejection =>
        rw [hparse] at h
        cases h
      | ok parsed =>
        rw [hparse] at h
        obtain rfl : parsed = result := Except.ok.inj h
        rfl
    | enum enum =>
      cases value with
      | str text =>
        dsimp only at h
        by_cases ht : enum.values.contains text = true
        · rw [if_pos ht] at h
          obtain rfl := Except.ok.inj h
          rfl
        · rw [if_neg ht] at h
          cases h
      | _ => cases h
    | _ => cases h

/-- A value other than null becomes null just when its scalar makes null of it. -/
theorem isNull_of_coerceInput {type : TypeExpr} {value result : Json} (hvalue : value ≠ .null)
    (h : schema.coerceInput type value = .ok result) :
    result.isNull = schema.makesNull type value := by
  induction type with
  | named name =>
    rw [coerceInput, if_neg fun hnull => hvalue (Json.isNull_iff.1 hnull)] at h
    exact isNull_of_coerceNamedInput h
  | list item _ =>
    rcases coerceInput_list_eq_ok h with ⟨hnull, -⟩ | ⟨results, -, rfl, -⟩
    · exact absurd hnull hvalue
    · rfl
  | nonNull inner ih => exact ih (coerceInput_nonNull_eq_ok.1 h).2

/-- What items became holds null behind a mark just when one of them does. -/
theorem any_marksNull_eq {item : TypeExpr} {items results : List Json}
    (hitems : items.map (schema.coerceInput item) = results.map .ok)
    (h : ∀ value result, schema.coerceInput item value = .ok result →
      item.marksNull result = schema.erases item value) :
    results.any item.marksNull = items.any (schema.erases item) := by
  induction items generalizing results with
  | nil =>
    obtain rfl := List.map_eq_nil_iff.1 hitems.symm
    rfl
  | cons first rest ih =>
    obtain ⟨result, others, rfl, hfirst, hrest⟩ := List.map_eq_cons_iff.1 hitems.symm
    rw [List.any_cons, List.any_cons, h first result hfirst.symm, ih hrest.symm]

/-- Behind a mark stands null just when the scalar made it of something else. -/
theorem marksNull_of_coerceInput {type : TypeExpr} {value result : Json}
    (h : schema.coerceInput type value = .ok result) :
    type.marksNull result = schema.erases type value := by
  induction type generalizing value result with
  | named name => rfl
  | list item ih =>
    rcases coerceInput_list_eq_ok h with ⟨rfl, rfl⟩ | ⟨results, hvalue, rfl, hitems⟩
    · rfl
    · rw [erases, hvalue]
      exact any_marksNull_eq hitems fun _ _ => ih
  | nonNull inner ih =>
    obtain ⟨hvalue, hinner⟩ := coerceInput_nonNull_eq_ok.1 h
    rw [TypeExpr.marksNull, erases, ih hinner, isNull_of_coerceInput hvalue hinner]

/-- The scalar of the name, if it is one, makes null of nothing else. -/
def SparesNull (schema : Schema) (name : String) : Prop :=
  ∀ scalar, schema.type? name = some (.scalar scalar) → scalar.SparesNull

theorem makesNull_of_sparesNull {type : TypeExpr} (hs : schema.SparesNull type.base) {value : Json}
    (hvalue : value ≠ .null) : schema.makesNull type value = false := by
  induction type with
  | named name =>
    unfold makesNull
    cases htype : schema.type? name with
    | none => rfl
    | some type =>
      cases type with
      | scalar scalar =>
        dsimp only
        cases hparse : scalar.parse value with
        | error rejection => rfl
        | ok result =>
          rw [Bool.eq_false_iff, Ne, Json.isNull_iff]
          rintro rfl
          exact hs scalar htype value hvalue hparse
      | _ => rfl
  | list item _ => rfl
  | nonNull inner ih => exact ih hs

/-- Where no scalar makes null of something else, no null stands behind a mark. -/
theorem marksNull_of_sparesNull {type : TypeExpr} (hs : schema.SparesNull type.base)
    {value result : Json} (h : schema.coerceInput type value = .ok result) :
    type.marksNull result = false := by
  induction type generalizing value result with
  | named name => rfl
  | list item ih =>
    rcases coerceInput_list_eq_ok h with ⟨-, rfl⟩ | ⟨results, -, rfl, hitems⟩
    · rfl
    · refine List.any_eq_false.2 fun result hresult => ?_
      have hmade : Except.ok result ∈ value.items.map (schema.coerceInput item) := by
        rw [hitems]
        exact List.mem_map_of_mem hresult
      obtain ⟨source, -, hsource⟩ := List.mem_map.1 hmade
      rw [Bool.not_eq_true]
      exact ih hs hsource
  | nonNull inner ih =>
    obtain ⟨hvalue, hinner⟩ := coerceInput_nonNull_eq_ok.1 h
    rw [TypeExpr.marksNull, isNull_of_coerceInput hvalue hinner, ih hs hinner, Bool.or_false]
    exact makesNull_of_sparesNull hs hvalue

/-! ## Arguments -/

/-- What an argument comes to stands under its name. -/
theorem mem_coerceArguments {field : FieldDef} {supplied : List (String × Literal)}
    {bindings arguments : Json.Fields}
    (hok : schema.coerceArguments field supplied bindings = .ok arguments) {arg : ArgumentDef}
    (harg : arg ∈ field.arguments.values) :
    ∃ value?, schema.coerceArgument arg supplied bindings = .ok value? ∧
      ∀ value, value? = some value → (arg.name, value) ∈ arguments := by
  obtain ⟨results, hresults, rfl⟩ := coerceArguments_eq_ok.1 hok
  have hmade : schema.entry supplied bindings arg ∈ results.map .ok := by
    rw [← hresults]
    exact List.mem_map_of_mem harg
  obtain ⟨result, -, hentry⟩ := List.mem_map.1 hmade
  obtain ⟨value?, hvalue, -⟩ := entry_eq_ok.1 hentry.symm
  refine ⟨value?, hvalue, ?_⟩
  rintro value rfl
  exact (mem_entries_iff hresults).2 ⟨arg, harg, rfl, hvalue⟩

/-- Where the arguments of a field have different names, each is found under its own. -/
theorem lookup_of_mem_coerceArguments {field : FieldDef} {supplied : List (String × Literal)}
    {bindings arguments : Json.Fields}
    (hok : schema.coerceArguments field supplied bindings = .ok arguments)
    (hnames : (field.arguments.values.map ArgumentDef.name).Nodup) {arg : ArgumentDef}
    (harg : arg ∈ field.arguments.values) {value : Json} (hmem : (arg.name, value) ∈ arguments) :
    arguments.lookup arg.name = some value := by
  obtain ⟨results, hresults, rfl⟩ := coerceArguments_eq_ok.1 hok
  have hown {found : Json} (hfound : (arg.name, found) ∈ results.filterMap id) :
      schema.coerceArgument arg supplied bindings = .ok (some found) := by
    obtain ⟨other, hother, hname, hvalue⟩ := (mem_entries_iff hresults).1 hfound
    obtain rfl : other = arg := List.inj_on_of_nodup_map hnames hother harg hname
    exact hvalue
  refine Keyed.lookup_eq_some_of_unique hmem fun found hfound => ?_
  have hsame := hown hfound
  rw [hown hmem] at hsame
  exact (Option.some.inj (Except.ok.inj hsame)).symm

/-- An argument for which nothing is supplied is one that does not need it. -/
theorem isRequired_of_coerceArgument {arg : ArgumentDef} {supplied : List (String × Literal)}
    {bindings : Json.Fields} (hnone : suppliedLiteral? arg.name supplied bindings = none)
    {value? : Option Json} (hok : schema.coerceArgument arg supplied bindings = .ok value?) :
    arg.isRequired = false := by
  rw [coerceArgument, hnone] at hok
  cases hrequired : arg.isRequired with
  | false => rfl
  | true =>
    rw [hrequired] at hok
    cases hok

/-- A supplied argument comes to what its type makes of the value. -/
theorem exists_value_of_coerceArgument {arg : ArgumentDef} {supplied : List (String × Literal)}
    {bindings : Json.Fields} {literal : Literal}
    (hliteral : suppliedLiteral? arg.name supplied bindings = some literal) {value? : Option Json}
    (hok : schema.coerceArgument arg supplied bindings = .ok value?) :
    ∃ value, value? = some value ∧
      schema.coerceInput arg.type (literal.toJson bindings) = .ok value := by
  cases value? with
  | some value => exact ⟨value, rfl, (coerceArgument_eq_ok hliteral).1 hok⟩
  | none =>
    rw [coerceArgument, hliteral] at hok
    dsimp only at hok
    split at hok
    · cases hok
    · cases hcoerce : schema.coerceInput arg.type (literal.toJson bindings) with
      | ok value =>
        rw [hcoerce] at hok
        cases hok
      | error rejection =>
        rw [hcoerce] at hok
        cases hok

/-- Behind the mark of a whole value stands null just when the scalar made it of something else. -/
theorem eq_null_iff_of_coerceInput {type : TypeExpr} (hn : type.isNonNull = true)
    {value result : Json} (h : schema.coerceInput type value = .ok result) :
    result = .null ↔ schema.makesNull type value = true := by
  have hvalue : value ≠ .null := by
    rintro rfl
    exact coerceInput_null_of_nonNull hn h
  rw [← Json.isNull_iff, isNull_of_coerceInput hvalue h]

end Schema

/-- The arguments that a field comes to, and null.  One for which nothing is supplied takes its
default when its type is marked as non-null.  One that is supplied is there, and null stands behind
a mark of its type, at whatever depth of lists, exactly where its scalar made null of something
else: nowhere, when no scalar does that. -/
theorem supplied_arguments_marked {schema : Schema} {field : FieldDef}
    {supplied : List (String × Literal)} {bindings arguments : Json.Fields}
    (hok : schema.coerceArguments field supplied bindings = .ok arguments) {arg : ArgumentDef}
    (harg : arg ∈ field.arguments.values) :
    (Schema.suppliedLiteral? arg.name supplied bindings = none → arg.type.isNonNull = true →
      arg.defaultValue.isSome = true) ∧
    ∀ literal, Schema.suppliedLiteral? arg.name supplied bindings = some literal →
      ∃ value, (arg.name, value) ∈ arguments ∧
        ((field.arguments.values.map ArgumentDef.name).Nodup →
          arguments.lookup arg.name = some value) ∧
        (arg.type.isNonNull = true →
          (value = .null ↔ schema.makesNull arg.type (literal.toJson bindings) = true)) ∧
        arg.type.marksNull value = schema.erases arg.type (literal.toJson bindings) ∧
        (schema.SparesNull arg.type.base → arg.type.marksNull value = false ∧
          (arg.type.isNonNull = true → value ≠ .null)) := by
  obtain ⟨value?, hvalue, hmem⟩ := Schema.mem_coerceArguments hok harg
  constructor
  · intro hnone hn
    have hrequired := Schema.isRequired_of_coerceArgument hnone hvalue
    rw [ArgumentDef.isRequired, hn, Bool.true_and] at hrequired
    rw [← Option.not_isNone, hrequired]
    rfl
  · intro literal hliteral
    obtain ⟨value, rfl, hcoerce⟩ := Schema.exists_value_of_coerceArgument hliteral hvalue
    have hmem := hmem value rfl
    refine ⟨value, hmem, fun hnames => Schema.lookup_of_mem_coerceArguments hok hnames harg hmem,
      fun hn => Schema.eq_null_iff_of_coerceInput hn hcoerce,
      Schema.marksNull_of_coerceInput hcoerce, fun hs => ?_⟩
    have hmarks := Schema.marksNull_of_sparesNull hs hcoerce
    exact ⟨hmarks, TypeExpr.ne_null_of_marksNull hmarks⟩

namespace Marks

/-- A scalar that makes null of everything. -/
def eraser : ScalarDef := .scripted "Erased" none .pass .null

def argument (name : String) (type : TypeExpr) : String × ArgumentDef :=
  (name, { name := name, type := .nonNull type, defaultValue := none })

def whole : String × ArgumentDef := argument "whole" (.named "Erased")

def items : String × ArgumentDef := argument "items" (.list (.nonNull (.named "Erased")))

def texts : String × ArgumentDef := argument "texts" (.list (.nonNull (.named "String")))

/-- A field that wants texts, and values of which nothing is left. -/
def field : FieldDef :=
  { name := "f"
    description := none
    type := .named "String"
    arguments := [whole, items, texts]
    resolver := none }

def blueprint : Blueprint :=
  { queryType := some "Query"
    mutationType := none
    added :=
      [.scalar eraser,
       .object
        { name := "Query"
          description := none
          fields := [("f", field)]
          interfaces := [] }] }

def schema : Schema := { queryType := "Query", mutationType := none, types := blueprint.table }

theorem build_blueprint : blueprint.build = .ok schema := by rfl

def supplied : List (String × Literal) :=
  [("texts", .var "t"), ("items", .list [.int 1, .int 2]), ("whole", .bool true)]

theorem coerceArguments_supplied :
    schema.coerceArguments field supplied [("t", .str "one")] =
      .ok [("whole", .null), ("items", .arr [.null, .null]), ("texts", .arr [.str "one"])] := by
  rfl

end Marks

/-- Two items are erased behind the marks of their list.  The text is not. -/
theorem supplied_arguments_marked_lists :
    Marks.items.2.type.marksNull (.arr [.null, .null]) = true ∧
      Marks.texts.2.type.marksNull (.arr [.str "one"]) = false := by
  have hok := Marks.coerceArguments_supplied
  have hnames : (Marks.field.arguments.values.map ArgumentDef.name).Nodup := by decide
  have hitems : Marks.items.2 ∈ Marks.field.arguments.values :=
    List.mem_cons_of_mem _ List.mem_cons_self
  have htexts : Marks.texts.2 ∈ Marks.field.arguments.values :=
    List.mem_cons_of_mem _ (List.mem_cons_of_mem _ List.mem_cons_self)
  have hspares : Marks.schema.SparesNull "String" := by
    intro scalar hscalar
    obtain rfl := TypeDef.scalar.inj (Option.some.inj hscalar)
    exact (BuiltIn.settles_of_mem
      (List.mem_cons_of_mem _ (List.mem_cons_of_mem _ List.mem_cons_self))).sparesNull
  constructor
  · obtain ⟨value, -, hlookup, -, hmarks, -⟩ :=
      (supplied_arguments_marked hok hitems).2 (.list [.int 1, .int 2]) rfl
    obtain rfl : Json.arr [.null, .null] = value := Option.some.inj (hlookup hnames)
    exact hmarks
  · obtain ⟨value, -, hlookup, -, -, hfree⟩ :=
      (supplied_arguments_marked hok htexts).2 (.var "t") rfl
    obtain rfl : Json.arr [.str "one"] = value := Option.some.inj (hlookup hnames)
    exact (hfree hspares).1

/-- An argument of a type that is marked as non-null may be null where something else was
supplied. -/
theorem supplied_argument_null :
    ¬ ∀ (blueprint : Blueprint) (schema : Schema), blueprint.build = .ok schema →
      ∀ (type name : String) (field : FieldDef), schema.field? type name = some field →
      ∀ (supplied : List (String × Literal)) (bindings arguments : Json.Fields),
        schema.coerceArguments field supplied bindings = .ok arguments →
        ∀ arg ∈ field.arguments.values, arg.type.isNonNull = true →
          (Schema.suppliedLiteral? arg.name supplied bindings ≠ none ∨ arg.defaultValue = none) →
          ∃ value, arguments.lookup arg.name = some value ∧ value ≠ .null := by
  intro hall
  obtain ⟨value, hlookup, hvalue⟩ := hall Marks.blueprint Marks.schema Marks.build_blueprint "Query"
    "f" Marks.field rfl Marks.supplied [("t", .str "one")] _ Marks.coerceArguments_supplied
    Marks.whole.2 List.mem_cons_self rfl (.inr rfl)
  exact hvalue (Option.some.inj hlookup).symm

end TypedQuery
