import TypedQuery.Proofs.Coercion.Variables
import TypedQuery.Validation.Value
/-!
Coercion with a schema that was built.  A value is rejected for what it is, and never because the
schema lacks a type or has one of the wrong kind: of the places that coerce, each asks for a type
that it knows to be right, by a check of its own or by those that were made when the schema was
built.
-/

namespace TypedQuery

/-- The schema is at fault and not the value: it lacks a type, or has one of another kind. -/
def RejectionCause.blamesSchema : RejectionCause → Bool
  | notLeafType _ | notInputType _ | unknownType _ => true
  | _ => false

/-- What is said of a value when it is rejected does not blame the schema. -/
def SparesSchema {α : Type} (result : Except Rejection α) : Prop :=
  ∀ rejection, result = .error rejection → rejection.cause.blamesSchema = false

namespace SparesSchema

variable {α β : Type}

theorem ok (value : α) : SparesSchema (.ok value) := nofun

theorem error {rejection : Rejection} (h : rejection.cause.blamesSchema = false) :
    SparesSchema (.error rejection : Except Rejection α) := by
  intro other he
  rw [← Except.error.inj he]
  exact h

theorem map {result : Except Rejection α} (h : SparesSchema result) (f : α → β) :
    SparesSchema (f <$> result) := by
  cases result with
  | ok value => exact ok _
  | error rejection => exact error (h rejection rfl)

theorem bind {result : Except Rejection α} (h : SparesSchema result)
    {next : α → Except Rejection β} (hnext : ∀ value, SparesSchema (next value)) :
    SparesSchema (result >>= next) := by
  cases result with
  | ok value => exact hnext value
  | error rejection => exact error (h rejection rfl)

theorem mapM {f : α → Except Rejection β} (h : ∀ item, SparesSchema (f item)) (items : List α) :
    SparesSchema (items.mapM f) := by
  induction items with
  | nil =>
    rw [List.mapM_nil]
    exact ok _
  | cons item rest ih =>
    rw [List.mapM_cons]
    exact bind (h item) fun _ => bind ih fun _ => ok _

/-- A scalar has no say about the schema. -/
theorem ofScalar (result : Except ScalarRejection α) :
    SparesSchema (result.mapError Rejection.ofScalar) := by
  cases result with
  | ok value => exact ok _
  | error rejection => exact error rfl

end SparesSchema

/-- The name of an enum value. -/
def Literal.isEnum : Literal → Bool
  | enum _ => true
  | _ => false

namespace Schema

variable {schema : Schema}

/-! ## Coercion -/

theorem leaf_cases {name : String} (h : schema.isLeaf name = true) :
    (∃ type, schema.type? name = some (.scalar type)) ∨
      ∃ type, schema.type? name = some (.enum type) := by
  unfold isLeaf at h
  cases htype : schema.type? name with
  | none =>
    rw [htype] at h
    cases h
  | some type =>
    rw [htype] at h
    cases type with
    | scalar type => exact .inl ⟨type, rfl⟩
    | enum type => exact .inr ⟨type, rfl⟩
    | _ => cases h

theorem spares_coerceResult {name : String} (h : schema.isLeaf name = true) (value : Json) :
    SparesSchema (schema.coerceResult name value) := by
  unfold coerceResult
  rcases leaf_cases h with ⟨type, htype⟩ | ⟨type, htype⟩
  · rw [htype]
    exact .ofScalar _
  · rw [htype]
    cases value with
    | str text =>
      dsimp only
      split
      · exact .ok _
      · exact .error rfl
    | _ => exact .error rfl

theorem spares_coerceNamedInput {name : String} (h : schema.isLeaf name = true) (value : Json) :
    SparesSchema (schema.coerceNamedInput name value) := by
  unfold coerceNamedInput
  rcases leaf_cases h with ⟨type, htype⟩ | ⟨type, htype⟩
  · rw [htype]
    exact .ofScalar _
  · rw [htype]
    cases value with
    | str text =>
      dsimp only
      split
      · exact .ok _
      · exact .error rfl
    | _ => exact .error rfl

theorem spares_coerceInput {type : TypeExpr} (h : schema.isInput type = true) (value : Json) :
    SparesSchema (schema.coerceInput type value) := by
  induction type generalizing value with
  | named name =>
    rw [coerceInput]
    split
    · exact .ok _
    · exact spares_coerceNamedInput h value
  | list item ih =>
    cases value with
    | null => exact .ok _
    | arr items =>
      rw [coerceInput]
      exact (SparesSchema.mapM (ih h) items).map _
    | _ => exact (ih h _).map _
  | nonNull inner ih =>
    rw [coerceInput]
    split
    · exact .error rfl
    · exact ih h value

/-! ## Literals -/

/-- Checks a literal for a named type and says why it does not fit: it was rejected when it was
coerced, or it is not of the right kind. -/
def examineNamed (schema : Schema) (name : String) (literal : Literal) :
    Except (Option Rejection) Unit :=
  match schema.type? name with
  | some (.enum type) =>
    match literal with
    | .enum value => if type.values.contains value then .ok () else .error none
    | _ => .error none
  | some (.scalar type) =>
    if literal.isEnum && BuiltIn.isName type.name then .error none
    else
      match schema.coerceInput (.named name) (literal.toJson []) with
      | .ok _ => .ok ()
      | .error rejection => .error (some rejection)
  | _ => .error none

/-- Checks a literal for a type, up to the first that does not fit. -/
def examine (schema : Schema) : TypeExpr → Literal → Except (Option Rejection) Unit
  | .nonNull inner, literal =>
    match literal with
    | .null => .error none
    | literal => schema.examine inner literal
  | .list item, literal =>
    match literal with
    | .null => .ok ()
    | .list items => items.forM (schema.examine item)
    | literal => schema.examine item literal
  | .named name, literal =>
    match literal with
    | .null => .ok ()
    | literal => schema.examineNamed name literal

theorem acceptsNamed_scalar {name : String} {type : ScalarDef}
    (htype : schema.type? name = some (.scalar type)) (literal : Literal) :
    schema.acceptsNamed name literal = (!(literal.isEnum && BuiltIn.isName type.name) &&
      (schema.coerceInput (.named name) (literal.toJson [])).isOk) := by
  unfold acceptsNamed
  rw [htype]
  cases literal <;> rfl

theorem isOk_examineNamed (name : String) (literal : Literal) :
    (schema.examineNamed name literal).isOk = schema.acceptsNamed name literal := by
  unfold examineNamed
  cases htype : schema.type? name with
  | none =>
    unfold acceptsNamed
    rw [htype]
    rfl
  | some type =>
    cases type with
    | scalar type =>
      rw [acceptsNamed_scalar htype]
      dsimp only
      by_cases hname : (literal.isEnum && BuiltIn.isName type.name) = true
      · rw [if_pos hname, hname]
        rfl
      · rw [if_neg hname, Bool.eq_false_iff.2 hname]
        cases schema.coerceInput (.named name) (literal.toJson []) with
        | ok value => rfl
        | error rejection => rfl
    | enum type =>
      unfold acceptsNamed
      rw [htype]
      cases literal with
      | enum value =>
        dsimp only
        cases type.values.contains value with
        | true => rfl
        | false => rfl
      | _ => rfl
    | _ =>
      unfold acceptsNamed
      rw [htype]
      rfl

theorem examine_named {name : String} {literal : Literal} (h : literal ≠ .null) :
    schema.examine (.named name) literal = schema.examineNamed name literal := by
  cases literal with
  | null => exact absurd rfl h
  | _ => rfl

theorem accepts_named {name : String} {literal : Literal} (h : literal ≠ .null) :
    schema.accepts (.named name) literal = schema.acceptsNamed name literal := by
  cases literal with
  | null => exact absurd rfl h
  | _ => rfl

theorem isOk_forM {α ε : Type} (check : α → Except ε Unit) (items : List α) :
    (items.forM check).isOk = items.all fun item => (check item).isOk := by
  induction items with
  | nil => rfl
  | cons item rest ih =>
    rw [List.all_cons, ← ih]
    show (check item >>= fun _ => rest.forM check).isOk = _
    cases check item with
    | error e => rfl
    | ok _ => rfl

/-- What fits is what is accepted. -/
theorem isOk_examine (type : TypeExpr) (literal : Literal) :
    (schema.examine type literal).isOk = schema.accepts type literal := by
  induction type generalizing literal with
  | named name =>
    by_cases hnull : literal = .null
    · subst hnull
      rfl
    · rw [examine_named hnull, accepts_named hnull]
      exact isOk_examineNamed name literal
  | list item ih =>
    cases literal with
    | null => rfl
    | list items =>
      rw [examine, accepts, isOk_forM]
      simp only [ih]
    | _ => exact ih _
  | nonNull inner ih =>
    cases literal with
    | null => rfl
    | _ => exact ih _

theorem forM_eq_error {α ε : Type} {check : α → Except ε Unit} {items : List α} {e : ε}
    (h : items.forM check = .error e) : ∃ item ∈ items, check item = .error e := by
  induction items with
  | nil => cases h
  | cons item rest ih =>
    change (check item >>= fun _ => rest.forM check) = .error e at h
    cases hitem : check item with
    | error other =>
      rw [hitem] at h
      exact ⟨item, List.mem_cons_self, hitem.trans h⟩
    | ok _ =>
      rw [hitem] at h
      obtain ⟨found, hfound, hcheck⟩ := ih h
      exact ⟨found, List.mem_cons_of_mem _ hfound, hcheck⟩

/-- A literal is coerced for a scalar alone. -/
theorem spares_examineNamed {name : String} {literal : Literal} {rejection : Rejection}
    (h : schema.examineNamed name literal = .error (some rejection)) :
    rejection.cause.blamesSchema = false := by
  unfold examineNamed at h
  cases htype : schema.type? name with
  | none =>
    rw [htype] at h
    cases h
  | some type =>
    rw [htype] at h
    cases type with
    | scalar type =>
      dsimp only at h
      have hinput : schema.isInput (.named name) = true := by
        show schema.isLeaf name = true
        rw [isLeaf, htype]
        rfl
      by_cases hname : (literal.isEnum && BuiltIn.isName type.name) = true
      · rw [if_pos hname] at h
        cases h
      · rw [if_neg hname] at h
        cases hcoerce : schema.coerceInput (.named name) (literal.toJson []) with
        | ok value =>
          rw [hcoerce] at h
          cases h
        | error found =>
          rw [hcoerce] at h
          obtain rfl : found = rejection := Option.some.inj (Except.error.inj h)
          exact spares_coerceInput hinput _ _ hcoerce
    | enum type =>
      cases literal with
      | enum value =>
        dsimp only at h
        split at h
        · cases h
        · cases h
      | _ => cases h
    | _ => cases h

theorem spares_examine {type : TypeExpr} {literal : Literal} {rejection : Rejection}
    (h : schema.examine type literal = .error (some rejection)) :
    rejection.cause.blamesSchema = false := by
  induction type generalizing literal with
  | named name =>
    by_cases hnull : literal = .null
    · subst hnull
      cases h
    · rw [examine_named hnull] at h
      exact spares_examineNamed h
  | list item ih =>
    cases literal with
    | null => cases h
    | list items =>
      obtain ⟨found, -, hfound⟩ := forM_eq_error h
      exact ih hfound
    | _ => exact ih h
  | nonNull inner ih =>
    cases literal with
    | null => cases h
    | _ => exact ih h

/-! ## Arguments -/

/-- What is said of an argument names the argument. -/
theorem spares_coerceArgument (arg : ArgumentDef) (supplied : List (String × Literal))
    (bindings : Json.Fields) : SparesSchema (schema.coerceArgument arg supplied bindings) := by
  unfold coerceArgument
  cases suppliedLiteral? arg.name supplied bindings with
  | none =>
    dsimp only
    split
    · exact .error rfl
    · exact .ok _
  | some literal =>
    dsimp only
    split
    · exact .error rfl
    · cases schema.coerceInput arg.type (literal.toJson bindings) with
      | ok coerced => exact .ok _
      | error rejection => exact .error rfl

theorem spares_coerceArguments (field : FieldDef) (supplied : List (String × Literal))
    (bindings : Json.Fields) : SparesSchema (schema.coerceArguments field supplied bindings) := by
  unfold coerceArguments
  refine .bind (.mapM (fun arg => ?_) _) fun _ => .ok _
  exact .bind (spares_coerceArgument arg supplied bindings) fun _ => .ok _

end Schema

/-! ## Variables -/

namespace VariableDefinition

variable {definition : VariableDefinition} {inputs : Json.Fields} {provided : Json}
  {rejection : Rejection}

/-- A provided value is coerced only to an input type. -/
theorem spares_value {schema : Schema}
    (h : definition.value schema inputs = .error (.invalid provided rejection)) :
    rejection.cause.blamesSchema = false := by
  cases value_eq_error.1 h with
  | invalid hinput _ _ hrejects => exact Schema.spares_coerceInput hinput _ _ hrejects

end VariableDefinition

/-! ## Fields -/

/-- The types that the fields of a schema mention are there and of the right kind. -/
structure Schema.Consistent (schema : Schema) : Prop where
  values : ∀ type name field, schema.field? type name = some field →
    (schema.type? field.type.base).isSome = true
  arguments : ∀ type name field, schema.field? type name = some field →
    ∀ arg ∈ field.arguments.values, schema.isInput arg.type = true

theorem Blueprint.consistent {blueprint : Blueprint} {schema : Schema}
    (hbuild : blueprint.build = .ok schema) : schema.Consistent where
  values _ _ _ hfield := isSome_type?_of_field? hbuild hfield
  arguments _ _ _ hfield _ harg := isInput_argument hbuild hfield harg

end TypedQuery
