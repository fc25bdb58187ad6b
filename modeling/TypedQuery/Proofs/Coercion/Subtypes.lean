import TypedQuery.Proofs.Coercion.Defaults
import TypedQuery.Proofs.Schema.Membership
import TypedQuery.Validation.Usage
/-!
Variables in the places where they may stand.  A place expects a type, and a variable may stand
there when its own type is a subtype, or is one but for null where a default makes up for it.
What the variable's type makes of a value, the place then leaves as it is: `allowed_use_keeps`.
The scalars must see to that for their own values (`ScalarDef.Settles`); lists and marks keep it,
and of objects, which are the only names that are subtypes of others, null alone can be an input.
-/

namespace TypedQuery
namespace Schema

variable {schema : Schema}

/-! ## Names -/

theorem coerceInput_null {type : TypeExpr} (h : type.isNonNull = false) :
    schema.coerceInput type .null = .ok .null := by
  cases type with
  | nonNull inner => cases h
  | named name => rfl
  | list item => rfl

/-- Of an object only null can be an input. -/
theorem eq_null_of_object {name : String} {type : ObjectDef}
    (htype : schema.type? name = some (.object type)) {value result : Json}
    (h : schema.coerceInput (.named name) value = .ok result) : result = .null := by
  rw [coerceInput] at h
  split at h
  · exact (Except.ok.inj h).symm
  · rw [coerceNamedInput, htype] at h
    cases h

/-! ## Subtypes -/

/-- The objects are the only types that belong to another. -/
def OnlyObjectsBelong (schema : Schema) : Prop :=
  ∀ abstract_ name, schema.isPossible abstract_ name = true →
    ∃ type, schema.type? name = some (.object type)

/-- What a type makes of an input, every type that it is a subtype of leaves as it is. -/
theorem keeps_of_isSubtype (hobjects : schema.OnlyObjectsBelong) {sub sup : TypeExpr}
    (hs : schema.Settles sub.base) (h : schema.isSubtype sub sup = true) {value result : Json}
    (hcoerce : schema.coerceInput sub value = .ok result) : schema.Keeps sup result := by
  -- along both types at once, as the relation goes
  induction sub, sup using isSubtype.induct generalizing value result with
  | case1 sub sup ih =>
    have hs : schema.Settles sub.base := hs
    obtain ⟨hvalue, hcoerce⟩ := coerceInput_nonNull_eq_ok.1 hcoerce
    obtain ⟨hnull, -⟩ := coerceInput_again hs hcoerce
    exact coerceInput_nonNull_eq_ok.2 ⟨fun hresult => hvalue (hnull hresult), ih hs h hcoerce⟩
  | case2 sub inner hsub =>
    rw [isSubtype] at h
    · cases h
    · exact hsub
  | case3 sub sup hsup ih =>
    rw [isSubtype] at h
    · exact ih hs h (coerceInput_nonNull_eq_ok.1 hcoerce).2
    · exact hsup
  | case4 sub sup ih =>
    rcases coerceInput_list_eq_ok hcoerce with ⟨-, rfl⟩ | ⟨results, -, rfl, hitems⟩
    · exact coerceInput_null rfl
    · exact coerceInput_items hitems fun _ _ hitem => ih hs h hitem
  | case5 sub item hnonNull hlist =>
    rw [isSubtype] at h
    · cases h
    · exact hnonNull
    · exact hlist
  | case6 item sup hnonNull hlist =>
    rw [isSubtype] at h
    · cases h
    · exact hnonNull
    · exact hlist
  | case7 sub sup =>
    rw [isSubtype, Bool.or_eq_true, beq_iff_eq] at h
    rcases h with rfl | hpossible
    · exact (coerceInput_again hs hcoerce).2
    · obtain ⟨type, htype⟩ := hobjects sup sub hpossible
      rw [eq_null_of_object htype hcoerce]
      exact coerceInput_null rfl

/-- A variable may stand where its type is a subtype of what is expected, or of that without its
mark when the mark is all that is missing. -/
theorem allowsUse_cases {definition : VariableDefinition} {expected : TypeExpr} {hasDefault : Bool}
    (h : schema.allowsUse definition expected hasDefault = true) :
    schema.isSubtype definition.type expected = true ∨
      ∃ inner, expected = .nonNull inner ∧ schema.isSubtype definition.type inner = true := by
  unfold allowsUse at h
  cases expected with
  | nonNull inner =>
    dsimp only at h
    split at h
    · exact .inl h
    · exact .inr ⟨inner, rfl, (Bool.and_eq_true_iff.1 h).2⟩
  | named name => exact .inl h
  | list item => exact .inl h

end Schema

/-- What the type of a variable makes of a value, every place where the variable may stand leaves as
it is, unless it is null, which a place may not take although the variable does.  So coercing an
input once more to its own type changes nothing. -/
theorem allowed_use_keeps {blueprint : Blueprint} {schema : Schema}
    (hbuild : blueprint.build = .ok schema)
    (hsettles : ∀ name scalar, schema.type? name = some (.scalar scalar) → scalar.Settles) :
    (∀ (definition : VariableDefinition) (expected : TypeExpr) (hasDefault : Bool),
      schema.allowsUse definition expected hasDefault = true →
      ∀ value result, schema.coerceInput definition.type value = .ok result →
        (result = .null ∧ expected.isNonNull = true) ∨
          schema.coerceInput expected result = .ok result) ∧
    ∀ (type : TypeExpr) (value result : Json), schema.coerceInput type value = .ok result →
      schema.coerceInput type result = .ok result := by
  have hobjects : schema.OnlyObjectsBelong := fun _ _ =>
    Blueprint.exists_object_of_isPossible hbuild
  constructor
  · intro definition expected hasDefault huse value result hcoerce
    have hs : schema.Settles definition.type.base := hsettles _
    rcases Schema.allowsUse_cases huse with hsub | ⟨inner, rfl, hsub⟩
    · exact .inr (Schema.keeps_of_isSubtype hobjects hs hsub hcoerce)
    · by_cases hnull : result = .null
      · exact .inl ⟨hnull, rfl⟩
      · refine .inr (Schema.coerceInput_nonNull_eq_ok.2 ⟨hnull, ?_⟩)
        exact Schema.keeps_of_isSubtype hobjects hs hsub hcoerce
  · intro type value result hcoerce
    exact (Schema.coerceInput_again (hsettles _) hcoerce).2

/-- A variable for lists of lists of integers, which is empty when it is not provided. -/
def Defaults.rows : VariableDefinition :=
  { location := { line := 1, column := 9 }
    name := "rows"
    type := .list (.list (.nonNull (.named "Int")))
    defaultValue := some (.list []) }

/-- One integer stands for a list of a list, and is that from then on, also where no null may be. -/
theorem allowed_use_keeps_rows :
    Defaults.schema.coerceInput Defaults.rows.type (.int 3) = .ok (.arr [.arr [.int 3]]) ∧
      Defaults.schema.coerceInput (.nonNull (.list (.list (.named "Int"))))
        (.arr [.arr [.int 3]]) = .ok (.arr [.arr [.int 3]]) := by
  have hsettles : ∀ name scalar, Defaults.schema.type? name = some (.scalar scalar) →
      scalar.Settles := by
    intro name scalar hscalar
    rcases Blueprint.scalar_cases Defaults.build_blueprint hscalar with hmem | hadded
    · exact BuiltIn.settles_of_mem hmem
    · cases List.mem_singleton.1 hadded
  have hcoerce : Defaults.schema.coerceInput Defaults.rows.type (.int 3) =
      .ok (.arr [.arr [.int 3]]) := by rfl
  have huse : Defaults.schema.allowsUse Defaults.rows
      (.nonNull (.list (.list (.named "Int")))) false = true := by rfl
  refine ⟨hcoerce, ?_⟩
  rcases (allowed_use_keeps Defaults.build_blueprint hsettles).1 Defaults.rows _ false huse (.int 3)
    _ hcoerce with ⟨hnull, -⟩ | hkeeps
  · cases hnull
  · exact hkeeps

end TypedQuery
