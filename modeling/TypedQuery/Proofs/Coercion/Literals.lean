import TypedQuery.Proofs.Coercion.Passing
import TypedQuery.Validation.Value
/-!
Literals that are accepted before a run, and what becomes of them in the run.  The check goes by the
literal, coercion by its value.  The two differ at one place: a float beyond the finite numbers is
not the literal null, but null is its value.  So it is accepted where a type is marked as non-null,
and rejected there in the run: `Schema.exists_coerceInput_iff`.
-/

namespace TypedQuery

/-- Each item is mapped without an error just when the list is. -/
theorem exists_mapM_eq_ok {α β ε : Type} {f : α → Except ε β} {items : List α} :
    (∃ results, items.mapM f = .ok results) ↔ ∀ item ∈ items, ∃ result, f item = .ok result := by
  constructor
  · rintro ⟨results, h⟩ item hitem
    have hmem : f item ∈ results.map .ok := by
      rw [← mapM_eq_ok.1 h]
      exact List.mem_map_of_mem hitem
    obtain ⟨result, -, hresult⟩ := List.mem_map.1 hmem
    exact ⟨result, hresult.symm⟩
  · intro h
    obtain ⟨results, hresults⟩ := exists_map_eq_ok h
    exact ⟨results, mapM_eq_ok.2 hresults⟩

theorem exists_map_ok_iff {α β ε : Type} {g : α → β} {result : Except ε α} :
    (∃ value, g <$> result = .ok value) ↔ ∃ value, result = .ok value := by
  cases result with
  | error e => exact ⟨nofun, nofun⟩
  | ok value => exact ⟨fun _ => ⟨value, rfl⟩, fun _ => ⟨g value, rfl⟩⟩

namespace Literal

/-- A float beyond the finite numbers. -/
def isInfinite : Literal → Bool
  | float (.infinite _) => true
  | _ => false

/-- Somewhere in the literal a float beyond the finite numbers stands where the type does not allow
null.  One that stands for a whole list is the list's null. -/
def overflows : TypeExpr → Literal → Bool
  | .nonNull inner, literal => literal.isInfinite || overflows inner literal
  | .list item, literal =>
    match literal with
    | list items => items.any (overflows item)
    | literal => !literal.isInfinite && overflows item literal
  | .named _, _ => false

theorem overflows_null (type : TypeExpr) : overflows type null = false := by
  induction type with
  | named name => rfl
  | list item ih => exact ih
  | nonNull inner ih => exact ih

/-- Where a list is expected, another literal stands for the list or for one item of it. -/
theorem overflows_single {item : TypeExpr} {literal : Literal}
    (hlist : ∀ items, literal ≠ .list items) :
    overflows (.list item) literal = (!literal.isInfinite && overflows item literal) := by
  cases literal with
  | list items => exact absurd rfl (hlist items)
  | _ => rfl

theorem variableNames_eq_nil {literal : Literal} (h : literal.hasVariable = false) :
    literal.variableNames = [] := by
  simpa [hasVariable] using h

/-- Whether a literal without variables fits is a matter of its type alone. -/
theorem typedUses_of_constant {schema : Schema} {location : Location} {type : TypeExpr}
    {hasDefault : Bool} {literal : Literal} (h : literal.hasVariable = false) :
    literal.typedUses schema location type hasDefault = ([], schema.accepts type literal) := by
  cases literal with
  | var name => cases h
  | list items => rw [typedUses, if_pos (by simp [h])]
  | object fields => simp [typedUses, h]
  | _ => rfl

theorem variableNames_item {item : Literal} {items : List Literal}
    (h : variableNamesItems items = []) (hitem : item ∈ items) : item.variableNames = [] := by
  induction items with
  | nil => cases hitem
  | cons first rest ih =>
    obtain ⟨hfirst, hrest⟩ := List.append_eq_nil_iff.1 h
    rcases List.mem_cons.1 hitem with rfl | hitem
    · exact hfirst
    · exact ih hrest hitem

theorem toJsonItems_eq_map (bindings : Json.Fields) (items : List Literal) :
    toJsonItems bindings items = items.map (toJson bindings) := by
  induction items with
  | nil => rfl
  | cons first rest ih => rw [toJsonItems, ih, List.map_cons]

/-- A literal without variables stands for null when it is null or a float beyond the finite
numbers. -/
theorem isNull_toJson {literal : Literal} (hconstant : literal.variableNames = [])
    (hnull : literal ≠ .null) : (literal.toJson []).isNull = literal.isInfinite := by
  cases literal with
  | var name => cases hconstant
  | null => exact absurd rfl hnull
  | float x => cases x <;> rfl
  | _ => rfl

end Literal

namespace Schema

variable {schema : Schema}

/-! ## What acceptance says -/

theorem accepts_nonNull {inner : TypeExpr} {literal : Literal} :
    schema.accepts (.nonNull inner) literal = true ↔
      literal ≠ .null ∧ schema.accepts inner literal = true := by
  cases literal <;> simp [accepts]

theorem accepts_items {item : TypeExpr} {items : List Literal} :
    schema.accepts (.list item) (.list items) = true ↔
      ∀ literal ∈ items, schema.accepts item literal = true :=
  List.all_eq_true

/-- A name has no marks, so what is accepted for it is coerced. -/
theorem exists_coerceInput_named {name : String} {literal : Literal}
    (h : schema.accepts (.named name) literal = true) :
    ∃ value, schema.coerceInput (.named name) (literal.toJson []) = .ok value := by
  by_cases hnull : literal = .null
  · subst hnull
    exact ⟨.null, rfl⟩
  have hnamed : schema.acceptsNamed name literal = true := by
    cases literal with
    | null => exact absurd rfl hnull
    | _ => exact h
  unfold acceptsNamed at hnamed
  cases htype : schema.type? name with
  | none => rw [htype] at hnamed; cases hnamed
  | some type =>
    rw [htype] at hnamed
    cases type with
    | scalar scalar =>
      dsimp only at hnamed
      rw [Bool.and_eq_true] at hnamed
      cases hcoerce : schema.coerceInput (.named name) (literal.toJson []) with
      | ok value => exact ⟨value, rfl⟩
      | error rejection =>
        rw [hcoerce] at hnamed
        cases hnamed.2
    | enum enum =>
      cases literal with
      | enum value =>
        refine ⟨.str value, ?_⟩
        show schema.coerceNamedInput name (.str value) = .ok (.str value)
        rw [coerceNamedInput, htype]
        exact if_pos hnamed
      | _ => cases hnamed
    | _ => cases hnamed

/-- Where a list is expected, another literal is accepted as one item would be. -/
theorem accepts_single {item : TypeExpr} {literal : Literal} (hnull : literal ≠ .null)
    (hlist : ∀ items, literal ≠ .list items) :
    schema.accepts (.list item) literal = schema.accepts item literal := by
  cases literal with
  | null => exact absurd rfl hnull
  | list items => exact absurd rfl (hlist items)
  | _ => rfl

/-! ## Acceptance and coercion -/

theorem coerceInput_single {item : TypeExpr} {literal : Literal}
    (hconstant : literal.variableNames = []) (hnull : (literal.toJson []).isNull = false)
    (hlist : ∀ items, literal ≠ .list items) :
    schema.coerceInput (.list item) (literal.toJson []) =
      (fun coerced => .arr [coerced]) <$> schema.coerceInput item (literal.toJson []) := by
  cases literal with
  | var name => cases hconstant
  | null => cases hnull
  | list items => exact absurd rfl (hlist items)
  | float x =>
    cases x with
    | finite x => rfl
    | infinite negative => cases hnull
  | _ => rfl

/-- A list is coerced item by item, and overflows where an item does. -/
theorem exists_coerceInput_items {item : TypeExpr} {items : List Literal}
    (h : ∀ literal ∈ items, ((∃ value, schema.coerceInput item (literal.toJson []) = .ok value) ↔
      literal.overflows item = false)) :
    (∃ value, schema.coerceInput (.list item) ((Literal.list items).toJson []) = .ok value) ↔
      (Literal.list items).overflows (.list item) = false := by
  rw [Literal.toJson, coerceInput, exists_map_ok_iff, exists_mapM_eq_ok,
    Literal.toJsonItems_eq_map, List.forall_mem_map, Literal.overflows, List.any_eq_false]
  simp only [Bool.not_eq_true]
  exact forall₂_congr h

/-- Behind a mark the value must not be null, and must be one of the type under the mark. -/
theorem exists_coerceInput_nonNull {inner : TypeExpr} {value : Json} :
    (∃ result, schema.coerceInput (.nonNull inner) value = .ok result) ↔
      value.isNull = false ∧ ∃ result, schema.coerceInput inner value = .ok result := by
  simp only [coerceInput_nonNull_eq_ok, exists_and_left, Ne, ← Json.isNull_iff, Bool.not_eq_true]

/-- An accepted literal without variables is coerced just when no float beyond the finite numbers
stands where the type does not allow null. -/
theorem exists_coerceInput_iff {type : TypeExpr} {literal : Literal}
    (hconstant : literal.variableNames = []) (h : schema.accepts type literal = true) :
    (∃ value, schema.coerceInput type (literal.toJson []) = .ok value) ↔
      literal.overflows type = false := by
  -- along the type, as both the check and coercion go
  induction type generalizing literal with
  | named name => exact ⟨fun _ => rfl, fun _ => exists_coerceInput_named h⟩
  | nonNull inner ih =>
    obtain ⟨hnull, hinner⟩ := accepts_nonNull.1 h
    rw [exists_coerceInput_nonNull, Literal.isNull_toJson hconstant hnull, ih hconstant hinner,
      Literal.overflows, Bool.or_eq_false_iff]
  | list item ih =>
    by_cases hlist : ∃ items, literal = .list items
    · obtain ⟨items, rfl⟩ := hlist
      refine exists_coerceInput_items fun literal hmem => ?_
      exact ih (Literal.variableNames_item hconstant hmem) (accepts_items.1 h literal hmem)
    · have hlist : ∀ items, literal ≠ .list items := fun items he => hlist ⟨items, he⟩
      rw [Literal.overflows_single hlist]
      by_cases hnull : literal = .null
      · subst hnull
        rw [Literal.overflows_null, Bool.and_false]
        exact ⟨fun _ => rfl, fun _ => ⟨.null, rfl⟩⟩
      have hjson := Literal.isNull_toJson hconstant hnull
      by_cases hinfinite : literal.isInfinite = true
      · -- null stands for the whole list
        rw [hinfinite] at hjson
        rw [hinfinite, Json.isNull_iff.1 hjson]
        exact ⟨fun _ => rfl, fun _ => ⟨.null, rfl⟩⟩
      · rw [Bool.not_eq_true] at hinfinite
        rw [hinfinite] at hjson
        rw [accepts_single hnull hlist] at h
        rw [hinfinite, coerceInput_single hconstant hjson hlist, exists_map_ok_iff, ih hconstant h]
        rfl

end Schema

end TypedQuery
