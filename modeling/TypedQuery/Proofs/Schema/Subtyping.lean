import Mathlib.Order.Defs.Unbundled
import TypedQuery.Proofs.Schema.WellFormed
/-!
The subtype relation as an order.  A mark may be dropped, lists go by their items, and names by the
objects that they may stand for: `Schema.Below`.  Of a schema that was built this is what the
comparison decides, and it is a partial order on all references, also on those that the schema does
not know or would not accept: `isSubtype_isPartialOrder`.  For names it matters that only objects
belong to other types and that nothing belongs to an object, so that no chain of names is longer
than two.
-/

namespace TypedQuery

theorem TypeExpr.isNonNull_eq_false {type : TypeExpr} (h : ∀ inner, type ≠ .nonNull inner) :
    type.isNonNull = false := by
  cases type with
  | nonNull inner => exact absurd rfl (h inner)
  | _ => rfl

namespace Schema

/-- Whatever the first reference admits may stand where the second is expected. -/
inductive Below (schema : Schema) : TypeExpr → TypeExpr → Prop
  | name (name : String) : Below schema (.named name) (.named name)
  | object {object name : String} (h : object ∈ schema.possibleTypes name) :
      Below schema (.named object) (.named name)
  | list {sub sup : TypeExpr} (h : Below schema sub sup) : Below schema (.list sub) (.list sup)
  | mark {sub sup : TypeExpr} (h : Below schema sub sup) :
      Below schema (.nonNull sub) (.nonNull sup)
  | unmark {sub sup : TypeExpr} (h : Below schema sub sup) : Below schema (.nonNull sub) sup

variable {schema : Schema}

/-! ## Laws -/

/-- To compare what is below two references without a mark in front, it is enough to look at
references of that kind. -/
theorem isSubtype_mono {sup other : TypeExpr} (hsup : sup.isNonNull = false)
    (hother : other.isNonNull = false)
    (h : ∀ sub, sub.isNonNull = false → schema.isSubtype sub sup = true →
      schema.isSubtype sub other = true)
    {sub : TypeExpr} (hsub : schema.isSubtype sub sup = true) :
    schema.isSubtype sub other = true := by
  induction sub with
  | nonNull inner ih =>
    rw [isSubtype_of_nonNull hsup] at hsub
    rw [isSubtype_of_nonNull hother]
    exact ih hsub
  | named name => exact h _ rfl hsub
  | list item _ => exact h _ rfl hsub

/-- To what belongs to a type, nothing belongs. -/
def Flat (schema : Schema) : Prop :=
  ∀ abstract_ object, schema.isPossible abstract_ object = true →
    ∀ other, schema.isPossible object other = false

theorem isSubtype_refl (type : TypeExpr) : schema.isSubtype type type = true := by
  induction type with
  | named name => exact isSubtype_named_iff.2 (.inl rfl)
  | list item ih =>
    rw [isSubtype]
    exact ih
  | nonNull inner ih =>
    rw [isSubtype]
    exact ih

theorem isSubtype_unmark (type : TypeExpr) : schema.isSubtype (.nonNull type) type = true := by
  induction type with
  | nonNull inner ih =>
    rw [isSubtype]
    exact ih
  | named name =>
    rw [isSubtype_of_nonNull rfl]
    exact isSubtype_refl _
  | list item _ =>
    rw [isSubtype_of_nonNull rfl]
    exact isSubtype_refl _

theorem isSubtype_trans (hflat : schema.Flat) {sub mid sup : TypeExpr}
    (hsub : schema.isSubtype sub mid = true) (hsup : schema.isSubtype mid sup = true) :
    schema.isSubtype sub sup = true := by
  -- along the upper two types, as the relation between them goes
  induction mid, sup using isSubtype.induct generalizing sub with
  | case1 mid sup ih =>
    obtain ⟨inner, rfl, hinner⟩ := isSubtype_nonNull_iff.1 hsub
    rw [isSubtype] at hsup ⊢
    exact ih hinner hsup
  | case2 mid sup hmid =>
    obtain ⟨inner, rfl, -⟩ := isSubtype_nonNull_iff.1 hsup
    exact absurd rfl (hmid inner)
  | case3 mid sup hnonNull ih =>
    have hmark : sup.isNonNull = false := TypeExpr.isNonNull_eq_false hnonNull
    obtain ⟨inner, rfl, hinner⟩ := isSubtype_nonNull_iff.1 hsub
    rw [isSubtype_of_nonNull hmark] at hsup ⊢
    exact ih hinner hsup
  | case4 mid sup ih =>
    rw [isSubtype] at hsup
    refine isSubtype_mono rfl rfl (fun first hfirst hbelow => ?_) hsub
    cases first with
    | list item =>
      rw [isSubtype] at hbelow ⊢
      exact ih hbelow hsup
    | named name => simp [isSubtype] at hbelow
    | nonNull inner => cases hfirst
  | case5 => simp [isSubtype] at hsup
  | case6 => simp [isSubtype] at hsup
  | case7 mid sup =>
    refine isSubtype_mono rfl rfl (fun first hfirst hbelow => ?_) hsub
    cases first with
    | named name =>
      rcases isSubtype_named_iff.1 hbelow with rfl | hlow
      · exact hsup
      rcases isSubtype_named_iff.1 hsup with rfl | hhigh
      · exact hbelow
      · rw [hflat sup mid hhigh] at hlow
        cases hlow
    | list item => simp [isSubtype] at hbelow
    | nonNull inner => cases hfirst

theorem isSubtype_antisymm (hflat : schema.Flat) {sub sup : TypeExpr}
    (h : schema.isSubtype sub sup = true) (hback : schema.isSubtype sup sub = true) :
    sub = sup := by
  induction sub, sup using isSubtype.induct with
  | case1 sub sup ih =>
    rw [isSubtype] at h hback
    rw [ih h hback]
  | case2 sub sup hsub =>
    obtain ⟨inner, rfl, -⟩ := isSubtype_nonNull_iff.1 h
    exact absurd rfl (hsub inner)
  | case3 sub sup hnonNull =>
    obtain ⟨inner, rfl, -⟩ := isSubtype_nonNull_iff.1 hback
    exact absurd rfl (hnonNull inner)
  | case4 sub sup ih =>
    rw [isSubtype] at h hback
    rw [ih h hback]
  | case5 => simp [isSubtype] at h
  | case6 => simp [isSubtype] at h
  | case7 sub sup =>
    rcases isSubtype_named_iff.1 h with rfl | hlow
    · rfl
    rcases isSubtype_named_iff.1 hback with rfl | hhigh
    · rfl
    · rw [hflat sup sub hlow] at hhigh
      cases hhigh

end Schema

theorem Blueprint.flat {b : Blueprint} {schema : Schema} (hbuild : b.build = .ok schema) :
    schema.Flat := by
  intro abstract_ object h other
  obtain ⟨type, htype⟩ := exists_object_of_isPossible hbuild h
  rw [Schema.isPossible, htype]

theorem Schema.below_of_isSubtype {schema : Schema} {sub sup : TypeExpr}
    (h : schema.isSubtype sub sup = true) : schema.Below sub sup := by
  induction sub, sup using isSubtype.induct with
  | case1 sub sup ih =>
    rw [isSubtype] at h
    exact .mark (ih h)
  | case2 sub sup hsub =>
    obtain ⟨inner, rfl, -⟩ := isSubtype_nonNull_iff.1 h
    exact absurd rfl (hsub inner)
  | case3 sub sup hsup ih =>
    have hmark : sup.isNonNull = false := TypeExpr.isNonNull_eq_false hsup
    rw [isSubtype_of_nonNull hmark] at h
    exact .unmark (ih h)
  | case4 sub sup ih =>
    rw [isSubtype] at h
    exact .list (ih h)
  | case5 => simp [isSubtype] at h
  | case6 => simp [isSubtype] at h
  | case7 sub sup =>
    rcases isSubtype_named_iff.1 h with rfl | hpossible
    · exact .name sub
    · exact .object (isPossible_iff.1 hpossible).2

theorem Blueprint.isSubtype_iff_below {b : Blueprint} {schema : Schema}
    (hbuild : b.build = .ok schema) {sub sup : TypeExpr} :
    schema.isSubtype sub sup = true ↔ schema.Below sub sup := by
  refine ⟨Schema.below_of_isSubtype, fun h => ?_⟩
  induction h with
  | name name => exact Schema.isSubtype_refl _
  | @object object name h =>
    cases hname : schema.object? name with
    | none => exact Schema.isSubtype_named_iff.2 (.inr (Schema.isPossible_iff.2 ⟨hname, h⟩))
    | some type =>
      rw [possibleTypes_object hbuild (Schema.object?_eq_some.1 hname)] at h
      exact Schema.isSubtype_named_iff.2 (.inl (List.mem_singleton.1 h))
  | list _ ih =>
    rw [Schema.isSubtype]
    exact ih
  | mark _ ih =>
    rw [Schema.isSubtype]
    exact ih
  | @unmark sub sup _ ih =>
    exact Schema.isSubtype_trans (flat hbuild) (Schema.isSubtype_unmark sub) ih

/-- In a schema that was built, "a value of the one type may be used where the other is expected"
is a partial order on the references to types, of any nesting and to any names.  It holds just where
the second comes of the first by dropping marks and by putting for an object a type that it may
stand for. -/
theorem isSubtype_isPartialOrder {blueprint : Blueprint} {schema : Schema}
    (hbuild : blueprint.build = .ok schema) :
    IsPartialOrder TypeExpr (fun sub sup => schema.isSubtype sub sup = true) ∧
      ∀ sub sup, schema.isSubtype sub sup = true ↔ schema.Below sub sup := by
  refine ⟨?_, fun sub sup => Blueprint.isSubtype_iff_below hbuild⟩
  exact
    { refl := Schema.isSubtype_refl
      trans := fun _ _ _ => Schema.isSubtype_trans (Blueprint.flat hbuild)
      antisymm := fun _ _ => Schema.isSubtype_antisymm (Blueprint.flat hbuild) }

/-- A list of dogs is a list of pets, and without its marks as well. -/
theorem isSubtype_isPartialOrder_kennel :
    Kennel.schema.isSubtype (.nonNull (.list (.nonNull (.named "Dog")))) (.list (.named "Pet")) =
      true := by
  obtain ⟨horder, hbelow⟩ := isSubtype_isPartialOrder Kennel.build_steps
  have hdog : "Dog" ∈ Kennel.schema.possibleTypes "Pet" := .tail _ (.head _)
  have hdogs : Kennel.schema.isSubtype (.nonNull (.list (.nonNull (.named "Dog"))))
      (.list (.nonNull (.named "Pet"))) = true :=
    (hbelow _ _).2 (.unmark (.list (.mark (.object hdog))))
  have hpets : Kennel.schema.isSubtype (.list (.nonNull (.named "Pet"))) (.list (.named "Pet")) =
      true := (hbelow _ _).2 (.list (.unmark (.name "Pet")))
  exact horder.trans _ _ _ hdogs hpets

end TypedQuery
