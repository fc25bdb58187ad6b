import TypedQuery.Execution.Collection
import TypedQuery.Proofs.Schema.WellFormed
import TypedQuery.Validation.Visit
/-!
Spreads that can never apply.  The validator compares the objects that two types may stand for; the
executor asks of one object at a time, and by its name, whether a fragment applies to it.  Of a
schema that was built both come to the same: a fragment is refused where it stands just when no
object that may come there would enter it, unless it is on the very type that is there
(`overlap_agrees`).
-/

namespace TypedQuery
namespace Schema

/-- An object that a value of the type may be: one of that type, or what is possible for it. -/
structure Holds (schema : Schema) (type object : String) : Prop where
  isObject : ∃ found, schema.type? object = some (.object found)
  possible : object = type ∨ object ∈ schema.possibleTypes type

/-- No object that the parent may be has a fragment on the condition applied to it. -/
structure Excludes (schema : Schema) (parent condition : String) : Prop where
  differ : parent ≠ condition
  never : ∀ object, schema.Holds parent object → schema.applies condition object = false

/-- What is to be said of a fragment where it stands: that it never applies there, or nothing. -/
inductive SpreadVerdict (schema : Schema) (fragment : Option String) (parent condition : String)
    (location : Location) : List Diagnostic → Prop
  | impossible (h : schema.Excludes parent condition) :
      SpreadVerdict schema fragment parent condition location
        [{ fault := .impossibleSpread fragment parent condition, locations := [location] }]
  | same (h : parent = condition) : SpreadVerdict schema fragment parent condition location []
  | possible {object : String} (hholds : schema.Holds parent object)
      (happlies : schema.applies condition object = true) :
      SpreadVerdict schema fragment parent condition location []

theorem overlap_iff {schema : Schema} {a b : String} :
    schema.overlap a b = true ↔
      a = b ∨ ∃ object ∈ schema.possibleTypes a, object ∈ schema.possibleTypes b := by
  simp [overlap]

theorem overlap_comm (schema : Schema) (a b : String) :
    schema.overlap a b = schema.overlap b a := by
  rw [Bool.eq_iff_iff, overlap_iff, overlap_iff, eq_comm]
  exact or_congr_right ⟨fun ⟨object, ha, hb⟩ => ⟨object, hb, ha⟩,
    fun ⟨object, hb, ha⟩ => ⟨object, ha, hb⟩⟩

section Built

variable {b : Blueprint} {schema : Schema} (hbuild : b.build = .ok schema)

include hbuild

theorem holds_iff {type object : String} :
    schema.Holds type object ↔ object ∈ schema.possibleTypes type := by
  constructor
  · rintro ⟨⟨found, hfound⟩, rfl | hmem⟩
    · rw [Blueprint.possibleTypes_object hbuild hfound]
      exact List.mem_singleton_self object
    · exact hmem
  · intro hmem
    exact ⟨Blueprint.exists_object_of_mem_possibleTypes hbuild hmem, .inr hmem⟩

/-- To an object, what is on an object type applies by its name, and what is on an abstract type by
what belongs to it. -/
theorem applies_iff {condition object : String}
    (hobject : ∃ type, schema.type? object = some (.object type)) :
    schema.applies condition object = true ↔ object ∈ schema.possibleTypes condition := by
  rw [applies, Bool.or_eq_true, beq_iff_eq, isPossible_iff]
  constructor
  · rintro (rfl | ⟨-, hmem⟩)
    · exact (holds_iff hbuild).1 ⟨hobject, .inl rfl⟩
    · exact hmem
  · intro hmem
    cases hcondition : schema.object? condition with
    | none => exact .inr ⟨rfl, hmem⟩
    | some type =>
      rw [Blueprint.possibleTypes_object hbuild (object?_eq_some.1 hcondition)] at hmem
      exact .inl (List.mem_singleton.1 hmem).symm

theorem overlap_iff_applies {parent condition : String} :
    schema.overlap parent condition = true ↔ parent = condition ∨
      ∃ object, schema.Holds parent object ∧ schema.applies condition object = true := by
  rw [overlap_iff]
  refine or_congr_right (exists_congr fun object => ?_)
  constructor
  · rintro ⟨hparent, hcondition⟩
    have hholds := (holds_iff hbuild).2 hparent
    exact ⟨hholds, (applies_iff hbuild hholds.isObject).2 hcondition⟩
  · rintro ⟨hholds, happlies⟩
    exact ⟨(holds_iff hbuild).1 hholds, (applies_iff hbuild hholds.isObject).1 happlies⟩

theorem overlap_eq_false_iff {parent condition : String} :
    schema.overlap parent condition = false ↔ schema.Excludes parent condition := by
  rw [← Bool.not_eq_true, overlap_iff_applies hbuild, not_or, not_exists]
  simp only [not_and, Bool.not_eq_true]
  exact ⟨fun ⟨hdiffer, hnever⟩ => ⟨hdiffer, hnever⟩, fun h => ⟨h.differ, h.never⟩⟩

end Built
end Schema

/-! ## The two readers -/

namespace Scope

variable {scope : Scope}

theorem visitCondition_of_composite {fragment : Option String} {condition : String}
    {location : Location} (h : scope.schema.isComposite condition = true) :
    scope.visitCondition fragment condition location = (.none, some condition) := by
  unfold Schema.isComposite at h
  unfold visitCondition
  cases htype : scope.schema.type? condition with
  | none =>
    rw [htype] at h
    cases h
  | some type =>
    rw [htype] at h
    exact if_pos h

variable {b : Blueprint} (hbuild : b.build = .ok scope.schema)

include hbuild

theorem verdict_visitOverlap (fragment : Option String) (parent condition : String)
    (location : Location) :
    scope.schema.SpreadVerdict fragment parent condition location
      (scope.visitOverlap fragment (some parent) condition location).diagnostics := by
  unfold visitOverlap Findings.when
  dsimp only
  cases h : scope.schema.overlap parent condition with
  | false => exact .impossible ((Schema.overlap_eq_false_iff hbuild).1 h)
  | true =>
    rcases (Schema.overlap_iff_applies hbuild).1 h with hsame | ⟨object, hholds, happlies⟩
    · exact .same hsame
    · exact .possible hholds happlies

theorem verdict_visitSelection_spread {name : String} {frag : Fragment}
    (hfrag : scope.fragment? name = some frag)
    (hcomposite : scope.schema.isComposite frag.condition = true) (parent : String)
    (location : Location) (directives : List Directive) :
    ∃ verdict, scope.schema.SpreadVerdict (some name) parent frag.condition location verdict ∧
      (scope.visitSelection (some parent) (.spread location name directives)).diagnostics =
        (scope.visitDirectives directives).diagnostics ++ verdict := by
  refine ⟨_, scope.verdict_visitOverlap hbuild (some name) parent frag.condition location, ?_⟩
  simp only [visitSelection, visitSpread, hfrag, hcomposite, if_true, Findings.diagnostics_append]
  rfl

theorem verdict_visitSelection_inline {condition : String}
    (hcomposite : scope.schema.isComposite condition = true) (parent : String)
    (location : Location) (directives : List Directive) (selections : List Selection) :
    ∃ verdict, scope.schema.SpreadVerdict none parent condition location verdict ∧
      (scope.visitSelection (some parent)
          (.inline location (some condition) directives selections)).diagnostics =
        (scope.visitDirectives directives).diagnostics ++
          (verdict ++ (scope.visitSelections (some condition) selections).diagnostics) := by
  refine ⟨_, scope.verdict_visitOverlap hbuild none parent condition location, ?_⟩
  simp only [visitSelection, visitCondition_of_composite hcomposite, Findings.diagnostics_append]
  rfl

end Scope

namespace Selector

variable {s : Selector} {parent condition object : String}

/-- What the validator refuses adds no field, to any object that may come there. -/
theorem collectSelection_inline_of_excludes (hexcludes : s.schema.Excludes parent condition)
    (hholds : s.schema.Holds parent object) (enter : Fragment → Collected → Collected)
    (location : Location) (directives : List Directive) (selections : List Selection)
    (state : Collected) :
    s.collectSelection enter object (.inline location (some condition) directives selections)
      state = state := by
  simp [collectSelection, hexcludes.never object hholds]

theorem fields_collectSelection_spread_of_excludes {frag : Fragment} {name : String}
    (hfrag : s.fragment? name = some frag) (hexcludes : s.schema.Excludes parent frag.condition)
    (hholds : s.schema.Holds parent object) (enter : Fragment → Collected → Collected)
    (location : Location) (directives : List Directive) (state : Collected) :
    (s.collectSelection enter object (.spread location name directives) state).fields =
      state.fields := by
  simp only [collectSelection, hfrag, hexcludes.never object hholds]
  split <;> rfl

end Selector

/-- In a schema that was built, two types do not overlap just when they differ and the executor
applies a fragment on the second to no object that the first may be; which of them is the parent
does not matter, and what belongs to a type is what is possible for it, unless it is an object.  So
the validator says of a fragment on a composite type that it can never apply just when that is so,
unless the parent is that very type, and what it refuses adds no field to any object. -/
theorem overlap_agrees {blueprint : Blueprint} {schema : Schema}
    (hbuild : blueprint.build = .ok schema) :
    (∀ parent condition,
      schema.overlap parent condition = false ↔ schema.Excludes parent condition) ∧
    (∀ parent condition, schema.overlap parent condition = schema.overlap condition parent) ∧
    (∀ abstract_ object, schema.object? abstract_ = none →
      (schema.isPossible abstract_ object = true ↔ object ∈ schema.possibleTypes abstract_)) ∧
    (∀ scope : Scope, scope.schema = schema → ∀ parent location directives,
      (∀ name frag, scope.fragment? name = some frag →
        schema.isComposite frag.condition = true →
        ∃ verdict, schema.SpreadVerdict (some name) parent frag.condition location verdict ∧
          (scope.visitSelection (some parent) (.spread location name directives)).diagnostics =
            (scope.visitDirectives directives).diagnostics ++ verdict) ∧
      ∀ condition selections, schema.isComposite condition = true →
        ∃ verdict, schema.SpreadVerdict none parent condition location verdict ∧
          (scope.visitSelection (some parent)
              (.inline location (some condition) directives selections)).diagnostics =
            (scope.visitDirectives directives).diagnostics ++
              (verdict ++ (scope.visitSelections (some condition) selections).diagnostics)) ∧
    ∀ s : Selector, s.schema = schema → ∀ parent condition object,
      schema.Excludes parent condition → schema.Holds parent object →
      ∀ enter location directives state,
        (∀ selections,
          s.collectSelection enter object (.inline location (some condition) directives selections)
            state = state) ∧
        ∀ name frag, s.fragment? name = some frag → frag.condition = condition →
          (s.collectSelection enter object (.spread location name directives) state).fields =
            state.fields := by
  refine ⟨fun parent condition => Schema.overlap_eq_false_iff hbuild, schema.overlap_comm,
    fun abstract_ object habstract => ?_, ?_, ?_⟩
  · rw [Schema.isPossible_iff]
    exact and_iff_right habstract
  · rintro scope rfl parent location directives
    refine ⟨fun name frag hfrag hcomposite => ?_, fun condition selections hcomposite => ?_⟩
    · exact scope.verdict_visitSelection_spread hbuild hfrag hcomposite parent location
        directives
    · exact scope.verdict_visitSelection_inline hbuild hcomposite parent location directives
        selections
  · rintro s rfl parent condition object hexcludes hholds enter location directives state
    refine ⟨fun selections => ?_, ?_⟩
    · exact s.collectSelection_inline_of_excludes hexcludes hholds enter location directives
        selections state
    · rintro name frag hfrag rfl
      exact s.fields_collectSelection_spread_of_excludes hfrag hexcludes hholds enter location
        directives state

/-- A pet may have a name.  The root is no pet, and a fragment on pets is refused there. -/
theorem overlap_agrees_kennel :
    ¬ Kennel.schema.Excludes "Pet" "Named" ∧ Kennel.schema.Excludes "Query" "Pet" := by
  obtain ⟨hexcludes, -⟩ := overlap_agrees Kennel.build_steps
  refine ⟨fun h => ?_, (hexcludes "Query" "Pet").1 rfl⟩
  cases (hexcludes "Pet" "Named").2 h

end TypedQuery
