import TypedQuery.Proofs.Validation.Mentioned
/-!
Faults of use: a variable or a fragment that is used without a definition, or defined without a use.
The visit reports none of them (`Scope.ofText_visitDefinitions`): it leaves use to a second look,
which goes by what the visit recorded.
-/

namespace TypedQuery

namespace Fault

def isUnusedVariable : Fault → Bool
  | unusedVariable _ _ => true
  | _ => false

def isUndefinedVariable : Fault → Bool
  | undefinedVariable _ _ => true
  | _ => false

def isUnusedFragment : Fault → Bool
  | unusedFragment _ => true
  | _ => false

/-- The fault is about a variable or a fragment that is used without a definition or defined without
a use. -/
def isOfUse (fault : Fault) : Bool :=
  fault.isUnusedVariable || fault.isUndefinedVariable || fault.isUnusedFragment

end Fault

namespace Findings

variable {P : Fault → Prop}

theorem all_ofFault {fault : Fault} {locations : List Location} (h : P fault) :
    (ofFault fault locations).All P := List.forall_mem_singleton.2 h

theorem all_when {condition : Bool} {fault : Fault} {locations : List Location} (h : P fault) :
    (when condition fault locations).All P := by
  cases condition with
  | false => exact all_none
  | true => exact all_ofFault h

theorem all_ofUses (uses : List VariableUse) : (ofUses uses).All P :=
  fun _ hmem => absurd hmem List.not_mem_nil

theorem all_concat_map {α : Type} {items : List α} {visit : α → Findings}
    (h : ∀ item, (visit item).All P) : (concat (items.map visit)).All P := by
  induction items with
  | nil => exact all_none
  | cons first rest ih => exact all_append.2 ⟨h first, ih⟩

/-- Nothing was found that is about use. -/
def OfText : Findings → Prop := All fun fault => fault.isOfUse = false

end Findings

/-! ## The visit leaves use aside -/

namespace Scope

open Findings

variable {scope : Scope}

theorem ofText_visitValue (location : Location) (name : String) (type : TypeExpr)
    (hasDefault : Bool) (literal : Literal) :
    (scope.visitValue location name type hasDefault literal).OfText :=
  all_append.2 ⟨all_ofUses _, all_when rfl⟩

theorem ofText_visitArguments (parent : String) (field : FieldDef) (head : FieldHead) :
    (scope.visitArguments parent field head).OfText := by
  refine all_append.2 ⟨all_concat_map fun argument => ?_, all_concat_map fun _ => all_when rfl⟩
  unfold visitArgument
  dsimp only
  split
  · exact ofText_visitValue _ _ _ _ _
  · exact all_append.2 ⟨all_ofFault rfl, all_ofUses _⟩

theorem ofText_visitDirectives (directives : List Directive) :
    (scope.visitDirectives directives).OfText := by
  refine all_concat_map fun directive => ?_
  unfold visitDirective
  split
  · refine all_append.2 ⟨all_concat_map fun argument => ?_, all_when rfl⟩
    unfold visitDirectiveArgument
    dsimp only
    split
    · exact ofText_visitValue _ _ _ _ _
    · exact all_append.2 ⟨all_ofFault rfl, all_ofUses _⟩
  · exact all_append.2 ⟨all_ofFault rfl, all_ofUses _⟩

theorem ofText_visitOverlap (fragment parent : Option String) (condition : String)
    (location : Location) : (scope.visitOverlap fragment parent condition location).OfText := by
  cases parent with
  | none => exact all_none
  | some parent => exact all_when rfl

theorem ofText_visitCondition (fragment : Option String) (condition : String)
    (location : Location) : (scope.visitCondition fragment condition location).1.OfText := by
  unfold visitCondition
  split
  · exact all_ofFault rfl
  · split
    · exact all_none
    · exact all_ofFault rfl

theorem ofText_visitSpread (parent : Option String) (location : Location) (name : String) :
    (scope.visitSpread parent location name).OfText := by
  refine all_append.2 ⟨fun _ hmem => absurd hmem List.not_mem_nil, ?_⟩
  split
  · exact all_ofFault rfl
  · split
    · exact ofText_visitOverlap _ _ _ _
    · exact all_none

mutual

theorem ofText_visitSelection (parent : Option String) : ∀ selection : Selection,
    (scope.visitSelection parent selection).OfText
  | .field head selections => by
    have hbelow (inner : Option String) := ofText_visitSelections inner selections
    cases parent with
    | none =>
      rw [visitSelection]
      exact all_append.2 ⟨ofText_visitDirectives _, all_append.2 ⟨all_ofUses _, hbelow none⟩⟩
    | some parent =>
      rw [visitSelection]
      refine all_append.2 ⟨ofText_visitDirectives _, ?_⟩
      split
      · exact all_append.2 ⟨all_ofUses _, all_when rfl⟩
      · split
        · exact all_append.2 ⟨all_append.2 ⟨all_ofFault rfl, all_ofUses _⟩, hbelow none⟩
        · refine all_append.2 ⟨ofText_visitArguments _ _ _, ?_⟩
          split
          · exact all_append.2 ⟨all_when rfl, hbelow none⟩
          · exact all_append.2 ⟨all_when rfl, hbelow _⟩
  | .spread location name directives => by
    rw [visitSelection]
    exact all_append.2 ⟨ofText_visitDirectives _, ofText_visitSpread _ _ _⟩
  | .inline location condition directives selections => by
    have hbelow (inner : Option String) := ofText_visitSelections inner selections
    cases condition with
    | none =>
      rw [visitSelection]
      exact all_append.2 ⟨ofText_visitDirectives _, hbelow parent⟩
    | some condition =>
      have hcondition := @ofText_visitCondition scope none condition location
      rw [visitSelection]
      refine all_append.2 ⟨ofText_visitDirectives _, ?_⟩
      cases hvisit : scope.visitCondition none condition location with
      | mk findings target =>
        rw [hvisit] at hcondition
        cases target with
        | none => exact all_append.2 ⟨hcondition, hbelow none⟩
        | some target =>
          exact all_append.2 ⟨all_append.2 ⟨hcondition, ofText_visitOverlap _ _ _ _⟩, hbelow _⟩

theorem ofText_visitSelections (parent : Option String) : ∀ selections : List Selection,
    (scope.visitSelections parent selections).OfText
  | [] => by
    rw [visitSelections]
    exact all_none
  | first :: rest => by
    rw [visitSelections]
    exact all_append.2 ⟨ofText_visitSelection parent first, ofText_visitSelections parent rest⟩

end

theorem ofText_visitVariables (earlier definitions : List VariableDefinition) :
    (scope.visitVariables earlier definitions).OfText := by
  induction definitions generalizing earlier with
  | nil => exact all_none
  | cons first rest ih =>
    refine all_append.2 ⟨all_append.2 ⟨?_, ?_⟩, ih _⟩
    · split
      · exact all_ofFault rfl
      · exact all_none
    · split
      · exact all_ofFault rfl
      · exact all_when rfl

/-- What the visit of a definition reports is not about use. -/
theorem ofText_visitDefinition (doc : Document) (earlier : List Definition)
    (definition : Definition) : (scope.visitDefinition doc earlier definition).OfText := by
  cases definition with
  | operation op =>
    refine all_append.2 ⟨?_, all_append.2 ⟨all_append.2 ⟨all_append.2
      ⟨ofText_visitVariables _ _, ofText_visitDirectives _⟩, all_when rfl⟩,
      ofText_visitSelections _ _⟩⟩
    unfold visitOperationName
    split
    · dsimp only
      split
      · exact all_ofFault rfl
      · exact all_none
    · exact all_when rfl
  | fragment frag =>
    refine all_append.2 ⟨?_, all_append.2 ⟨all_append.2
      ⟨ofText_visitDirectives _, ofText_visitCondition _ _ _⟩, ofText_visitSelections _ _⟩⟩
    unfold visitFragmentName
    dsimp only
    split
    · exact all_ofFault rfl
    · exact all_none

theorem ofText_visitDefinitions (doc : Document) (earlier definitions : List Definition) :
    ∀ entry ∈ scope.visitDefinitions doc earlier definitions, entry.2.OfText := by
  induction definitions generalizing earlier with
  | nil => exact fun _ hmem => absurd hmem List.not_mem_nil
  | cons first rest ih =>
    exact List.forall_mem_cons.2 ⟨ofText_visitDefinition doc earlier first, ih _⟩

end Scope

end TypedQuery
