import TypedQuery.Proofs.Execution.Nesting
import TypedQuery.Validation.Basic
/-!
What a visit without a fault says of the text.  A field that was visited in order is one of its
parent's type, on which its own selections may stand (`Scope.clean_field`).
-/

namespace TypedQuery
namespace Findings

/-- No fault was found. -/
def Clean (findings : Findings) : Prop := findings.diagnostics = []

theorem clean_none : none.Clean := rfl

theorem clean_append {a b : Findings} : (a ++ b).Clean ↔ a.Clean ∧ b.Clean :=
  List.append_eq_nil_iff

theorem not_clean_ofFault {fault : Fault} {locations : List Location} :
    ¬ (ofFault fault locations).Clean := List.cons_ne_nil _ _

theorem clean_when {condition : Bool} {fault : Fault} {locations : List Location}
    (h : (when condition fault locations).Clean) : condition = false := by
  cases condition with
  | false => rfl
  | true => exact absurd h not_clean_ofFault

end Findings

namespace Scope

variable {scope : Scope}

theorem clean_visitSelections {parent : Option String} {selections : List Selection} :
    (scope.visitSelections parent selections).Clean ↔
      ∀ selection ∈ selections, (scope.visitSelection parent selection).Clean := by
  induction selections with
  | nil =>
    rw [visitSelections]
    exact ⟨fun _ _ hmem => absurd hmem List.not_mem_nil, fun _ => Findings.clean_none⟩
  | cons first rest ih => rw [visitSelections, Findings.clean_append, ih, List.forall_mem_cons]

/-- The selections may stand on a parent of the type. -/
def Admits (scope : Scope) (parent : String) (selections : List Selection) : Prop :=
  (scope.visitSelections (some parent) selections).Clean

theorem admits_nil (parent : String) : scope.Admits parent [] := by
  rw [Admits, visitSelections]
  exact Findings.clean_none

/-- A field is known to its parent, and its own selections may stand on its type. -/
theorem clean_field {parent : String} {head : FieldHead} {selections : List Selection}
    (h : (scope.visitSelection (some parent) (.field head selections)).Clean) :
    head.name = "__typename" ∧ selections = [] ∨
      head.name ≠ "__typename" ∧ ∃ field, scope.schema.field? parent head.name = some field ∧
        scope.Admits field.type.base selections ∧
          (scope.schema.isLeaf field.type.base = true → selections = []) := by
  have hempty {fault : Fault} {locations : List Location}
      (hw : (Findings.when (!selections.isEmpty) fault locations).Clean) : selections = [] := by
    have hisEmpty := Findings.clean_when hw
    rw [Bool.not_eq_false'] at hisEmpty
    exact List.isEmpty_iff.1 hisEmpty
  rw [visitSelection] at h
  by_cases hname : head.name = "__typename"
  · rw [if_pos hname, Findings.clean_append, Findings.clean_append] at h
    exact .inl ⟨hname, hempty h.2.2⟩
  · rw [if_neg hname] at h
    refine .inr ⟨hname, ?_⟩
    cases hfield : scope.schema.field? parent head.name with
    | none =>
      rw [hfield] at h
      simp only [Findings.clean_append] at h
      exact absurd h.2.1.1 Findings.not_clean_ofFault
    | some field =>
      rw [hfield] at h
      dsimp only at h
      refine ⟨field, rfl, ?_⟩
      by_cases hleaf : scope.schema.isLeaf field.type.base = true
      · rw [if_pos hleaf] at h
        simp only [Findings.clean_append] at h
        have hnil := hempty h.2.2.1
        rw [hnil]
        exact ⟨admits_nil _, fun _ => rfl⟩
      · rw [if_neg hleaf] at h
        simp only [Findings.clean_append] at h
        exact ⟨h.2.2.2, fun hl => absurd hl hleaf⟩

theorem clean_visitCondition {fragment : Option String} {condition : String} {location : Location}
    (h : (scope.visitCondition fragment condition location).1.Clean) :
    (scope.visitCondition fragment condition location).2 = some condition ∧
      scope.schema.isComposite condition = true := by
  unfold visitCondition at h ⊢
  unfold Schema.isComposite
  cases htype : scope.schema.type? condition with
  | none =>
    rw [htype] at h
    exact absurd h Findings.not_clean_ofFault
  | some type =>
    rw [htype] at h
    dsimp only at h ⊢
    by_cases hcomposite : type.isComposite = true
    · rw [if_pos hcomposite]
      exact ⟨rfl, hcomposite⟩
    · rw [if_neg hcomposite] at h
      exact absurd h Findings.not_clean_ofFault

theorem clean_inline {parent : String} {location : Location} {directives : List Directive}
    {selections : List Selection}
    (h : (scope.visitSelection (some parent)
      (.inline location none directives selections)).Clean) : scope.Admits parent selections := by
  rw [visitSelection] at h
  exact (Findings.clean_append.1 h).2

theorem clean_inline_on {parent : String} {location : Location} {condition : String}
    {directives : List Directive} {selections : List Selection}
    (h : (scope.visitSelection (some parent)
      (.inline location (some condition) directives selections)).Clean) :
    scope.schema.overlap parent condition = true ∧ scope.Admits condition selections := by
  rw [visitSelection] at h
  rw [Findings.clean_append] at h
  obtain ⟨-, h⟩ := h
  cases hc : scope.visitCondition none condition location with
  | mk findings target =>
    have hcondition := @clean_visitCondition scope none condition location
    rw [hc] at h hcondition
    cases target with
    | none =>
      dsimp only at h
      obtain ⟨htarget, -⟩ := hcondition (Findings.clean_append.1 h).1
      cases htarget
    | some target =>
      simp only [Findings.clean_append] at h
      obtain ⟨htarget, -⟩ := hcondition h.1.1
      obtain rfl := Option.some.inj htarget
      exact ⟨by simpa using Findings.clean_when h.1.2, h.2⟩

theorem clean_visitFragment {frag : Fragment} (h : (scope.visitFragment frag).Clean) :
    scope.schema.isComposite frag.condition = true ∧
      scope.Admits frag.condition frag.selections := by
  unfold visitFragment at h
  simp only [Findings.clean_append] at h
  obtain ⟨htarget, hcomposite⟩ := clean_visitCondition h.1.2
  rw [htarget] at h
  exact ⟨hcomposite, h.2⟩

/-! ## Definitions -/

/-- Each definition is visited after those before it. -/
theorem mem_visitDefinitions (doc : Document) (earlier front : List Definition)
    (definition : Definition) (back : List Definition) :
    (definition, scope.visitDefinition doc (earlier ++ front) definition) ∈
      scope.visitDefinitions doc earlier (front ++ definition :: back) := by
  induction front generalizing earlier with
  | nil =>
    rw [List.append_nil, List.nil_append, visitDefinitions]
    exact List.mem_cons_self
  | cons first front ih =>
    rw [List.cons_append, visitDefinitions]
    refine List.mem_cons_of_mem _ ?_
    have hrest := ih (earlier ++ [first])
    rwa [List.append_assoc] at hrest

end Scope

/-! ## Documents -/

namespace Document

def scope (doc : Document) (schema : Schema) : Scope :=
  { schema := schema, fragments := doc.fragments }

variable {doc : Document} {schema : Schema}

theorem mem_operations {op : Operation} (h : op ∈ doc.operations) :
    Definition.operation op ∈ doc.definitions := by
  obtain ⟨definition, hmem, hop⟩ := List.mem_filterMap.1 h
  cases definition with
  | operation other =>
    obtain rfl := Option.some.inj hop
    exact hmem
  | fragment frag => cases hop

theorem mem_fragments {frag : Fragment} (h : frag ∈ doc.fragments) :
    Definition.fragment frag ∈ doc.definitions := by
  obtain ⟨definition, hmem, hfrag⟩ := List.mem_filterMap.1 h
  cases definition with
  | operation op => cases hfrag
  | fragment other =>
    obtain rfl := Option.some.inj hfrag
    exact hmem

/-- The findings of a definition are among those of the document. -/
theorem mem_visited (schema : Schema) {definition : Definition}
    (h : definition ∈ doc.definitions) :
    ∃ earlier, (definition, (doc.scope schema).visitDefinition doc earlier definition) ∈
      (Survey.ofDocument schema doc).visited := by
  obtain ⟨front, back, hsplit⟩ := List.append_of_mem h
  refine ⟨front, ?_⟩
  show _ ∈ (doc.scope schema).visitDefinitions doc [] doc.definitions
  rw [hsplit]
  exact Scope.mem_visitDefinitions doc [] front definition back

/-- A document without diagnostics: each visit was clean, and there are no cycles. -/
theorem diagnostics_eq_nil (h : doc.diagnostics schema = []) :
    (∀ entry ∈ (Survey.ofDocument schema doc).visited, entry.2.Clean) ∧
      (Survey.ofDocument schema doc).cycleDiagnostics = [] := by
  unfold diagnostics at h
  simp only [List.append_eq_nil_iff] at h
  obtain ⟨⟨⟨hvisited, -⟩, hcycles⟩, -⟩ := h
  exact ⟨List.flatMap_eq_nil_iff.1 hvisited, hcycles⟩

theorem clean_operation (h : doc.diagnostics schema = []) {op : Operation}
    (hop : op ∈ doc.operations) : ((doc.scope schema).visitOperation op).Clean := by
  obtain ⟨earlier, hvisited⟩ := mem_visited schema (mem_operations hop)
  exact (Findings.clean_append.1 ((diagnostics_eq_nil h).1 _ hvisited)).2

theorem clean_fragment (h : doc.diagnostics schema = []) {frag : Fragment}
    (hfrag : frag ∈ doc.fragments) : ((doc.scope schema).visitFragment frag).Clean := by
  obtain ⟨earlier, hvisited⟩ := mem_visited schema (mem_fragments hfrag)
  exact (Findings.clean_append.1 ((diagnostics_eq_nil h).1 _ hvisited)).2

/-- An operation of a document in order has a root, on which its selections may stand. -/
theorem exists_rootType (h : doc.diagnostics schema = []) {op : Operation}
    (hop : op ∈ doc.operations) :
    ∃ rootType, schema.rootType? op.kind = some rootType ∧
      (doc.scope schema).Admits rootType op.selections := by
  have hclean := clean_operation h hop
  unfold Scope.visitOperation at hclean
  simp only [Findings.clean_append] at hclean
  obtain ⟨⟨-, hroot⟩, hselections⟩ := hclean
  have hsome := Findings.clean_when hroot
  cases hkind : schema.rootType? op.kind with
  | none =>
    rw [show (doc.scope schema).schema = schema from rfl, hkind] at hsome
    cases hsome
  | some rootType =>
    rw [show (doc.scope schema).schema = schema from rfl, hkind] at hselections
    exact ⟨rootType, rfl, hselections⟩

end Document
end TypedQuery
