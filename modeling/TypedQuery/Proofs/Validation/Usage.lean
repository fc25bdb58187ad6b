import TypedQuery.Proofs.Validation.Faults
import TypedQuery.Proofs.Validation.Reach
/-!
What is reported of variables and fragments by their use.  The text of an operation is its own
together with that of every fragment it includes, and the reports go by that text, whatever else is
wrong with the document: `usage_reported`.  The one exception is a document with selections beneath
the name of a type, which are not read (`usage_unread`).
-/

namespace TypedQuery

/-! ## Texts of operations -/

/-- Picking the items of one key after another, for different keys, picks those that have any of the
keys. -/
theorem perm_flatMap_filter {α β : Type} [DecidableEq β] (key : α → β) (items : List α)
    {keys : List β} (h : keys.Nodup) :
    (keys.flatMap fun k => items.filter fun item => key item = k).Perm
      (items.filter fun item => key item ∈ keys) := by
  induction keys with
  | nil => simp
  | cons first rest ih =>
    obtain ⟨hfirst, hrest⟩ := List.nodup_cons.1 h
    have hsplit := List.filter_append_perm (fun item => key item = first)
      (items.filter fun item => key item ∈ first :: rest)
    rw [List.filter_filter, List.filter_filter] at hsplit
    have hone : (items.filter fun item => decide (key item = first) &&
        decide (key item ∈ first :: rest)) = items.filter fun item => key item = first := by
      refine List.filter_congr fun item _ => ?_
      by_cases hkey : key item = first <;> simp [hkey]
    have hothers : (items.filter fun item => !decide (key item = first) &&
        decide (key item ∈ first :: rest)) = items.filter fun item => key item ∈ rest := by
      refine List.filter_congr fun item _ => ?_
      by_cases hkey : key item = first
      · simp [hkey, hfirst]
      · simp [hkey]
    rw [hone, hothers] at hsplit
    rw [List.flatMap_cons]
    exact ((ih hrest).append_left _).trans hsplit

namespace Document

variable {doc : Document}

/-- The text of the operation spreads the fragment, or a fragment that it includes does. -/
def Includes (doc : Document) (op : Operation) (name : String) : Prop :=
  ∃ start ∈ op.mentioned.fragments, Relation.ReflTransGen doc.Spreads start name

open Classical in
noncomputable def includedFragments (doc : Document) (op : Operation) : List Fragment :=
  doc.fragments.filter fun frag => doc.Includes op frag.name

/-- The variables in the text of an operation: its own, and those of each fragment it includes. -/
noncomputable def occurrences (doc : Document) (op : Operation) : List Occurrence :=
  op.mentioned.occurrences ++ (doc.includedFragments op).flatMap (·.mentioned.occurrences)

open Classical in
/-- The fragments that no operation includes. -/
noncomputable def unusedFragments (doc : Document) : List Fragment :=
  doc.fragments.filter fun frag => ∀ op ∈ doc.operations, ¬ doc.Includes op frag.name

section Whole

variable {schema : Schema} (h : ∀ entry ∈ (Survey.ofDocument schema doc).visited, entry.2.Whole)

theorem isDefined_iff {name : String} :
    (Survey.ofDocument schema doc).isDefined name = true ↔
      ∃ frag ∈ doc.fragments, frag.name = name :=
  Survey.isDefined_iff.trans List.mem_map

include h

theorem leads_iff {name next : String} :
    (Survey.ofDocument schema doc).Leads name next ↔
      doc.Spreads name next ∧ ∃ frag ∈ doc.fragments, frag.name = next := by
  refine List.mem_filter.trans (and_congr ?_ isDefined_iff)
  exact mem_fragments_fragmentFindings h

/-- A fragment is reached from an operation just when the operation includes it. -/
theorem mem_reachable_iff {entry : Operation × Findings}
    (hentry : entry.2.mentioned = entry.1.mentioned) {frag : Fragment}
    (hfrag : frag ∈ doc.fragments) :
    frag.name ∈ (Survey.ofDocument schema doc).reachable entry.2 ↔
      doc.Includes entry.1 frag.name := by
  rw [Survey.mem_reachable]
  constructor
  · rintro ⟨start, hstart, hleads⟩
    have hstep : (Survey.ofDocument schema doc).Leads ≤ doc.Spreads :=
      fun _ _ hnext => ((leads_iff h).1 hnext).1
    refine ⟨start, ?_, Relation.ReflTransGen.mono hstep _ _ hleads⟩
    rw [← hentry]
    exact (List.mem_filter.1 hstart).1
  · rintro ⟨start, hstart, hspreads⟩
    rw [← hentry] at hstart
    have hdefined : ∃ other ∈ doc.fragments, other.name = frag.name := ⟨frag, hfrag, rfl⟩
    revert hdefined
    generalize frag.name = name at hspreads ⊢
    -- each fragment on the way is defined, for it spreads the next
    induction hspreads with
    | refl =>
      intro hdefined
      exact ⟨start, List.mem_filter.2 ⟨hstart, isDefined_iff.2 hdefined⟩, .refl⟩
    | tail _ hstep ih =>
      intro hdefined
      obtain ⟨between, hin, hname, -⟩ := id hstep
      obtain ⟨target, htarget, hleads⟩ := ih ⟨between, hin, hname⟩
      exact ⟨target, htarget, hleads.tail ((leads_iff h).2 ⟨hstep, hdefined⟩)⟩

/-- The uses that are gathered for an operation are of the variables in its text. -/
theorem perm_occurrences {entry : Operation × Findings}
    (hentry : entry.2.mentioned = entry.1.mentioned) :
    (((Survey.ofDocument schema doc).uses entry.2).map VariableUse.occurrence).Perm
      (doc.occurrences entry.1) := by
  have hnamed (name : String) :
      ((Survey.ofDocument schema doc).fragmentFindings name).uses.map VariableUse.occurrence =
        (doc.fragments.filter fun frag => frag.name = name).flatMap (·.mentioned.occurrences) := by
    have hfindings := congrArg Mentioned.occurrences (mentioned_fragmentFindings h name)
    rw [Mentioned.occurrences_concat, List.flatMap_map] at hfindings
    exact hfindings
  have hown : entry.2.uses.map VariableUse.occurrence = entry.1.mentioned.occurrences :=
    congrArg Mentioned.occurrences hentry
  rw [Survey.uses, List.map_append, hown, List.map_flatMap]
  simp only [hnamed]
  have hreached : doc.fragments.filter (fun frag =>
      frag.name ∈ (Survey.ofDocument schema doc).reachable entry.2) =
        doc.includedFragments entry.1 := by
    refine List.filter_congr fun frag hfrag => ?_
    rw [decide_eq_decide]
    exact mem_reachable_iff h hentry hfrag
  rw [← List.flatMap_assoc, occurrences, ← hreached]
  refine List.Perm.append_left _ (List.Perm.flatMap ?_ fun _ _ => List.Perm.refl _)
  exact perm_flatMap_filter Fragment.name doc.fragments (Survey.nodup_reachable _)

end Whole

end Document

/-! ## Reports -/

def Operation.unusedVariable (op : Operation) (definition : VariableDefinition) : Diagnostic :=
  { fault := .unusedVariable definition.name op.name, locations := [definition.location] }

/-- What is reported as unused is not among the occurrences. -/
theorem Operation.ne_of_mem_unused {op : Operation} {occurrences : List Occurrence}
    {definition : VariableDefinition}
    (h : op.unusedVariable definition ∈
      (op.variableDefs.filter fun definition =>
        ∀ occurrence ∈ occurrences, occurrence.name ≠ definition.name).map op.unusedVariable) :
    ∀ occurrence ∈ occurrences, occurrence.name ≠ definition.name := by
  obtain ⟨other, hother, heq⟩ := List.mem_map.1 h
  obtain ⟨hname, -⟩ := Fault.unusedVariable.inj (congrArg Diagnostic.fault heq)
  rw [← hname]
  exact of_decide_eq_true (List.mem_filter.1 hother).2

def Operation.undefinedVariable (op : Operation) (occurrence : Occurrence) : Diagnostic :=
  { fault := .undefinedVariable occurrence.name op.name
    locations := [occurrence.location, op.location] }

def Fragment.unused (frag : Fragment) : Diagnostic :=
  { fault := .unusedFragment frag.name, locations := [frag.location] }

def Operation.defines (op : Operation) (name : String) : Prop :=
  name ∈ op.variableDefs.map (·.name)

instance (op : Operation) (name : String) : Decidable (op.defines name) :=
  inferInstanceAs (Decidable (name ∈ op.variableDefs.map (·.name)))

namespace Survey

/-- A variable definition is reported when no use is of its name. -/
theorem unusedDiagnostics_eq (op : Operation) (uses : List VariableUse) :
    op.variableDefs.filterMap (unusedDiagnostic? op uses) =
      (op.variableDefs.filter fun definition =>
        ∀ occurrence ∈ uses.map VariableUse.occurrence, occurrence.name ≠ definition.name).map
          op.unusedVariable := by
  rw [← List.filterMap_eq_map, List.filterMap_filter]
  refine List.filterMap_congr fun definition _ => ?_
  unfold unusedDiagnostic?
  by_cases hused : ∃ use ∈ uses, use.name = definition.name
  · have hany : uses.any (fun use => use.name == definition.name) = true := by simpa using hused
    rw [if_pos hany, if_neg]
    simpa [VariableUse.occurrence] using hused
  · have hany : ¬ uses.any (fun use => use.name == definition.name) = true := by simpa using hused
    rw [if_neg hany, if_pos]
    · rfl
    · simpa [VariableUse.occurrence] using hused

theorem filter_useDiagnostic? (schema : Schema) (op : Operation) (use : VariableUse) :
    (useDiagnostic? schema op use).filter (·.fault.isUndefinedVariable) =
      if ¬ op.defines use.name then some (op.undefinedVariable use.occurrence) else none := by
  unfold useDiagnostic?
  cases hfind : op.variableDefs.find? fun definition => definition.name == use.name with
  | none =>
    have hdefines : ¬ op.defines use.name := by
      rintro hmem
      obtain ⟨definition, hin, hname⟩ := List.mem_map.1 hmem
      exact List.find?_eq_none.1 hfind definition hin (beq_iff_eq.2 hname)
    rw [if_pos hdefines]
    rfl
  | some definition =>
    have hname : definition.name = use.name := by simpa using List.find?_some hfind
    have hdefines : op.defines use.name :=
      List.mem_map.2 ⟨definition, List.mem_of_find?_eq_some hfind, hname⟩
    rw [if_neg (not_not_intro hdefines)]
    dsimp only
    split
    · rfl
    · split <;> rfl

/-- A use is reported as of no definition when the operation defines no variable of its name. -/
theorem undefinedDiagnostics_eq (schema : Schema) (op : Operation) (uses : List VariableUse) :
    (uses.filterMap (useDiagnostic? schema op)).filter (·.fault.isUndefinedVariable) =
      ((uses.map VariableUse.occurrence).filter fun occurrence =>
        ¬ op.defines occurrence.name).map op.undefinedVariable := by
  rw [List.filter_filterMap, List.filter_map, List.map_map, ← List.filterMap_eq_map,
    List.filterMap_filter]
  refine List.filterMap_congr fun use _ => ?_
  rw [filter_useDiagnostic?]
  by_cases hdefines : op.defines use.name
  · simp [hdefines, VariableUse.occurrence]
  · simp [hdefines, VariableUse.occurrence]

variable {schema : Schema} {op : Operation}

theorem fault_of_useDiagnostic? {use : VariableUse} {diagnostic : Diagnostic}
    (h : useDiagnostic? schema op use = some diagnostic) :
    diagnostic.fault.isUnusedVariable = false ∧ diagnostic.fault.isUnusedFragment = false := by
  unfold useDiagnostic? at h
  split at h
  · obtain rfl := Option.some.inj h
    exact ⟨rfl, rfl⟩
  · split at h
    · cases h
    · split at h
      · obtain rfl := Option.some.inj h
        exact ⟨rfl, rfl⟩
      · cases h

theorem fault_of_unusedDiagnostic? {uses : List VariableUse} {definition : VariableDefinition}
    {diagnostic : Diagnostic} (h : unusedDiagnostic? op uses definition = some diagnostic) :
    diagnostic.fault = .unusedVariable definition.name op.name := by
  unfold unusedDiagnostic? at h
  split at h
  · cases h
  · obtain rfl := Option.some.inj h
    rfl

variable (survey : Survey)

theorem filter_isUnusedVariable :
    survey.variableDiagnostics.filter (·.fault.isUnusedVariable) =
      survey.operations.flatMap fun entry =>
        entry.1.variableDefs.filterMap (unusedDiagnostic? entry.1 (survey.uses entry.2)) := by
  rw [variableDiagnostics, List.filter_flatMap]
  refine List.flatMap_congr fun entry _ => ?_
  rw [List.filter_append, List.filter_eq_nil_iff.2, List.nil_append, List.filter_eq_self.2]
  · intro diagnostic hmem
    obtain ⟨definition, -, hdiagnostic⟩ := List.mem_filterMap.1 hmem
    rw [fault_of_unusedDiagnostic? hdiagnostic]
    rfl
  · intro diagnostic hmem
    obtain ⟨use, -, hdiagnostic⟩ := List.mem_filterMap.1 hmem
    rw [(fault_of_useDiagnostic? hdiagnostic).1]
    exact Bool.false_ne_true

theorem filter_isUndefinedVariable :
    survey.variableDiagnostics.filter (·.fault.isUndefinedVariable) =
      survey.operations.flatMap fun entry =>
        ((survey.uses entry.2).filterMap (useDiagnostic? survey.scope.schema entry.1)).filter
          (·.fault.isUndefinedVariable) := by
  rw [variableDiagnostics, List.filter_flatMap]
  refine List.flatMap_congr fun entry _ => ?_
  refine (List.filter_append ..).trans ((congrArg _ (List.filter_eq_nil_iff.2 ?_)).trans
    (List.append_nil _))
  intro diagnostic hmem
  obtain ⟨definition, -, hdiagnostic⟩ := List.mem_filterMap.1 hmem
  rw [fault_of_unusedDiagnostic? hdiagnostic]
  exact Bool.false_ne_true

theorem filter_isUnusedFragment :
    survey.variableDiagnostics.filter (·.fault.isUnusedFragment) = [] := by
  refine List.filter_eq_nil_iff.2 fun diagnostic hmem => ?_
  obtain ⟨entry, -, hmem⟩ := List.mem_flatMap.1 hmem
  rcases List.mem_append.1 hmem with hmem | hmem
  · obtain ⟨use, -, hdiagnostic⟩ := List.mem_filterMap.1 hmem
    rw [(fault_of_useDiagnostic? hdiagnostic).2]
    exact Bool.false_ne_true
  · obtain ⟨definition, -, hdiagnostic⟩ := List.mem_filterMap.1 hmem
    rw [fault_of_unusedDiagnostic? hdiagnostic]
    exact Bool.false_ne_true

theorem unusedFragmentDiagnostics_eq :
    survey.unusedFragmentDiagnostics =
      (survey.scope.fragments.filter fun frag =>
        ∀ entry ∈ survey.operations, frag.name ∉ survey.reachable entry.2).map
          Fragment.unused := by
  rw [← List.filterMap_eq_map, List.filterMap_filter, unusedFragmentDiagnostics]
  refine List.filterMap_congr fun frag _ => ?_
  by_cases hused : ∃ entry ∈ survey.operations, frag.name ∈ survey.reachable entry.2
  · have hcontains : (survey.operations.flatMap fun entry =>
        survey.reachable entry.2).contains frag.name = true := by simpa using hused
    rw [if_pos hcontains, if_neg]
    simpa using hused
  · have hcontains : ¬ (survey.operations.flatMap fun entry =>
        survey.reachable entry.2).contains frag.name = true := by simpa using hused
    rw [if_neg hcontains, if_pos]
    · rfl
    · simpa using hused

theorem exists_fragment_of_mem {survey : Survey} {diagnostic : Diagnostic}
    (h : diagnostic ∈ survey.unusedFragmentDiagnostics) :
    ∃ frag : Fragment, diagnostic = frag.unused := by
  rw [unusedFragmentDiagnostics_eq] at h
  obtain ⟨frag, -, hdiagnostic⟩ := List.mem_map.1 h
  exact ⟨frag, hdiagnostic.symm⟩

end Survey

namespace Document

variable {doc : Document} {schema : Schema}

/-- What is reported of use is what the second look reports of variables, and then of fragments. -/
theorem filter_diagnostics {p : Fault → Bool}
    (h : ∀ fault, p fault = true → fault.isOfUse = true) :
    (doc.diagnostics schema).filter (p ·.fault) =
      (Survey.ofDocument schema doc).variableDiagnostics.filter (p ·.fault) ++
        (Survey.ofDocument schema doc).unusedFragmentDiagnostics.filter (p ·.fault) := by
  have hvisited : ((Survey.ofDocument schema doc).visited.flatMap
      fun entry => entry.2.diagnostics).filter (p ·.fault) = [] := by
    refine List.filter_eq_nil_iff.2 fun diagnostic hmem hp => ?_
    obtain ⟨entry, hentry, hmem⟩ := List.mem_flatMap.1 hmem
    have htext : diagnostic.fault.isOfUse = false :=
      Scope.ofText_visitDefinitions doc [] doc.definitions entry hentry diagnostic hmem
    rw [h _ hp] at htext
    cases htext
  have hcycles : (Survey.ofDocument schema doc).cycleDiagnostics.filter (p ·.fault) = [] := by
    refine List.filter_eq_nil_iff.2 fun diagnostic hmem hp => ?_
    obtain ⟨name, walk, -, -, -, hfault, -⟩ := Survey.closes_of_mem_cycleDiagnostics hmem
    have huse := h _ hp
    rw [hfault] at huse
    cases huse
  unfold diagnostics
  dsimp only
  rw [List.filter_append, List.filter_append, List.filter_append, hvisited, hcycles,
    List.nil_append, List.append_nil]

/-- What is reported of use, but of no fragment, is what the second look reports of variables. -/
theorem filter_diagnostics_of_variables {p : Fault → Bool}
    (h : ∀ fault, p fault = true → fault.isOfUse = true)
    (hfragment : ∀ name, p (.unusedFragment name) = false) :
    (doc.diagnostics schema).filter (p ·.fault) =
      (Survey.ofDocument schema doc).variableDiagnostics.filter (p ·.fault) := by
  have hfragments : (Survey.ofDocument schema doc).unusedFragmentDiagnostics.filter
      (p ·.fault) = [] := by
    refine List.filter_eq_nil_iff.2 fun diagnostic hmem => ?_
    obtain ⟨frag, rfl⟩ := Survey.exists_fragment_of_mem hmem
    rw [Fragment.unused, hfragment]
    exact Bool.false_ne_true
  rw [filter_diagnostics h, hfragments, List.append_nil]

theorem whole_visited
    (h : ∀ diagnostic ∈ doc.diagnostics schema, ∀ type,
      diagnostic.fault ≠ .leafSelections "__typename" type) :
    ∀ entry ∈ (Survey.ofDocument schema doc).visited, entry.2.Whole := by
  intro entry hentry diagnostic hmem
  refine h diagnostic ?_
  have hvisited : diagnostic ∈ (Survey.ofDocument schema doc).visited.flatMap
      fun entry => entry.2.diagnostics := List.mem_flatMap.2 ⟨entry, hentry, hmem⟩
  exact List.mem_append_left _ (List.mem_append_left _ (List.mem_append_left _ hvisited))

section Whole

variable (h : ∀ entry ∈ (Survey.ofDocument schema doc).visited, entry.2.Whole)

include h

/-- What is gathered for each operation that was surveyed, in terms of the operation. -/
theorem flatMap_operations {α : Type} {ofEntry : Operation × Findings → List α}
    {ofOperation : Operation → List α}
    (heq : ∀ entry : Operation × Findings, entry.2.mentioned = entry.1.mentioned →
      ofEntry entry = ofOperation entry.1) :
    (Survey.ofDocument schema doc).operations.flatMap ofEntry =
      doc.operations.flatMap ofOperation := by
  rw [← map_fst_operations h, List.flatMap_map]
  exact List.flatMap_congr fun entry hentry => heq entry (mentioned_of_mem_operations h hentry)

theorem perm_flatMap_operations {α : Type} {ofEntry : Operation × Findings → List α}
    {ofOperation : Operation → List α}
    (hperm : ∀ entry : Operation × Findings, entry.2.mentioned = entry.1.mentioned →
      (ofEntry entry).Perm (ofOperation entry.1)) :
    ((Survey.ofDocument schema doc).operations.flatMap ofEntry).Perm
      (doc.operations.flatMap ofOperation) := by
  rw [← map_fst_operations h, List.flatMap_map]
  exact List.Perm.flatMap_left _ fun entry hentry =>
    hperm entry (mentioned_of_mem_operations h hentry)

theorem unusedVariables_reported :
    (doc.diagnostics schema).filter (·.fault.isUnusedVariable) =
      doc.operations.flatMap fun op =>
        (op.variableDefs.filter fun definition =>
          ∀ occurrence ∈ doc.occurrences op, occurrence.name ≠ definition.name).map
            op.unusedVariable := by
  have hkind (fault : Fault) (hfault : fault.isUnusedVariable = true) : fault.isOfUse = true := by
    simp [Fault.isOfUse, hfault]
  rw [filter_diagnostics_of_variables hkind fun _ => rfl, Survey.filter_isUnusedVariable]
  refine flatMap_operations h fun entry hentry => ?_
  rw [Survey.unusedDiagnostics_eq]
  refine congrArg _ (List.filter_congr fun definition _ => decide_eq_decide.2 ?_)
  exact forall_congr' fun occurrence => by rw [(perm_occurrences h hentry).mem_iff]

theorem undefinedVariables_reported :
    ((doc.diagnostics schema).filter (·.fault.isUndefinedVariable)).Perm
      (doc.operations.flatMap fun op =>
        ((doc.occurrences op).filter fun occurrence => ¬ op.defines occurrence.name).map
          op.undefinedVariable) := by
  have hkind (fault : Fault) (hfault : fault.isUndefinedVariable = true) : fault.isOfUse = true := by
    simp [Fault.isOfUse, hfault]
  rw [filter_diagnostics_of_variables hkind fun _ => rfl, Survey.filter_isUndefinedVariable]
  refine perm_flatMap_operations h fun entry hentry => ?_
  rw [Survey.undefinedDiagnostics_eq]
  exact ((perm_occurrences h hentry).filter _).map _

theorem unusedFragments_reported :
    (doc.diagnostics schema).filter (·.fault.isUnusedFragment) =
      doc.unusedFragments.map Fragment.unused := by
  have hfragments : (Survey.ofDocument schema doc).unusedFragmentDiagnostics.filter
      (·.fault.isUnusedFragment) = (Survey.ofDocument schema doc).unusedFragmentDiagnostics := by
    refine List.filter_eq_self.2 fun diagnostic hmem => ?_
    obtain ⟨frag, rfl⟩ := Survey.exists_fragment_of_mem hmem
    rfl
  rw [filter_diagnostics fun fault hfault => by simp [Fault.isOfUse, hfault], hfragments,
    Survey.filter_isUnusedFragment, List.nil_append, Survey.unusedFragmentDiagnostics_eq]
  refine congrArg _ (List.filter_congr fun frag hfrag => decide_eq_decide.2 ?_)
  rw [← map_fst_operations h, List.forall_mem_map]
  refine forall₂_congr fun entry hentry => not_congr ?_
  exact mem_reachable_iff h (mentioned_of_mem_operations h hentry) hfrag

end Whole

end Document

/-- The reports of use are exact, whatever else is wrong with the document, unless there are
selections beneath the name of a type.  A variable definition is reported as unused when no
variable in the text of its operation has its name; a variable in the text is reported where it
occurs when the operation does not define it; and a fragment is reported as unused when no
operation includes it. -/
theorem usage_reported (schema : Schema) (doc : Document)
    (h : ∀ diagnostic ∈ doc.diagnostics schema, ∀ type,
      diagnostic.fault ≠ .leafSelections "__typename" type) :
    ((doc.diagnostics schema).filter (·.fault.isUnusedVariable) =
      doc.operations.flatMap fun op =>
        (op.variableDefs.filter fun definition =>
          ∀ occurrence ∈ doc.occurrences op, occurrence.name ≠ definition.name).map
            op.unusedVariable) ∧
    ((doc.diagnostics schema).filter (·.fault.isUndefinedVariable)).Perm
      (doc.operations.flatMap fun op =>
        ((doc.occurrences op).filter fun occurrence => ¬ op.defines occurrence.name).map
          op.undefinedVariable) ∧
    (doc.diagnostics schema).filter (·.fault.isUnusedFragment) =
      doc.unusedFragments.map Fragment.unused := by
  have hwhole := Document.whole_visited h
  exact ⟨Document.unusedVariables_reported hwhole, Document.undefinedVariables_reported hwhole,
    Document.unusedFragments_reported hwhole⟩

namespace Usage

/-- One field without arguments. -/
def blueprint : Blueprint :=
  { queryType := some "Query"
    mutationType := none
    added :=
      [.object
        { name := "Query"
          description := none
          fields :=
            [("f",
              { name := "f"
                description := none
                type := .named "Int"
                arguments := []
                resolver := none })]
          interfaces := [] }] }

def schema : Schema := { queryType := "Query", mutationType := none, types := blueprint.table }

theorem build_blueprint : blueprint.build = .ok schema := by rfl

def head (location : Location) (name : String) (directives : List Directive) : FieldHead :=
  { location := location
    aliasName := none
    name := name
    arguments := []
    directives := directives }

/-- A directive that takes a variable. -/
def given (location : Location) (directive name : String) : Directive :=
  { location := location, name := directive, arguments := [("if", .var name)] }

def flag (column : Nat) (name : String) : VariableDefinition :=
  { location := { line := 1, column := column }
    name := name
    type := .nonNull (.named "Boolean")
    defaultValue := none }

def query (variableDefs : List VariableDefinition) (selections : List Selection) : Operation :=
  { location := { line := 1, column := 1 }
    kind := .query
    name := some "Q"
    variableDefs := variableDefs
    directives := []
    selections := selections }

def fragment (line : Nat) (name condition : String) (selections : List Selection) : Fragment :=
  { location := { line := line, column := 1 }
    name := name
    condition := condition
    directives := []
    selections := selections }

def here : Location := { line := 2, column := 3 }

def there : Location := { line := 5, column := 5 }

/-- An unknown field holds a spread, and a fragment on an unknown type an unknown variable. -/
def op : Operation :=
  query [flag 9 "used", flag 26 "spare"]
    [.field (head here "g" [given here "include" "used"]) [.spread here "Inner" []]]

def idle : Fragment := fragment 7 "Idle" "Query" [.field (head there "f" []) []]

def doc : Document :=
  { definitions :=
      [.operation op,
       .fragment (fragment 4 "Inner" "Nope"
         [.field (head there "h" [given there "omit" "lost"]) []]),
       .fragment idle] }

theorem diagnostics_doc :
    doc.diagnostics schema =
      [{ fault := .unknownField "g" "Query", locations := [here] },
       { fault := .unknownType "Nope", locations := [{ line := 4, column := 1 }] },
       { fault := .unknownDirective "omit", locations := [there] },
       op.undefinedVariable { name := "lost", location := there },
       op.unusedVariable (flag 26 "spare"),
       idle.unused] := by
  rfl

/-- The only use of the variable stands beneath the name of a type. -/
def reader : Operation :=
  query [flag 9 "v"]
    [.field (head here "__typename" []) [.field (head there "x" [given there "include" "v"]) []]]

def unread : Document := { definitions := [.operation reader] }

end Usage

/-- The unknown field and the unknown type do not keep the use from being seen. -/
theorem usage_reported_doc :
    (∀ occurrence ∈ Usage.doc.occurrences Usage.op, occurrence.name ≠ "spare") ∧
      ((Usage.doc.occurrences Usage.op).filter fun occurrence =>
        ¬ Usage.op.defines occurrence.name).map Usage.op.undefinedVariable =
          [Usage.op.undefinedVariable { name := "lost", location := Usage.there }] ∧
      Usage.doc.unusedFragments.map Fragment.unused = [Usage.idle.unused] := by
  have hwhole : ∀ diagnostic ∈ Usage.doc.diagnostics Usage.schema, ∀ type,
      diagnostic.fault ≠ .leafSelections "__typename" type := by
    rw [Usage.diagnostics_doc]
    simp [Operation.undefinedVariable, Operation.unusedVariable, Fragment.unused]
  obtain ⟨hunused, hundefined, hfragments⟩ := usage_reported Usage.schema Usage.doc hwhole
  rw [Usage.diagnostics_doc] at hunused hundefined hfragments
  have hoperations : Usage.doc.operations = [Usage.op] := rfl
  rw [hoperations, List.flatMap_singleton] at hunused hundefined
  have hspare : Usage.op.unusedVariable (Usage.flag 26 "spare") ∈
      [Usage.op.unusedVariable (Usage.flag 26 "spare")] := List.mem_cons_self
  replace hunused : [Usage.op.unusedVariable (Usage.flag 26 "spare")] = _ := hunused
  rw [hunused] at hspare
  exact ⟨Operation.ne_of_mem_unused hspare, (List.singleton_perm.1 hundefined).symm,
    hfragments.symm⟩

/-- Beneath the name of a type nothing is read, and so a variable that is used there, and nowhere
else, is reported as unused. -/
theorem usage_unread :
    ¬ ∀ (blueprint : Blueprint) (schema : Schema), blueprint.build = .ok schema →
      ∀ doc : Document, (doc.diagnostics schema).filter (·.fault.isUnusedVariable) =
        doc.operations.flatMap fun op =>
          (op.variableDefs.filter fun definition =>
            ∀ occurrence ∈ doc.occurrences op, occurrence.name ≠ definition.name).map
              op.unusedVariable := by
  intro hall
  have hreported := hall Usage.blueprint Usage.schema Usage.build_blueprint Usage.unread
  have hleft : (Usage.unread.diagnostics Usage.schema).filter (·.fault.isUnusedVariable) =
      [Usage.reader.unusedVariable (Usage.flag 9 "v")] := rfl
  have hoccurs : { name := "v", location := Usage.there } ∈
      Usage.unread.occurrences Usage.reader :=
    List.mem_append_left _ List.mem_cons_self
  have hoperations : Usage.unread.operations = [Usage.reader] := rfl
  rw [hleft, hoperations, List.flatMap_singleton] at hreported
  have hv : Usage.reader.unusedVariable (Usage.flag 9 "v") ∈
      [Usage.reader.unusedVariable (Usage.flag 9 "v")] := List.mem_cons_self
  rw [hreported] at hv
  exact Operation.ne_of_mem_unused hv _ hoccurs rfl

end TypedQuery
