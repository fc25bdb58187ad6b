import TypedQuery.Proofs.Validation.Reach
import TypedQuery.Validation.Basic
/-!
Documents with the same definitions in another order.  A definition is in order for what it is, for
what it spreads, and for having a name of its own; only the report of a repeated name and the walks
over fragments know an order, and neither has a say in whether anything is reported:
`Document.diagnostics_eq_nil_of_perm`.
-/

namespace TypedQuery

/-- What is found by a property that at most one member has is found in any order. -/
theorem filter_eq_of_perm {α : Type} {p : α → Bool} {items items' : List α}
    (hperm : items.Perm items') (h : items.Pairwise fun a b => p a = true → ¬ p b = true) :
    items'.filter p = items.filter p := by
  have hfilter : (items.filter p).Perm (items'.filter p) := hperm.filter p
  have hpairwise := h.filter p
  match hitems : items.filter p with
  | [] =>
    rw [hitems] at hfilter
    exact List.nil_perm.1 hfilter
  | [found] =>
    rw [hitems] at hfilter
    exact (List.singleton_perm.1 hfilter).symm
  | first :: second :: rest =>
    have hp {a : α} (ha : a ∈ items.filter p) : p a = true := (List.mem_filter.1 ha).2
    rw [hitems] at hpairwise hp
    exact absurd (hp (List.mem_cons_of_mem _ List.mem_cons_self))
      ((List.pairwise_cons.1 hpairwise).1 second List.mem_cons_self (hp List.mem_cons_self))

theorem find?_eq_of_perm {α : Type} {p : α → Bool} {items items' : List α}
    (hperm : items.Perm items') (h : items.Pairwise fun a b => p a = true → ¬ p b = true) :
    items'.find? p = items.find? p := by
  rw [← List.head?_filter, ← List.head?_filter, filter_eq_of_perm hperm h]

namespace Findings

theorem none_append (findings : Findings) : none ++ findings = findings := rfl

end Findings

/-! ## Names -/

/-- The definitions are not of one kind and one name.  Operations without a name are no matter of
this. -/
def Definition.Differs : Definition → Definition → Prop
  | .operation a, .operation b => a.name = none ∨ a.name ≠ b.name
  | .fragment a, .fragment b => a.name ≠ b.name
  | _, _ => True

theorem Definition.Differs.symm {a b : Definition} (h : a.Differs b) : b.Differs a := by
  cases a with
  | operation a =>
    cases b with
    | operation b =>
      rcases h with h | h
      · by_cases hb : b.name = none
        · exact .inl hb
        · exact .inr fun he => hb (he.trans h)
      · exact .inr (Ne.symm h)
    | fragment b => trivial
  | fragment a =>
    cases b with
    | operation b => trivial
    | fragment b => exact Ne.symm h

/-- An operation without a name stands alone. -/
def Document.Alone (doc : Document) : Definition → Prop
  | .operation op => op.name = none → doc.operations.length ≤ 1
  | .fragment _ => True

namespace Scope

variable {scope : Scope}

/-- What the visit finds of the name of a definition. -/
def visitName (doc : Document) (earlier : List Definition) : Definition → Findings
  | .operation op => visitOperationName doc earlier op
  | .fragment frag => visitFragmentName earlier frag

/-- What the visit finds of a definition apart from its name. -/
def visitOwn (scope : Scope) : Definition → Findings
  | .operation op => scope.visitOperation op
  | .fragment frag => scope.visitFragment frag

theorem visitDefinition_eq (doc : Document) (earlier : List Definition) (definition : Definition) :
    scope.visitDefinition doc earlier definition =
      visitName doc earlier definition ++ scope.visitOwn definition := by
  cases definition with
  | operation op => rfl
  | fragment frag => rfl

/-- A repeated name is reported where it first stands, so what is found is in order when it stands
nowhere. -/
theorem clean_repeated {first? : Option Location} {fault : Fault} {location : Location} :
    (match first? with
      | some first => Findings.ofFault fault [first, location]
      | none => .none).Clean ↔ first? = none := by
  cases first? with
  | none => exact iff_of_true Findings.clean_none rfl
  | some first => exact iff_of_false Findings.not_clean_ofFault nofun

theorem clean_visitOperationName {doc : Document} {earlier : List Definition} {op : Operation} :
    (visitOperationName doc earlier op).Clean ↔
      (∀ other ∈ earlier, other.Differs (.operation op)) ∧ doc.Alone (.operation op) := by
  unfold visitOperationName
  cases hname : op.name with
  | none =>
    have hdiffers : ∀ other ∈ earlier, other.Differs (.operation op) := by
      intro other _
      cases other with
      | operation other =>
        show other.name = none ∨ other.name ≠ op.name
        rw [hname]
        exact Classical.em _
      | fragment frag => trivial
    dsimp only
    by_cases halone : doc.operations.length ≤ 1
    · rw [decide_eq_false (Nat.not_lt.2 halone)]
      exact ⟨fun _ => ⟨hdiffers, fun _ => halone⟩, fun _ => Findings.clean_none⟩
    · rw [decide_eq_true (Nat.not_le.1 halone)]
      exact ⟨fun h => absurd h Findings.not_clean_ofFault, fun h => absurd (h.2 hname) halone⟩
  | some name =>
    have halone : doc.Alone (.operation op) := fun h => by rw [hname] at h; cases h
    rw [and_iff_left halone]
    refine clean_repeated.trans (List.findSome?_eq_none_iff.trans (forall₂_congr ?_))
    intro other _
    cases other with
    | operation other =>
      show (if other.name = some name then some other.location else none) = none ↔
        (other.name = none ∨ other.name ≠ op.name)
      rw [hname]
      by_cases hsame : other.name = some name
      · simp [hsame]
      · simp [hsame]
    | fragment frag => exact iff_of_true rfl trivial

theorem clean_visitFragmentName {earlier : List Definition} {frag : Fragment} :
    (visitFragmentName earlier frag).Clean ↔
      ∀ other ∈ earlier, other.Differs (.fragment frag) := by
  refine clean_repeated.trans (List.findSome?_eq_none_iff.trans (forall₂_congr ?_))
  intro other _
  cases other with
  | operation op => exact iff_of_true rfl trivial
  | fragment other =>
    show (if other.name = frag.name then some other.location else none) = none ↔
      other.name ≠ frag.name
    by_cases hsame : other.name = frag.name
    · simp [hsame]
    · simp [hsame]

/-- The name of a definition is in order when it differs from those before. -/
theorem clean_visitName {doc : Document} {earlier : List Definition} {definition : Definition} :
    (visitName doc earlier definition).Clean ↔
      (∀ other ∈ earlier, other.Differs definition) ∧ doc.Alone definition := by
  cases definition with
  | operation op => exact clean_visitOperationName
  | fragment frag =>
    rw [and_iff_left (show doc.Alone (.fragment frag) from trivial)]
    exact clean_visitFragmentName

/-- Nothing is found of a name that is in order, neither uses nor spreads. -/
theorem visitName_eq_none {doc : Document} {earlier : List Definition} {definition : Definition}
    (h : (visitName doc earlier definition).Clean) :
    visitName doc earlier definition = .none := by
  cases definition with
  | operation op =>
    change (visitOperationName doc earlier op).Clean at h
    show visitOperationName doc earlier op = .none
    unfold visitOperationName at h ⊢
    cases hname : op.name with
    | none =>
      rw [hname] at h
      dsimp only at h ⊢
      rw [Findings.clean_when h]
      rfl
    | some name =>
      rw [hname] at h
      dsimp only at h ⊢
      rw [clean_repeated.1 h]
  | fragment frag =>
    change (visitFragmentName earlier frag).Clean at h
    show visitFragmentName earlier frag = .none
    unfold visitFragmentName at h ⊢
    dsimp only at h ⊢
    rw [clean_repeated.1 h]

/-- The visit of the definitions is clean when their names differ and each is in order. -/
theorem clean_visitDefinitions {doc : Document} {earlier definitions : List Definition} :
    (∀ entry ∈ scope.visitDefinitions doc earlier definitions, entry.2.Clean) ↔
      (∀ other ∈ earlier, ∀ definition ∈ definitions, other.Differs definition) ∧
        definitions.Pairwise Definition.Differs ∧
          ∀ definition ∈ definitions, doc.Alone definition ∧
            (scope.visitOwn definition).Clean := by
  induction definitions generalizing earlier with
  | nil => simp [visitDefinitions]
  | cons first rest ih =>
    rw [visitDefinitions, List.forall_mem_cons, ih, visitDefinition_eq, Findings.clean_append,
      clean_visitName, List.pairwise_cons]
    simp only [List.forall_mem_cons, List.forall_mem_append, List.not_mem_nil, false_imp_iff,
      implies_true, and_true]
    constructor
    · rintro ⟨⟨⟨hfirst, halone⟩, hown⟩, ⟨hearlier, hlater⟩, hrest, hall⟩
      exact ⟨fun other hother => ⟨hfirst other hother, hearlier other hother⟩, ⟨hlater, hrest⟩,
        ⟨halone, hown⟩, hall⟩
    · rintro ⟨hearlier, ⟨hlater, hrest⟩, ⟨halone, hown⟩, hall⟩
      exact ⟨⟨⟨fun other hother => (hearlier other hother).1, halone⟩, hown⟩,
        ⟨fun other hother => (hearlier other hother).2, hlater⟩, hrest, hall⟩

/-- A clean visit finds of each definition what there is apart from its name. -/
theorem visitDefinitions_eq_map {doc : Document} {earlier definitions : List Definition}
    (h : ∀ entry ∈ scope.visitDefinitions doc earlier definitions, entry.2.Clean) :
    scope.visitDefinitions doc earlier definitions =
      definitions.map fun definition => (definition, scope.visitOwn definition) := by
  induction definitions generalizing earlier with
  | nil => rfl
  | cons first rest ih =>
    rw [visitDefinitions, List.forall_mem_cons, visitDefinition_eq, Findings.clean_append] at h
    obtain ⟨⟨hname, -⟩, hrest⟩ := h
    rw [visitDefinitions, ih hrest, visitDefinition_eq, visitName_eq_none hname, List.map_cons,
      Findings.none_append]

/-! ## Other fragments -/

def withFragments (fragments : List Fragment) (scope : Scope) : Scope :=
  { scope with fragments := fragments }

variable {fragments : List Fragment}

theorem visitVariables_withFragments (earlier definitions : List VariableDefinition) :
    (scope.withFragments fragments).visitVariables earlier definitions =
      scope.visitVariables earlier definitions := by
  induction definitions generalizing earlier with
  | nil => rfl
  | cons first rest ih =>
    rw [visitVariables, visitVariables, ih]
    rfl

/-- The fragments of the names are the same, wherever they stand. -/
def SameFragments (scope : Scope) (fragments : List Fragment) : Prop :=
  ∀ name, (scope.withFragments fragments).fragment? name = scope.fragment? name

theorem visitSpread_withFragments (h : scope.SameFragments fragments) (parent : Option String)
    (location : Location) (name : String) :
    (scope.withFragments fragments).visitSpread parent location name =
      scope.visitSpread parent location name := by
  unfold visitSpread
  rw [h]
  rfl

mutual

/-- A visit looks at a fragment only where it is spread. -/
theorem visitSelection_withFragments (h : scope.SameFragments fragments) (parent : Option String) :
    ∀ selection : Selection,
    (scope.withFragments fragments).visitSelection parent selection =
      scope.visitSelection parent selection
  | .field head selections => by
    simp only [visitSelection, visitSelections_withFragments h _ selections]
    rfl
  | .spread location name directives => by
    rw [visitSelection, visitSelection, visitSpread_withFragments h]
    rfl
  | .inline location condition directives selections => by
    simp only [visitSelection, visitSelections_withFragments h _ selections]
    rfl

theorem visitSelections_withFragments (h : scope.SameFragments fragments)
    (parent : Option String) : ∀ selections : List Selection,
    (scope.withFragments fragments).visitSelections parent selections =
      scope.visitSelections parent selections
  | [] => by rw [visitSelections, visitSelections]
  | first :: rest => by
    rw [visitSelections, visitSelections, visitSelection_withFragments h parent first,
      visitSelections_withFragments h parent rest]

end

theorem visitOwn_withFragments (h : scope.SameFragments fragments) (definition : Definition) :
    (scope.withFragments fragments).visitOwn definition = scope.visitOwn definition := by
  cases definition with
  | operation op =>
    show (scope.withFragments fragments).visitOperation op = scope.visitOperation op
    rw [visitOperation, visitOperation, visitVariables_withFragments,
      visitSelections_withFragments h]
    rfl
  | fragment frag =>
    show (scope.withFragments fragments).visitFragment frag = scope.visitFragment frag
    rw [visitFragment, visitFragment]
    simp only [visitSelections_withFragments h]
    rfl

end Scope

/-! ## Surveys -/

namespace Survey

/-- The surveys are of the same definitions, in whatever order. -/
structure Alike (survey survey' : Survey) : Prop where
  schema : survey'.scope.schema = survey.scope.schema
  fragments : survey.scope.fragments.Perm survey'.scope.fragments
  visited : survey.visited.Perm survey'.visited
  findings : survey'.fragmentFindings = survey.fragmentFindings

namespace Alike

variable {survey survey' : Survey} (h : survey.Alike survey')

include h

theorem isDefined : survey'.isDefined = survey.isDefined := by
  funext name
  rw [Bool.eq_iff_iff, isDefined_iff, isDefined_iff]
  exact (h.fragments.map (·.name)).mem_iff.symm

theorem targets : survey'.targets = survey.targets := by
  funext findings
  unfold Survey.targets
  rw [h.isDefined]

theorem follows : survey'.Follows = survey.Follows := by
  funext next name
  unfold Follows
  rw [h.targets, h.findings]

theorem mem_reachable {findings : Findings} {name : String} :
    name ∈ survey'.reachable findings ↔ name ∈ survey.reachable findings := by
  have hleads : survey'.Leads = survey.Leads := by
    funext name next
    unfold Leads
    rw [h.follows]
  rw [Survey.mem_reachable, Survey.mem_reachable, h.targets, hleads]

theorem mem_uses {findings : Findings} {use : VariableUse} :
    use ∈ survey'.uses findings ↔ use ∈ survey.uses findings := by
  unfold Survey.uses
  rw [h.findings]
  simp only [List.mem_append, List.mem_flatMap, h.mem_reachable]

theorem cycleDiagnostics_eq_nil_iff :
    survey'.cycleDiagnostics = [] ↔ survey.cycleDiagnostics = [] := by
  rw [Survey.cycleDiagnostics_eq_nil_iff, Survey.cycleDiagnostics_eq_nil_iff, h.isDefined,
    h.follows]

theorem operations : survey.operations.Perm survey'.operations := h.visited.filterMap _

theorem variableDiagnostics_eq_nil_iff :
    survey'.variableDiagnostics = [] ↔ survey.variableDiagnostics = [] := by
  have hunused (op : Operation) (findings : Findings) (definition : VariableDefinition) :
      unusedDiagnostic? op (survey'.uses findings) definition =
        unusedDiagnostic? op (survey.uses findings) definition := by
    have hany : ((survey'.uses findings).any fun use => use.name == definition.name) =
        (survey.uses findings).any fun use => use.name == definition.name := by
      rw [Bool.eq_iff_iff, List.any_eq_true, List.any_eq_true]
      simp only [h.mem_uses]
    unfold unusedDiagnostic?
    rw [hany]
  unfold variableDiagnostics
  simp only [List.flatMap_eq_nil_iff, List.append_eq_nil_iff, List.filterMap_eq_nil_iff, h.mem_uses,
    h.schema, hunused]
  exact forall_congr' fun _ => imp_congr h.operations.mem_iff.symm Iff.rfl

theorem contains_reachable (name : String) :
    (survey'.operations.flatMap fun (_, findings) => survey'.reachable findings).contains name =
      (survey.operations.flatMap fun (_, findings) => survey.reachable findings).contains name := by
  rw [Bool.eq_iff_iff, List.contains_iff_mem, List.contains_iff_mem, List.mem_flatMap,
    List.mem_flatMap]
  simp only [h.mem_reachable]
  exact exists_congr fun _ => and_congr_left fun _ => h.operations.mem_iff.symm

theorem unusedFragmentDiagnostics_eq_nil_iff :
    survey'.unusedFragmentDiagnostics = [] ↔ survey.unusedFragmentDiagnostics = [] := by
  unfold unusedFragmentDiagnostics
  simp only [List.filterMap_eq_nil_iff, h.contains_reachable]
  exact forall_congr' fun _ => imp_congr h.fragments.mem_iff.symm Iff.rfl

end Alike

/-- The findings of a fragment in a survey of definitions that were visited on their own. -/
theorem fragmentFindings_eq (scope : Scope) (definitions : List Definition) (name : String) :
    fragmentFindings
        { scope := scope
          visited := definitions.map fun definition => (definition, scope.visitOwn definition) }
        name =
      .concat (((Document.mk definitions).fragments.filter fun frag => frag.name == name).map
        scope.visitFragment) := by
  refine congrArg Findings.concat ?_
  show List.filterMap _ (definitions.map _) = _
  induction definitions with
  | nil => rfl
  | cons first rest ih =>
    rw [List.map_cons, List.filterMap_cons, ih]
    cases first with
    | operation op => rfl
    | fragment frag =>
      have hfragments : (Document.mk (.fragment frag :: rest)).fragments =
          frag :: (Document.mk rest).fragments := rfl
      rw [hfragments, List.filter_cons]
      by_cases hname : frag.name = name
      · simp [hname, Scope.visitOwn]
      · simp [hname]

end Survey

/-! ## Documents -/

namespace Document

variable {doc doc' : Document} (hperm : doc.definitions.Perm doc'.definitions)

include hperm

theorem perm_operations : doc.operations.Perm doc'.operations := hperm.filterMap _

theorem perm_fragments : doc.fragments.Perm doc'.fragments := hperm.filterMap _

theorem alone_iff {definition : Definition} : doc'.Alone definition ↔ doc.Alone definition := by
  cases definition with
  | operation op =>
    unfold Alone
    rw [(perm_operations hperm).length_eq]
  | fragment frag => exact Iff.rfl

omit hperm in
/-- Definitions that differ hold no two fragments of one name. -/
theorem pairwise_fragments (h : doc.definitions.Pairwise Definition.Differs) (name : String) :
    doc.fragments.Pairwise fun a b => (a.name == name) = true → ¬ (b.name == name) = true := by
  refine h.filterMap _ fun a b hdiffers frag hfrag other hother => ?_
  cases a with
  | operation op => cases hfrag
  | fragment a =>
    cases b with
    | operation op => cases hother
    | fragment b =>
      obtain rfl := Option.some.inj hfrag
      obtain rfl := Option.some.inj hother
      rw [beq_iff_eq, beq_iff_eq]
      exact fun ha hb => hdiffers (ha.trans hb.symm)

omit hperm in
/-- Definitions that differ hold no two operations of one name. -/
theorem pairwise_operations (h : doc.definitions.Pairwise Definition.Differs) (name : String) :
    doc.operations.Pairwise fun a b =>
      (a.name == some name) = true → ¬ (b.name == some name) = true := by
  refine h.filterMap _ fun a b hdiffers op hop other hother => ?_
  cases a with
  | fragment frag => cases hop
  | operation a =>
    cases b with
    | fragment frag => cases hother
    | operation b =>
      obtain rfl := Option.some.inj hop
      obtain rfl := Option.some.inj hother
      rw [beq_iff_eq, beq_iff_eq]
      intro ha hb
      rcases hdiffers with hnone | hne
      · rw [ha] at hnone
        cases hnone
      · exact hne (ha.trans hb.symm)

omit hperm in
/-- A document in order has definitions that differ, and each is in order on its own. -/
theorem clean_visited_iff {schema : Schema} :
    (∀ entry ∈ (Survey.ofDocument schema doc).visited, entry.2.Clean) ↔
      doc.definitions.Pairwise Definition.Differs ∧ ∀ definition ∈ doc.definitions,
        doc.Alone definition ∧ ((doc.scope schema).visitOwn definition).Clean := by
  refine Scope.clean_visitDefinitions.trans ?_
  exact and_iff_right fun other h => absurd h List.not_mem_nil

theorem sameFragments_of_perm {schema : Schema}
    (h : doc.definitions.Pairwise Definition.Differs) :
    (doc.scope schema).SameFragments doc'.fragments :=
  fun name => find?_eq_of_perm (perm_fragments hperm) (pairwise_fragments h name)

/-- A document in order is in order after its definitions have changed places, and the two surveys
are alike. -/
theorem alike_of_perm {schema : Schema}
    (h : ∀ entry ∈ (Survey.ofDocument schema doc).visited, entry.2.Clean) :
    (Survey.ofDocument schema doc).Alike (Survey.ofDocument schema doc') ∧
      ∀ entry ∈ (Survey.ofDocument schema doc').visited, entry.2.Clean := by
  obtain ⟨hdiffer, hown⟩ := clean_visited_iff.1 h
  have hsame : (doc.scope schema).SameFragments doc'.fragments :=
    sameFragments_of_perm hperm hdiffer
  have hvisit : (doc'.scope schema).visitOwn = (doc.scope schema).visitOwn :=
    funext (Scope.visitOwn_withFragments hsame)
  have hclean : ∀ entry ∈ (Survey.ofDocument schema doc').visited, entry.2.Clean := by
    refine clean_visited_iff.2 ⟨(hperm.pairwise_iff Definition.Differs.symm).1 hdiffer, ?_⟩
    intro definition hmem
    obtain ⟨halone, hclean⟩ := hown definition (hperm.mem_iff.2 hmem)
    rw [hvisit]
    exact ⟨(alone_iff hperm).2 halone, hclean⟩
  have hvisited : (Survey.ofDocument schema doc).visited =
      doc.definitions.map fun definition => (definition, (doc.scope schema).visitOwn definition) :=
    Scope.visitDefinitions_eq_map h
  have hvisited' : (Survey.ofDocument schema doc').visited =
      doc'.definitions.map fun definition =>
        (definition, (doc.scope schema).visitOwn definition) := by
    rw [← hvisit]
    exact Scope.visitDefinitions_eq_map hclean
  refine ⟨⟨rfl, perm_fragments hperm, ?_, funext fun name => ?_⟩, hclean⟩
  · rw [hvisited, hvisited']
    exact hperm.map _
  · have hfindings := Survey.fragmentFindings_eq (doc.scope schema) doc.definitions name
    have hfindings' := Survey.fragmentFindings_eq (doc.scope schema) doc'.definitions name
    have hfilter : (doc'.fragments.filter fun frag => frag.name == name) =
        doc.fragments.filter fun frag => frag.name == name :=
      filter_eq_of_perm (perm_fragments hperm) (pairwise_fragments hdiffer name)
    unfold Survey.fragmentFindings at hfindings hfindings' ⊢
    rw [hvisited, hvisited']
    have hconcat := congrArg
      (fun frags : List Fragment => Findings.concat (frags.map (doc.scope schema).visitFragment))
      hfilter
    exact hfindings'.trans (hconcat.trans hfindings.symm)

/-- Where nothing is wrong with a document, nothing is wrong with the same definitions in another
order. -/
theorem diagnostics_eq_nil_of_perm {schema : Schema} (h : doc.diagnostics schema = []) :
    doc'.diagnostics schema = [] := by
  unfold diagnostics at h ⊢
  simp only [List.append_eq_nil_iff] at h ⊢
  obtain ⟨⟨⟨hvisited, hvariables⟩, hcycles⟩, hunused⟩ := h
  obtain ⟨halike, hclean⟩ := alike_of_perm hperm (List.flatMap_eq_nil_iff.1 hvisited)
  exact ⟨⟨⟨List.flatMap_eq_nil_iff.2 hclean, halike.variableDiagnostics_eq_nil_iff.2 hvariables⟩,
    halike.cycleDiagnostics_eq_nil_iff.2 hcycles⟩,
    halike.unusedFragmentDiagnostics_eq_nil_iff.2 hunused⟩

omit hperm in
/-- The definitions of a document in order differ. -/
theorem pairwise_differs {schema : Schema} (h : doc.diagnostics schema = []) :
    doc.definitions.Pairwise Definition.Differs :=
  (clean_visited_iff.1 (diagnostics_eq_nil h).1).1

/-- From definitions that differ, the same operation is chosen in any order. -/
theorem select_eq_of_perm (h : doc.definitions.Pairwise Definition.Differs)
    (operation : Option String) : doc'.select operation = doc.select operation := by
  have hoperations := perm_operations hperm
  cases operation with
  | some name =>
    unfold select
    dsimp only
    rw [find?_eq_of_perm hoperations (pairwise_operations h name)]
  | none =>
    unfold select
    dsimp only
    match hops : doc.operations with
    | [] =>
      rw [hops] at hoperations
      rw [← List.nil_perm.1 hoperations]
    | [op] =>
      rw [hops] at hoperations
      rw [← List.singleton_perm.1 hoperations]
    | first :: second :: rest =>
      -- no choice is made among several
      have hlength := hoperations.length_eq
      match hops' : doc'.operations with
      | [] =>
        rw [hops, hops'] at hlength
        cases hlength
      | [op] =>
        rw [hops, hops'] at hlength
        cases hlength
      | _ :: _ :: _ => rfl

end Document

/-- A request without errors has none when the definitions of its document change places. -/
theorem Schema.validate_eq_nil_of_perm {schema : Schema} {doc doc' : Document}
    (hperm : doc.definitions.Perm doc'.definitions) {operation : Option String}
    {inputs : Json.Fields} (h : schema.validate doc operation inputs = []) :
    schema.validate doc' operation inputs = [] := by
  have hdoc : doc.diagnostics schema = [] :=
    List.map_eq_nil_iff.1 (List.append_eq_nil_iff.1 h).1
  have hdoc' := Document.diagnostics_eq_nil_of_perm hperm hdoc
  unfold validate at h ⊢
  rw [hdoc', Document.select_eq_of_perm hperm (Document.pairwise_differs hdoc)]
  rw [hdoc] at h
  exact h

end TypedQuery
