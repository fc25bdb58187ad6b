import TypedQuery.Proofs.Coercion.Literals
import TypedQuery.Proofs.Validation.Visit
/-!
What stands in a text: its variables and its spreads, each in order and as often as they occur.  The
visit records them wherever it goes, whatever else it finds (`Scope.mentioned_visitSelections`).
There is one place where it does not go: beneath the name of a type, which has no selections, it
reports those that it has and leaves them unread.
-/

namespace TypedQuery

/-! ## Texts -/

/-- A variable in a text.  The place is that of the field or directive that takes the value. -/
structure Occurrence where
  name : String
  location : Location
  deriving DecidableEq, Repr

structure Mentioned where
  occurrences : List Occurrence
  spreads : List Spread

namespace Mentioned

def none : Mentioned := { occurrences := [], spreads := [] }

def ofOccurrences (occurrences : List Occurrence) : Mentioned :=
  { occurrences := occurrences, spreads := [] }

def ofSpread (spread : Spread) : Mentioned := { occurrences := [], spreads := [spread] }

def append (a b : Mentioned) : Mentioned :=
  { occurrences := a.occurrences ++ b.occurrences, spreads := a.spreads ++ b.spreads }

instance : Append Mentioned := ⟨append⟩

def concat (parts : List Mentioned) : Mentioned := parts.foldr append none

/-- The names of the fragments that are spread. -/
def fragments (mentioned : Mentioned) : List String := mentioned.spreads.map Spread.fragment

@[simp] theorem fragments_append (a b : Mentioned) :
    (a ++ b).fragments = a.fragments ++ b.fragments := List.map_append

@[simp] theorem none_append (a : Mentioned) : none ++ a = a := rfl

@[simp] theorem append_none (a : Mentioned) : a ++ none = a := by
  show ({ occurrences := _, spreads := _ } : Mentioned) = _
  rw [none, List.append_nil, List.append_nil]

theorem occurrences_concat (parts : List Mentioned) :
    (concat parts).occurrences = parts.flatMap (·.occurrences) := by
  induction parts with
  | nil => rfl
  | cons first rest ih => rw [List.flatMap_cons, ← ih]; rfl

theorem fragments_concat (parts : List Mentioned) :
    (concat parts).fragments = parts.flatMap (·.fragments) := by
  induction parts with
  | nil => rfl
  | cons first rest ih => rw [List.flatMap_cons, ← ih]; exact fragments_append first (concat rest)

theorem concat_ofOccurrences {α : Type} (occurrences : α → List Occurrence) (items : List α) :
    concat (items.map fun item => ofOccurrences (occurrences item)) =
      ofOccurrences (items.flatMap occurrences) := by
  induction items with
  | nil => rfl
  | cons first rest ih =>
    rw [List.map_cons, List.flatMap_cons]
    exact congrArg (ofOccurrences (occurrences first) ++ ·) ih

end Mentioned

/-- The variables in a value. -/
def Literal.occurrences (location : Location) (literal : Literal) : List Occurrence :=
  literal.variableNames.map fun name => { name := name, location := location }

def argumentOccurrences (location : Location) (arguments : List (String × Literal)) :
    List Occurrence :=
  arguments.flatMap fun argument => argument.2.occurrences location

def Directive.occurrences (directive : Directive) : List Occurrence :=
  argumentOccurrences directive.location directive.arguments

def directivesMentioned (directives : List Directive) : Mentioned :=
  .ofOccurrences (directives.flatMap Directive.occurrences)

mutual

def Selection.mentioned : Selection → Mentioned
  | .field head selections =>
    directivesMentioned head.directives ++
      (.ofOccurrences (argumentOccurrences head.location head.arguments) ++
        mentionedIn selections)
  | .spread location fragment directives =>
    directivesMentioned directives ++ .ofSpread { fragment := fragment, location := location }
  | .inline _ _ directives selections =>
    directivesMentioned directives ++ mentionedIn selections

def mentionedIn : List Selection → Mentioned
  | [] => .none
  | first :: rest => first.mentioned ++ mentionedIn rest

end

def Operation.mentioned (op : Operation) : Mentioned :=
  directivesMentioned op.directives ++ mentionedIn op.selections

def Fragment.mentioned (frag : Fragment) : Mentioned :=
  directivesMentioned frag.directives ++ mentionedIn frag.selections

def Definition.mentioned : Definition → Mentioned
  | .operation op => op.mentioned
  | .fragment frag => frag.mentioned

mutual

theorem mentions_selection_iff {name : String} : ∀ selection : Selection,
    Mentions name [selection] ↔ name ∈ selection.mentioned.fragments
  | .field head selections => by
    rw [mentions_field, mentions_iff selections]
    rfl
  | .spread location fragment directives => by
    have hfragments : (Selection.spread location fragment directives).mentioned.fragments =
        [fragment] := rfl
    rw [hfragments, List.mem_singleton]
    constructor
    · rintro (h | ⟨h, -⟩ | ⟨h, -⟩)
      · exact (Selection.spread.inj (List.mem_singleton.1 h)).2.1
      · cases List.mem_singleton.1 h
      · cases List.mem_singleton.1 h
    · rintro rfl
      exact .spread List.mem_cons_self
  | .inline location condition directives selections => by
    rw [mentions_inline, mentions_iff selections]
    rfl

/-- What is mentioned is what some spread in the text names. -/
theorem mentions_iff {name : String} : ∀ selections : List Selection,
    Mentions name selections ↔ name ∈ (mentionedIn selections).fragments
  | [] => iff_of_false (not_mentions_nil name) List.not_mem_nil
  | first :: rest => by
    rw [mentions_cons, mentions_selection_iff first, mentions_iff rest, mentionedIn,
      Mentioned.fragments_append, List.mem_append]

end

/-! ## Findings -/

def VariableUse.occurrence (use : VariableUse) : Occurrence :=
  { name := use.name, location := use.location }

namespace Findings

/-- The variables and spreads that were recorded. -/
def mentioned (findings : Findings) : Mentioned :=
  { occurrences := findings.uses.map VariableUse.occurrence, spreads := findings.spreads }

@[simp] theorem mentioned_none : none.mentioned = .none := rfl

@[simp] theorem mentioned_ofFault (fault : Fault) (locations : List Location) :
    (ofFault fault locations).mentioned = .none := rfl

@[simp] theorem mentioned_ofUses (uses : List VariableUse) :
    (ofUses uses).mentioned = .ofOccurrences (uses.map VariableUse.occurrence) := rfl

@[simp] theorem mentioned_ofSpread (spread : Spread) :
    (ofSpread spread).mentioned = .ofSpread spread := rfl

@[simp] theorem mentioned_when (condition : Bool) (fault : Fault) (locations : List Location) :
    (when condition fault locations).mentioned = .none := by
  cases condition <;> rfl

@[simp] theorem mentioned_append (a b : Findings) :
    (a ++ b).mentioned = a.mentioned ++ b.mentioned := by
  show ({ occurrences := _, spreads := _ } : Mentioned) = { occurrences := _, spreads := _ }
  congr 1
  exact List.map_append

theorem mentioned_append_none {a b : Findings} (ha : a.mentioned = .none)
    (hb : b.mentioned = .none) : (a ++ b).mentioned = .none := by
  rw [mentioned_append, ha, hb, Mentioned.none_append]

theorem mentioned_concat (parts : List Findings) :
    (concat parts).mentioned = .concat (parts.map mentioned) := by
  induction parts with
  | nil => rfl
  | cons first rest ih =>
    rw [List.map_cons]
    exact (mentioned_append first (concat rest)).trans (congrArg (first.mentioned ++ ·) ih)

theorem mentioned_concat_map {α : Type} {items : List α} {visit : α → Findings}
    {occurrences : α → List Occurrence}
    (h : ∀ item, (visit item).mentioned = .ofOccurrences (occurrences item)) :
    (concat (items.map visit)).mentioned = .ofOccurrences (items.flatMap occurrences) := by
  have hvisit : mentioned ∘ visit = fun item => .ofOccurrences (occurrences item) := funext h
  rw [mentioned_concat, List.map_map, hvisit, Mentioned.concat_ofOccurrences]

/-- A visit of nothing but what is not there records nothing. -/
theorem mentioned_concat_none {α : Type} {items : List α} {visit : α → Findings}
    (h : ∀ item, (visit item).mentioned = .none) :
    (concat (items.map visit)).mentioned = .none := by
  have hnone : (concat (items.map visit)).mentioned = .ofOccurrences (items.flatMap fun _ => []) :=
    mentioned_concat_map h
  rw [hnone, List.flatMap_eq_nil_iff.2 fun _ _ => rfl]
  rfl

/-- Every fault that was found is of a kind. -/
def All (P : Fault → Prop) (findings : Findings) : Prop :=
  ∀ diagnostic ∈ findings.diagnostics, P diagnostic.fault

variable {P : Fault → Prop}

theorem all_none : none.All P := fun _ hmem => absurd hmem List.not_mem_nil

theorem all_append {a b : Findings} : (a ++ b).All P ↔ a.All P ∧ b.All P :=
  List.forall_mem_append

/-- No selections beneath the name of a type were found and left unread. -/
def Whole : Findings → Prop := All fun fault => ∀ type, fault ≠ .leafSelections "__typename" type

theorem Clean.whole {findings : Findings} (h : findings.Clean) : findings.Whole := by
  intro diagnostic hmem
  rw [show findings.diagnostics = [] from h] at hmem
  cases hmem

theorem whole_append {a b : Findings} : (a ++ b).Whole ↔ a.Whole ∧ b.Whole := all_append

theorem whole_when {condition : Bool} {type : String} {locations : List Location}
    (h : (when condition (.leafSelections "__typename" type) locations).Whole) :
    condition = false := by
  cases condition with
  | false => rfl
  | true => exact absurd rfl (h _ List.mem_cons_self type)

end Findings

/-! ## The visit -/

namespace Literal

theorem occurrences_untypedUses (location : Location) (literal : Literal) :
    (literal.untypedUses location).map VariableUse.occurrence = literal.occurrences location := by
  unfold untypedUses occurrences
  rw [List.map_map]
  rfl

theorem occurrences_eq_nil {literal : Literal} (h : literal.hasVariable = false)
    (location : Location) : literal.occurrences location = [] := by
  rw [occurrences, variableNames_eq_nil h]
  rfl

mutual

/-- Whatever type is expected of a value, the uses are of the variables in it. -/
theorem occurrences_typedUses (schema : Schema) (location : Location) (type : TypeExpr)
    (hasDefault : Bool) : ∀ literal : Literal,
    (literal.typedUses schema location type hasDefault).1.map VariableUse.occurrence =
      literal.occurrences location
  | list items => by
    have hitems (item : TypeExpr) := occurrences_typedUsesItems schema location item items
    by_cases hconstant : (list items).hasVariable = false
    · rw [typedUses_of_constant hconstant, occurrences_eq_nil hconstant]
      rfl
    · rw [typedUses, if_neg (by simpa using hconstant)]
      split
      · exact hitems _
      · exact occurrences_untypedUses location (list items)
  | object fields => by
    by_cases hconstant : (object fields).hasVariable = false
    · rw [typedUses_of_constant hconstant, occurrences_eq_nil hconstant]
      rfl
    · rw [typedUses, if_neg (by simpa using hconstant)]
      · exact occurrences_untypedUses location (object fields)
      · exact fun _ h => Literal.noConfusion h
      · exact fun _ h => Literal.noConfusion h
  | var _ | int _ | float _ | str _ | bool _ | null | enum _ => rfl

theorem occurrences_typedUsesItems (schema : Schema) (location : Location) (type : TypeExpr) :
    ∀ items : List Literal,
    (typedUsesItems schema location type items).1.map VariableUse.occurrence =
      (list items).occurrences location
  | [] => rfl
  | first :: rest => by
    have hsplit : (list (first :: rest)).occurrences location =
        first.occurrences location ++ (list rest).occurrences location := List.map_append
    rw [hsplit, ← occurrences_typedUses schema location type false first,
      ← occurrences_typedUsesItems schema location type rest, ← List.map_append]
    rfl

end

end Literal

namespace Scope

variable {scope : Scope}

theorem mentioned_untyped (location : Location) (arguments : List (String × Literal)) :
    (untyped location arguments).mentioned =
      .ofOccurrences (argumentOccurrences location arguments) := by
  rw [untyped, Findings.mentioned_ofUses, List.map_flatMap]
  simp only [Literal.occurrences_untypedUses]
  rfl

theorem mentioned_visitValue (location : Location) (name : String) (type : TypeExpr)
    (hasDefault : Bool) (literal : Literal) :
    (scope.visitValue location name type hasDefault literal).mentioned =
      .ofOccurrences (literal.occurrences location) := by
  rw [visitValue, Findings.mentioned_append, Findings.mentioned_when, Mentioned.append_none,
    Findings.mentioned_ofUses, Literal.occurrences_typedUses]

theorem mentioned_visitArgument (parent : String) (field : FieldDef) (head : FieldHead)
    (argument : String × Literal) :
    (scope.visitArgument parent field head argument).mentioned =
      .ofOccurrences (argument.2.occurrences head.location) := by
  unfold visitArgument
  dsimp only
  split
  · exact mentioned_visitValue _ _ _ _ _
  · rw [Findings.mentioned_append, Findings.mentioned_ofFault, Mentioned.none_append,
      Findings.mentioned_ofUses, Literal.occurrences_untypedUses]

theorem mentioned_visitArguments (parent : String) (field : FieldDef) (head : FieldHead) :
    (scope.visitArguments parent field head).mentioned =
      .ofOccurrences (argumentOccurrences head.location head.arguments) := by
  have hmissing : (Findings.concat (field.arguments.values.map (missingArgument head))).mentioned =
      .none := Findings.mentioned_concat_none fun _ => Findings.mentioned_when _ _ _
  rw [visitArguments, Findings.mentioned_append, hmissing, Mentioned.append_none]
  exact Findings.mentioned_concat_map (mentioned_visitArgument parent field head)

theorem mentioned_visitDirectiveArgument (directive : Directive) (argument : String × Literal) :
    (scope.visitDirectiveArgument directive argument).mentioned =
      .ofOccurrences (argument.2.occurrences directive.location) := by
  unfold visitDirectiveArgument
  dsimp only
  split
  · exact mentioned_visitValue _ _ _ _ _
  · rw [Findings.mentioned_append, Findings.mentioned_ofFault, Mentioned.none_append,
      Findings.mentioned_ofUses, Literal.occurrences_untypedUses]

theorem mentioned_visitDirective (directive : Directive) :
    (scope.visitDirective directive).mentioned = .ofOccurrences directive.occurrences := by
  unfold visitDirective
  split
  · rw [Findings.mentioned_append, Findings.mentioned_when, Mentioned.append_none]
    exact Findings.mentioned_concat_map (mentioned_visitDirectiveArgument directive)
  · rw [Findings.mentioned_append, Findings.mentioned_ofFault, Mentioned.none_append,
      mentioned_untyped]
    rfl

theorem mentioned_visitDirectives (directives : List Directive) :
    (scope.visitDirectives directives).mentioned = directivesMentioned directives :=
  Findings.mentioned_concat_map mentioned_visitDirective

theorem mentioned_visitOverlap (fragment parent : Option String) (condition : String)
    (location : Location) :
    (scope.visitOverlap fragment parent condition location).mentioned = .none := by
  cases parent with
  | none => rfl
  | some parent => exact Findings.mentioned_when _ _ _

theorem mentioned_visitCondition (fragment : Option String) (condition : String)
    (location : Location) :
    (scope.visitCondition fragment condition location).1.mentioned = .none := by
  unfold visitCondition
  split
  · rfl
  · split <;> rfl

theorem mentioned_visitSpread (parent : Option String) (location : Location) (name : String) :
    (scope.visitSpread parent location name).mentioned =
      .ofSpread { fragment := name, location := location } := by
  unfold visitSpread
  rw [Findings.mentioned_append, Findings.mentioned_ofSpread]
  split
  · exact Mentioned.append_none _
  · split
    · rw [mentioned_visitOverlap, Mentioned.append_none]
    · exact Mentioned.append_none _

section Below

variable {selections : List Selection}
  (hbelow : ∀ parent, (scope.visitSelections parent selections).Whole →
    (scope.visitSelections parent selections).mentioned = mentionedIn selections)

include hbelow

/-- A field beneath what could not be typed. -/
theorem mentioned_field_untyped {head : FieldHead}
    (h : (scope.visitSelection none (.field head selections)).Whole) :
    (scope.visitSelection none (.field head selections)).mentioned =
      (Selection.field head selections).mentioned := by
  rw [visitSelection] at h ⊢
  simp only [Findings.whole_append] at h
  rw [Findings.mentioned_append, Findings.mentioned_append, mentioned_visitDirectives,
    mentioned_untyped, hbelow none h.2.2, Selection.mentioned]

theorem mentioned_field {parent : String} {head : FieldHead}
    (h : (scope.visitSelection (some parent) (.field head selections)).Whole) :
    (scope.visitSelection (some parent) (.field head selections)).mentioned =
      (Selection.field head selections).mentioned := by
  rw [visitSelection] at h ⊢
  rw [Findings.mentioned_append, mentioned_visitDirectives, Selection.mentioned]
  congr 1
  by_cases hname : head.name = "__typename"
  · -- there is nothing beneath that could be left unread
    rw [if_pos hname, hname] at h
    simp only [Findings.whole_append] at h
    have hempty : selections = [] := by simpa using Findings.whole_when h.2.2
    rw [if_pos hname, Findings.mentioned_append, mentioned_untyped, Findings.mentioned_when,
      hempty, mentionedIn]
  · rw [if_neg hname] at h ⊢
    cases hfield : scope.schema.field? parent head.name with
    | none =>
      rw [hfield] at h
      simp only [Findings.whole_append] at h
      rw [Findings.mentioned_append, Findings.mentioned_append, Findings.mentioned_ofFault,
        Mentioned.none_append, mentioned_untyped, hbelow none h.2.2]
    | some field =>
      rw [hfield] at h
      dsimp only at h ⊢
      rw [Findings.mentioned_append, mentioned_visitArguments]
      by_cases hleaf : scope.schema.isLeaf field.type.base = true
      · rw [if_pos hleaf] at h ⊢
        simp only [Findings.whole_append] at h
        rw [Findings.mentioned_append, Findings.mentioned_when, Mentioned.none_append,
          hbelow none h.2.2.2]
      · rw [if_neg hleaf] at h ⊢
        simp only [Findings.whole_append] at h
        rw [Findings.mentioned_append, Findings.mentioned_when, Mentioned.none_append,
          hbelow _ h.2.2.2]

theorem mentioned_inline {parent : Option String} {location : Location}
    {directives : List Directive}
    (h : (scope.visitSelection parent (.inline location none directives selections)).Whole) :
    (scope.visitSelection parent (.inline location none directives selections)).mentioned =
      (Selection.inline location none directives selections).mentioned := by
  rw [visitSelection] at h ⊢
  rw [Findings.mentioned_append, mentioned_visitDirectives, Selection.mentioned,
    hbelow parent (Findings.whole_append.1 h).2]

theorem mentioned_inline_on {parent : Option String} {location : Location} {condition : String}
    {directives : List Directive}
    (h : (scope.visitSelection parent
      (.inline location (some condition) directives selections)).Whole) :
    (scope.visitSelection parent
      (.inline location (some condition) directives selections)).mentioned =
        (Selection.inline location (some condition) directives selections).mentioned := by
  have hcondition := @mentioned_visitCondition scope none condition location
  rw [visitSelection] at h ⊢
  rw [Findings.mentioned_append, mentioned_visitDirectives, Selection.mentioned]
  congr 1
  cases hvisit : scope.visitCondition none condition location with
  | mk findings target =>
    rw [hvisit] at h hcondition
    cases target with
    | none =>
      simp only [Findings.whole_append] at h
      rw [Findings.mentioned_append, hcondition, Mentioned.none_append, hbelow none h.2.2]
    | some target =>
      simp only [Findings.whole_append] at h
      rw [Findings.mentioned_append, Findings.mentioned_append, hcondition,
        mentioned_visitOverlap, Mentioned.none_append, Mentioned.none_append, hbelow _ h.2.2]

end Below

mutual

theorem mentioned_visitSelection (parent : Option String) : ∀ selection : Selection,
    (scope.visitSelection parent selection).Whole →
      (scope.visitSelection parent selection).mentioned = selection.mentioned
  | .field _ selections => by
    have hbelow (inner : Option String) := mentioned_visitSelections inner selections
    cases parent with
    | none => exact mentioned_field_untyped hbelow
    | some parent => exact mentioned_field hbelow
  | .spread location name directives => by
    intro _
    rw [visitSelection, Findings.mentioned_append, mentioned_visitDirectives,
      mentioned_visitSpread, Selection.mentioned]
  | .inline _ condition _ selections => by
    have hbelow (inner : Option String) := mentioned_visitSelections inner selections
    cases condition with
    | none => exact mentioned_inline hbelow
    | some condition => exact mentioned_inline_on hbelow

/-- A visit that leaves nothing unread records what stands in the text. -/
theorem mentioned_visitSelections (parent : Option String) : ∀ selections : List Selection,
    (scope.visitSelections parent selections).Whole →
      (scope.visitSelections parent selections).mentioned = mentionedIn selections
  | [] => fun _ => by rw [visitSelections, Findings.mentioned_none, mentionedIn]
  | first :: rest => by
    intro h
    rw [visitSelections, Findings.whole_append] at h
    rw [visitSelections, Findings.mentioned_append, mentioned_visitSelection parent first h.1,
      mentioned_visitSelections parent rest h.2, mentionedIn]

end

/-! ## Definitions -/

theorem mentioned_visitVariables (earlier definitions : List VariableDefinition) :
    (scope.visitVariables earlier definitions).mentioned = .none := by
  induction definitions generalizing earlier with
  | nil => rfl
  | cons first rest ih =>
    rw [visitVariables]
    refine Findings.mentioned_append_none (Findings.mentioned_append_none ?_ ?_) (ih _)
    · split <;> rfl
    · split
      · rfl
      · exact Findings.mentioned_when _ _ _

theorem mentioned_visitOperationName (doc : Document) (earlier : List Definition)
    (op : Operation) : (visitOperationName doc earlier op).mentioned = .none := by
  unfold visitOperationName
  split
  · dsimp only
    split <;> rfl
  · exact Findings.mentioned_when _ _ _

theorem mentioned_visitFragmentName (earlier : List Definition) (frag : Fragment) :
    (visitFragmentName earlier frag).mentioned = .none := by
  unfold visitFragmentName
  dsimp only
  split <;> rfl

theorem mentioned_visitOperation {op : Operation} (h : (scope.visitOperation op).Whole) :
    (scope.visitOperation op).mentioned = op.mentioned := by
  unfold visitOperation at h ⊢
  rw [Findings.whole_append] at h
  simp only [Findings.mentioned_append, mentioned_visitVariables, mentioned_visitDirectives,
    Findings.mentioned_when, Mentioned.none_append, Mentioned.append_none]
  rw [mentioned_visitSelections _ _ h.2, Operation.mentioned]

theorem mentioned_visitFragment {frag : Fragment} (h : (scope.visitFragment frag).Whole) :
    (scope.visitFragment frag).mentioned = frag.mentioned := by
  unfold visitFragment at h ⊢
  rw [Findings.whole_append] at h
  rw [Findings.mentioned_append, Findings.mentioned_append, mentioned_visitDirectives,
    mentioned_visitCondition, Mentioned.append_none, mentioned_visitSelections _ _ h.2,
    Fragment.mentioned]

theorem mentioned_visitDefinition {doc : Document} {earlier : List Definition}
    {definition : Definition} (h : (scope.visitDefinition doc earlier definition).Whole) :
    (scope.visitDefinition doc earlier definition).mentioned = definition.mentioned := by
  cases definition with
  | operation op =>
    rw [visitDefinition, Findings.whole_append] at h
    rw [visitDefinition, Findings.mentioned_append, mentioned_visitOperationName,
      Mentioned.none_append, mentioned_visitOperation h.2, Definition.mentioned]
  | fragment frag =>
    rw [visitDefinition, Findings.whole_append] at h
    rw [visitDefinition, Findings.mentioned_append, mentioned_visitFragmentName,
      Mentioned.none_append, mentioned_visitFragment h.2, Definition.mentioned]

theorem mentioned_visitDefinitions {doc : Document} {earlier definitions : List Definition}
    (h : ∀ entry ∈ scope.visitDefinitions doc earlier definitions, entry.2.Whole) :
    (scope.visitDefinitions doc earlier definitions).map
        (fun entry => (entry.1, entry.2.mentioned)) =
      definitions.map fun definition => (definition, definition.mentioned) := by
  induction definitions generalizing earlier with
  | nil => rfl
  | cons first rest ih =>
    rw [visitDefinitions] at h ⊢
    obtain ⟨hfirst, hrest⟩ := List.forall_mem_cons.1 h
    rw [List.map_cons, List.map_cons, ih hrest, mentioned_visitDefinition hfirst]

end Scope

/-! ## Documents -/

namespace Document

/-- A fragment of the one name spreads the other. -/
def Spreads (doc : Document) (name next : String) : Prop :=
  ∃ frag ∈ doc.fragments, frag.name = name ∧ next ∈ frag.mentioned.fragments

variable {doc : Document} {schema : Schema}
  (h : ∀ entry ∈ (Survey.ofDocument schema doc).visited, entry.2.Whole)

include h

/-- The operations are surveyed in order, each with what stands in its text. -/
theorem mentioned_operations :
    (Survey.ofDocument schema doc).operations.map (fun entry => (entry.1, entry.2.mentioned)) =
      doc.operations.map fun op => (op, op.mentioned) := by
  let pick : Definition × Mentioned → Option (Operation × Mentioned)
    | (.operation op, mentioned) => some (op, mentioned)
    | (.fragment _, _) => none
  have hvisited := congrArg (List.filterMap pick) (Scope.mentioned_visitDefinitions h)
  rw [List.filterMap_map, List.filterMap_map] at hvisited
  unfold Survey.operations operations
  rw [List.map_filterMap, List.map_filterMap]
  refine Eq.trans (List.filterMap_congr fun entry _ => ?_)
    (hvisited.trans (List.filterMap_congr fun definition _ => ?_))
  · obtain ⟨definition, findings⟩ := entry
    cases definition <;> rfl
  · cases definition <;> rfl

theorem map_fst_operations : (Survey.ofDocument schema doc).operations.map Prod.fst =
    doc.operations := by
  have hoperations := congrArg (List.map Prod.fst) (mentioned_operations h)
  rw [List.map_map, List.map_map] at hoperations
  exact hoperations.trans (List.map_id _)

theorem mentioned_of_mem_operations {entry : Operation × Findings}
    (hentry : entry ∈ (Survey.ofDocument schema doc).operations) :
    entry.2.mentioned = entry.1.mentioned := by
  have hmem : (entry.1, entry.2.mentioned) ∈ doc.operations.map fun op => (op, op.mentioned) := by
    rw [← mentioned_operations h]
    exact List.mem_map_of_mem hentry
  obtain ⟨op, -, heq⟩ := List.mem_map.1 hmem
  obtain ⟨rfl, hmentioned⟩ := Prod.mk.inj heq
  exact hmentioned.symm

/-- What stands in the fragments of one name. -/
theorem mentioned_fragmentFindings (name : String) :
    ((Survey.ofDocument schema doc).fragmentFindings name).mentioned =
      .concat ((doc.fragments.filter fun frag => frag.name = name).map Fragment.mentioned) := by
  let pick : Definition × Mentioned → Option Mentioned
    | (.fragment frag, mentioned) => if frag.name = name then some mentioned else none
    | (.operation _, _) => none
  have hvisited := congrArg (List.filterMap pick) (Scope.mentioned_visitDefinitions h)
  rw [List.filterMap_map, List.filterMap_map] at hvisited
  unfold Survey.fragmentFindings fragments
  rw [Findings.mentioned_concat, List.map_filterMap, List.filter_filterMap, List.map_filterMap]
  congr 1
  refine Eq.trans (List.filterMap_congr fun entry _ => ?_)
    (hvisited.trans (List.filterMap_congr fun definition _ => ?_))
  · obtain ⟨definition, findings⟩ := entry
    cases definition with
    | operation op => rfl
    | fragment frag =>
      by_cases hname : frag.name = name
      · simp [pick, hname]
      · simp [pick, hname]
  · cases definition with
    | operation op => rfl
    | fragment frag =>
      by_cases hname : frag.name = name
      · simp [pick, hname, Definition.mentioned]
      · simp [pick, hname]

theorem mem_fragments_fragmentFindings {name next : String} :
    next ∈ ((Survey.ofDocument schema doc).fragmentFindings name).mentioned.fragments ↔
      doc.Spreads name next := by
  rw [mentioned_fragmentFindings h, Mentioned.fragments_concat, List.mem_flatMap]
  constructor
  · rintro ⟨mentioned, hmem, hnext⟩
    obtain ⟨frag, hfrag, rfl⟩ := List.mem_map.1 hmem
    obtain ⟨hin, hname⟩ := List.mem_filter.1 hfrag
    exact ⟨frag, hin, of_decide_eq_true hname, hnext⟩
  · rintro ⟨frag, hin, hname, hnext⟩
    exact ⟨_, List.mem_map_of_mem (List.mem_filter.2 ⟨hin, decide_eq_true hname⟩), hnext⟩

end Document

end TypedQuery
