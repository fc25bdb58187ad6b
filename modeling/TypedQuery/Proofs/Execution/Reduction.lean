import TypedQuery.Proofs.Execution.Refining
/-!
Directives ahead of time.  Variables decide which selections are left out.  Without these
selections, and with no directives on the others, a request ends in the same way after the same
calls: `executeValidated_reduced`.
-/

namespace TypedQuery

/-! ## Reduced documents -/

mutual

/-- The selection without directives, and without what is left out inside it.  Nothing remains when
it is left out itself. -/
def Selection.reduced (bindings : Json.Fields) : Selection → List Selection
  | .field head selections =>
    if isIncluded bindings head.directives then
      [.field { head with directives := [] } (TypedQuery.reduced bindings selections)]
    else []
  | .spread location name directives =>
    if isIncluded bindings directives then [.spread location name []] else []
  | .inline location condition directives selections =>
    if isIncluded bindings directives then
      [.inline location condition [] (TypedQuery.reduced bindings selections)]
    else []

def reduced (bindings : Json.Fields) : List Selection → List Selection
  | [] => []
  | first :: rest => first.reduced bindings ++ reduced bindings rest

end

def FieldNode.reduced (bindings : Json.Fields) (node : FieldNode) : FieldNode :=
  { node with
    directives := []
    selections := TypedQuery.reduced bindings node.selections }

def Definition.reduced (bindings : Json.Fields) : Definition → Definition
  | operation op => operation { op with selections := TypedQuery.reduced bindings op.selections }
  | fragment frag =>
    fragment { frag with selections := TypedQuery.reduced bindings frag.selections }

/-- The document with the directives on its selections evaluated under the variables. -/
def Document.reduced (bindings : Json.Fields) (doc : Document) : Document :=
  { definitions := doc.definitions.map (Definition.reduced bindings) }

variable {bindings : Json.Fields}

/-- The selections are the reduced ones. -/
def Reduces (bindings : Json.Fields) (selections selections' : List Selection) : Prop :=
  selections' = reduced bindings selections

theorem Document.rewritten_reduced (doc : Document) :
    doc.Rewritten (Reduces bindings) (doc.reduced bindings) := by
  refine List.forall₂_map_right_iff.2 (List.forall₂_same.2 fun definition _ => ?_)
  cases definition with
  | operation op => exact .operation ⟨rfl, rfl⟩
  | fragment frag => exact .fragment ⟨rfl, rfl⟩

mutual

theorem Selection.mentions_of_reduced {name : String} : ∀ selection : Selection,
    Mentions name (selection.reduced bindings) → Mentions name [selection]
  | .field head inner, h => by
    rw [Selection.reduced] at h
    split at h
    · exact mentions_field.2 (mentions_of_reduced inner (mentions_field.1 h))
    · exact absurd h (not_mentions_nil name)
  | .spread location other directives, h => by
    rw [Selection.reduced] at h
    split at h
    · exact mentions_spread.2 (mentions_spread.1 h)
    · exact absurd h (not_mentions_nil name)
  | .inline location condition directives inner, h => by
    rw [Selection.reduced] at h
    split at h
    · exact mentions_inline.2 (mentions_of_reduced inner (mentions_inline.1 h))
    · exact absurd h (not_mentions_nil name)

/-- Reducing adds no spreads. -/
theorem mentions_of_reduced {name : String} : ∀ selections : List Selection,
    Mentions name (reduced bindings selections) → Mentions name selections
  | [], h => h
  | first :: rest, h => by
    rw [reduced] at h
    rcases mentions_append.1 h with h | h
    · exact mentions_cons.2 (.inl (first.mentions_of_reduced h))
    · exact mentions_cons.2 (.inr (mentions_of_reduced rest h))

end

/-! ## Collecting from reduced selections -/

/-- A field has become the reduced one. -/
def FieldNode.Reduces (bindings : Json.Fields) (node : FieldNode) (more : List FieldNode) : Prop :=
  more = [node.reduced bindings]

theorem FieldNode.Reduces.standFor {node : FieldNode} {more : List FieldNode}
    (h : node.Reduces bindings more) : node.StandFor more := by
  obtain rfl := h
  exact
    { nonempty := List.cons_ne_nil _ _
      key := List.forall_mem_singleton.2 rfl
      name := List.forall_mem_singleton.2 rfl
      arguments := List.forall_mem_singleton.2 rfl }

namespace Selector

variable {s : Selector} {fragments : List Fragment} {object : String}
  {enter enter' : Fragment → Collected → Collected}

mutual

theorem collectSelection_reduced
    (hfragments : List.Forall₂ (Fragment.Rewritten (Reduces s.bindings)) s.fragments fragments)
    (henter : EntersAlike (Reduces s.bindings) (FieldNode.Reduces s.bindings) enter enter') :
    ∀ (selection : Selection) {state state' : Collected},
    state.Refines (FieldNode.Reduces s.bindings) state' →
      (s.collectSelection enter object selection state).Refines (FieldNode.Reduces s.bindings)
        ((s.withFragments fragments).collectWith enter' object (selection.reduced s.bindings) state')
  | .field head inner, state, state', h => by
    rw [Selection.reduced]
    by_cases hincluded : isIncluded s.bindings head.directives = true
    · have hreduced : isIncluded (s.withFragments fragments).bindings
          ({ head with directives := [] } : FieldHead).directives = true := rfl
      rw [if_pos hincluded, collectWith_singleton, collectSelection, collectSelection,
        if_pos hincluded, if_pos hreduced]
      exact { fields := h.fields.concat rfl, met := h.met }
    · rw [if_neg hincluded, collectWith, collectSelection, if_neg hincluded]
      exact h
  | .spread location name directives, state, state', h => by
    rw [Selection.reduced]
    by_cases hincluded : isIncluded s.bindings directives = true
    · rw [if_pos hincluded, collectWith_singleton]
      exact refines_spread hfragments henter location name hincluded.symm h
    · have hout : (!isIncluded s.bindings directives || state.met.contains name) = true := by
        rw [Bool.or_eq_true, Bool.not_eq_true', ← Bool.not_eq_true]
        exact .inl hincluded
      rw [if_neg hincluded, collectWith, collectSelection, if_pos hout]
      exact h
  | .inline location condition directives inner, state, state', h => by
    have hinner := collectWith_reduced hfragments henter inner h
    rw [Selection.reduced, collectSelection_inline]
    by_cases hincluded : isIncluded s.bindings directives = true
    · have hreduced : isIncluded (s.withFragments fragments).bindings [] = true := rfl
      have hschema : (s.withFragments fragments).schema = s.schema := rfl
      rw [if_pos hincluded, collectWith_singleton, collectSelection_inline, hincluded, hreduced,
        hschema]
      split
      · exact hinner
      · exact h
    · have hout : ¬ (isIncluded s.bindings directives &&
          condition.all fun type => s.schema.applies type object) = true := by
        rw [Bool.and_eq_true]
        exact fun hboth => hincluded hboth.1
      rw [if_neg hincluded, collectWith, if_neg hout]
      exact h

theorem collectWith_reduced
    (hfragments : List.Forall₂ (Fragment.Rewritten (Reduces s.bindings)) s.fragments fragments)
    (henter : EntersAlike (Reduces s.bindings) (FieldNode.Reduces s.bindings) enter enter') :
    ∀ (selections : List Selection) {state state' : Collected},
    state.Refines (FieldNode.Reduces s.bindings) state' →
      (s.collectWith enter object selections state).Refines (FieldNode.Reduces s.bindings)
        ((s.withFragments fragments).collectWith enter' object (reduced s.bindings selections)
          state')
  | [], state, state', h => by
    rw [reduced, collectWith, collectWith]
    exact h
  | first :: rest, state, state', h => by
    rw [reduced, collectWith_append, collectWith]
    exact collectWith_reduced hfragments henter rest
      (collectSelection_reduced hfragments henter first h)

end

/-- The groups of reduced selections have the reduced fields. -/
theorem matches_groups_reduced
    (hfragments : List.Forall₂ (Fragment.Rewritten (Reduces s.bindings)) s.fragments fragments)
    {sets sets' : List (List Selection)}
    (h : Refines (fun set more => more = [reduced s.bindings set]) sets sets') (type : String) :
    List.Forall₂ (FieldGroup.Matches (Refines (FieldNode.Reduces s.bindings)))
      (FieldGroup.ofNodes (s.collect type sets))
      (FieldGroup.ofNodes ((s.withFragments fragments).collect type sets')) := by
  have halike : s.CollectsAlike fragments type (Reduces s.bindings)
      (FieldNode.Reduces s.bindings) := by
    rintro enter enter' henter selections _ rfl state state' h
    exact collectWith_reduced hfragments henter selections h
  refine FieldGroup.matches_ofNodes FieldNode.Reduces.standFor ?_
  refine refines_collect hfragments.length_eq.symm ?_ h
  rintro set _ rfl depth state state' h
  exact refines_collectDeep halike depth rfl h

end Selector

/-! ## Requests -/

def Request.reduced (bindings : Json.Fields) (request : Request) : Request :=
  { request with document := request.document.reduced bindings }

namespace Run

/-- A run and the one on reduced selections attempt the same at the same locations. -/
theorem matches_reduced {run : Run} {fragments : List Fragment} {limit : Nat}
    (hac : AcyclicSpreads run.selector.fragments)
    (hfragments : List.Forall₂ (Fragment.Rewritten (Reduces run.selector.bindings))
      run.selector.fragments fragments)
    (hw : weight run.selector.fragments run.selections ≤ run.depth)
    (hw' : weight fragments (TypedQuery.reduced run.selector.bindings run.selections) ≤ limit)
    (log : CallLog) :
    (run.outline run.depth log).Matches (Refines (FieldNode.Reduces run.selector.bindings))
      ((run.rewritten fragments (TypedQuery.reduced run.selector.bindings run.selections)
        limit).outline limit log) := by
  have hac' : AcyclicSpreads fragments :=
    hac.rewritten (fun {selections _} hreduces name h => by
      obtain rfl := hreduces
      exact mentions_of_reduced selections h) hfragments
  exact matches_rewritten hac hac' hw hw'
    (fun h => h.map fun hnode => congrArg (List.map (·.selections)) hnode)
    (Selector.matches_groups_reduced hfragments) (.singleton rfl) log

end Run

theorem FieldNode.Reduces.locations {nodes nodes' : List FieldNode}
    (h : Refines (FieldNode.Reduces bindings) nodes nodes') :
    nodes.map (fun node => node.location) = nodes'.map fun node => node.location := by
  have hnodes : nodes' = nodes.flatMap fun node => [node.reduced bindings] := h.eq_flatMap
  rw [hnodes, ← List.map_eq_flatMap, List.map_map]
  rfl

/-- Directives can be evaluated ahead of time.  Under the variables of a run, the reduced document
has the same response, with the same errors at the same locations, and the same log; both make the
same calls in the same order, and each call comes to the same. -/
theorem executeValidated_reduced (schema : Schema) {request : Request}
    (hac : AcyclicSpreads request.document.fragments) (config : Config) (context : Context)
    {run : Run} (hrun : schema.prepare config context request = .ok run) :
    schema.executeValidated config context (request.reduced run.selector.bindings) =
      schema.executeValidated config context request ∧
    ∃ run', schema.prepare config context (request.reduced run.selector.bindings) = .ok run' ∧
      run'.selector.bindings = run.selector.bindings ∧ run'.events = run.events ∧
      ∀ path made, run'.Makes path made ↔ run.Makes path made := by
  have hrewritten : request.document.Rewritten (Reduces run.selector.bindings) _ :=
    request.document.rewritten_reduced
  obtain ⟨_, hfail, -⟩ | ⟨own, selections, hown, hreduced, hown', hselections, hw, hw'⟩ :=
    schema.prepare_rewritten config context request hrewritten
  · rw [hrun] at hfail
    cases hfail
  · rw [hrun] at hown
    obtain rfl := Except.ok.inj hown
    obtain rfl : selections = reduced run.selector.bindings run.selections := hselections
    have hfragments := hrewritten.fragments
    rw [← hown'] at hac hfragments hw
    have hmatches := Run.matches_reduced hac hfragments hw hw'
    have hsame := Run.resembles_rewritten hmatches
    refine ⟨?_, _, hreduced, rfl, hsame.events_eq, hsame.makes_iff⟩
    unfold Schema.executeValidated
    rw [hrun, Request.reduced, hreduced]
    rcases hsame.ending_cases with ⟨hend, hend'⟩ | ⟨-, hend⟩
    · dsimp only
      rw [hend, hend']
      exact congrArg (Ending.response · run.callLog)
        ((hmatches run.callLog).response_eq FieldNode.Reduces.locations)
    · exact hend

namespace Sample

def condition (name : String) (value : Literal) : Directive :=
  { location := place, name := name, arguments := [("if", value)] }

/-- A query that a variable makes smaller: it hides the number of the root, and of the two spreads
below the root it leaves the one. -/
def conditional (root : Json) : Request :=
  { document :=
      { definitions :=
          [.operation
              { location := place
                kind := .query
                name := none
                variableDefs :=
                  [{ location := place
                     name := "hide"
                     type := .nonNull (.named "Boolean")
                     defaultValue := none }]
                directives := []
                selections :=
                  [.field
                      { location := place
                        aliasName := none
                        name := "number"
                        arguments := []
                        directives := [condition "skip" (.var "hide")] } [],
                    select "self"
                      [.spread place "Number" [condition "skip" (.var "hide")],
                        .spread place "Number" [condition "include" (.var "hide")]]] },
            .fragment
              { location := place
                name := "Number"
                condition := "Query"
                directives := []
                selections := [select "number" []] }] }
    operation := none
    inputs := [("hide", .bool true)]
    root := root }

end Sample

/-- The number below the root is asked for once, and missed; that of the root is not asked for. -/
theorem executeValidated_reduced_sample :
    (Sample.schema.executeValidated .standard .empty
        ((Sample.conditional Sample.root).reduced [("hide", .bool true)])).response? =
      some (Sample.unnumbered [Sample.place]) ∧
    Sample.schema.executeValidated .standard .empty
        ((Sample.conditional Sample.root).reduced [("hide", .bool true)]) =
      Sample.schema.executeValidated .standard .empty (Sample.conditional Sample.root) := by
  have hacyclic : AcyclicSpreads (Sample.conditional Sample.root).document.fragments :=
    Sample.acyclic_request Sample.root
  obtain ⟨run, hrun, hbindings⟩ : ∃ run, Sample.schema.prepare .standard .empty
      (Sample.conditional Sample.root) = .ok run ∧
        run.selector.bindings = [("hide", .bool true)] := ⟨_, rfl, rfl⟩
  obtain ⟨hsame, -⟩ :=
    executeValidated_reduced Sample.schema hacyclic .standard .empty hrun
  rw [hbindings] at hsame
  refine ⟨?_, hsame⟩
  rw [hsame]
  exact Run.response?_ending _

end TypedQuery
