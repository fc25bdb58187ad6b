import TypedQuery.Proofs.Execution.Repetition
import TypedQuery.Proofs.Execution.Resemblance
/-!
Requests without spreads.  Collecting enters a fragment once for an object.  Where spreads are inlined
it meets the fields of the fragment each time, and those that come again join the group in which they
are already.  So all that differs is how often an error has a location: `executeValidated_inlined`.
-/

namespace TypedQuery

/-! ## Inlined requests -/

def Operation.inlined (fragments : List Fragment) (op : Operation) : Operation :=
  { op with selections := TypedQuery.inlined fragments op.selections }

def Fragment.inlined (fragments : List Fragment) (frag : Fragment) : Fragment :=
  { frag with selections := TypedQuery.inlined fragments frag.selections }

def Definition.inlined (fragments : List Fragment) : Definition → Definition
  | operation op => operation (op.inlined fragments)
  | fragment frag => fragment (frag.inlined fragments)

/-- The document with inline fragments in the place of all spreads. -/
def Document.inlined (doc : Document) : Document :=
  { definitions := doc.definitions.map (Definition.inlined doc.fragments) }

def Request.inlined (request : Request) : Request :=
  { request with document := request.document.inlined }

namespace Document

variable (doc : Document)

theorem operations_inlined :
    doc.inlined.operations = doc.operations.map (Operation.inlined doc.fragments) := by
  unfold inlined operations
  rw [List.filterMap_map, List.map_filterMap]
  refine List.filterMap_congr fun definition _ => ?_
  cases definition <;> rfl

theorem fragments_inlined :
    doc.inlined.fragments = doc.fragments.map (Fragment.inlined doc.fragments) := by
  rw [fragments, inlined, List.filterMap_map, fragments, List.map_filterMap]
  refine List.filterMap_congr fun definition _ => ?_
  cases definition <;> rfl

/-- Inlining makes no difference to which operation is chosen. -/
theorem select_inlined (name : Option String) :
    doc.inlined.select name = (doc.select name).map (Operation.inlined doc.fragments) := by
  unfold select
  rw [operations_inlined]
  cases name with
  | some name =>
    have hname : (fun op : Operation => op.name == some name) ∘ Operation.inlined doc.fragments =
        fun op => op.name == some name := rfl
    dsimp only
    rw [List.find?_map, hname]
    cases doc.operations.find? fun op => op.name == some name <;> rfl
  | none => rcases doc.operations with _ | ⟨first, _ | ⟨second, rest⟩⟩ <;> rfl

end Document

/-- Where nothing is spread, no fragment reaches itself. -/
theorem acyclicSpreads_inlined (fragments : List Fragment) :
    AcyclicSpreads (fragments.map (Fragment.inlined fragments)) := by
  intro name frag hfrag hreaches
  obtain ⟨own, -, rfl⟩ := List.mem_map.1 (fragmentOf?_mem hfrag).1
  cases hreaches with
  | here h => exact not_mentions_inlined fragments _ own.selections h
  | through h _ _ => exact not_mentions_inlined fragments _ own.selections h

/-! ## Condensed responses -/

/-- The error with each of its locations once. -/
def ResponseError.condensed (e : ResponseError) : ResponseError :=
  { e with locations := e.locations.eraseDups }

def Response.condensed (response : Response) : Response :=
  { response with errors := response.errors.map ResponseError.condensed }

def Ending.condensed : Ending → Ending
  | response r log => response r.condensed log
  | escaped cause => escaped cause
  | stalled => stalled

/-- The place as it is seen from its errors: of the fields that ask for it their locations, each
once. -/
def Place.condensed (place : Place) : Place :=
  { place with
    nodes := place.locations.eraseDups.map fun location =>
      { (default : FieldNode) with location := location } }

theorem Place.locations_condensed (place : Place) :
    place.condensed.locations = place.locations.eraseDups := by
  rw [locations, condensed, List.map_map]
  exact List.map_id _

/-- Fields that come again make no difference to a condensed place. -/
theorem Place.condensed_nodes {fragments : List Fragment} {nodes nodes' : List FieldNode}
    (h : Repeats (FieldNode.inlined fragments) nodes nodes') (place : Place) :
    ({ place with nodes := nodes' } : Place).condensed =
      ({ place with nodes := nodes } : Place).condensed := by
  have hlocations : (nodes'.map fun node => node.location).eraseDups =
      (nodes.map fun node => node.location).eraseDups :=
    (h.image fun node => node.location).eraseDups_eq
  unfold condensed locations
  dsimp only
  rw [hlocations]

def View.condensed : View where
  keep := Place.condensed
  blank _ := false
  relocate := List.eraseDups
  segment_keep _ := rfl
  type_keep _ := rfl
  locations_keep := Place.locations_condensed

theorem View.sees_condensed (base : Path) : View.condensed.Sees base := fun _ _ => rfl

theorem Outline.response_condensed (o : Outline) :
    (View.condensed.read Path.root o).response = o.response.condensed := by
  rw [response, response, View.data_read (View.sees_condensed _),
    View.marks_read (View.sees_condensed _), Response.condensed, List.map_map, List.map_map]
  rfl

/-! ## Inlined executions -/

/-- The selector of the same document with its spreads inlined. -/
def Selector.withoutSpreads (s : Selector) : Selector :=
  { s with fragments := s.fragments.map (Fragment.inlined s.fragments) }

theorem Selector.redone_groups {s : Selector} (hac : AcyclicSpreads s.fragments)
    {sets sets' : List (List Selection)} (h : Repeats (inlined s.fragments) sets sets')
    (type : String) :
    List.Forall₂ (FieldGroup.Redone s.fragments) (FieldGroup.ofNodes (s.collect type sets))
      (FieldGroup.ofNodes (s.withoutSpreads.collect type sets')) := by
  have hspreadless : ∀ set ∈ sets', ∀ name, ¬ Mentions name set := by
    intro set hset name
    obtain ⟨own, -, rfl⟩ := List.mem_map.1 (h.mem_map.1 hset)
    exact not_mentions_inlined s.fragments name own
  have hcollect : s.withoutSpreads.collect type sets' = sets'.flatMap (s.fields type) :=
    s.withoutSpreads.collect_of_spreadless type hspreadless
  rw [hcollect]
  exact FieldGroup.repeats_ofNodes (repeats_collect hac h)

/-- A group with repetitions makes the same call. -/
theorem FieldGroup.Redone.matches {fragments : List Fragment} {group group' : FieldGroup}
    (h : group.Redone fragments group') :
    group.Matches (Repeats (FieldNode.inlined fragments)) group' where
  key := h.key
  name := by rw [h.first]; rfl
  arguments := by rw [h.first]; rfl
  nodes := h.nodes

namespace Run

/-- The same run with its spreads inlined. -/
def withoutSpreads (depth : Nat) (run : Run) : Run :=
  { run with
    selector := run.selector.withoutSpreads
    selections := inlined run.selector.fragments run.selections
    depth := depth }

/-- Fields come again once spreads are inlined, but nothing else is attempted. -/
theorem read_outline_withoutSpreads {run : Run} (hac : AcyclicSpreads run.selector.fragments)
    (limit depth : Nat) (log : CallLog) :
    View.condensed.read Path.root ((run.withoutSpreads limit).outline depth log) =
      View.condensed.read Path.root (run.outline depth log) := by
  have hroot : Repeats (inlined run.selector.fragments) [run.selections]
      [inlined run.selector.fragments run.selections] := Repeats.nil.next run.selections
  have hmatches := matches_outline (fun h => Repeats.of_comp (h.image (·.selections)))
    (fun h type => (Selector.redone_groups hac h type).imp fun _ _ => FieldGroup.Redone.matches)
    hroot limit depth log
  exact hmatches.read Place.condensed_nodes Path.root

/-- Runs that look the same once condensed end the same. -/
theorem Resembles.condensed_ending {run run' : Run} (h : run'.Resembles .condensed run) :
    run'.ending.condensed = run.ending.condensed := by
  have hresponse : (run'.outline run'.depth run.callLog).response.condensed =
      (run.outline run.depth run.callLog).response.condensed := by
    rw [← Outline.response_condensed, h.outline, Outline.response_condensed]
  rcases h.ending_cases with ⟨hown, hother⟩ | ⟨-, hsame⟩
  · rw [hown, hother]
    exact congrArg (Ending.response · run.callLog) hresponse
  · rw [hsame]

/-- A run resembles the one with its spreads inlined, when objects may nest deep enough in both. -/
theorem resembles_withoutSpreads {run : Run} (hac : AcyclicSpreads run.selector.fragments)
    (hw : weight run.selector.fragments run.selections ≤ run.depth) {limit : Nat}
    (hinlined : weight (run.withoutSpreads limit).selector.fragments
      (run.withoutSpreads limit).selections ≤ limit) :
    (run.withoutSpreads limit).Resembles .condensed run where
  config := rfl
  serial := rfl
  made _ := rfl
  sees := View.sees_condensed Path.root
  outline log := by
    have hflat : AcyclicSpreads (run.withoutSpreads limit).selector.fragments :=
      acyclicSpreads_inlined run.selector.fragments
    have hdeep := outline_stable hac hw (Nat.le_max_left run.depth limit) log
    have hdeep' := outline_stable hflat hinlined (Nat.le_max_right run.depth limit) log
    show View.condensed.read Path.root ((run.withoutSpreads limit).outline limit log) = _
    rw [← hdeep, ← hdeep', read_outline_withoutSpreads hac]

end Run

/-! ## Requests -/

namespace Schema

theorem run_inlined (schema : Schema) (config : Config) (context : Context) (request : Request)
    (op : Operation) (rootType : String) (bindings : Json.Fields) :
    schema.run config context request.inlined (op.inlined request.document.fragments) rootType
        bindings =
      (schema.run config context request op rootType bindings).withoutSpreads
        request.document.inlined.depthLimit := by
  have hselector : Selector.ofDocument schema request.document.inlined bindings =
      (Selector.ofDocument schema request.document bindings).withoutSpreads := by
    rw [Selector.ofDocument, Document.fragments_inlined]
    rfl
  unfold run Request.inlined
  dsimp only
  rw [hselector]
  rfl

/-- Preparing a run looks at no selections. -/
theorem prepare_inlined (schema : Schema) (config : Config) (context : Context)
    (request : Request) :
    schema.prepare config context request.inlined =
      (schema.prepare config context request).map
        (Run.withoutSpreads request.document.inlined.depthLimit) := by
  have hselect : request.inlined.document.select request.inlined.operation =
      (request.document.select request.operation).map
        (Operation.inlined request.document.fragments) :=
    request.document.select_inlined request.operation
  rw [prepare_eq, prepare_eq, hselect]
  cases request.document.select request.operation with
  | error problem => rfl
  | ok op =>
    have hkind : (op.inlined request.document.fragments).kind = op.kind := rfl
    have hvars : (op.inlined request.document.fragments).variableDefs = op.variableDefs := rfl
    have hinputs : request.inlined.inputs = request.inputs := rfl
    dsimp only [Except.map]
    rw [hkind, hvars, hinputs]
    cases schema.rootType? op.kind with
    | none => rfl
    | some rootType =>
      dsimp only
      cases schema.coerceVariables op.variableDefs request.inputs with
      | error errors => rfl
      | ok bindings =>
        exact congrArg Except.ok (run_inlined schema config context request op rootType bindings)

theorem resembles_of_prepare {schema : Schema} {config : Config} {context : Context}
    {request : Request} (hac : AcyclicSpreads request.document.fragments) {run : Run}
    (hrun : schema.prepare config context request = .ok run) :
    (run.withoutSpreads request.document.inlined.depthLimit).Resembles .condensed run := by
  obtain ⟨op, rootType, bindings, hop, -, -, rfl⟩ := prepare_eq_ok hrun
  have hmem := Document.mem_of_select hop
  have hinlined : op.inlined request.document.fragments ∈ request.document.inlined.operations := by
    rw [Document.operations_inlined]
    exact List.mem_map_of_mem hmem
  have hweight := Document.weight_operation_lt hinlined
  rw [Document.fragments_inlined] at hweight
  exact Run.resembles_withoutSpreads hac (Nat.le_of_lt (Document.weight_operation_lt hmem))
    (Nat.le_of_lt hweight)

end Schema

/-- Entering a fragment once for an object loses nothing.  A request comes to the same response as the
one in which each spread is an inline fragment with all that its fragment selects, `inlined_eq`; only
how often an error has a location may differ.  Both make the same calls in the same order, and each
call comes to the same. -/
theorem executeValidated_inlined (schema : Schema) {request : Request}
    (hac : AcyclicSpreads request.document.fragments) (config : Config) (context : Context) :
    (∀ op ∈ request.inlined.document.operations, ∀ name, ¬ Mentions name op.selections) ∧
    (schema.executeValidated config context request.inlined).condensed =
      (schema.executeValidated config context request).condensed ∧
    ∀ run, schema.prepare config context request = .ok run →
      ∃ run', schema.prepare config context request.inlined = .ok run' ∧
        run'.events = run.events ∧ ∀ path made, run'.Makes path made ↔ run.Makes path made := by
  have hprepare := schema.prepare_inlined config context request
  refine ⟨fun op hop name => ?_, ?_, fun run hrun => ?_⟩
  · rw [Request.inlined, Document.operations_inlined] at hop
    obtain ⟨own, -, rfl⟩ := List.mem_map.1 hop
    exact not_mentions_inlined request.document.fragments name own.selections
  · unfold Schema.executeValidated
    rw [hprepare]
    cases hrun : schema.prepare config context request with
    | error response => rfl
    | ok run => exact (Schema.resembles_of_prepare hac hrun).condensed_ending
  · have hsame := Schema.resembles_of_prepare hac hrun
    rw [hrun] at hprepare
    exact ⟨_, hprepare, hsame.events_eq, hsame.makes_iff⟩

namespace Sample

/-- A query for the number of the object below the root, by a fragment that is spread twice. -/
def twice (root : Json) : Request :=
  { document :=
      { definitions :=
          [.operation
              { location := place
                kind := .query
                name := none
                variableDefs := []
                directives := []
                selections := [select "self" [.spread place "Number" [], .spread place "Number" []]] },
            .fragment
              { location := place
                name := "Number"
                condition := "Query"
                directives := []
                selections := [select "number" []] }] }
    operation := none
    inputs := []
    root := root }

end Sample

/-- The number is asked for once or twice, and missed once. -/
theorem executeValidated_inlined_sample :
    (Sample.schema.executeValidated .standard .empty (Sample.twice Sample.root)).response? =
      some (Sample.unnumbered [Sample.place]) ∧
    (Sample.schema.executeValidated .standard .empty (Sample.twice Sample.root).inlined).response? =
      some (Sample.unnumbered [Sample.place, Sample.place]) ∧
    (Sample.schema.executeValidated .standard .empty (Sample.twice Sample.root).inlined).condensed =
      (Sample.schema.executeValidated .standard .empty (Sample.twice Sample.root)).condensed := by
  have hacyclic : AcyclicSpreads (Sample.twice Sample.root).document.fragments :=
    Sample.acyclic_request Sample.root
  obtain ⟨-, hsame, -⟩ := executeValidated_inlined Sample.schema hacyclic .standard .empty
  exact ⟨Run.response?_ending _, Run.response?_ending _, hsame⟩

end TypedQuery
