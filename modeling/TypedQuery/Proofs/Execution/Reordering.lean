import TypedQuery.Proofs.Execution.Admission
import TypedQuery.Proofs.Execution.Fragments
import TypedQuery.Proofs.Validation.Reordering
/-!
Requests whose documents have the same definitions in another order.  Their runs find the same
fragments under all names, so nothing comes out differently: `execute_reordered`.
-/

namespace TypedQuery

/-! ## Requests -/

namespace Document

variable {doc doc' : Document} (hperm : doc.definitions.Perm doc'.definitions)

include hperm

theorem depthLimit_eq_of_perm : doc'.depthLimit = doc.depthLimit := by
  have hoperations := ((perm_operations hperm).map fun op => fieldCounts op.selections).sum_eq
  have hfragments := ((perm_fragments hperm).map Fragment.fieldCount).sum_eq
  rw [depthLimit, depthLimit, fieldCount_eq, fieldCount_eq, hoperations, hfragments]

theorem selector_sameFragments_of_perm {schema : Schema} {bindings : Json.Fields}
    (h : doc.definitions.Pairwise Definition.Differs) :
    (Selector.ofDocument schema doc bindings).SameFragments doc'.fragments where
  named name := by
    have hfragments := perm_fragments hperm
    have hreverse : doc.fragments.reverse.Perm doc'.fragments.reverse :=
      ((List.reverse_perm _).trans hfragments).trans (List.reverse_perm _).symm
    refine find?_eq_of_perm hreverse (List.pairwise_reverse.2 ?_)
    exact (pairwise_fragments h name).imp fun hab hb ha => hab ha hb
  length := (perm_fragments hperm).length_eq.symm

end Document

namespace Schema

variable {schema : Schema} {config : Config} {context : Context} {request : Request}
  {doc : Document} (hperm : request.document.definitions.Perm doc.definitions)

include hperm

/-- The run of a request is the same, apart from the order of the fragments. -/
theorem run_eq_of_perm (op : Operation) (rootType : String) (bindings : Json.Fields) :
    schema.run config context { request with document := doc } op rootType bindings =
      (schema.run config context request op rootType bindings).withFragments doc.fragments := by
  unfold run
  dsimp only
  rw [Document.depthLimit_eq_of_perm hperm]
  rfl

theorem executeValidated_eq_of_perm (h : request.document.definitions.Pairwise Definition.Differs) :
    schema.executeValidated config context { request with document := doc } =
      schema.executeValidated config context request := by
  have hselect := Document.select_eq_of_perm hperm h request.operation
  unfold executeValidated
  rw [prepare_eq, prepare_eq]
  dsimp only
  rw [hselect]
  cases request.document.select request.operation with
  | error problem => rfl
  | ok op =>
    dsimp only
    cases schema.rootType? op.kind with
    | none => rfl
    | some rootType =>
      dsimp only
      cases schema.coerceVariables op.variableDefs request.inputs with
      | error errors => rfl
      | ok bindings =>
        dsimp only
        rw [run_eq_of_perm hperm]
        exact Run.ending_withFragments (Document.selector_sameFragments_of_perm hperm h)

end Schema

/-- The order of the definitions in a document makes no difference to whether a request has errors.
A request without errors ends alike, and leaves the same call log. -/
theorem execute_reordered {doc doc' : Document} (hperm : doc.definitions.Perm doc'.definitions)
    (schema : Schema) (operation : Option String) (inputs : Json.Fields) :
    (schema.validate doc' operation inputs = [] ↔ schema.validate doc operation inputs = []) ∧
      (schema.validate doc operation inputs = [] →
        ∀ (config : Config) (context : Context) (root : Json),
          schema.execute config context
              { document := doc', operation := operation, inputs := inputs, root := root } =
            schema.execute config context
              { document := doc, operation := operation, inputs := inputs, root := root }) := by
  refine ⟨⟨Schema.validate_eq_nil_of_perm hperm.symm, Schema.validate_eq_nil_of_perm hperm⟩, ?_⟩
  intro hvalid config context root
  have hvalid' := Schema.validate_eq_nil_of_perm hperm hvalid
  have hdiffers := Document.pairwise_differs (Schema.validate_eq_nil hvalid).1
  unfold Schema.execute
  rw [hvalid, hvalid']
  have hsame := @Schema.executeValidated_eq_of_perm schema config context
    { document := doc, operation := operation, inputs := inputs, root := root } doc'
  exact hsame hperm hdiffers

namespace Sample

def fragment (name : String) (selections : List Selection) : Definition :=
  .fragment
    { location := place
      name := name
      condition := "Query"
      directives := []
      selections := selections }

/-- A query with a fragment whose fragment comes after it. -/
def layered : Document :=
  { definitions :=
      [.operation
          { location := place
            kind := .query
            name := none
            variableDefs := []
            directives := []
            selections := [select "number" [], .spread place "Below" []] },
        fragment "Below" [select "self" [.spread place "Number" []]],
        fragment "Number" [select "number" []]] }

/-- The same definitions, from the last to the first. -/
def lowered : Document := { definitions := layered.definitions.reverse }

def ask (doc : Document) : Request :=
  { document := doc, operation := none, inputs := [], root := root }

end Sample

/-- The fragments come before the query that spreads them, and the number is missed all the same. -/
theorem execute_reordered_sample :
    Sample.schema.validate Sample.lowered none [] = [] ∧
      (Sample.schema.execute .standard .empty (Sample.ask Sample.lowered)).response? =
        some Sample.response := by
  have hperm : Sample.layered.definitions.Perm Sample.lowered.definitions :=
    (List.reverse_perm _).symm
  obtain ⟨hvalid, hsame⟩ := execute_reordered hperm Sample.schema none []
  have hlayered : Sample.schema.validate Sample.layered none [] = [] := rfl
  have hresponse : (Sample.schema.execute .standard .empty (Sample.ask Sample.layered)).response? =
      some Sample.response := by
    rw [Schema.execute_of_no_errors rfl rfl]
    exact Run.response?_ending _
  refine ⟨hvalid.2 hlayered, ?_⟩
  rw [← hresponse]
  exact congrArg Ending.response? (hsame hlayered .standard .empty Sample.root)

end TypedQuery
