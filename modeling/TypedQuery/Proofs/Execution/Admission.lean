import TypedQuery.Proofs.Coercion.Variables
import TypedQuery.Proofs.Execution.Conformance
import TypedQuery.Proofs.Execution.NullPropagation
import TypedQuery.Proofs.Execution.Nulls
import TypedQuery.Proofs.Execution.Timing
import TypedQuery.Proofs.Validation.Cycles
import TypedQuery.Proofs.Validation.Resolvers
/-!
Requests are admitted or turned down as a whole.  A request with errors is answered by them alone,
and no call is made for it.  One without errors can be run, and whatever fails then fails at a
position of the response: `execute_admits`.
-/

namespace TypedQuery

/-! ## Errors of a request -/

/-- The error is about the request, not about a position of the response. -/
def ResponseError.OfRequest (e : ResponseError) : Prop := e.path = none ∧ e.extensions = none

namespace Schema

variable {schema : Schema}

/-- Of a document that is in order all variables at fault are reported, and of another one those that
lack a value which is required. -/
theorem variableErrors_eq (op : Operation) (inputs : Json.Fields) (inOrder : Bool) :
    schema.variableErrors op inputs inOrder =
      ((schema.variableReports op.variableDefs inputs).filter fun report =>
        inOrder || report.1.Lacks schema inputs).map Prod.snd := by
  cases inOrder with
  | false => exact requiredErrors_eq
  | true =>
    rw [variableErrors, if_pos rfl, List.filter_eq_self.2 fun _ _ => Bool.true_or _]
    cases hvars : schema.coerceVariables op.variableDefs inputs with
    | ok bindings => rw [(coerceVariables_eq_ok.1 hvars).1, List.map_nil]
    | error errors => exact (coerceVariables_eq_error.1 hvars).2

/-- Validation reports nothing about positions of a response. -/
theorem ofRequest_of_validate {doc : Document} {operation : Option String} {inputs : Json.Fields} :
    ∀ e ∈ schema.validate doc operation inputs, e.OfRequest := by
  intro e he
  rcases List.mem_append.1 he with he | he
  · obtain ⟨diagnostic, -, rfl⟩ := List.mem_map.1 he
    exact ⟨rfl, rfl⟩
  · cases hop : doc.select operation with
    | error problem =>
      rw [hop] at he
      obtain rfl := List.mem_singleton.1 he
      exact ⟨rfl, rfl⟩
    | ok op =>
      rw [hop] at he
      dsimp only at he
      rw [variableErrors_eq] at he
      obtain ⟨report, hreport, rfl⟩ := List.mem_map.1 he
      obtain ⟨fault, -, he⟩ := offends_of_mem_variableReports (List.mem_filter.1 hreport).1
      rw [he]
      exact ⟨rfl, rfl⟩

/-- What is known of a request without errors. -/
theorem validate_eq_nil {doc : Document} {operation : Option String} {inputs : Json.Fields}
    (h : schema.validate doc operation inputs = []) :
    doc.diagnostics schema = [] ∧ ∃ op bindings, doc.select operation = .ok op ∧
      schema.coerceVariables op.variableDefs inputs = .ok bindings := by
  obtain ⟨hreports, hrest⟩ := List.append_eq_nil_iff.1 h
  have hclean : doc.diagnostics schema = [] := List.map_eq_nil_iff.1 hreports
  refine ⟨hclean, ?_⟩
  cases hop : doc.select operation with
  | error problem => rw [hop] at hrest; cases hrest
  | ok op =>
    rw [hop, hclean] at hrest
    change schema.variableErrors op inputs true = [] at hrest
    rw [variableErrors_eq, List.filter_eq_self.2 fun _ _ => Bool.true_or _] at hrest
    exact ⟨op, _, rfl, coerceVariables_eq_ok.2 ⟨List.map_eq_nil_iff.1 hrest, rfl⟩⟩

/-- A request without errors can be run. -/
theorem exists_prepare {request : Request}
    (h : schema.validate request.document request.operation request.inputs = [])
    (config : Config) (context : Context) :
    ∃ run, schema.prepare config context request = .ok run := by
  obtain ⟨hclean, op, bindings, hop, hvars⟩ := validate_eq_nil h
  obtain ⟨rootType, hroot, -⟩ :=
    Document.exists_rootType hclean (Document.mem_of_select hop)
  refine ⟨schema.run config context request op rootType bindings, ?_⟩
  rw [prepare_eq, hop]
  dsimp only
  rw [hroot]
  dsimp only
  rw [hvars]

theorem execute_of_errors {config : Config} {context : Context} {request : Request}
    (h : schema.validate request.document request.operation request.inputs ≠ []) :
    schema.execute config context request =
      .response (.ofErrors (schema.validate request.document request.operation request.inputs))
        [] := by
  unfold execute
  cases hv : schema.validate request.document request.operation request.inputs with
  | nil => exact absurd hv h
  | cons first rest => rfl

theorem execute_of_no_errors {config : Config} {context : Context} {request : Request}
    (h : schema.validate request.document request.operation request.inputs = []) {run : Run}
    (hrun : schema.prepare config context request = .ok run) :
    schema.execute config context request = run.ending := by
  unfold execute
  rw [h]
  dsimp only
  rw [executeValidated, hrun]

end Schema

/-! ## Errors of a run -/

namespace Run

/-- Every position was asked for by some field. -/
theorem all_nodes_ne_nil (run : Run) (depth : Nat) (log : CallLog) :
    (run.outline depth log).All fun place _ => place.nodes ≠ [] := by
  have hinherits : (run.execution log).Inherits fun nodes _ => nodes ≠ [] := by
    refine ⟨?_, ?_⟩
    · intro nodes type item hnodes _
      exact hnodes
    · intro nodes type name object group field _ _ _ _ _ _ _
      exact List.cons_ne_nil group.first group.others
  have hall := run.all_of_inherits depth log hinherits
    fun group _ _ _ _ => List.cons_ne_nil group.first group.others
  intro path place inner hat hnil
  rcases hall path place inner hat with hnodes | ⟨hhead, -⟩
  · exact hnodes hnil
  · rw [hnil] at hhead
    cases hhead

/-- An error of a run is at a root key or below it, and some field of the text is its place. -/
theorem of_mem_errors {run : Run} {r : Response} (h : run.ending.response? = some r)
    {e : ResponseError} (he : e ∈ r.errors) :
    (∃ group ∈ run.selector.answered run.rootType [run.selections], ∃ rest,
      e.path = some (.key group.key :: rest)) ∧ e.locations ≠ [] := by
  obtain ⟨-, hr, -⟩ := run.of_response? h
  obtain ⟨members, ho, hc, -⟩ := run.settled_outline run.depth run.callLog
  rw [hr] at he
  obtain ⟨f, hf, rfl⟩ := List.mem_map.1 he
  constructor
  · rw [ho] at hf
    obtain ⟨member, hm, rest, hpath⟩ := Outline.path_of_mem_memberMarks hf
    obtain ⟨group, hgroup, hmeaning, hanswers⟩ := hc.exists_group hm
    refine ⟨group, List.mem_filter.2 ⟨hgroup, hmeaning⟩, rest, ?_⟩
    rw [hanswers.1] at hpath
    exact congrArg some hpath
  · obtain ⟨path, place, failure, hat, rfl⟩ := Outline.mem_marks.1 hf
    have hnodes := run.all_nodes_ne_nil run.depth run.callLog path place _ hat
    exact fun hnil => hnodes (List.map_eq_nil_iff.1 hnil)

end Run

/-- A request with errors is answered by them alone, whatever the resolvers, and they are about no
position.  One without errors is run: unless something panics or waits for ever, its response has
data, and each error is at a position. -/
theorem execute_admits (schema : Schema) (config : Config) (context : Context)
    (request : Request) :
    let errors := schema.validate request.document request.operation request.inputs
    (∀ r log, schema.execute config context request = .response r log →
      (r.data.isSome = true ↔ errors = [])) ∧
    (errors ≠ [] →
      (∀ resolvers, (schema.withResolvers resolvers).execute config context request =
        .response (.ofErrors errors) []) ∧
      ∀ e ∈ errors, e.path = none ∧ e.extensions = none) ∧
    (errors = [] → ∃ run, schema.prepare config context request = .ok run ∧
      schema.execute config context request = run.ending ∧
      (schema.CalmPlacers → config.catchPanics = true →
        (run.outline run.depth run.callLog).hangs config.fieldTimeout = false →
          ∃ r, schema.execute config context request = .response r run.callLog) ∧
      ∀ r log, schema.execute config context request = .response r log → ∀ e ∈ r.errors,
        (∃ group ∈ run.selector.answered run.rootType [run.selections], ∃ rest,
          e.path = some (.key group.key :: rest)) ∧ e.locations ≠ []) := by
  intro errors
  refine ⟨fun r log hr => ?_, fun herrors => ⟨fun resolvers => ?_, ?_⟩, fun hnone => ?_⟩
  · by_cases hnone : errors = []
    · obtain ⟨run, hrun⟩ := Schema.exists_prepare hnone config context
      rw [Schema.execute_of_no_errors hnone hrun] at hr
      have hresponse : run.ending.response? = some r := by rw [hr]; rfl
      obtain ⟨-, hr, -⟩ := run.of_response? hresponse
      rw [hr]
      exact iff_of_true rfl hnone
    · rw [Schema.execute_of_errors hnone] at hr
      obtain ⟨rfl, -⟩ := Ending.response.inj hr
      exact iff_of_false Bool.false_ne_true hnone
  · have hsame := schema.validate_withResolvers resolvers request.document request.operation
      request.inputs
    have hother : (schema.withResolvers resolvers).validate request.document request.operation
        request.inputs ≠ [] := by
      rw [hsame]
      exact herrors
    rw [Schema.execute_of_errors hother, hsame]
  · exact Schema.ofRequest_of_validate
  · obtain ⟨run, hrun⟩ := Schema.exists_prepare hnone config context
    have hexecute := Schema.execute_of_no_errors hnone hrun
    refine ⟨run, hrun, hexecute, fun hcalm hcatch hhangs => ?_, fun r log hr e he => ?_⟩
    · obtain ⟨op, rootType, bindings, hop, -, -, rfl⟩ := Schema.prepare_eq_ok hrun
      have hacyclic := Document.acyclicSpreads (Schema.validate_eq_nil hnone).1
      have hweight := Nat.le_of_lt
        (Document.weight_operation_lt (Document.mem_of_select hop))
      let run := schema.run config context request op rootType bindings
      obtain ⟨-, hending⟩ := @Run.ending_eq_outline run hacyclic hcalm hcatch hweight _
        (Nat.le_refl _)
      refine ⟨_, hexecute.trans (hending.trans (if_neg ?_))⟩
      rw [Bool.not_eq_true]
      exact hhangs
    · rw [hexecute] at hr
      have hresponse : run.ending.response? = some r := by rw [hr]; rfl
      exact Run.of_mem_errors hresponse he

/-- A request that is run, and the same with the name of an operation that is not there. -/
theorem execute_admits_sample :
    (∃ run r, Sample.schema.prepare .standard .empty (Sample.request Sample.root) = .ok run ∧
      Sample.schema.execute .standard .empty (Sample.request Sample.root) =
        .response r run.callLog) ∧
    ∃ e : ResponseError,
      Sample.schema.validate (Sample.request Sample.root).document (some "Other") [] = [e] ∧
      e.path = none ∧
      Sample.schema.execute .standard .empty
          { Sample.request Sample.root with operation := some "Other" } =
        .response (.ofErrors [e]) [] := by
  constructor
  · obtain ⟨-, -, hrun⟩ :=
      execute_admits Sample.schema .standard .empty (Sample.request Sample.root)
    obtain ⟨run, hprepared, -, hreturns, -⟩ := hrun rfl
    obtain ⟨_, _, _, hop, hroot, hvars, rfl⟩ := Schema.prepare_eq_ok hprepared
    cases hop
    cases hroot
    cases hvars
    obtain ⟨r, hr⟩ := hreturns Sample.calmPlacers_schema rfl rfl
    exact ⟨_, r, hprepared, hr⟩
  · obtain ⟨-, herrors, -⟩ :=
      execute_admits Sample.schema .standard .empty
        { Sample.request Sample.root with operation := some "Other" }
    obtain ⟨hresponse, hpaths⟩ := herrors (List.cons_ne_nil _ _)
    exact ⟨_, rfl, (hpaths _ List.mem_cons_self).1, hresponse fun _ _ => none⟩

end TypedQuery
