import TypedQuery.Proofs.Execution.Answering
import TypedQuery.Proofs.Schema.Consistency
/-!
Runs with a schema that was built.  Whatever resolvers return, no field fails because the schema
lacks the type of its values or has one of another kind: `schema_not_blamed`.  By induction on the
types of values and on the depth of objects, each function of completion keeps failures of that kind
out of what it gives when those that it calls do.
-/

namespace TypedQuery

/-- The schema is at fault and not the value. -/
def Failure.blamesSchema : Failure → Bool
  | rejected rejection => rejection.cause.blamesSchema
  | _ => false

/-- Neither the failure of the position itself nor those in it blame the schema. -/
structure Completion.SparesSchema (c : Completion) : Prop where
  verdict : ∀ failure, c.verdict = .failed failure → failure.blamesSchema = false
  failures : ∀ f ∈ c.failures, f.failure.blamesSchema = false

namespace Completion.SparesSchema

theorem ofValue (data : Json) : (ofValue data).SparesSchema := ⟨nofun, nofun⟩

theorem ofEscape (cause : Escape) : (ofEscape cause).SparesSchema := ⟨nofun, nofun⟩

theorem ofFailure {failure : Failure} (h : failure.blamesSchema = false) :
    (ofFailure failure).SparesSchema :=
  ⟨fun _ he => Verdict.failed.inj he ▸ h, nofun⟩

/-- A value that is rejected when it is coerced fails as it was rejected. -/
theorem ofResult {result : Except Rejection Json} (h : TypedQuery.SparesSchema result) :
    (match result with
      | .ok data => Completion.ofValue data
      | .error rejection => .ofFailure (.rejected rejection)).SparesSchema := by
  cases result with
  | ok data => exact ofValue data
  | error rejection => exact ofFailure (h rejection rfl)

variable {c : Completion}

theorem withTrace (h : c.SparesSchema) (trace : Trace) :
    { c with trace := trace }.SparesSchema := ⟨h.verdict, h.failures⟩

theorem nullAt_ne_failed (type : TypeExpr) (failure : Failure) :
    nullAt type ≠ .failed failure := by
  unfold nullAt
  split
  · exact Verdict.noConfusion
  · exact Verdict.noConfusion

/-- Recording a failure adds the failure of the position itself. -/
theorem caught (h : c.SparesSchema) (type : TypeExpr) (locations : List Location) (path : Path) :
    (c.caught type locations path).SparesSchema := by
  unfold Completion.caught
  cases hverdict : c.verdict with
  | value data => exact h
  | failed failure =>
    refine ⟨fun other he => absurd he (nullAt_ne_failed type other), fun f hf => ?_⟩
    rcases List.mem_append.1 hf with hf | hf
    · exact h.failures f hf
    · rw [List.mem_singleton.1 hf]
      exact h.verdict failure hverdict
  | nulled => exact ⟨fun other he => absurd he (nullAt_ne_failed type other), h.failures⟩

theorem gather {parts : List Completion} (h : ∀ part ∈ parts, part.SparesSchema) (limit : Nat)
    (build : List Json → Json) : (gather limit build parts).SparesSchema := by
  constructor
  · intro failure hverdict
    unfold Completion.gather at hverdict
    dsimp only at hverdict
    split at hverdict
    · cases hverdict
    · cases hverdict
  · intro f hf
    obtain ⟨part, hpart, hf⟩ := List.mem_flatMap.1 hf
    exact (h part hpart).failures f hf

end Completion.SparesSchema

namespace Execution

variable {exec : Execution}

section Values

variable {object : String → Path → Json → Completion}
  (hobject : ∀ type path value, (object type path value).SparesSchema)

include hobject

theorem spares_completeAbstract (info : FieldInfo) (type : String) (placer : Option Placer)
    (path : Path) (value : Json) :
    (exec.completeAbstract object info type placer path value).SparesSchema := by
  unfold completeAbstract
  cases placer.getD Placer.byTypename value exec.context with
  | panicked message => exact .ofEscape _
  | unknown => exact .ofFailure rfl
  | type name =>
    dsimp only
    cases exec.schema.object? name with
    | some objectType =>
      dsimp only
      split
      · exact hobject _ path value
      · exact .ofFailure rfl
    | none =>
      dsimp only
      split
      · exact .ofFailure rfl
      · exact .ofFailure rfl

/-- Only a value of a type that is there is completed, and only one of a leaf type is coerced. -/
theorem spares_completeNamed (info : FieldInfo) {name : String}
    (hname : (exec.schema.type? name).isSome = true) (path : Path) (value : Json) :
    (exec.completeNamed object info name path value).SparesSchema := by
  unfold completeNamed
  cases htype : exec.schema.type? name with
  | none =>
    rw [htype] at hname
    cases hname
  | some type =>
    cases type with
    | scalar type =>
      have hleaf : exec.schema.isLeaf name = true := by rw [Schema.isLeaf, htype]; rfl
      exact .ofResult (Schema.spares_coerceResult hleaf value)
    | enum type =>
      have hleaf : exec.schema.isLeaf name = true := by rw [Schema.isLeaf, htype]; rfl
      exact .ofResult (Schema.spares_coerceResult hleaf value)
    | object type => exact hobject type.name path value
    | interface type => exact spares_completeAbstract hobject info name type.placer path value
    | union type => exact spares_completeAbstract hobject info name type.placer path value

theorem spares_completeValue (info : FieldInfo) (locations : List Location) {type : TypeExpr}
    (htype : (exec.schema.type? type.base).isSome = true) (path : Path) (value : Json) :
    (exec.completeValue object info locations type path value).SparesSchema := by
  induction type generalizing path value with
  | named name =>
    rw [completeValue]
    split
    · exact .ofValue .null
    · exact spares_completeNamed hobject info htype path value
  | list item ih =>
    cases value with
    | null => exact .ofValue .null
    | arr items =>
      rw [completeValue]
      refine .gather (fun part hpart => ?_) _ _
      obtain ⟨entry, -, rfl⟩ := List.mem_map.1 hpart
      exact (ih htype (path.item entry.2) entry.1).caught item locations (path.item entry.2)
    | _ => exact .ofFailure rfl
  | nonNull inner ih =>
    have hinner := ih htype path value
    rw [completeValue]
    split
    · exact ⟨fun _ he => Verdict.failed.inj he ▸ rfl, hinner.failures⟩
    · exact hinner

end Values

theorem spares_completeCall {complete : Json → Completion}
    (hcomplete : ∀ value, (complete value).SparesSchema) (resolver : Resolver) (call : Call) :
    (exec.completeCall resolver call complete).SparesSchema := by
  have houtcome (outcome : Outcome) :
      (exec.completeOutcome call.info complete outcome).SparesSchema := by
    unfold completeOutcome
    cases outcome with
    | value value => exact hcomplete value
    | raised error => exact .ofFailure rfl
    | panicked message =>
      dsimp only
      split
      · exact .ofFailure rfl
      · exact .ofEscape _
  unfold completeCall
  dsimp only
  apply Completion.SparesSchema.withTrace
  split
  · exact houtcome _
  · exact houtcome _
  · exact .ofFailure rfl
  · exact .ofValue .null

section Objects

variable {object : String → List FieldNode → Path → Json → Completion}
  (hobject : ∀ type nodes path value, (object type nodes path value).SparesSchema)

include hobject

theorem spares_completeField (parentType : String) (parent : Json) (path : Path) {field : FieldDef}
    (htype : (exec.schema.type? field.type.base).isSome = true) (group : FieldGroup) :
    (exec.completeField object parentType parent path field group).SparesSchema := by
  unfold completeField
  apply Completion.SparesSchema.caught
  cases harguments :
      exec.schema.coerceArguments field group.first.arguments exec.selector.bindings with
  | error rejection =>
    exact .ofFailure (Schema.spares_coerceArguments field _ _ rejection harguments)
  | ok arguments =>
    exact spares_completeCall
      (fun value => spares_completeValue (fun type => hobject type group.nodes) _ _ htype path value)
      _ _

theorem spares_completeFields (hschema : exec.schema.Consistent) (limit : Nat) (parentType : String)
    (parent : Json) (path : Path) (groups : List FieldGroup) :
    (exec.completeFields object limit parentType parent path groups).SparesSchema := by
  unfold completeFields
  refine .gather (fun part hpart => ?_) _ _
  obtain ⟨member, hmember, rfl⟩ := List.mem_map.1 hpart
  obtain ⟨group, -, hgroup⟩ := List.mem_filterMap.1 hmember
  split at hgroup
  · obtain rfl := Option.some.inj hgroup
    exact .ofValue _
  · obtain ⟨field, hfield, rfl⟩ := Option.map_eq_some_iff.1 hgroup
    exact spares_completeField hobject parentType parent _ (hschema.values _ _ field hfield) group

end Objects

theorem spares_completeObject (hschema : exec.schema.Consistent) (depth : Nat) (type : String)
    (nodes : List FieldNode) (path : Path) (value : Json) :
    (exec.completeObject depth type nodes path value).SparesSchema := by
  induction depth generalizing type nodes path value with
  | zero => exact .ofEscape _
  | succ depth ih => exact spares_completeFields ih hschema _ type value path _

end Execution

theorem Run.spares_complete {run : Run} (hschema : run.selector.schema.Consistent) (log : CallLog) :
    (run.complete log).SparesSchema := by
  have hexec : (run.execution log).schema.Consistent := hschema
  exact Execution.spares_completeFields (Execution.spares_completeObject hexec run.depth) hexec _ _
    _ _ _

/-! ## Groups -/

namespace FieldGroup

/-- The fields by their response keys, each put at the end of the list that stands under its key. -/
def table (nodes : List FieldNode) : Keyed (List FieldNode) :=
  nodes.foldl
    (fun table node =>
      Keyed.put node.responseKey ((table.lookup node.responseKey).getD [] ++ [node]) table)
    []

def entry (group : FieldGroup) : String × List FieldNode := (group.key, group.nodes)

theorem map_entry_insert (node : FieldNode) (groups : List FieldGroup) :
    (insert node groups).map entry =
      Keyed.put node.responseKey
        (((groups.map entry).lookup node.responseKey).getD [] ++ [node]) (groups.map entry) := by
  induction groups with
  | nil => rfl
  | cons group rest ih =>
    rw [insert, List.map_cons]
    by_cases hkey : group.key = node.responseKey
    · have hlookup : ((entry group :: rest.map entry).lookup node.responseKey) =
          some group.nodes := by
        rw [← hkey]
        exact List.lookup_cons_self
      rw [if_pos hkey, hlookup, entry, Keyed.put, if_pos hkey, ← hkey]
      rfl
    · have hne : (node.responseKey == group.key) = false := by simpa using Ne.symm hkey
      rw [if_neg hkey, List.map_cons, ih, entry, Keyed.put, if_neg hkey, List.lookup_cons, hne]

/-- The table lists the groups. -/
theorem table_eq_map (nodes : List FieldNode) : table nodes = (ofNodes nodes).map entry := by
  have hfold (groups : List FieldGroup) :
      nodes.foldl
          (fun table node =>
            Keyed.put node.responseKey ((table.lookup node.responseKey).getD [] ++ [node]) table)
          (groups.map entry) =
        (nodes.foldl (fun groups node => insert node groups) groups).map entry := by
    induction nodes generalizing groups with
    | nil => rfl
    | cons node rest ih =>
      rw [List.foldl_cons, List.foldl_cons, ← map_entry_insert]
      exact ih (insert node groups)
  exact hfold []

/-- No response key is without fields. -/
theorem ne_nil_of_mem_table {nodes : List FieldNode} {key : String} {group : List FieldNode}
    (h : (key, group) ∈ table nodes) : group ≠ [] := by
  rw [table_eq_map] at h
  obtain ⟨found, -, he⟩ := List.mem_map.1 h
  rw [← (Prod.mk.inj he).2]
  exact List.cons_ne_nil _ _

end FieldGroup

/-- With a schema that was built, nothing is rejected because the schema lacks a type or has one of
another kind: not the literals of a document, nor the variables of a request, nor the arguments of a
field, nor the values that resolvers return in a run, whether or not its document was checked.  And
the fields that are collected never come in an empty group. -/
theorem schema_not_blamed {blueprint : Blueprint} {schema : Schema}
    (hbuild : blueprint.build = .ok schema) :
    (∀ type literal, (schema.examine type literal).isOk = schema.accepts type literal ∧
      ∀ rejection, schema.examine type literal = .error (some rejection) →
        rejection.cause.blamesSchema = false) ∧
    (∀ (definition : VariableDefinition) (inputs : Json.Fields) provided rejection,
      definition.value schema inputs = .error (.invalid provided rejection) →
        rejection.cause.blamesSchema = false) ∧
    (∀ type name field, schema.field? type name = some field →
      ∀ arg ∈ field.arguments.values, ∀ value, SparesSchema (schema.coerceInput arg.type value)) ∧
    (∀ (config : Config) (context : Context) (request : Request) run,
      schema.prepare config context request = .ok run → ∀ log,
        ∀ f ∈ (run.complete log).failures, f.failure.blamesSchema = false) ∧
    ∀ (selector : Selector) object sets,
      let nodes := selector.collect object sets
      FieldGroup.table nodes = (FieldGroup.ofNodes nodes).map FieldGroup.entry ∧
        ∀ key group, (key, group) ∈ FieldGroup.table nodes → group ≠ [] := by
  have hschema := Blueprint.consistent hbuild
  refine ⟨fun type literal => ⟨Schema.isOk_examine type literal, ?_⟩, ?_, ?_, ?_, ?_⟩
  · intro rejection h
    exact Schema.spares_examine h
  · intro definition inputs provided rejection h
    exact VariableDefinition.spares_value h
  · intro type name field hfield arg harg value
    exact Schema.spares_coerceInput (hschema.arguments type name field hfield arg harg) value
  · intro config context request run hrun log
    obtain ⟨op, rootType, bindings, -, -, -, rfl⟩ := Schema.prepare_eq_ok hrun
    exact (Run.spares_complete hschema log).failures
  · intro selector object sets
    exact ⟨FieldGroup.table_eq_map _, fun key group => FieldGroup.ne_nil_of_mem_table⟩

/-- The number that is missing is a failure of its field, which does not blame the schema. -/
theorem schema_not_blamed_sample :
    ∃ f ∈ ((Sample.run Sample.root).complete []).failures, f.failure.blamesSchema = false := by
  obtain ⟨-, -, -, hruns, -⟩ := schema_not_blamed Sample.build_blueprint
  have hfailures := hruns .standard .empty (Sample.request Sample.root) _
    (Sample.prepare_request Sample.root) []
  have hmem : { failure := .nullResult "Query.number"
                locations := [Sample.place]
                path := [.key "self", .key "number"] } ∈
      ((Sample.run Sample.root).complete []).failures := List.mem_singleton.2 rfl
  exact ⟨_, hmem, hfailures _ hmem⟩

end TypedQuery
