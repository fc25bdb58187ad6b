import TypedQuery.Proofs.Execution.Ending
import TypedQuery.Proofs.Execution.Outlining
import TypedQuery.Proofs.Schema.Build
/-!
Runs and their outlines.  A run ends with the response that its outline holds, unless some call
never ends or the execution ends from within: `Run.ending_cases` and `Run.response?_ending`.
-/

namespace TypedQuery
namespace Outline

mutual

theorem finishes_trace (config : Config) : ∀ o : Outline,
    (o.trace config).finishes = !(o.escapes || o.hangs config.fieldTimeout)
  | leaf _ => rfl
  | failed _ => rfl
  | escaped _ => rfl
  | set _ members => allFinish_memberTraces config members

theorem allFinish_memberTraces (config : Config) : ∀ members : List (Place × Outline),
    Trace.allFinish (memberTraces config members) =
      !(anyEscapes members || anyHangs config.fieldTimeout members)
  | [] => rfl
  | (place, o) :: rest => by
    rw [memberTraces, Trace.allFinish, allFinish_memberTraces config rest, anyEscapes, anyHangs]
    have ho := finishes_trace config o
    unfold Place.await Place.hangs
    cases place.made with
    | none =>
      dsimp only
      rw [ho]
      cases o.escapes <;> cases o.hangs config.fieldTimeout <;> simp
    | some made =>
      dsimp only
      rw [Trace.finishes, ho]
      by_cases hp : Execution.pause config.fieldTimeout made.duration = .forever
      · simp [hp]
      · have hb : (Execution.pause config.fieldTimeout made.duration == Pause.forever) = false := by
          simpa using hp
        have hn : (Execution.pause config.fieldTimeout made.duration != Pause.forever) = true := by
          simpa using hp
        rw [hb, hn]
        cases o.escapes <;> cases o.hangs config.fieldTimeout <;> simp

end

mutual

theorem escapes_trace (config : Config) : ∀ o : Outline, (o.trace config).escapes = o.escapes
  | leaf _ => rfl
  | failed _ => rfl
  | escaped _ => rfl
  | set _ members => anyEscapes_memberTraces config members

theorem anyEscapes_memberTraces (config : Config) : ∀ members : List (Place × Outline),
    Trace.anyEscapes (memberTraces config members) = anyEscapes members
  | [] => rfl
  | (place, o) :: rest => by
    have ho : (place.await config.fieldTimeout (o.trace config)).escapes = o.escapes := by
      rw [← escapes_trace config o]
      unfold Place.await
      cases place.made <;> rfl
    rw [memberTraces, Trace.anyEscapes, ho, anyEscapes_memberTraces config rest, anyEscapes]

end

mutual

theorem limited_trace {P : Nat → Prop} {config : Config} (h : P config.window) : ∀ o : Outline,
    (o.trace config).limited P
  | leaf _ => trivial
  | failed _ => trivial
  | escaped _ => trivial
  | set _ members => ⟨h, allLimited_memberTraces h members⟩

theorem allLimited_memberTraces {P : Nat → Prop} {config : Config} (h : P config.window) :
    ∀ members : List (Place × Outline), Trace.allLimited P (memberTraces config members)
  | [] => trivial
  | (place, o) :: rest => by
    refine ⟨?_, allLimited_memberTraces h rest⟩
    have ho := limited_trace h o
    unfold Place.await
    cases place.made with
    | none => exact ho
    | some made => exact ho

end

/-- The response that is read off an outline. -/
def response (o : Outline) : Response :=
  { data := some o.data, errors := (o.marks Path.root).map FieldFailure.report }

end Outline

/-- The response, if the execution comes to one. -/
def Ending.response? : Ending → Option Response
  | response r _ => some r
  | _ => none

namespace Run

def execution (run : Run) (log : CallLog) : Execution :=
  { selector := run.selector, context := run.context, config := run.config, log := log }

/-- The limit on the root fields. -/
def limit (run : Run) : Nat := if run.serial then 1 else run.config.window

/-- What the run attempts, with objects nested at most `depth` deep, and calls that see the given
log. -/
def outline (run : Run) (depth : Nat) (log : CallLog) : Outline :=
  let exec := run.execution log
  .set (.fields run.rootType) <|
    exec.outlineFields (exec.outlineObject depth) run.rootType run.root Path.root
      (exec.groups run.rootType [run.selections])

theorem complete_eq (run : Run) (log : CallLog) :
    ∃ members, run.outline run.depth log = .set (.fields run.rootType) members ∧
      run.complete log =
        { (run.outline run.depth log).completion run.config Path.root with
          trace := .members run.limit (Outline.memberTraces run.config members) } :=
  ⟨_, rfl, (run.execution log).completeFields_eq ((run.execution log).completeObject_eq run.depth)
    run.limit run.rootType run.root Path.root _⟩

theorem limit_pos (run : Run) : 0 < run.limit := by
  unfold limit
  split
  · exact Nat.one_pos
  · exact Nat.le_max_left _ _

/-- The data of a completion: a null that leaves the root fields is the data. -/
theorem value?_verdict_set (kind : SetKind) (members : List (Place × Outline)) :
    (Outline.set kind members).verdict.value?.getD .null = (Outline.set kind members).data := by
  rw [Outline.verdict_set]
  by_cases h : Outline.anyNulled members = true <;> simp [h, Verdict.value?, Outline.data]

theorem firstEscape?_eq_none {events : List Event} (h : ∀ e ∈ events, ∀ cause, e ≠ .escaped cause) :
    firstEscape? events = none := by
  unfold firstEscape?
  rw [List.findSome?_eq_none_iff]
  intro e he
  cases e with
  | started label => rfl
  | resumed label => rfl
  | escaped cause => exact absurd rfl (h _ he cause)

theorem limited_trace {run : Run} {P : Nat → Prop} (hlimit : P run.limit)
    (hwindow : P run.config.window) (log : CallLog) : (run.complete log).trace.limited P := by
  obtain ⟨members, -, hc⟩ := run.complete_eq log
  rw [hc]
  exact ⟨hlimit, Outline.allLimited_memberTraces hwindow members⟩

theorem positive_trace (run : Run) (log : CallLog) : (run.complete log).trace.limited (0 < ·) :=
  limited_trace run.limit_pos (Nat.le_max_left _ _) log

/-- A run comes to its end unless something escapes from its outline or some call never ends. -/
theorem ends_complete (run : Run) (log : CallLog) :
    ((run.complete log).trace.course 0).ends =
      !((run.outline run.depth log).escapes ||
        (run.outline run.depth log).hangs run.config.fieldTimeout) := by
  obtain ⟨members, ho, hc⟩ := run.complete_eq log
  rw [Trace.course_ends (run.positive_trace log), hc, ho]
  exact Outline.allFinish_memberTraces run.config members

/-- What the run does, with calls that see the log, in the order of the selections and depth
first. -/
def depthFirst (run : Run) (log : CallLog) : List Event :=
  ((run.outline run.depth log).trace run.config).inOrder

theorem inOrder_trace (run : Run) (log : CallLog) :
    (run.complete log).trace.inOrder = run.depthFirst log := by
  obtain ⟨members, ho, hc⟩ := run.complete_eq log
  rw [depthFirst, hc, ho]
  rfl

/-- With calls that see the log, all is done in the depth-first order, up to where a call hangs or
something ends the execution from within. -/
def InOrder (run : Run) (log : CallLog) : Prop :=
  (run.complete log).trace.events <+: run.depthFirst log ∧
    ((run.outline run.depth log).escapes = false →
      (run.outline run.depth log).hangs run.config.fieldTimeout = false →
        (run.complete log).trace.events = run.depthFirst log)

/-- One at a time gives the depth-first order. -/
theorem inOrder_of_window {run : Run} (h : run.config.window = 1) (log : CallLog) :
    run.InOrder log := by
  have hlimit : run.limit = 1 := by
    unfold limit
    split
    · rfl
    · exact h
  obtain ⟨hbegins, hall⟩ := Trace.along_course (@limited_trace run (· = 1) hlimit h log) 0
  rw [inOrder_trace] at hbegins hall
  refine ⟨hbegins, fun hesc hh => hall ?_⟩
  rw [ends_complete, hesc, hh]
  rfl

/-- The response that a completed run would give is that of its outline. -/
theorem response_complete (run : Run) (log : CallLog) :
    (⟨some ((run.complete log).verdict.value?.getD .null),
      (run.complete log).failures.map FieldFailure.report⟩ : Response) =
        (run.outline run.depth log).response := by
  obtain ⟨members, ho, hc⟩ := run.complete_eq log
  have hdata : (run.outline run.depth log).verdict.value?.getD .null =
      (run.outline run.depth log).data := by
    rw [ho]
    exact value?_verdict_set _ members
  rw [hc]
  exact congrArg (fun data => (⟨some data, _⟩ : Response)) hdata

/-- What a run ends with, in terms of its outline. -/
theorem ending_cases (run : Run) :
    let o := run.outline run.depth run.callLog
    (o.escapes = true ∧ run.ending.response? = none) ∨
      (o.escapes = false ∧ o.hangs run.config.fieldTimeout = true ∧ run.ending = .stalled) ∨
        (o.escapes = false ∧ o.hangs run.config.fieldTimeout = false ∧
          run.ending = .response o.response run.callLog) := by
  obtain ⟨members, ho, hc⟩ := run.complete_eq run.callLog
  intro o
  have ho : o = .set (.fields run.rootType) members := ho
  have hends : ((run.complete run.callLog).trace.course 0).ends =
      !(o.escapes || o.hangs run.config.fieldTimeout) := run.ends_complete run.callLog
  have hresponse := run.response_complete run.callLog
  by_cases hesc : o.escapes = true
  · -- the course does not end, so whatever stopped it is no response
    refine .inl ⟨hesc, ?_⟩
    rw [hesc] at hends
    unfold ending
    dsimp only
    cases firstEscape? (run.complete run.callLog).trace.events with
    | some cause => rfl
    | none => simp [hends, Ending.response?]
  · have hesc : o.escapes = false := by simpa using hesc
    have hnone : firstEscape? (run.complete run.callLog).trace.events = none := by
      refine firstEscape?_eq_none (Trace.not_escaped_of_mem ?_)
      rw [hc]
      show Trace.anyEscapes (Outline.memberTraces run.config members) = false
      rw [Outline.anyEscapes_memberTraces, ← hesc, ho]
      rfl
    rw [hesc] at hends
    unfold ending
    cases hh : o.hangs run.config.fieldTimeout with
    | true => simp [hnone, hends, hh, hesc]
    | false =>
      rw [← hresponse]
      simp [hnone, hends, hh, hesc]

/-- The response of a run is that of its outline, unless the execution ends from within or waits for
ever. -/
theorem response?_ending (run : Run) :
    let o := run.outline run.depth run.callLog
    run.ending.response? =
      if o.escapes || o.hangs run.config.fieldTimeout then none else some o.response := by
  intro o
  rcases run.ending_cases with ⟨hesc, h⟩ | ⟨hesc, hh, h⟩ | ⟨hesc, hh, h⟩
  · rw [h, if_pos (Bool.or_eq_true _ _ ▸ .inl hesc)]
  · rw [h, if_pos (Bool.or_eq_true _ _ ▸ .inr hh)]
    rfl
  · have hno : (o.escapes || o.hangs run.config.fieldTimeout) = false := by
      rw [Bool.or_eq_false_iff]
      exact ⟨hesc, hh⟩
    rw [h, hno]
    rfl

theorem of_response? (run : Run) {r : Response} (h : run.ending.response? = some r) :
    let o := run.outline run.depth run.callLog
    run.ending = .response r run.callLog ∧ r = o.response ∧ o.escapes = false ∧
      o.hangs run.config.fieldTimeout = false := by
  intro o
  rcases run.ending_cases with ⟨-, hend⟩ | ⟨-, -, hend⟩ | ⟨hesc, hh, hend⟩
  · rw [hend] at h
    cases h
  · rw [hend] at h
    cases h
  · rw [hend] at h
    obtain rfl := Option.some.inj h
    exact ⟨hend, rfl, hesc, hh⟩

end Run

/-! ## Requests -/

namespace Document

theorem mem_of_select {doc : Document} {name : Option String} {op : Operation}
    (h : doc.select name = .ok op) : op ∈ doc.operations := by
  unfold select at h
  cases name with
  | some name =>
    dsimp only at h
    cases hfind : doc.operations.find? (·.name == some name) with
    | none => rw [hfind] at h; cases h
    | some found =>
      rw [hfind] at h
      exact Except.ok.inj h ▸ List.mem_of_find?_eq_some hfind
  | none =>
    dsimp only at h
    rcases hops : doc.operations with _ | ⟨first, _ | ⟨second, rest⟩⟩
    · rw [hops] at h; cases h
    · rw [hops] at h
      exact Except.ok.inj h ▸ List.mem_cons_self
    · rw [hops] at h; cases h

end Document

namespace Schema

/-- The run of an operation, with its root type and its variables. -/
def run (schema : Schema) (config : Config) (context : Context) (request : Request)
    (op : Operation) (rootType : String) (bindings : Json.Fields) : Run :=
  { selector := .ofDocument schema request.document bindings
    context := context
    config := config
    rootType := rootType
    root := request.root
    selections := op.selections
    serial := op.kind == .mutation
    depth := request.document.depthLimit }

theorem prepare_eq (schema : Schema) (config : Config) (context : Context) (request : Request) :
    schema.prepare config context request =
      match request.document.select request.operation with
      | .error problem => .error (.ofFailure (.invalidDocument problem.message) [])
      | .ok op =>
        match schema.rootType? op.kind with
        | none => .error <|
          .ofFailure (.invalidDocument (Fault.notConfigured op.kind).message) [op.location]
        | some rootType =>
          match schema.coerceVariables op.variableDefs request.inputs with
          | .error errors => .error (.ofErrors errors)
          | .ok bindings => .ok (schema.run config context request op rootType bindings) := by
  unfold prepare
  cases request.document.select request.operation with
  | error problem => rfl
  | ok op =>
    cases hroot : schema.rootType? op.kind with
    | none =>
      simp [hroot, bind, Except.bind, pure, Except.pure, throw, throwThe, MonadExceptOf.throw]
    | some rootType =>
      cases hvars : schema.coerceVariables op.variableDefs request.inputs with
      | error errors =>
        simp [hroot, hvars, bind, Except.bind, pure, Except.pure, throw, throwThe,
          MonadExceptOf.throw]
      | ok bindings => simp [hroot, hvars, bind, Except.bind, pure, Except.pure, run]

/-- What a prepared run is made of. -/
theorem prepare_eq_ok {schema : Schema} {config : Config} {context : Context} {request : Request}
    {run : Run} (h : schema.prepare config context request = .ok run) :
    ∃ op rootType bindings, request.document.select request.operation = .ok op ∧
      schema.rootType? op.kind = some rootType ∧
      schema.coerceVariables op.variableDefs request.inputs = .ok bindings ∧
      run = schema.run config context request op rootType bindings := by
  rw [prepare_eq] at h
  split at h
  · cases h
  · split at h
    · cases h
    · split at h
      · cases h
      · exact ⟨_, _, _, ‹_›, ‹_›, ‹_›, (Except.ok.inj h).symm⟩

theorem data_of_prepare_eq_error {schema : Schema} {config : Config} {context : Context}
    {request : Request} {response : Response}
    (h : schema.prepare config context request = .error response) : response.data = none := by
  rw [prepare_eq] at h
  split at h
  · exact Except.error.inj h ▸ rfl
  · split at h
    · exact Except.error.inj h ▸ rfl
    · split at h
      · exact Except.error.inj h ▸ rfl
      · cases h

/-- Data comes from a run. -/
theorem run_of_data {schema : Schema} {config : Config} {context : Context} {request : Request}
    {r : Response}
    (h : (schema.execute config context request).response? = some r ∨
      (schema.executeValidated config context request).response? = some r) {data : Json}
    (hdata : r.data = some data) :
    ∃ run, schema.prepare config context request = .ok run ∧ run.ending.response? = some r := by
  have hv : (schema.executeValidated config context request).response? = some r := by
    rcases h with h | h
    · unfold execute at h
      cases hfaults : schema.validate request.document request.operation request.inputs with
      | nil => rwa [hfaults] at h
      | cons error errors =>
        rw [hfaults] at h
        obtain rfl := Option.some.inj h
        cases hdata
    · exact h
  unfold executeValidated at hv
  cases hrun : schema.prepare config context request with
  | error response =>
    rw [hrun] at hv
    obtain rfl := Option.some.inj hv
    rw [data_of_prepare_eq_error hrun] at hdata
    cases hdata
  | ok run =>
    rw [hrun] at hv
    exact ⟨run, rfl, hv⟩

end Schema
/-! ## A small schema -/

namespace Sample

def field (name : String) (type : TypeExpr) : String × FieldDef :=
  (name,
    { name := name
      description := none
      type := type
      arguments := []
      resolver := none })

/-- One object type with numbers, lists of numbers and itself. -/
def blueprint : Blueprint :=
  { queryType := some "Query"
    mutationType := none
    added :=
      [.object
        { name := "Query"
          description := none
          fields :=
            [field "number" (.nonNull (.named "Int")),
              field "numbers" (.list (.nonNull (.named "Int"))),
              field "self" (.named "Query")]
          interfaces := [] }] }

def schema : Schema :=
  { queryType := "Query", mutationType := none, types := blueprint.table }

theorem build_blueprint : blueprint.build = .ok schema := by rfl

def place : Location := { line := 1, column := 1 }

def select (name : String) (selections : List Selection) : Selection :=
  .field
    { location := place, aliasName := none, name := name, arguments := [], directives := [] }
    selections

/-- A query for the number of the root and, by a fragment, for that of the object below it. -/
def request (root : Json) : Request :=
  { document :=
      { definitions :=
          [.operation
              { location := place
                kind := .query
                name := none
                variableDefs := []
                directives := []
                selections := [select "number" [], select "self" [.spread place "Number" []]] },
            .fragment
              { location := place
                name := "Number"
                condition := "Query"
                directives := []
                selections := [select "number" []] }] }
    operation := none
    inputs := []
    root := root }

/-- The run of the query. -/
def run (root : Json) : Run :=
  { selector := .ofDocument schema (request root).document []
    context := .empty
    config := .standard
    rootType := "Query"
    root := root
    selections := [select "number" [], select "self" [.spread place "Number" []]]
    serial := false
    depth := (request root).document.depthLimit }

theorem prepare_request (root : Json) :
    schema.prepare .standard .empty (request root) = .ok (run root) := by rfl

def root : Json := .obj [("number", .int 1), ("self", .obj [])]

/-- The object below the root lacks its number, which cannot be null, and the object can. -/
def response : Response :=
  { data := some (.obj [("number", .int 1), ("self", .null)])
    errors :=
      [(Failure.nullResult "Query.number").report [place]
        (some [.key "self", .key "number"])] }

/-- The object below the root lacks its number. -/
def unnumbered (locations : List Location) : Response :=
  { data := some (.obj [("self", .null)])
    errors :=
      [(Failure.nullResult "Query.number").report locations
        (some [.key "self", .key "number"])] }

theorem response?_request :
    (schema.executeValidated .standard .empty (request root)).response? = some response :=
  Run.response?_ending _

end Sample
end TypedQuery
