import TypedQuery.Proofs.Execution.Calls
import TypedQuery.Proofs.Execution.Timing
/-!
Mutations.  Their root fields run one after another, each with all that is below it, though what is
below runs at the limit of the configuration: `mutation_serial`.  This needs nothing to go well: a
root field may fail, be cut off, or never end, and then the fields behind it are not seen at all.
-/

namespace TypedQuery

/-- Of two different segments, one is in front. -/
theorem PathSegment.idxOf_lt {segments : List PathSegment} (h : segments.Nodup)
    {s t : PathSegment} (hst : [s, t].Sublist segments) : segments.idxOf s < segments.idxOf t := by
  have hall : segments.Pairwise fun s t => segments.idxOf s < segments.idxOf t := by
    refine List.pairwise_iff_getElem.2 fun i j hi hj hlt => ?_
    rw [h.idxOf_getElem i hi, h.idxOf_getElem j hj]
    exact hlt
  exact List.rel_of_pairwise_cons (hall.sublist hst) List.mem_cons_self

/-- Paths that begin with an earlier key come before those that begin with a later one. -/
def Path.InKeyOrder (keys : List String) (paths : List Path) : Prop :=
  keys.Pairwise fun first second => ∀ (i j : Nat) p q, paths[i]? = some p →
    paths[j]? = some q → [PathSegment.key first] <+: p → [PathSegment.key second] <+: q → i < j

/-- No path that begins with a later segment comes before one that begins with an earlier one. -/
def Path.Following (segments : List PathSegment) (paths : List Path) : Prop :=
  paths.Pairwise fun p q => ∀ s t, [s, t].Sublist segments → ¬ ([t] <+: p ∧ [s] <+: q)

theorem Path.Following.inKeyOrder {keys : List String} (hnodup : keys.Nodup) {paths : List Path}
    (h : Following (keys.map .key) paths) : InKeyOrder keys paths := by
  refine List.pairwise_iff_forall_sublist.2 ?_
  intro first second hkeys i j p q hi hj hp hq
  have hsegments : [PathSegment.key first, .key second].Sublist (keys.map .key) :=
    List.Sublist.map PathSegment.key hkeys
  by_contra hle
  rcases Nat.lt_or_eq_of_le (Nat.le_of_not_lt hle) with hlt | rfl
  · obtain ⟨hj', rfl⟩ := List.getElem?_eq_some_iff.1 hj
    obtain ⟨hi', rfl⟩ := List.getElem?_eq_some_iff.1 hi
    exact List.pairwise_iff_getElem.1 h j i hj' hi' hlt _ _ hsegments ⟨hq, hp⟩
  · -- one path does not begin with two keys
    rw [hi] at hj
    obtain rfl := Option.some.inj hj
    have hsame := @Outline.segment_unique [] p _ _ [] [] hp hq
    obtain rfl := PathSegment.key.inj hsame
    exact List.nodup_iff_sublist.1 hnodup first hkeys

namespace Outline

variable {config : Config}

/-- Members that run one at a time are over, with all below them, before those behind them start. -/
theorem following_members {kind : SetKind} {members : List (Place × Outline)}
    (h : (set kind members).Addressed []) {segments : List PathSegment} (hnodup : segments.Nodup)
    (hsub : (members.map fun member => member.1.segment).Sublist segments) (now : Nat) :
    Path.Following segments
      (((Trace.members 1 (memberTraces config members)).course now).events.filterMap
        Event.path?) := by
  refine List.pairwise_filterMap.2 ?_
  refine pairwise_members h ?_ ?_ now
  · intro i j e f he hf hij p hp q hq s t hst hpq
    have hlt : i < j := hij.resolve_right fun hmany => hmany.1 rfl
    obtain ⟨first, hfirst, he⟩ := he
    obtain ⟨second, hsecond, hf⟩ := hf
    obtain rfl := @segment_unique [] p _ _ [] [] (he p hp) hpq.1
    obtain rfl := @segment_unique [] q _ _ [] [] (hf q hq) hpq.2
    have hpair : [first, second].Sublist members := by
      obtain ⟨hi, rfl⟩ := List.getElem?_eq_some_iff.1 hfirst
      obtain ⟨hj, rfl⟩ := List.getElem?_eq_some_iff.1 hsecond
      exact List.pairwise_iff_getElem.1
        (List.pairwise_iff_forall_sublist.2 fun {a b} hab => hab) i j hi hj hlt
    have hts := (hpair.map fun member => member.1.segment).trans hsub
    exact Nat.lt_asymm (PathSegment.idxOf_lt hnodup hst) (PathSegment.idxOf_lt hnodup hts)
  · intro member hm now
    refine List.pairwise_of_forall_mem_list fun e he f hf p hp q hq s t hst hpq => ?_
    have hwithin {e : Event} (he : e ∈ ((memberTrace config member).course now).events) {own : Path}
        (hown : e.path? = some own) : [member.1.segment] <+: own :=
      h.within hm (Trace.events_subset_inOrder _ now he) hown
    obtain rfl := @segment_unique [] p _ _ [] [] (hwithin he hp) hpq.1
    obtain rfl := @segment_unique [] q _ _ [] [] (hwithin hf hq) hpq.2
    exact List.nodup_iff_sublist.1 hnodup _ hst

/-- A call that outlasts the deadline is seen to start, and nothing more is seen of its position. -/
theorem eq_started_of_outlasts {exec : Execution} {place : Place} {o : Outline}
    (h : exec.Settled place o) {made : MadeCall} (hmade : place.made = some made)
    (hlong : made.duration.outlasts exec.config.fieldTimeout = true) {e : Event}
    (he : e ∈ (memberTrace exec.config (place, o)).inOrder) : e = .started made.label := by
  unfold memberTrace Place.await at he
  rw [hmade] at he
  dsimp only at he
  rw [Execution.pause_of_outlasts hlong] at he
  cases hlimit : exec.config.fieldTimeout with
  | none =>
    rw [hlimit] at he
    exact List.mem_singleton.1 he
  | some ms =>
    obtain ⟨field, limit, rfl⟩ := h.timedOut_iff.2 ⟨made, ms, hmade, hlimit, hlong⟩
    rw [hlimit] at he
    exact List.mem_singleton.1 he

end Outline

theorem CallLog.path_ofLabel (label : CallLabel) (resumed : Bool) :
    (ofLabel label resumed).map (fun record => record.path) = some label.path ∨
      (ofLabel label resumed).map (fun record => record.path) = none := by
  unfold ofLabel
  split
  · exact .inl rfl
  · exact .inr rfl

/-- The log has the paths of events, of those that leave a record. -/
theorem CallLog.paths_ofEvents_sublist (events : List Event) :
    ((CallLog.ofEvents events).map fun record => record.path).Sublist
      (events.filterMap Event.path?) := by
  unfold ofEvents
  rw [List.map_filterMap]
  induction events with
  | nil => exact .slnil
  | cons e rest ih =>
    rw [List.filterMap_cons]
    cases e with
    | started label =>
      rcases path_ofLabel label false with h | h
      · simp only [h]
        exact ih.cons_cons label.path
      · simp only [h]
        exact ih.cons label.path
    | resumed label =>
      rcases path_ofLabel label true with h | h
      · simp only [h]
        exact ih.cons_cons label.path
      · simp only [h]
        exact ih.cons label.path
    | escaped cause => exact ih

namespace Run

variable (run : Run)

/-- The log of a run is one that some log leads to. -/
theorem exists_callLog : ∃ seen, run.callLog = run.log seen := by
  have hsettle : ∀ (rounds : Nat) (seen : CallLog), (∃ before, seen = run.log before) →
      ∃ before, run.settle rounds seen = run.log before := by
    intro rounds
    induction rounds with
    | zero => exact fun seen h => h
    | succ rounds ih =>
      intro seen h
      unfold settle
      dsimp only
      split
      · exact h
      · exact ih _ ⟨seen, rfl⟩
  exact hsettle _ _ ⟨[], rfl⟩

/-- The response keys of the root, in the order in which they are collected. -/
def rootKeys (run : Run) : List String :=
  (run.groups run.rootType [run.selections]).map fun group => group.key

theorem nodup_rootKeys : run.rootKeys.Nodup := FieldGroup.nodup_keys _

/-- The segments of the root's members are those of its keys that have a meaning, in their order. -/
theorem segments_sublist {log : CallLog} {members : List (Place × Outline)}
    (ho : run.outline run.depth log = .set (.fields run.rootType) members) :
    (members.map fun member => member.1.segment).Sublist (run.rootKeys.map .key) := by
  obtain ⟨others, hsame, hc, -⟩ := run.settled_outline run.depth log
  rw [ho] at hsame
  obtain ⟨-, rfl⟩ := Outline.set.inj hsame
  rw [Execution.segments_of_answers hc, rootKeys, List.map_map]
  exact List.filter_sublist.map _

theorem following_events (hserial : run.serial = true) (log : CallLog) :
    Path.Following (run.rootKeys.map .key)
      ((run.complete log).trace.events.filterMap Event.path?) := by
  obtain ⟨members, ho, hevents⟩ := run.events_complete log
  have haddressed := (run.grown_outline run.depth log).addressed
  rw [ho] at haddressed
  have hlimit : run.limit = 1 := if_pos hserial
  rw [hevents, hlimit]
  exact Outline.following_members haddressed
    (run.nodup_rootKeys.map fun _ _ => PathSegment.key.inj) (run.segments_sublist ho) 0

/-- The log of a serial run is in order as well, whatever log its calls were made with. -/
theorem following_callLog (hserial : run.serial = true) :
    Path.Following (run.rootKeys.map .key) (run.callLog.map fun record => record.path) := by
  obtain ⟨seen, hseen⟩ := run.exists_callLog
  rw [hseen]
  exact (run.following_events hserial seen).sublist (CallLog.paths_ofEvents_sublist _)

variable {run}

/-- A call that outlasts the deadline has no event but its start, and nothing is seen below it. -/
theorem silent_of_outlasts {path : Path} {place : Place} {inner : Outline}
    (hat : (run.outline run.depth run.callLog).At path place inner) {made : MadeCall}
    (hmade : place.made = some made)
    (hlong : made.duration.outlasts run.config.fieldTimeout = true) {before after : List Event}
    (hevents : run.events = before ++ .started made.label :: after) :
    ∀ e ∈ before ++ after, ¬ e.Within path := by
  obtain ⟨-, -, -, hsettled⟩ := run.settled_outline run.depth run.callLog
  have haddressed := (run.grown_outline run.depth run.callLog).addressed
  have horder := run.pairwise_events Event.orders_precedes run.callLog
  rw [← events, hevents, List.pairwise_append, List.pairwise_cons] at horder
  obtain ⟨-, ⟨hafter, -⟩, hbefore⟩ := horder
  have honce : ¬ (Event.started made.label).Precedes (.started made.label) := fun h =>
    h _ _ rfl rfl (List.prefix_refl _)
  intro e he hwithin
  have hmem : e ∈ run.events := by
    rw [hevents]
    refine List.mem_append.2 ((List.mem_append.1 he).imp_right (List.mem_cons_of_mem _))
  have hin := haddressed.of_within (run.orderly_outline run.depth run.callLog) hat
    (run.mem_inOrder hmem) hwithin
  obtain rfl := Outline.eq_started_of_outlasts (hsettled path place inner hat) hmade hlong hin
  rcases List.mem_append.1 he with he | he
  · exact honce (hbefore _ he _ List.mem_cons_self)
  · exact honce (hafter _ he)

end Run

/-- A response comes with the log of its run, or none. -/
theorem Schema.log_of_response {schema : Schema} {config : Config} {context : Context}
    {request : Request} {run : Run} (hrun : schema.prepare config context request = .ok run)
    {r : Response} {log : CallLog}
    (h : schema.execute config context request = .response r log ∨
      schema.executeValidated config context request = .response r log) :
    log = [] ∨ log = run.callLog := by
  have hvalidated : schema.executeValidated config context request = .response r log →
      log = run.callLog := by
    unfold executeValidated
    rw [hrun]
    intro hend
    have hend : run.ending = .response r log := hend
    have hsome : run.ending.response? = some r := by rw [hend]; rfl
    obtain ⟨hown, -⟩ := run.of_response? hsome
    rw [hend] at hown
    injection hown
  rcases h with h | h
  · unfold execute at h
    cases hfaults : schema.validate request.document request.operation request.inputs with
    | nil =>
      rw [hfaults] at h
      exact .inr (hvalidated h)
    | cons error errors =>
      rw [hfaults] at h
      injection h with _ hlog
      exact .inl hlog.symm
  · exact .inr (hvalidated h)

/-- The root fields of a mutation run one after another: what is seen of an earlier one, at any
depth, comes before what is seen of a later one, and so it does in the log that the response comes
with.  Where a call outlasts the deadline, nothing is seen but that it starts.  All this holds under
every configuration, and also when the execution does not come to a response. -/
theorem mutation_serial {schema : Schema} {config : Config} {context : Context} {request : Request}
    {run : Run} (hrun : schema.prepare config context request = .ok run) {op : Operation}
    (hop : request.document.select request.operation = .ok op) (hkind : op.kind = .mutation) :
    Path.InKeyOrder run.rootKeys (run.events.filterMap Event.path?) ∧
      (∀ r log, schema.execute config context request = .response r log ∨
        schema.executeValidated config context request = .response r log →
          Path.InKeyOrder run.rootKeys (log.map fun record => record.path)) ∧
      ∀ path place inner made, (run.outline run.depth run.callLog).At path place inner →
        place.made = some made → made.duration.outlasts config.fieldTimeout = true →
          ∀ before after, run.events = before ++ .started made.label :: after →
            ∀ e ∈ before ++ after, ¬ e.Within path := by
  obtain ⟨selected, rootType, bindings, hselected, -, -, hmade⟩ := Schema.prepare_eq_ok hrun
  rw [hop] at hselected
  obtain rfl := Except.ok.inj hselected
  have hserial : run.serial = true := by
    rw [hmade]
    exact beq_iff_eq.2 hkind
  have hconfig : run.config = config := hmade ▸ rfl
  refine ⟨(run.following_events hserial run.callLog).inKeyOrder run.nodup_rootKeys, ?_, ?_⟩
  · intro r log h
    refine Path.Following.inKeyOrder run.nodup_rootKeys ?_
    rcases Schema.log_of_response hrun h with rfl | rfl
    · exact .nil
    · exact run.following_callLog hserial
  · rw [← hconfig]
    exact fun _ _ _ _ hat hmade hlong _ _ => Run.silent_of_outlasts hat hmade hlong

namespace Sample

/-- A step that is asked for as `one` never ends. -/
def step : Resolver := fun call =>
  { Resolver.property call with wait := if call.info.path = [.key "one"] then .never else .ready }

/-- The small schema with one mutation. -/
def steps : Schema :=
  { queryType := "Query"
    mutationType := some "Mutation"
    types := Blueprint.table
      { queryType := some "Query"
        mutationType := some "Mutation"
        added := blueprint.added ++
          [.object
            { name := "Mutation"
              description := none
              fields :=
                [("step", { (field "step" (.named "Query")).2 with resolver := some step })]
              interfaces := [] }] } }

def stepAs (key : String) : Selection :=
  .field
    { location := place, aliasName := some key, name := "step", arguments := [], directives := [] }
    [select "number" []]

/-- Two steps, of which the first never ends. -/
def mutation : Request :=
  { document :=
      { definitions :=
          [.operation
              { location := place
                kind := .mutation
                name := none
                variableDefs := []
                directives := []
                selections := [stepAs "one", stepAs "two"] }] }
    operation := none
    inputs := []
    root := .obj [("step", .obj [("number", .int 1)])] }

end Sample

/-- The first step is cut off, and the second comes after it. -/
theorem mutation_serial_sample :
    ∃ run, Sample.steps.prepare { Config.standard with fieldTimeout := some 5 } .empty
        Sample.mutation = .ok run ∧ run.rootKeys = ["one", "two"] ∧
      Path.InKeyOrder ["one", "two"] (run.events.filterMap Event.path?) ∧
      ∃ made : MadeCall, made.label.path = [.key "one"] ∧
        ∀ before after, run.events = before ++ .started made.label :: after →
          ∀ e ∈ before ++ after, ¬ e.Within [.key "one"] := by
  obtain ⟨horder, -, hsilent⟩ := @mutation_serial Sample.steps
    { Config.standard with fieldTimeout := some 5 } .empty Sample.mutation _ rfl _ rfl rfl
  refine ⟨_, rfl, rfl, horder, _, rfl, hsilent [.key "one"] _ _ _ (.member List.mem_cons_self) rfl ?_⟩
  rfl

end TypedQuery
