import TypedQuery.Proofs.Execution.Answering
import TypedQuery.Proofs.Execution.Events
/-!
Which calls a run makes.  Every call is made where its field is selected and its arguments are
accepted, once, after the call of the field around it; and when no call keeps the run waiting for
ever, all these calls are made, whatever fails elsewhere and however many run at a time:
`calls_made_once`.
-/

namespace TypedQuery

namespace Execution

variable {exec : Execution}

/-- A call in an outline is for the path of its position, and of the resolver of some field. -/
theorem GrownBelow.call {base : Path} {sets : List (List Selection)} {o : Outline}
    (h : exec.GrownBelow base sets o) {path : Path} {place : Place} {inner : Outline}
    (hat : o.At path place inner) {made : MadeCall} (hmade : place.made = some made) :
    made.call.info.path = base ++ path ∧ ∃ type group field,
      exec.Callable type group field made.call.arguments ∧
        made = exec.made field.resolve made.call := by
  induction hat generalizing base sets with
  | member hm =>
    obtain ⟨hpath, type, group, field, -, -, -, hcall, hown⟩ := h.1.call hm hmade
    exact ⟨hpath, type, group, field, hcall, hown⟩
  | deeper hm _ ih =>
    rw [List.append_cons]
    exact ih (h.member hm) hmade

theorem GrownBelow.addressed {base : Path} {sets : List (List Selection)} {o : Outline}
    (h : exec.GrownBelow base sets o) : o.Addressed base :=
  fun _ _ _ hat _ hmade => (h.call hat hmade).1

theorem GrownBelow.introduced {base : Path} {sets : List (List Selection)} {o : Outline}
    (h : exec.GrownBelow base sets o) : o.Introduced := by
  intro path place inner below hat key hkey
  obtain ⟨front, kind, members, rfl, hm, ⟨rfl, rfl⟩ | ⟨outer, houter⟩⟩ :=
    Outline.exists_set_of_at hat
  · exact h.1.made_of_set hm hkey
  · exact (h.2 front outer _ houter).made_of_set hm hkey

end Execution

namespace Run

/-! ## Events of a run -/

/-- What is seen of the run. -/
def events (run : Run) : List Event := (run.complete run.callLog).trace.events

/-- The paths at which the run calls resolvers, in the order of the calls. -/
def calls (run : Run) : List Path := run.events.filterMap Event.called?

variable (run : Run)

theorem events_complete (log : CallLog) :
    ∃ members, run.outline run.depth log = .set (.fields run.rootType) members ∧
      (run.complete log).trace.events =
        ((Trace.members run.limit (Outline.memberTraces run.config members)).course 0).events := by
  obtain ⟨members, ho, hc⟩ := run.complete_eq log
  exact ⟨members, ho, by rw [hc]; rfl⟩

theorem mem_calls {path : Path} :
    path ∈ run.calls ↔ ∃ e ∈ run.events, e.called? = some path := List.mem_filterMap

/-- What is seen of a run is of its outline. -/
theorem mem_inOrder {log : CallLog} {e : Event} (he : e ∈ (run.complete log).trace.events) :
    e ∈ run.depthFirst log := by
  rw [← run.inOrder_trace]
  exact Trace.events_subset_inOrder _ 0 he

/-- All that is in its outline is seen of a run that comes to its end. -/
theorem depthFirst_subset_events (hesc : (run.outline run.depth run.callLog).escapes = false)
    (hh : (run.outline run.depth run.callLog).hangs run.config.fieldTimeout = false) :
    run.depthFirst run.callLog ⊆ run.events := by
  have hends := run.ends_complete run.callLog
  rw [hesc, hh] at hends
  rw [← run.inOrder_trace]
  exact Trace.inOrder_subset_events (run.positive_trace _) hends

/-! ## Calls that are due -/

/-- A call is due at the path: an object is completed at the path around it, the key is that of a
group which is collected there for a field of the object's type, and the field takes its arguments. -/
def Due (path : Path) : Prop :=
  ∃ base object sets, run.Completes base object sets ∧ ∃ group ∈ run.groups object sets,
    path = base.field group.key ∧ group.first.name ≠ "__typename" ∧ ∃ field arguments,
      run.selector.schema.field? object group.first.name = some field ∧
        run.selector.schema.coerceArguments field group.first.arguments run.selector.bindings =
          .ok arguments

variable {run}

/-- An object that is completed is in the outline, with what is selected for it. -/
theorem Completes.grown {base : Path} {object : String} {sets : List (List Selection)}
    (h : run.Completes base object sets) :
    ∃ members, (run.execution run.callLog).Grown base sets (.set (.fields object) members) ∧
      ∀ member ∈ members, (run.outline run.depth run.callLog).At (base ++ [member.1.segment])
        member.1 member.2 := by
  have hgrown := run.grown_outline run.depth run.callLog
  cases h with
  | root => exact ⟨_, hgrown.1, fun member hm => .member hm⟩
  | below hat hsets =>
    subst hsets
    exact ⟨_, hgrown.2 _ _ _ hat, fun member hm => Outline.at_trans hat (.member hm)⟩

/-- Calls are due at the positions of the outline that have one. -/
theorem due_iff {path : Path} :
    run.Due path ↔ ∃ place inner made, (run.outline run.depth run.callLog).At path place inner ∧
      place.made = some made := by
  have hgrown := run.grown_outline run.depth run.callLog
  constructor
  · rintro ⟨base, object, sets, hcompletes, group, hgroup, rfl, hname, field, arguments, hfield,
      harguments⟩
    obtain ⟨members, hset, hat⟩ := hcompletes.grown
    obtain ⟨member, hm, hsegment, made, hmade⟩ := hset.exists_call hgroup ⟨hname, hfield, harguments⟩
    have hpath := hat member hm
    rw [hsegment] at hpath
    exact ⟨_, _, made, hpath, hmade⟩
  · rintro ⟨place, inner, made, hat, hmade⟩
    obtain ⟨base, kind, members, rfl, hm, hbase⟩ := Outline.exists_set_of_at hat
    have hset : ∃ sets, (run.execution run.callLog).Grown base sets (.set kind members) ∧
        ∀ object, kind = .fields object → run.Completes base object sets := by
      rcases hbase with ⟨rfl, ho⟩ | ⟨outer, houter⟩
      · refine ⟨_, ho ▸ hgrown.1, fun object hkind => ?_⟩
        obtain ⟨hroot, -⟩ := Outline.set.inj ho
        obtain rfl := SetKind.fields.inj (hroot.trans hkind)
        exact .root
      · refine ⟨_, hgrown.2 _ _ _ houter, fun object hkind => ?_⟩
        subst hkind
        exact .below houter rfl
    obtain ⟨sets, hset, hcompletes⟩ := hset
    obtain ⟨-, object, group, field, hkind, hgroup, hsegment, ⟨hname, hfield, harguments⟩, -⟩ :=
      hset.call hm hmade
    refine ⟨base, object, sets, hcompletes object hkind, group, hgroup, ?_, hname, field, _, hfield,
      harguments⟩
    rw [show place.segment = _ from hsegment]
    rfl

/-- No call is made but those that are due. -/
theorem due_of_mem_calls {path : Path} (h : path ∈ run.calls) : run.Due path := by
  obtain ⟨e, he, hcalled⟩ := run.mem_calls.1 h
  obtain ⟨at', place, inner, made, hat, hmade, hevent⟩ :=
    Outline.at_of_mem_inOrder (run.mem_inOrder he) (Event.path?_of_called? hcalled)
  have hpath := ((run.grown_outline run.depth run.callLog).call hat hmade).1
  have hlabel := Event.path_of_label hevent (Event.path?_of_called? hcalled)
  have hsame : path = at' := hlabel.symm.trans hpath
  exact due_iff.2 ⟨place, inner, made, hsame ▸ hat, hmade⟩

/-- The events of a run are in every order that holds for its positions. -/
theorem pairwise_events {R : Event → Event → Prop} (hR : Event.Orders R) (log : CallLog) :
    (run.complete log).trace.events.Pairwise R := by
  obtain ⟨members, ho, hevents⟩ := run.events_complete log
  have haddressed := (run.grown_outline run.depth log).addressed
  have horderly := run.orderly_outline run.depth log
  rw [ho] at haddressed horderly
  rw [hevents]
  exact Outline.pairwise_events hR horderly haddressed run.limit 0

/-- No call is made twice, and none after those below it. -/
theorem pairwise_calls : run.calls.Pairwise fun earlier later => ¬ later <+: earlier := by
  rw [calls, List.pairwise_filterMap]
  refine (run.pairwise_events Event.orders_precedes run.callLog).imp ?_
  intro e f hbefore p hp q hq
  exact hbefore p q hp hq

/-- The calls of the fields around a call are made. -/
theorem call_around {path : Path} (h : path ∈ run.calls) {front : Path} {key : String}
    (hfront : front ++ [.key key] <+: path) : front ++ [.key key] ∈ run.calls := by
  by_cases hself : front ++ [.key key] = path
  · rw [hself]
    exact h
  obtain ⟨e, he, hcalled⟩ := run.mem_calls.1 h
  obtain ⟨members, ho, hevents⟩ := run.events_complete run.callLog
  have haddressed := (run.grown_outline run.depth run.callLog).addressed
  have hintroduced := (run.grown_outline run.depth run.callLog).introduced
  rw [ho] at haddressed hintroduced
  rw [events, hevents] at he
  obtain ⟨earlier, hearlier, hcall⟩ :=
    (Outline.grounded_members haddressed hintroduced run.limit 0).exists_called he
      ⟨front, key, path, rfl, List.nil_prefix, Event.path?_of_called? hcalled, hfront, hself⟩
  refine run.mem_calls.2 ⟨earlier, ?_, hcall⟩
  rw [events, hevents]
  exact hearlier

/-- A run that comes to its end makes all calls that are due. -/
theorem mem_calls_of_due (hesc : (run.outline run.depth run.callLog).escapes = false)
    (hh : (run.outline run.depth run.callLog).hangs run.config.fieldTimeout = false) {path : Path}
    (h : run.Due path) : path ∈ run.calls := by
  obtain ⟨place, inner, made, hat, hmade⟩ := due_iff.1 h
  have hpath : made.label.path = path :=
    ((run.grown_outline run.depth run.callLog).call hat hmade).1
  exact run.mem_calls.2 ⟨.started made.label,
    run.depthFirst_subset_events hesc hh (Outline.started_of_at hh hat hmade), congrArg some hpath⟩

/-- Nothing is called below a position that did not come to a set. -/
theorem eq_of_call_below {path : Path} {place : Place} {inner : Outline}
    (hat : (run.outline run.depth run.callLog).At path place inner)
    (hleaf : ∀ kind members, inner ≠ .set kind members) {call : Path} (hcall : call ∈ run.calls)
    (hbelow : path <+: call) : call = path := by
  obtain ⟨own, below, made, hown, -⟩ := due_iff.1 (due_of_mem_calls hcall)
  obtain ⟨rest, rfl⟩ := hbelow
  rcases Outline.at_append (run.orderly_outline run.depth run.callLog) hat hown with
    ⟨rfl, -, -⟩ | hin
  · exact List.append_nil path
  · cases hin with
    | member hm => exact absurd rfl (hleaf _ _)
    | deeper hm _ => exact absurd rfl (hleaf _ _)

/-- Under another limit the same calls are made, in some order. -/
theorem perm_calls_withLimit (hlog : run.selector.schema.IgnoresLog)
    (hesc : (run.outline run.depth run.callLog).escapes = false)
    (hh : (run.outline run.depth run.callLog).hangs run.config.fieldTimeout = false) (limit : Nat) :
    (run.withLimit limit).calls.Perm run.calls := by
  have ho := outline_withLimit hlog limit run.depth run.callLog (run.withLimit limit).callLog
  have hdue (path : Path) : (run.withLimit limit).Due path ↔ run.Due path := by
    rw [due_iff, due_iff]
    show (∃ place inner made, Outline.At ((run.withLimit limit).outline run.depth _) _ _ _ ∧ _) ↔ _
    rw [ho]
  have hlimited (path : Path) :
      path ∈ (run.withLimit limit).calls ↔ (run.withLimit limit).Due path := by
    refine ⟨due_of_mem_calls, mem_calls_of_due ?_ ?_⟩
    · show Outline.escapes ((run.withLimit limit).outline run.depth _) = false
      rw [ho]
      exact hesc
    · show Outline.hangs run.config.fieldTimeout ((run.withLimit limit).outline run.depth _) = false
      rw [ho]
      exact hh
  have hnodup (other : Run) : other.calls.Nodup := by
    refine other.pairwise_calls.imp ?_
    intro earlier later hbefore hsame
    exact hbefore (hsame ▸ List.prefix_refl earlier)
  rw [List.perm_ext_iff_of_nodup (hnodup _) (hnodup _)]
  intro path
  rw [hlimited path, hdue path]
  exact ⟨mem_calls_of_due hesc hh, due_of_mem_calls⟩

end Run

/-- A validated request is run, and each call is made at most once, only where it is due, and after
the calls of the fields around it.  Below a position that failed, was cut off or came to a leaf there
are no calls.  Unless some call never ends, the run comes to a response, every call that is due is
made, and which calls are made does not depend on the limit on what runs at a time.  A field is due by
its name: every object has `__typename`, and no call is made for it. -/
theorem calls_made_once {schema : Schema} (hlog : schema.IgnoresLog) (hcalm : schema.CalmPlacers)
    {config : Config} (hcatch : config.catchPanics = true) (context : Context) {request : Request}
    (hvalid : schema.validate request.document request.operation request.inputs = []) :
    ∃ run, schema.prepare config context request = .ok run ∧
      schema.execute config context request = run.ending ∧
      run.calls.Pairwise (fun earlier later => ¬ later <+: earlier) ∧
      (∀ path ∈ run.calls, run.Due path ∧
        ∀ front key, front ++ [.key key] <+: path → front ++ [.key key] ∈ run.calls) ∧
      (∀ path place inner, (run.outline run.depth run.callLog).At path place inner →
        (∀ kind members, inner ≠ .set kind members) →
          ∀ call ∈ run.calls, path <+: call → call = path) ∧
      ((run.outline run.depth run.callLog).hangs config.fieldTimeout = false →
        (∃ r, schema.execute config context request = .response r run.callLog) ∧
        (∀ path, path ∈ run.calls ↔ run.Due path) ∧
        ∀ limit,
          schema.prepare (config.withLimit limit) context request = .ok (run.withLimit limit) ∧
            (run.withLimit limit).calls.Perm run.calls) := by
  obtain ⟨run, hrun⟩ := Schema.exists_prepare hvalid config context
  have hexecute := Schema.execute_of_no_errors hvalid hrun
  refine ⟨run, hrun, hexecute, run.pairwise_calls,
    fun path hpath => ⟨Run.due_of_mem_calls hpath, fun front key => Run.call_around hpath⟩,
    fun path place inner hat hleaf call => Run.eq_of_call_below hat hleaf, fun hh => ?_⟩
  have hacyclic := Document.acyclicSpreads (Schema.validate_eq_nil hvalid).1
  obtain ⟨op, rootType, bindings, hop, -, -, hmade⟩ := Schema.prepare_eq_ok hrun
  have hweight : weight request.document.fragments op.selections ≤ request.document.depthLimit :=
    Nat.le_of_lt (Document.weight_operation_lt (Document.mem_of_select hop))
  have hending : (run.outline run.depth run.callLog).escapes = false ∧
      run.ending = .response (run.outline run.depth run.callLog).response run.callLog := by
    subst hmade
    obtain ⟨hesc, hend⟩ := @Run.ending_eq_outline
      (schema.run config context request op rootType bindings) hacyclic hcalm hcatch hweight _
      (Nat.le_refl _)
    refine ⟨hesc, hend.trans (if_neg ?_)⟩
    rw [Bool.not_eq_true]
    exact hh
  obtain ⟨hesc, hend⟩ := hending
  have hconfig : run.config = config := hmade ▸ rfl
  have hschema : run.selector.schema.IgnoresLog := hmade ▸ hlog
  rw [← hconfig] at hh
  refine ⟨⟨_, hexecute.trans hend⟩,
    fun path => ⟨Run.due_of_mem_calls, Run.mem_calls_of_due hesc hh⟩, fun limit => ⟨?_, ?_⟩⟩
  · rw [Schema.prepare_withLimit, hrun]
    rfl
  · exact Run.perm_calls_withLimit hschema hesc hh limit

/-- A query for a number and for that of the object below, one call at a time and many. -/
theorem calls_made_once_sample :
    ∃ run, Sample.schema.prepare .standard .empty (Sample.request Sample.root) = .ok run ∧
      [.key "self", .key "number"] ∈ run.calls ∧ (run.withLimit 1).calls.Perm run.calls := by
  obtain ⟨run, hrun, -, -, -, -, hall⟩ :=
    @calls_made_once Sample.schema Sample.ignoresLog_schema Sample.calmPlacers_schema .standard rfl
      .empty (Sample.request Sample.root) rfl
  have hmade := hrun
  rw [Sample.prepare_request] at hrun
  obtain rfl := Except.ok.inj hrun
  obtain ⟨-, hdue, hlimit⟩ := hall rfl
  have hself : (Sample.run Sample.root).Completes [.key "self"] "Query"
      [[.spread Sample.place "Number" []]] :=
    .below (.member (List.mem_cons_of_mem _ List.mem_cons_self)) rfl
  refine ⟨_, hmade, (hdue _).2 ⟨_, _, _, hself, _, List.mem_cons_self, rfl, ?_⟩, (hlimit 1).2⟩
  have hname : "number" ≠ "__typename" := by decide
  exact ⟨hname, _, [], rfl, rfl⟩

end TypedQuery
