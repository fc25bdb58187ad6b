import TypedQuery.Proofs.Execution.Calls
import TypedQuery.Proofs.Execution.Inlining
/-!
Executions end.  No resolver can lead deeper into a response than fields nest in the operation once
its spreads are inlined, however deep the objects are that it returns: `Execution.GrownBelow.depth_le`.
So what ends an execution is never the limit on its depth, and it comes to a response when every call
comes to an end: `execution_ends`.
-/

namespace TypedQuery

def PathSegment.isKey : PathSegment → Bool
  | key _ => true
  | index _ => false

/-- How many response keys are on the path.  The items of a list are as deep as the list. -/
def Path.depth (path : Path) : Nat := path.countP PathSegment.isKey

namespace Execution

variable {exec : Execution}

/-- The selections nest no more than `depth` fields, once their spreads are inlined. -/
def Shallow (exec : Execution) (depth : Nat) (sets : List (List Selection)) : Prop :=
  ∀ set ∈ sets, fieldDepths (inlined exec.selector.fragments set) ≤ depth

/-- What the nodes of a group select nests less than what they were collected from. -/
theorem Shallow.group (hac : AcyclicSpreads exec.selector.fragments) {depth : Nat}
    {sets : List (List Selection)} (h : exec.Shallow depth sets) {type : String}
    {group : FieldGroup} (hgroup : group ∈ exec.groups type sets) :
    ∃ less, depth = less + 1 ∧ exec.Shallow less (group.nodes.map (·.selections)) := by
  have hlt : ∀ node ∈ group.nodes,
      fieldDepths (inlined exec.selector.fragments node.selections) < depth := by
    intro node hnode
    obtain ⟨set, hset, hoffers⟩ :=
      exec.selector.offers_of_mem_collect type (FieldGroup.mem_of_mem_ofNodes hgroup hnode)
    exact Nat.lt_of_lt_of_le (fieldDepths_inlined_lt hac hoffers) (h set hset)
  have hpos := hlt group.first List.mem_cons_self
  refine ⟨depth - 1, by omega, fun set hset => ?_⟩
  obtain ⟨node, hnode, rfl⟩ := List.mem_map.1 hset
  exact Nat.le_sub_one_of_lt (hlt node hnode)

/-- A step down to a member uses up a field, or is one to an item. -/
theorem Shallow.member (hac : AcyclicSpreads exec.selector.fragments) {path : Path} {depth : Nat}
    {sets : List (List Selection)} (h : exec.Shallow depth sets) {kind : SetKind}
    {members : List (Place × Outline)} (hgrown : exec.Grown path sets (.set kind members))
    {member : Place × Outline} (hm : member ∈ members) :
    ∃ less, depth = less + Path.depth [member.1.segment] ∧
      exec.Shallow less (member.1.nodes.map (·.selections)) := by
  cases kind with
  | items =>
    obtain ⟨-, hnodes, index, hsegment⟩ := hgrown member hm
    rw [hsegment, hnodes]
    exact ⟨depth, rfl, h⟩
  | fields type =>
    obtain ⟨object, parent, rfl⟩ := hgrown
    obtain ⟨group, hgroup, hmember⟩ := List.mem_filterMap.1 hm
    obtain ⟨hsegment, hnodes, -⟩ := made_outlineGroup hmember
    rw [hsegment, hnodes]
    exact h.group hac hgroup

/-- Positions are no deeper than fields nest. -/
theorem GrownBelow.depth_le (hac : AcyclicSpreads exec.selector.fragments) {base : Path}
    {depth : Nat} {sets : List (List Selection)} {o : Outline} (h : exec.GrownBelow base sets o)
    (hsets : exec.Shallow depth sets) {path : Path} {place : Place} {inner : Outline}
    (hat : o.At path place inner) : path.depth ≤ depth := by
  induction hat generalizing base depth sets with
  | member hm =>
    obtain ⟨less, rfl, -⟩ := hsets.member hac h.1 hm
    exact Nat.le_add_left _ _
  | @deeper kind members outer place between inner path hm _ ih =>
    obtain ⟨less, rfl, hless⟩ := hsets.member hac h.1 hm
    have hbelow := ih (h.member hm) hless
    show ([outer.segment] ++ path).countP PathSegment.isKey ≤ _
    rw [List.countP_append, Nat.add_comm]
    exact Nat.add_le_add_right hbelow _

end Execution

/-! ## What ends an execution -/

theorem Execution.pause_eq_forever {deadline : Option Nat} {wait : Wait}
    (h : pause deadline wait = .forever) : deadline = none ∧ wait = .never := by
  cases wait with
  | ready => cases h
  | sleeps ms =>
    cases deadline with
    | none => cases h
    | some limit =>
      unfold pause at h
      dsimp only at h
      split at h <;> cases h
  | never =>
    cases deadline with
    | none => exact ⟨rfl, rfl⟩
    | some limit => cases h

namespace Outline

variable {config : Config}

/-- Nothing but a panic is seen to end the execution. -/
def OnlyPanics (config : Config) (o : Outline) : Prop :=
  ∀ cause, .escaped cause ∈ (o.trace config).inOrder → ∃ message, cause = .panicked message

theorem onlyPanics_set {kind : SetKind} {members : List (Place × Outline)}
    (h : ∀ member ∈ members, member.2.OnlyPanics config) : (set kind members).OnlyPanics config := by
  intro cause hcause
  obtain ⟨member, hm, he⟩ := mem_inOrder_members.1 hcause
  rcases mem_inOrder_member he with ⟨made, -, hevent | hevent⟩ | he
  · cases hevent
  · cases hevent
  · exact h member hm cause he

theorem hangs_eq_false {deadline : Option Nat} {o : Outline}
    (h : o.All fun place _ => place.hangs deadline = false) : o.hangs deadline = false := by
  induction o using induct with
  | hleaf data => rfl
  | hfailed failure => rfl
  | hescaped cause => rfl
  | hset kind members ih =>
    refine anyHangs_eq_false.2 fun member hm => ?_
    obtain ⟨hplace, hbelow⟩ := all_set.1 h member hm
    exact ⟨hplace, ih member hm hbelow⟩

mutual

/-- Where no call hangs, all goes on until something ends the execution from within. -/
theorem moves_trace : ∀ {o : Outline}, o.hangs config.fieldTimeout = false →
    (o.trace config).moves fun e => ∃ cause, e = .escaped cause
  | leaf _, _ => trivial
  | failed _, _ => trivial
  | escaped cause, _ => ⟨cause, rfl⟩
  | set _ _, h => allMove_memberTraces h

theorem allMove_memberTraces : ∀ {members : List (Place × Outline)},
    anyHangs config.fieldTimeout members = false →
      Trace.allMove (fun e => ∃ cause, e = .escaped cause) (memberTraces config members)
  | [], _ => trivial
  | (place, o) :: rest, h => by
    obtain ⟨hmember, hrest⟩ := Bool.or_eq_false_iff.1 h
    obtain ⟨hplace, hbelow⟩ := Bool.or_eq_false_iff.1 hmember
    refine ⟨?_, allMove_memberTraces hrest⟩
    unfold Place.await
    unfold Place.hangs at hplace
    cases hmade : place.made with
    | none => exact moves_trace hbelow
    | some made =>
      rw [hmade] at hplace
      exact ⟨beq_eq_false_iff_ne.1 hplace, moves_trace hbelow⟩

end

end Outline

theorem Execution.pervasive_onlyPanics (exec : Execution) :
    exec.Pervasive (Outline.OnlyPanics exec.config) where
  leaf _ := fun _ h => by cases h
  failed _ := fun _ h => by cases h
  set _ _ := Outline.onlyPanics_set
  placer _ _ _ _ message _ _ _ := fun _ h => ⟨message, Event.escaped.inj (List.mem_singleton.1 h)⟩
  resolver _ _ _ _ message _ _ :=
    .inr fun _ h => ⟨message, Event.escaped.inj (List.mem_singleton.1 h)⟩

namespace Run

/-- Every call that the run makes comes to an end, or is cut off by the deadline. -/
def Punctual (run : Run) : Prop :=
  ∀ path place inner made, (run.outline run.depth run.callLog).At path place inner →
    place.made = some made → run.config.fieldTimeout.isSome = true ∨ made.duration ≠ .never

variable {run : Run}

theorem Punctual.hangs_outline (h : run.Punctual) :
    (run.outline run.depth run.callLog).hangs run.config.fieldTimeout = false := by
  refine Outline.hangs_eq_false fun path place inner hat => ?_
  unfold Place.hangs
  cases hmade : place.made with
  | none => rw [hmade]
  | some made =>
    rw [hmade, beq_eq_false_iff_ne]
    intro hpause
    obtain ⟨hnone, hnever⟩ := Execution.pause_eq_forever hpause
    rcases h path place inner made hat hmade with hsome | hends
    · rw [hnone] at hsome
      cases hsome
    · exact hends hnever

/-- When the execution is ended from within, it is by a panic, never by the limit on the depth. -/
theorem eq_panicked_of_escaped (hac : AcyclicSpreads run.selector.fragments)
    (hw : weight run.selector.fragments run.selections ≤ run.depth) {cause : Escape}
    (h : run.ending = .escaped cause) : ∃ message, cause = .panicked message := by
  have hpanics : (run.outline run.depth run.callLog).OnlyPanics run.config :=
    outline_of_pervasive hac (run.execution run.callLog).pervasive_onlyPanics hw
  unfold ending at h
  dsimp only at h
  cases hfirst : firstEscape? (run.complete run.callLog).trace.events with
  | some first =>
    rw [hfirst] at h
    obtain rfl := Ending.escaped.inj h
    obtain ⟨e, he, hcause⟩ := List.exists_of_findSome?_eq_some hfirst
    cases e with
    | started label => cases hcause
    | resumed label => cases hcause
    | escaped own =>
      obtain rfl := Option.some.inj hcause
      exact hpanics own (run.mem_inOrder he)
  | none =>
    rw [hfirst] at h
    dsimp only at h
    split at h <;> cases h

/-- While calls come to their ends, so does the run, unless something ends it from within. -/
theorem ends_or_escapes (h : (run.outline run.depth run.callLog).hangs run.config.fieldTimeout = false) :
    (∃ r, run.ending = .response r run.callLog) ∨ ∃ cause, run.ending = .escaped cause := by
  unfold ending
  dsimp only
  cases hfirst : firstEscape? (run.complete run.callLog).trace.events with
  | some cause => exact .inr ⟨cause, rfl⟩
  | none =>
    obtain ⟨members, ho, hc⟩ := run.complete_eq run.callLog
    have hmoves : (run.complete run.callLog).trace.moves fun e => ∃ cause, e = .escaped cause := by
      rw [hc]
      rw [ho] at h
      exact Outline.allMove_memberTraces h
    have hends : ((run.complete run.callLog).trace.course 0).ends = true := by
      refine (Course.ends_of_runs (Trace.course_runs hmoves 0)).resolve_right ?_
      rintro ⟨_, he, cause, rfl⟩
      have hnone := List.findSome?_eq_none_iff.1 hfirst _ he
      cases hnone
    rw [hends]
    exact .inl ⟨_, rfl⟩

/-- The positions of a run are no deeper than fields nest in its operation. -/
theorem depth_le_of_at (hac : AcyclicSpreads run.selector.fragments) {depth : Nat} {log : CallLog}
    {path : Path} {place : Place} {inner : Outline}
    (hat : (run.outline depth log).At path place inner) :
    path.depth ≤ fieldDepths (inlined run.selector.fragments run.selections) := by
  refine (run.grown_outline depth log).depth_le hac (fun set hset => ?_) hat
  rw [List.mem_singleton.1 hset]
  exact Nat.le_refl _

theorem response_of_punctual (hac : AcyclicSpreads run.selector.fragments)
    (hw : weight run.selector.fragments run.selections ≤ run.depth)
    (hcalm : run.selector.schema.CalmPlacers)
    (hcatch : run.config.catchPanics = true ∨ run.selector.schema.CalmResolvers)
    (h : run.Punctual) : ∃ r, run.ending = .response r run.callLog := by
  have hesc := Run.escapes_outline hac hcalm hcatch hw run.callLog
  rcases run.ending_cases with ⟨hend, -⟩ | ⟨-, hhangs, -⟩ | ⟨-, -, hend⟩
  · rw [hesc] at hend
    cases hend
  · rw [h.hangs_outline] at hhangs
    cases hhangs
  · exact ⟨_, hend⟩

end Run

/-- A validated request is run to its end.  No position, and no call, has more response keys on its
path than fields nest in the operation once its spreads are inlined, whatever resolvers return; so
the limit on the depth of objects makes no difference, and it is not what ends the execution.  When
every call comes to an end or is cut off, the execution comes to a response.  A call that panics does
not come to an end, unless the panic is caught. -/
theorem execution_ends {schema : Schema} {request : Request}
    (hvalid : schema.validate request.document request.operation request.inputs = [])
    (config : Config) (context : Context) :
    ∃ op run, request.document.select request.operation = .ok op ∧
      schema.prepare config context request = .ok run ∧
      (∀ depth log path place inner, (run.outline depth log).At path place inner →
        path.depth ≤ fieldDepths (inlined request.document.fragments op.selections)) ∧
      (∀ path ∈ run.calls,
        path.depth ≤ fieldDepths (inlined request.document.fragments op.selections)) ∧
      (∀ log depth, run.depth ≤ depth → run.outline depth log = run.outline run.depth log) ∧
      (run.Punctual →
        ((∃ r, schema.execute config context request = .response r run.callLog) ∨
          ∃ message, schema.execute config context request = .escaped (.panicked message)) ∧
        (schema.CalmPlacers → config.catchPanics = true ∨ schema.CalmResolvers →
          ∃ r, schema.execute config context request = .response r run.callLog)) := by
  obtain ⟨run, hrun⟩ := Schema.exists_prepare hvalid config context
  have hexecute := Schema.execute_of_no_errors hvalid hrun
  have hacyclic := Document.acyclicSpreads (Schema.validate_eq_nil hvalid).1
  obtain ⟨op, rootType, bindings, hop, -, -, hmade⟩ := Schema.prepare_eq_ok hrun
  have hac : AcyclicSpreads run.selector.fragments := hmade ▸ hacyclic
  have hw : weight run.selector.fragments run.selections ≤ run.depth := by
    rw [hmade]
    exact Nat.le_of_lt (Document.weight_operation_lt (Document.mem_of_select hop))
  have hfragments : run.selector.fragments = request.document.fragments := hmade ▸ rfl
  have hselections : run.selections = op.selections := hmade ▸ rfl
  have hschema : run.selector.schema = schema := hmade ▸ rfl
  have hconfig : run.config = config := hmade ▸ rfl
  have hdepth {depth : Nat} {log : CallLog} {path : Path} {place : Place} {inner : Outline}
      (hat : (run.outline depth log).At path place inner) :
      path.depth ≤ fieldDepths (inlined request.document.fragments op.selections) := by
    rw [← hfragments, ← hselections]
    exact Run.depth_le_of_at hac hat
  rw [hexecute]
  refine ⟨op, run, hop, hrun, fun _ _ _ _ _ => hdepth, fun path hpath => ?_,
    fun log depth hmore => Run.outline_stable hac hw hmore log, fun hpunctual => ⟨?_, ?_⟩⟩
  · obtain ⟨place, inner, made, hat, -⟩ := Run.due_iff.1 (Run.due_of_mem_calls hpath)
    exact hdepth hat
  · refine (Run.ends_or_escapes hpunctual.hangs_outline).imp_right ?_
    rintro ⟨cause, hcause⟩
    obtain ⟨message, rfl⟩ := Run.eq_panicked_of_escaped hac hw hcause
    exact ⟨message, hcause⟩
  · intro hcalm hcatch
    rw [← hschema] at hcalm hcatch
    rw [← hconfig] at hcatch
    exact Run.response_of_punctual hac hw hcalm hcatch hpunctual

namespace Sample

/-- The object below is always there, with a number of its own. -/
def endless (_ name : String) : Option Resolver :=
  if name = "self" then
    some fun _ =>
      { logged := false
        wait := .ready
        eager := false
        outcome := fun _ => .value (.obj [("number", .int 1)]) }
  else none

theorem calmPlacers_withResolvers (resolvers : String → String → Option Resolver) :
    (schema.withResolvers resolvers).CalmPlacers := by
  intro name type placer htype hplacer
  have hnone :
      ((schema.withResolvers resolvers).types.all fun entry => entry.2.placer?.isNone) = true := rfl
  have h := List.all_eq_true.1 hnone _ (Schema.mem_types htype)
  rw [hplacer] at h
  cases h

theorem calmPlacers_endless : (schema.withResolvers endless).CalmPlacers :=
  calmPlacers_withResolvers endless

end Sample

/-- Two fields nest in the query, so no call is made more than two fields deep. -/
theorem execution_ends_sample :
    ∃ run r, (Sample.schema.withResolvers Sample.endless).prepare
        { Config.standard with fieldTimeout := some 5 } .empty (Sample.request .null) = .ok run ∧
      (∀ path ∈ run.calls, path.depth ≤ 2) ∧
      (Sample.schema.withResolvers Sample.endless).execute
        { Config.standard with fieldTimeout := some 5 } .empty (Sample.request .null) =
          .response r run.callLog := by
  obtain ⟨op, run, hop, hrun, -, hcalls, -, hends⟩ :=
    @execution_ends (Sample.schema.withResolvers Sample.endless) (Sample.request .null) rfl
      { Config.standard with fieldTimeout := some 5 } .empty
  obtain rfl := Except.ok.inj hop
  have hconfig : run.config.fieldTimeout = some 5 := by
    obtain ⟨_, _, _, -, -, -, rfl⟩ := Schema.prepare_eq_ok hrun
    rfl
  have hpunctual : run.Punctual := fun _ _ _ _ _ _ => .inl (by rw [hconfig]; rfl)
  obtain ⟨r, hr⟩ := (hends hpunctual).2 Sample.calmPlacers_endless (.inl rfl)
  exact ⟨run, r, hrun, hcalls, hr⟩

end TypedQuery
