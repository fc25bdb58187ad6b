import TypedQuery.Proofs.Execution.Nesting
/-!
Nulls and errors in two passes.  What an execution does while it unwinds is the same as completing
every position first, without moving a null, and then reading the response off the outline:
`executeValidated_eq_outline`.
-/

namespace TypedQuery

namespace Sample

theorem calmPlacers_schema : schema.CalmPlacers := by
  intro name type placer htype hplacer
  have hnone : (schema.types.all fun entry => entry.2.placer?.isNone) = true := rfl
  have h := List.all_eq_true.1 hnone _ (Schema.mem_types htype)
  rw [hplacer] at h
  cases h

theorem acyclic_request (root : Json) : AcyclicSpreads (request root).document.fragments := by
  intro name frag hfrag hreach
  obtain rfl := List.mem_singleton.1 (fragmentOf?_mem hfrag).1
  -- the fragment spreads nothing, so nothing is reached from it
  have hnone (name : String) : ¬ Mentions name [select "number" []] := by
    rw [select, mentions_field]
    exact not_mentions_nil name
  cases hreach with
  | here h => exact hnone _ h
  | through h _ _ => exact hnone _ h

end Sample

namespace Run

theorem ending_eq_outline {run : Run} (hac : AcyclicSpreads run.selector.fragments)
    (hcalm : run.selector.schema.CalmPlacers) (hcatch : run.config.catchPanics = true)
    (hw : weight run.selector.fragments run.selections ≤ run.depth) {depth : Nat}
    (hd : run.depth ≤ depth) :
    (run.outline depth run.callLog).escapes = false ∧
      run.ending =
        if (run.outline depth run.callLog).hangs run.config.fieldTimeout then .stalled
        else .response (run.outline depth run.callLog).response run.callLog := by
  have hesc := Run.escapes_outline hac hcalm (.inl hcatch) hw run.callLog
  rw [Run.outline_stable hac hw hd]
  refine ⟨hesc, ?_⟩
  rcases run.ending_cases with ⟨h, -⟩ | ⟨-, hh, he⟩ | ⟨-, hh, he⟩
  · exact absurd h (by rw [hesc]; exact Bool.false_ne_true)
  · exact he.trans (if_pos hh).symm
  · refine he.trans (if_neg ?_).symm
    rw [hh]
    exact Bool.false_ne_true

end Run

/-- The response is that of the outline: every selected position completed by itself, its failures
reported in order, and its nulls moved on to the nearest position that may be null.  Without a
deadline a call that never ends keeps the execution from ending. -/
theorem executeValidated_eq_outline {schema : Schema} {config : Config} {context : Context}
    {request : Request} {run : Run} (hrun : schema.prepare config context request = .ok run)
    (hac : AcyclicSpreads request.document.fragments) (hcalm : schema.CalmPlacers)
    (hcatch : config.catchPanics = true) {depth : Nat} (hd : request.document.depthLimit ≤ depth) :
    (run.outline depth run.callLog).escapes = false ∧
      schema.executeValidated config context request =
        if (run.outline depth run.callLog).hangs config.fieldTimeout then .stalled
        else .response (run.outline depth run.callLog).response run.callLog := by
  obtain ⟨op, rootType, bindings, hop, -, -, hmade⟩ := Schema.prepare_eq_ok hrun
  rw [Schema.executeValidated, hrun]
  subst hmade
  exact Run.ending_eq_outline hac hcalm hcatch
    (Nat.le_of_lt (Document.weight_operation_lt (Document.mem_of_select hop))) hd

/-- A null in a field that cannot be null, below one that can. -/
theorem executeValidated_sample :
    ∃ log, Sample.schema.executeValidated .standard .empty (Sample.request Sample.root) =
      .response Sample.response log :=
  ⟨_, (executeValidated_eq_outline rfl (Sample.acyclic_request _) Sample.calmPlacers_schema rfl
    (Nat.le_refl _)).2⟩

end TypedQuery
