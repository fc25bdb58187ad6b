import TypedQuery.Proofs.Execution.Calls
import TypedQuery.Proofs.Execution.Matching
/-!
Runs that look the same.  When a view that shows all calls shows the same of two runs, they leave
the same log and make the same calls in the same order (`Run.Resembles.events_eq`), and they end
alike but for what the view does not show of their responses (`Run.Resembles.ending_cases`).
-/

namespace TypedQuery

/-! ## What a view shows -/

namespace View

variable {view : View}

/-- What is seen at a path is what is there. -/
theorem at_of_at_read {base : Path} (h : view.Sees base) {o : Outline} {path : Path} {place : Place}
    {inner : Outline} (hat : (view.read base o).At path place inner) :
    ∃ own below, o.At path own below ∧ place = view.keep own := by
  generalize hseen : view.read base o = seen at hat
  induction hat generalizing base o with
  | member hm =>
    cases o with
    | set kind members =>
      obtain ⟨-, rfl⟩ := Outline.set.inj hseen
      obtain ⟨own, hown, hread⟩ := h.mem_readMembers.1 hm
      obtain ⟨rfl, -⟩ := Prod.mk.inj hread
      rw [view.segment_keep]
      exact ⟨own.1, own.2, .member hown, rfl⟩
    | _ => cases hseen
  | deeper hm _ ih =>
    cases o with
    | set kind members =>
      obtain ⟨-, rfl⟩ := Outline.set.inj hseen
      obtain ⟨own, hown, hread⟩ := h.mem_readMembers.1 hm
      obtain ⟨rfl, hbetween⟩ := Prod.mk.inj hread
      obtain ⟨found, below, hfound, hkeep⟩ := ih (h.below own.1.segment) hbetween
      rw [view.segment_keep]
      exact ⟨found, below, .deeper hown hfound, hkeep⟩
    | _ => cases hseen

theorem at_read {base : Path} (h : view.Sees base) {o : Outline} {path : Path} {place : Place}
    {inner : Outline} (hat : o.At path place inner) :
    ∃ below, (view.read base o).At path (view.keep place) below := by
  induction hat generalizing base with
  | member hm =>
    rw [← view.segment_keep]
    exact ⟨_, .member (h.mem_readMembers.2 ⟨_, hm, rfl⟩)⟩
  | @deeper kind members outer place between o path hm _ ih =>
    obtain ⟨below, hbelow⟩ := ih (h.below outer.segment)
    rw [← view.segment_keep]
    exact ⟨below, .deeper (h.mem_readMembers.2 ⟨_, hm, rfl⟩) hbelow⟩

end View

/-! ## Runs that look the same -/

namespace Run

/-- The run makes the call, for a position at the path. -/
def Makes (run : Run) (path : Path) (made : MadeCall) : Prop :=
  path ∈ run.calls ∧ ∃ place inner,
    (run.outline run.depth run.callLog).At path place inner ∧ place.made = some made

/-- The two runs go on in the same way, and a view that shows all calls shows the same of them. -/
structure Resembles (view : View) (run' run : Run) : Prop where
  config : run'.config = run.config
  serial : run'.serial = run.serial
  made : ∀ place, (view.keep place).made = place.made
  sees : view.Sees Path.root
  outline : ∀ log, view.read Path.root (run'.outline run'.depth log) =
    view.read Path.root (run.outline run.depth log)

namespace Resembles

variable {view : View} {run run' : Run} (h : run'.Resembles view run)

include h

theorem trace_complete (log : CallLog) :
    (run'.complete log).trace = (run.complete log).trace := by
  obtain ⟨members, ho, hc⟩ := run.complete_eq log
  obtain ⟨members', ho', hc'⟩ := run'.complete_eq log
  have hsame := h.outline log
  rw [ho, ho', View.read, View.read] at hsame
  obtain ⟨-, hmembers⟩ := Outline.set.inj hsame
  have htraces (members : List (Place × Outline)) := View.memberTraces_readMembers
    h.made run.config h.sees members
  have hlimit : run'.limit = run.limit := by rw [limit, limit, h.serial, h.config]
  rw [hc, hc', hlimit, h.config, ← htraces members', hmembers, htraces members]

theorem log_eq (seen : CallLog) : run'.log seen = run.log seen := by
  rw [log, log, h.trace_complete]

theorem settle_eq (rounds : Nat) (seen : CallLog) :
    run'.settle rounds seen = run.settle rounds seen := by
  induction rounds generalizing seen with
  | zero => rfl
  | succ rounds ih =>
    rw [settle, settle, h.log_eq, ih]

theorem callLog_eq : run'.callLog = run.callLog := by
  unfold callLog
  dsimp only
  rw [h.log_eq, h.settle_eq]

theorem events_eq : run'.events = run.events := by
  rw [events, events, h.callLog_eq, h.trace_complete]

/-- Both runs come to the responses of their outlines, or both come to none and end the same. -/
theorem ending_cases :
    (run.ending = .response (run.outline run.depth run.callLog).response run.callLog ∧
      run'.ending = .response (run'.outline run'.depth run.callLog).response run.callLog) ∨
      (run.ending.response? = none ∧ run'.ending = run.ending) := by
  have hresponse := run.response_complete run.callLog
  have hresponse' := run'.response_complete run.callLog
  unfold ending
  dsimp only
  rw [h.callLog_eq, h.trace_complete]
  cases firstEscape? (run.complete run.callLog).trace.events with
  | some cause => exact .inr ⟨rfl, rfl⟩
  | none =>
    dsimp only
    split
    · exact .inl ⟨congrArg (Ending.response · run.callLog) hresponse,
        congrArg (Ending.response · run.callLog) hresponse'⟩
    · exact .inr ⟨rfl, rfl⟩

theorem makes_iff (path : Path) (made : MadeCall) : run'.Makes path made ↔ run.Makes path made := by
  have hcalls : run'.calls = run.calls := by rw [calls, calls, h.events_eq]
  have hat {o o' : Outline} (hsame : view.read Path.root o = view.read Path.root o')
      (ho : ∃ place inner, o.At path place inner ∧ place.made = some made) :
      ∃ place inner, o'.At path place inner ∧ place.made = some made := by
    obtain ⟨place, inner, hplace, hmade⟩ := ho
    obtain ⟨below, hread⟩ := View.at_read h.sees hplace
    rw [hsame] at hread
    obtain ⟨own, under, hown, hkeep⟩ := View.at_of_at_read h.sees hread
    refine ⟨own, under, hown, ?_⟩
    rw [← h.made own, ← hkeep, h.made place, hmade]
  unfold Makes
  rw [hcalls, h.callLog_eq]
  exact and_congr_right fun _ => ⟨hat (h.outline _), hat (h.outline _).symm⟩

end Resembles

/-- A run resembles a rewritten one when their outlines match. -/
theorem resembles_rewritten {R : List FieldNode → List FieldNode → Prop} {run : Run}
    {fragments : List Fragment} {selections : List Selection} {limit : Nat}
    (h : ∀ log, (run.outline run.depth log).Matches R
      ((run.rewritten fragments selections limit).outline limit log)) :
    (run.rewritten fragments selections limit).Resembles .bare run where
  config := rfl
  serial := rfl
  made _ := rfl
  sees _ _ := rfl
  outline log := (h log).read (fun _ _ => rfl) Path.root

end Run
end TypedQuery
