import TypedQuery.Proofs.Execution.Run
/-!
The call log of an outline.  It has the records of all calls in the order of the selections, those of
a call before those of the calls below it.  One call at a time leaves just that log, however long
calls take, and a run that is cut short leaves the beginning of it: `Run.logged_of_window`.
-/

namespace TypedQuery

/-! ## The records of calls -/

namespace MadeCall

/-- The record that the call starts, or that it goes on. -/
def record (made : MadeCall) (resumed : Bool) : CallLog :=
  if made.attempt.logged then
    [{ coordinate := made.call.info.coordinate
       path := made.call.info.path
       resumed := resumed }]
  else []

/-- The records of a call and of those below it.  A call goes on if it took its time and was not cut
off.  One that never ends, and is not cut off either, keeps those below it from being made. -/
def records (deadline : Option Nat) (made : MadeCall) (below : CallLog) : CallLog :=
  made.record false ++
    if made.duration.outlasts deadline then
      if deadline.isSome then below else []
    else if made.duration = .ready then below
    else made.record true ++ below

end MadeCall

/-- The records of a position, whose call comes before those below. -/
def Place.records (deadline : Option Nat) (place : Place) (below : CallLog) : CallLog :=
  match place.made with
  | some made => made.records deadline below
  | none => below

namespace Outline

mutual

/-- The records of all calls of an outline, in the order of the selections and depth first. -/
def records (deadline : Option Nat) : Outline → CallLog
  | leaf _ => []
  | failed _ => []
  | escaped _ => []
  | set _ members => memberRecords deadline members

def memberRecords (deadline : Option Nat) : List (Place × Outline) → CallLog
  | [] => []
  | (place, o) :: rest =>
    place.records deadline (o.records deadline) ++ memberRecords deadline rest

end

end Outline

/-! ## Records and events -/

theorem CallLog.ofEvents_append (first later : List Event) :
    ofEvents (first ++ later) = ofEvents first ++ ofEvents later := List.filterMap_append

namespace MadeCall

variable (made : MadeCall)

theorem ofEvents_started (later : List Event) :
    CallLog.ofEvents (.started made.label :: later) =
      made.record false ++ CallLog.ofEvents later := by
  cases h : made.attempt.logged <;>
    simp [CallLog.ofEvents, CallLog.ofLabel, label, record, h]

theorem ofEvents_resumed (later : List Event) :
    CallLog.ofEvents (.resumed made.label :: later) =
      made.record true ++ CallLog.ofEvents later := by
  cases h : made.attempt.logged <;>
    simp [CallLog.ofEvents, CallLog.ofLabel, label, record, h]

/-- What a call does, and then those below it one at a time, leaves its records. -/
theorem ofEvents_call (deadline : Option Nat) (next : Trace) :
    CallLog.ofEvents
        (Trace.call made.label (Execution.pause deadline made.duration) next).inOrder =
      made.records deadline (CallLog.ofEvents next.inOrder) := by
  unfold records
  by_cases hlong : made.duration.outlasts deadline = true
  · rw [if_pos hlong, Execution.pause_of_outlasts hlong]
    cases deadline with
    | none => exact made.ofEvents_started []
    | some limit => exact made.ofEvents_started next.inOrder
  · rw [if_neg hlong]
    cases hduration : made.duration with
    | ready => exact made.ofEvents_started next.inOrder
    | never =>
      rw [hduration] at hlong
      cases deadline <;> exact absurd rfl hlong
    | sleeps ms =>
      have hpause : Execution.pause deadline (.sleeps ms) = .sleep ms := by
        rw [hduration] at hlong
        cases deadline with
        | none => rfl
        | some limit => exact if_pos (Nat.le_of_not_lt fun h => hlong (decide_eq_true h))
      rw [hpause, if_neg Wait.noConfusion, Trace.inOrder, ofEvents_started, ofEvents_resumed]

end MadeCall

/-- What a position does, with all below it one call at a time, leaves its records. -/
theorem Place.ofEvents_await (deadline : Option Nat) (place : Place) (next : Trace) :
    CallLog.ofEvents (place.await deadline next).inOrder =
      place.records deadline (CallLog.ofEvents next.inOrder) := by
  unfold await records
  cases place.made with
  | none => rfl
  | some made => exact made.ofEvents_call deadline next

namespace Outline

mutual

/-- One call at a time leaves the log of the outline. -/
theorem ofEvents_inOrder (config : Config) : ∀ o : Outline,
    CallLog.ofEvents (o.trace config).inOrder = o.records config.fieldTimeout
  | leaf _ => rfl
  | failed _ => rfl
  | escaped _ => rfl
  | set _ members => ofEvents_allInOrder config members

theorem ofEvents_allInOrder (config : Config) : ∀ members : List (Place × Outline),
    CallLog.ofEvents (Trace.allInOrder (memberTraces config members)) =
      memberRecords config.fieldTimeout members
  | [] => rfl
  | (place, o) :: rest => by
    rw [memberTraces, Trace.allInOrder, CallLog.ofEvents_append, Place.ofEvents_await,
      ofEvents_inOrder config o, ofEvents_allInOrder config rest, memberRecords]

end

end Outline

namespace Run

/-- With calls that see the log, the run leaves the log of its outline, up to where a call hangs or
something ends the execution from within. -/
def Logged (run : Run) (seen : CallLog) : Prop :=
  let o := run.outline run.depth seen
  run.log seen <+: o.records run.config.fieldTimeout ∧
    (o.escapes = false → o.hangs run.config.fieldTimeout = false →
      run.log seen = o.records run.config.fieldTimeout)

/-- One call at a time leaves the log of the outline. -/
theorem logged_of_window {run : Run} (h : run.config.window = 1) (seen : CallLog) :
    run.Logged seen := by
  obtain ⟨hbegins, hall⟩ := run.inOrder_of_window h seen
  have hrecords : CallLog.ofEvents (run.depthFirst seen) =
      (run.outline run.depth seen).records run.config.fieldTimeout :=
    Outline.ofEvents_inOrder run.config _
  refine ⟨hrecords ▸ hbegins.filterMap _, fun hesc hh => ?_⟩
  rw [← hrecords, ← hall hesc hh]
  rfl

end Run

end TypedQuery
