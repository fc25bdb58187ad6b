import TypedQuery.Execution.Trace
/-!
What a task does, turn by turn.  A task is a call with all that hangs on it, or a set of members.  In
its turn it does what it can do without waiting.  Then it is over; or it gets its next turn when one
of its alarms goes off; or it yields, and gets its next turn at the same time but behind the others
that are ready.

Time is counted in milliseconds, and passes only while everything waits for an alarm.
-/

namespace TypedQuery

inductive Course where
  /-- The last turn.  A part of the task may have yielded in it, and gone on. -/
  | finished (events : List Event) (yields : Bool)
  /-- A turn after which the task neither goes on nor is over. -/
  | stuck (events : List Event)
  /-- A turn, the times of the alarms that it sets, whether the task or a part of it yields, and what
  the task does from its next turn on. -/
  | turn (events : List Event) (alarms : List Nat) (yields : Bool) (next : Course)
  deriving Repr, Inhabited

namespace Course

/-- Puts the beginning of a turn in front of the first one. -/
def after (earlier : List Event) (set : List Nat) : Course → Course
  | finished events yields => finished (earlier ++ events) yields
  | stuck events => stuck (earlier ++ events)
  | turn events alarms yields next => turn (earlier ++ events) (set ++ alarms) yields next

/-- Puts a pause of some milliseconds between some events and what follows them. -/
def wait (now ms : Nat) (events : List Event) (next : Course) : Course :=
  if ms = 0 then next.after events [] else turn events [now + ms] false next

/-- What happens in the first turn. -/
def first : Course → List Event
  | finished events _ => events
  | stuck events => events
  | turn events _ _ _ => events

/-- The alarms that the first turn sets. -/
def alarms : Course → List Nat
  | turn _ alarms _ _ => alarms
  | _ => []

/-- The task or a part of it yields in the first turn. -/
def yields : Course → Bool
  | finished _ yields => yields
  | stuck _ => false
  | turn _ _ yields _ => yields

/-- What is left behind the first turn, unless that is the last one. -/
def rest? : Course → Option Course
  | finished _ _ => none
  | stuck _ => some (stuck [])
  | turn _ _ _ next => some next

/-- All events, in order. -/
def events : Course → List Event
  | finished events _ => events
  | stuck events => events
  | turn events _ _ next => events ++ next.events

/-- The task comes to its end. -/
def ends : Course → Bool
  | finished _ _ => true
  | stuck _ => false
  | turn _ _ _ next => next.ends

/-- The number of turns. -/
def size : Course → Nat
  | finished _ _ => 1
  | stuck _ => 1
  | turn _ _ _ next => next.size + 1

theorem size_pos (c : Course) : 0 < c.size := by
  cases c <;> simp [size]

/-- A turn is used up, or nothing is awaited any more. -/
theorem size_rest {c left : Course} (h : c.rest? = some left) :
    left.size < c.size ∨ left.size = c.size ∧ c.yields = false ∧ c.alarms = [] := by
  cases c with
  | finished _ _ => simp [rest?] at h
  | stuck _ =>
    obtain rfl : stuck [] = left := by simpa [rest?] using h
    simp [size, yields, alarms]
  | turn _ _ _ next =>
    obtain rfl : next = left := by simpa [rest?] using h
    simp [size]

end Course

end TypedQuery
