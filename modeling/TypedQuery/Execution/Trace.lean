import TypedQuery.Resolver.Basic
/-!
What an execution does.  A trace records the calls of an execution and how they hang together, but
not when they happen.  The call log holds what happened, in order.
-/

namespace TypedQuery

/-- A call as events name it. -/
structure CallLabel where
  coordinate : String
  path : Path
  /-- The call leaves entries in the log. -/
  logged : Bool
  deriving DecidableEq, Repr

/-- What ends an execution from within. -/
inductive Escape where
  | panicked (message : Option String)
  /-- The descent into the response did not come to an end. -/
  | tooDeep
  deriving DecidableEq, Repr

/-- The time between the start of a call and what follows it, in milliseconds. -/
inductive Pause where
  | none
  | sleep (ms : Nat)
  /-- The call is cut off, and does not go on. -/
  | cut (ms : Nat)
  | forever
  deriving DecidableEq, Repr

inductive Trace where
  /-- Nothing that takes time or is observed. -/
  | idle
  | escape (cause : Escape)
  /-- A call and what follows when it is over. -/
  | call (label : CallLabel) (pause : Pause) (next : Trace)
  /-- Members of one set, of which a limited number run at a time. -/
  | members (limit : Nat) (traces : List Trace)
  deriving Repr, Inhabited

/-- What can be observed of an execution, apart from its response. -/
inductive Event where
  | started (label : CallLabel)
  /-- A call that slept goes on. -/
  | resumed (label : CallLabel)
  | escaped (cause : Escape)
  deriving DecidableEq, Repr

/-! ## The call log -/

structure LogRecord where
  coordinate : String
  path : Path
  resumed : Bool
  deriving DecidableEq, Repr

def LogRecord.text (r : LogRecord) : String :=
  (if r.resumed then "done " else "") ++ r.coordinate ++ " " ++ r.path.text

abbrev CallLog := List LogRecord

namespace CallLog

def ofLabel (label : CallLabel) (resumed : Bool) : Option LogRecord :=
  if label.logged then
    some { coordinate := label.coordinate, path := label.path, resumed := resumed }
  else none

def ofEvents (events : List Event) : CallLog :=
  events.filterMap fun event =>
    match event with
    | .started label => ofLabel label false
    | .resumed label => ofLabel label true
    | .escaped _ => none

/-- The length of the log once the call at a path has recorded that it started, or that it goes
on. -/
def lengthAt (log : CallLog) (path : Path) (resumed : Bool) : Nat :=
  match log.findIdx? fun r => r.path = path ∧ r.resumed = resumed with
  | some before => before + 1
  | none => 0

end CallLog

end TypedQuery
