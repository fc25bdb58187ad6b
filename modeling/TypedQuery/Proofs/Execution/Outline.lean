import TypedQuery.Execution.Completion
/-!
Outlines of responses.  An outline has every position that an execution attempts, with what failed at
the position itself, and moves no null.  A response is read off an outline in a second pass: its
errors are the failures in their order, and its data has null where a position failed and wherever
a null moves on from there.
-/

namespace TypedQuery

/-- The value that a call came to. -/
def Outcome.value? : Outcome → Option Json
  | value result => some result
  | _ => none

/-- How long a call takes that comes to the outcome.  One that panics before it waits does not
wait. -/
def Attempt.duration (outcome : Outcome) (attempt : Attempt) : Wait :=
  if attempt.eager && outcome.isPanic then .ready else attempt.wait

/-- A wait is not over at the deadline.  Without one, it is never over. -/
def Wait.outlasts : Option Nat → Wait → Bool
  | _, ready => false
  | some limit, sleeps ms => limit < ms
  | none, sleeps _ => false
  | _, never => true

/-- A call that was made, and what it came to. -/
structure MadeCall where
  call : Call
  attempt : Attempt
  outcome : Outcome

namespace MadeCall

def label (made : MadeCall) : CallLabel :=
  { coordinate := made.call.info.coordinate
    path := made.call.info.path
    logged := made.attempt.logged }

/-- How long the call takes when nothing cuts it off. -/
def duration (made : MadeCall) : Wait := made.attempt.duration made.outcome

end MadeCall

/-- A position of a response, seen from the set that it is a member of. -/
structure Place where
  segment : PathSegment
  type : TypeExpr
  /-- The selected fields that ask for the position, or for the list that it is an item of. -/
  nodes : List FieldNode
  /-- The call for a field.  There is none for an item, a type's name, and a field whose arguments
  were rejected. -/
  made : Option MadeCall
  /-- What the position was completed from: the value that the call came to in time, or the item.
  There is none for a type's name. -/
  value : Option Json

/-- What the members of a set are to it. -/
inductive SetKind where
  | items
  | fields (type : String)
  deriving DecidableEq, Repr

inductive Outline where
  | leaf (data : Json)
  /-- The position failed by itself. -/
  | failed (failure : Failure)
  /-- The execution as a whole ended here. -/
  | escaped (cause : Escape)
  | set (kind : SetKind) (members : List (Place × Outline))

namespace Place

def locations (place : Place) : List Location := place.nodes.map fun node => node.location

/-- A position waits for its call, and for nothing when it has none. -/
def await (deadline : Option Nat) (place : Place) (next : Trace) : Trace :=
  match place.made with
  | some made => .call made.label (Execution.pause deadline made.duration) next
  | none => next

/-- The call of the position never ends and is not cut off. -/
def hangs (deadline : Option Nat) (place : Place) : Bool :=
  match place.made with
  | some made => Execution.pause deadline made.duration == .forever
  | none => false

end Place

namespace SetKind

/-- The list or the object of some members. -/
def build : SetKind → List (PathSegment × Json) → Json
  | items, members => .arr (members.map Prod.snd)
  | fields _, members => .obj (members.map fun member => (member.1.text, member.2))

end SetKind

namespace Outline

/-- Induction on outlines, by way of the members of a set. -/
theorem induct {P : Outline → Prop} (hleaf : ∀ data, P (leaf data))
    (hfailed : ∀ failure, P (failed failure)) (hescaped : ∀ cause, P (escaped cause))
    (hset : ∀ kind members, (∀ member ∈ members, P member.2) → P (set kind members)) (o : Outline) :
    P o := by
  refine @Outline.rec P (fun members => ∀ member ∈ members, P member.2) (fun member => P member.2)
    hleaf hfailed hescaped hset ?_ ?_ (fun _ _ h => h) o
  · exact fun member h => by cases h
  · intro first rest hfirst hrest member h
    rcases List.mem_cons.1 h with rfl | h
    · exact hfirst
    · exact hrest member h

/-- The failure of the position itself. -/
def failure? : Outline → Option Failure
  | failed failure => some failure
  | _ => none

/-! ## Errors -/

mutual

/-- The failures below a position at the given path, in the order of the selections. -/
def marks (path : Path) : Outline → List FieldFailure
  | set _ members => memberMarks path members
  | _ => []

def memberMarks (path : Path) : List (Place × Outline) → List FieldFailure
  | [] => []
  | (place, o) :: rest =>
    (o.failure?.toList.map fun failure =>
      { failure := failure
        locations := place.locations
        path := path ++ [place.segment] }) ++
      o.marks (path ++ [place.segment]) ++ memberMarks path rest

end

/-! ## Data -/

mutual

/-- The position becomes null: it failed, or a null moves on to it from a member that cannot be
null. -/
def isNulled : Outline → Bool
  | leaf _ => false
  | failed _ => true
  | escaped _ => true
  | set _ members => anyNulled members

def anyNulled : List (Place × Outline) → Bool
  | [] => false
  | (place, o) :: rest => place.type.isNonNull && o.isNulled || anyNulled rest

end

mutual

def data : Outline → Json
  | leaf data => data
  | failed _ => .null
  | escaped _ => .null
  | set kind members => if anyNulled members then .null else kind.build (memberData members)

def memberData : List (Place × Outline) → List (PathSegment × Json)
  | [] => []
  | (place, o) :: rest => (place.segment, o.data) :: memberData rest

end

/-! ## Time -/

mutual

/-- What the execution of an outline does, the calls and what waits for them. -/
def trace (config : Config) : Outline → Trace
  | leaf _ => .idle
  | failed _ => .idle
  | escaped cause => .escape cause
  | set _ members => .members config.window (memberTraces config members)

def memberTraces (config : Config) : List (Place × Outline) → List Trace
  | [] => []
  | (place, o) :: rest =>
    place.await config.fieldTimeout (o.trace config) :: memberTraces config rest

end

mutual

/-- The execution ends somewhere in the outline, for a panic that nothing catches or because the
descent was cut short. -/
def escapes : Outline → Bool
  | leaf _ => false
  | failed _ => false
  | escaped _ => true
  | set _ members => anyEscapes members

def anyEscapes : List (Place × Outline) → Bool
  | [] => false
  | (_, o) :: rest => o.escapes || anyEscapes rest

end

mutual

/-- Some call of the outline never ends and is not cut off. -/
def hangs (deadline : Option Nat) : Outline → Bool
  | leaf _ => false
  | failed _ => false
  | escaped _ => false
  | set _ members => anyHangs deadline members

def anyHangs (deadline : Option Nat) : List (Place × Outline) → Bool
  | [] => false
  | (place, o) :: rest => place.hangs deadline || o.hangs deadline || anyHangs deadline rest

end

end Outline
end TypedQuery
