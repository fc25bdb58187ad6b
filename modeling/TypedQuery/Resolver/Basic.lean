import TypedQuery.Resolver.Context
/-!
Resolvers.  A call to one says at once whether it is logged, how long it takes and when it acts, and
acting it comes to a value, an error or a panic.
-/

namespace TypedQuery

/-- The field that a call is for, and its place in the response. -/
structure FieldInfo where
  name : String
  parentType : String
  type : TypeExpr
  path : Path
  deriving Repr

/-- The field's name with that of the object type it was looked up on. -/
def FieldInfo.coordinate (info : FieldInfo) : String := info.parentType ++ "." ++ info.name

structure Call where
  parent : Json
  arguments : Json.Fields
  context : Context
  info : FieldInfo

inductive Outcome where
  | value (result : Json)
  | raised (error : Raised)
  /-- The resolver gave up; its message is missing when it was not a text. -/
  | panicked (message : Option String)
  deriving Repr

def Outcome.isPanic : Outcome → Bool
  | panicked _ => true
  | _ => false

/-- How long a call takes: no time, some milliseconds, or for ever. -/
inductive Wait where
  | ready
  | sleeps (ms : Nat)
  | never
  deriving DecidableEq, Repr

/-- What a call will do.  The outcome may depend on the length that the call log has when the call
acts, its own entries included; nothing else about other calls can reach it. -/
structure Attempt where
  logged : Bool
  wait : Wait
  /-- The call acts before it waits.  If it panics then, it does not wait. -/
  eager : Bool
  outcome : Nat → Outcome

abbrev Resolver := Call → Attempt

namespace Resolver

/-- Reads the property of the parent that is named like the field.  A parent that is no object, or
lacks the property, gives null. -/
def property : Resolver := fun call =>
  { logged := false
    wait := .ready
    eager := false
    outcome := fun _ => .value ((call.parent.field? call.info.name).getD .null) }

end Resolver

end TypedQuery
