import TypedQuery.Resolver.Typed
/-!
Resolvers that are described by data: one action, when it is taken and how long the call takes.
-/

namespace TypedQuery

inductive Action where
  | raise (message : String) (extensions : Option Json.Fields)
  | panic (message : Option String)
  /-- A property of the parent, or null. -/
  | property (name : String)
  /-- An argument as it was coerced, or null. -/
  | argument (name : String)
  | requireArgument (name : String) (type : NativeType)
  | readArgument (name : String) (type : NativeType)
  | context (kind : ContextKind)
  | arguments
  | parent
  /-- The length of the call log. -/
  | logLength
  /-- A line that names the field, its declared type and its place. -/
  | info
  | constant (value : Json)
  deriving Repr

namespace Action

def ofExcept : Except Raised Json → Outcome
  | .ok value => .value value
  | .error error => .raised error

def outcome (call : Call) (logLength : Nat) : Action → Outcome
  | raise message extensions => .raised { message := message, extensions := extensions }
  | panic message => .panicked message
  | property name => .value ((call.parent.field? name).getD .null)
  | argument name => .value ((call.arguments.lookup name).getD .null)
  | requireArgument name type => ofExcept (call.arguments.require name type)
  | readArgument name type => .value ((call.arguments.readAs? name type).getD .null)
  | context kind => ofExcept (call.context.require kind)
  | arguments => .value (.obj call.arguments)
  | parent => .value call.parent
  | Action.logLength => .value (.ofNat logLength)
  | info =>
    .value (.str
      s!"{call.info.coordinate} {call.info.name} {call.info.type.text} {call.info.path.text}")
  | constant value => .value value

end Action

/-- A described resolver.  Its calls are always logged. -/
structure Script where
  wait : Wait
  eager : Bool
  action : Action
  deriving Repr

def Script.toResolver (script : Script) : Resolver := fun call =>
  { logged := true
    wait := script.wait
    eager := script.eager
    outcome := fun logLength => script.action.outcome call logLength }

end TypedQuery
