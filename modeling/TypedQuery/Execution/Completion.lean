import TypedQuery.Coercion.Arguments
import TypedQuery.Execution.Collection
import TypedQuery.Execution.Config
import TypedQuery.Execution.Trace
/-!
Completion: from the value of a resolver to the data of a response.  A failure is recorded once, by
the field or list item around it, and that position becomes null.  Where null is not allowed, the
null moves on to the position around it.
-/

namespace TypedQuery

/-- A failure where it was recorded. -/
structure FieldFailure where
  failure : Failure
  locations : List Location
  path : Path
  deriving Repr

def FieldFailure.report (f : FieldFailure) : ResponseError :=
  f.failure.report f.locations (some f.path)

inductive Verdict where
  | value (data : Json)
  /-- A failure that is not yet recorded. -/
  | failed (failure : Failure)
  /-- A null on its way out; what caused it is recorded. -/
  | nulled
  deriving Repr

namespace Verdict

def value? : Verdict → Option Json
  | value data => some data
  | _ => none

end Verdict

/-- How a position came out, with the failures recorded in it, in the order of the selections. -/
structure Completion where
  verdict : Verdict
  failures : List FieldFailure
  trace : Trace
  deriving Repr

namespace Completion

def ofValue (data : Json) : Completion :=
  { verdict := .value data, failures := [], trace := .idle }

def ofFailure (failure : Failure) : Completion :=
  { verdict := .failed failure, failures := [], trace := .idle }

/-- The execution as a whole ends here; nothing of this position will be seen. -/
def ofEscape (cause : Escape) : Completion :=
  { verdict := .nulled, failures := [], trace := .escape cause }

/-- Null where it is allowed, and on its way out where it is not. -/
def nullAt (type : TypeExpr) : Verdict := if type.isNonNull then .nulled else .value .null

/-- Records a failure at a position of the given type, and leaves the position null. -/
def caught (type : TypeExpr) (locations : List Location) (path : Path) (c : Completion) :
    Completion :=
  match c.verdict with
  | .value _ => c
  | .failed failure =>
    { c with
      verdict := nullAt type
      failures :=
        c.failures ++ [{ failure := failure, locations := locations, path := path }] }
  | .nulled => { c with verdict := nullAt type }

/-- Puts the members of a set together.  One null on its way out takes the whole set with it, but
the other members are completed all the same. -/
def gather (limit : Nat) (build : List Json → Json) (parts : List Completion) : Completion :=
  { verdict :=
      match parts.mapM fun part => part.verdict.value? with
      | some values => .value (build values)
      | none => .nulled
    failures := parts.flatMap (·.failures)
    trace := .members limit (parts.map (·.trace)) }

end Completion

/-- Why a value of an abstract type has no place among its object types. -/
inductive PlacementFault where
  | unknown (abstractType field : String)
  | notObject (abstractType name : String)
  | notInSchema (abstractType name : String)
  | notPossible (abstractType name : String)
  deriving DecidableEq, Repr

def PlacementFault.message : PlacementFault → String
  | unknown type field =>
    s!"Abstract type \"{type}\" must resolve to an Object type at runtime for field " ++
      s!"\"{field}\". Either the \"{type}\" type should provide a \"resolveType\" function or " ++
      "each possible type should provide an \"isTypeOf\" function."
  | notObject type name =>
    s!"Abstract type \"{type}\" was resolved to a non-object type \"{name}\"."
  | notInSchema type name =>
    s!"Abstract type \"{type}\" was resolved to a type \"{name}\" that does not exist inside " ++
      "the schema."
  | notPossible type name =>
    s!"Runtime Object type \"{name}\" is not a possible type for \"{type}\"."

/-- What all positions of one execution share. -/
structure Execution where
  selector : Selector
  context : Context
  config : Config
  /-- The call log, as far as calls look at it. -/
  log : CallLog

namespace Execution

def schema (exec : Execution) : Schema := exec.selector.schema

/-! ## Values -/

/-- Completes a value of an abstract type as one of the object type where it belongs. -/
def completeAbstract (exec : Execution) (object : String → Path → Json → Completion)
    (info : FieldInfo) (type : String) (placer : Option Placer) (path : Path) (value : Json) :
    Completion :=
  match placer.getD Placer.byTypename value exec.context with
  | .panicked message => .ofEscape (.panicked message)
  | .unknown => .ofFailure (.unplaced (PlacementFault.unknown type info.coordinate).message)
  | .type name =>
    match exec.schema.object? name with
    | some objectType =>
      if exec.schema.isPossible type objectType.name then object objectType.name path value
      else .ofFailure (.unplaced (PlacementFault.notPossible type name).message)
    | none =>
      if (exec.schema.type? name).isSome then
        .ofFailure (.unplaced (PlacementFault.notObject type name).message)
      else .ofFailure (.unplaced (PlacementFault.notInSchema type name).message)

/-- Completes a value, which is not null, of a named type. -/
def completeNamed (exec : Execution) (object : String → Path → Json → Completion)
    (info : FieldInfo) (name : String) (path : Path) (value : Json) : Completion :=
  match exec.schema.type? name with
  | some (.scalar _) | some (.enum _) =>
    match exec.schema.coerceResult name value with
    | .ok result => .ofValue result
    | .error rejection => .ofFailure (.rejected rejection)
  | some (.object type) => object type.name path value
  | some (.interface type) => exec.completeAbstract object info name type.placer path value
  | some (.union type) => exec.completeAbstract object info name type.placer path value
  | none => .ofFailure (.rejected { cause := .unknownType name, value := value })

/-- Completes a value of a type.  `object` completes a value as one of an object type. -/
def completeValue (exec : Execution) (object : String → Path → Json → Completion)
    (info : FieldInfo) (locations : List Location) : TypeExpr → Path → Json → Completion
  | .nonNull inner, path, value =>
    let c := exec.completeValue object info locations inner path value
    match c.verdict with
    | .value .null => { c with verdict := .failed (.nullResult info.coordinate) }
    | _ => c
  | .list item, path, value =>
    match value with
    | .null => .ofValue .null
    | .arr items =>
      .gather exec.config.window .arr <|
        items.zipIdx.map fun (value, index) =>
          (exec.completeValue object info locations item (path.item index) value).caught item
            locations (path.item index)
    | value =>
      .ofFailure (.rejected { cause := .notList info.coordinate, value := value })
  | .named name, path, value =>
    if value.isNull then .ofValue .null else exec.completeNamed object info name path value

/-! ## Fields -/

/-- How long a call keeps its field waiting under a deadline.  One that is over exactly at the
deadline is in time. -/
def pause (deadline : Option Nat) : Wait → Pause
  | .ready => .none
  | .sleeps ms =>
    match deadline with
    | some limit => if ms ≤ limit then .sleep ms else .cut limit
    | none => .sleep ms
  | .never =>
    match deadline with
    | some limit => .cut limit
    | none => .forever

/-- The outcome of a call.  One that acts after a wait sees the record that it goes on. -/
def outcome (exec : Execution) (path : Path) (attempt : Attempt) : Outcome :=
  attempt.outcome (exec.log.lengthAt path (!attempt.eager && attempt.wait != .ready))

/-- What follows the action of a call. -/
def completeOutcome (exec : Execution) (info : FieldInfo) (complete : Json → Completion) :
    Outcome → Completion
  | .value value => complete value
  | .raised error => .ofFailure (.raised error)
  | .panicked message =>
    if exec.config.catchPanics then
      .ofFailure (.panicked
        (message.getD s!"Resolver for field \"{info.coordinate}\" panicked."))
    else .ofEscape (.panicked message)

/-- Calls the resolver of a field and completes what it comes to. -/
def completeCall (exec : Execution) (resolver : Resolver) (call : Call)
    (complete : Json → Completion) : Completion :=
  let attempt := resolver call
  let outcome := exec.outcome call.info.path attempt
  let pause :=
    if attempt.eager && outcome.isPanic then .none
    else pause exec.config.fieldTimeout attempt.wait
  let after : Completion :=
    match pause with
    | .none | .sleep _ => exec.completeOutcome call.info complete outcome
    | .cut ms => .ofFailure (.timedOut call.info.coordinate ms)
    | .forever => .ofValue .null
  let label : CallLabel :=
    { coordinate := call.info.coordinate, path := call.info.path, logged := attempt.logged }
  { after with trace := .call label pause after.trace }

/-- Completes a group of fields on a parent. -/
def completeField (exec : Execution) (object : String → List FieldNode → Path → Json → Completion)
    (parentType : String) (parent : Json) (path : Path) (field : FieldDef) (group : FieldGroup) :
    Completion :=
  let completed : Completion :=
    match exec.schema.coerceArguments field group.first.arguments exec.selector.bindings with
    | .error rejection => .ofFailure (.rejected rejection)
    | .ok arguments =>
      let info : FieldInfo :=
        { name := field.name, parentType := parentType, type := field.type, path := path }
      let call : Call :=
        { parent := parent, arguments := arguments, context := exec.context, info := info }
      exec.completeCall (field.resolver.getD Resolver.property) call
        (exec.completeValue (fun type => object type group.nodes) info group.locations field.type
          path)
  completed.caught field.type group.locations path

/-- Completes the groups that have a meaning on the parent: fields of its type and its type's name.
Others are passed over. -/
def completeFields (exec : Execution) (object : String → List FieldNode → Path → Json → Completion)
    (limit : Nat) (parentType : String) (parent : Json) (path : Path) (groups : List FieldGroup) :
    Completion :=
  let members : List (String × Completion) :=
    groups.filterMap fun group =>
      if group.first.name = "__typename" then some (group.key, .ofValue (.str parentType))
      else
        (exec.schema.field? parentType group.first.name).map fun field =>
          (group.key,
            exec.completeField object parentType parent (path.field group.key) field group)
  .gather limit (fun values => .obj ((members.map Prod.fst).zip values)) (members.map Prod.snd)

/-- The groups of the fields that some nodes select on an object type. -/
def groups (exec : Execution) (type : String) (sets : List (List Selection)) : List FieldGroup :=
  FieldGroup.ofNodes (exec.selector.collect type sets)

/-- Completes an object whose selections are those of all nodes that ask for it.  Objects nest at
most `depth` deep. -/
def completeObject (exec : Execution) : Nat → String → List FieldNode → Path → Json → Completion
  | 0, _, _, _, _ => .ofEscape .tooDeep
  | depth + 1, type, nodes, path, value =>
    exec.completeFields (exec.completeObject depth) exec.config.window type value path
      (exec.groups type (nodes.map (·.selections)))

end Execution

end TypedQuery
