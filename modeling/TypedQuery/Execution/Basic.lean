import TypedQuery.Execution.Completion
import TypedQuery.Execution.Crew
import TypedQuery.Schema.Root
import TypedQuery.Validation.Basic
/-!
Execution of requests.  The response does not depend on when resolvers act, only the call log does,
and so does the outcome of a resolver that looks at its length.
-/

namespace TypedQuery

/-! ## Depth -/

mutual

def Selection.fieldCount : Selection → Nat
  | .field _ selections => fieldCounts selections + 1
  | .spread _ _ _ => 0
  | .inline _ _ _ selections => fieldCounts selections

/-- The fields in some selections and below them, spreads not counted. -/
def fieldCounts : List Selection → Nat
  | [] => 0
  | first :: rest => first.fieldCount + fieldCounts rest

end

namespace Document

def fieldCount (doc : Document) : Nat :=
  (doc.operations.map Operation.selections ++ doc.fragments.map Fragment.selections).foldr
    (fun selections count => fieldCounts selections + count) 0

/-- How often a field of a fragment that spreads itself may recur below itself. -/
def recurrences : Nat := 128

/-- Objects of a response nest no deeper than this.  While no fragment spreads itself, each step
down passes a field that was not passed before.  A document that was not validated may hold
fragments that do; then the descent ends with the data. -/
def depthLimit (doc : Document) : Nat := (doc.fieldCount + 1) * recurrences

end Document

/-! ## Runs -/

/-- One operation, ready to run. -/
structure Run where
  selector : Selector
  context : Context
  config : Config
  rootType : String
  root : Json
  selections : List Selection
  /-- The root fields run one after another. -/
  serial : Bool
  depth : Nat

namespace Run

/-- Runs the operation as if the call log were the given one. -/
def complete (run : Run) (log : CallLog) : Completion :=
  let exec : Execution :=
    { selector := run.selector
      context := run.context
      config := run.config
      log := log }
  exec.completeFields (exec.completeObject run.depth) (if run.serial then 1 else run.config.window)
    run.rootType run.root Path.root (exec.groups run.rootType [run.selections])

def log (run : Run) (seen : CallLog) : CallLog :=
  CallLog.ofEvents (run.complete seen).trace.events

/-- Repeats the run with the log that it leaves, until it leaves the log that it saw.  The first
records of a log depend on nothing, and each repetition puts the next ones right. -/
def settle (run : Run) : Nat → CallLog → CallLog
  | 0, seen => seen
  | rounds + 1, seen =>
    let left := run.log seen
    if left = seen then seen else run.settle rounds left

/-- The log of the run. -/
def callLog (run : Run) : CallLog :=
  let first := run.log []
  run.settle (first.length + 1) first

end Run

/-- How an execution ends. -/
inductive Ending where
  | response (response : Response) (log : CallLog)
  | escaped (cause : Escape)
  /-- Some call never ends, and no deadline cuts it off. -/
  | stalled

namespace Run

def firstEscape? (events : List Event) : Option Escape :=
  events.findSome? fun event =>
    match event with
    | .escaped cause => some cause
    | _ => none

/-- Runs the operation.  A null that leaves the root fields is the data. -/
def ending (run : Run) : Ending :=
  let log := run.callLog
  let completion := run.complete log
  match firstEscape? completion.trace.events with
  | some cause => .escaped cause
  | none =>
    if (completion.trace.course 0).ends then
      let response : Response :=
        { data := some (completion.verdict.value?.getD .null)
          errors := completion.failures.map FieldFailure.report }
      .response response log
    else .stalled

end Run

/-! ## Requests -/

/-- What to run for a request, or the response that says why nothing can be run. -/
def Schema.prepare (schema : Schema) (config : Config) (context : Context) (request : Request) :
    Except Response Run := do
  let op ←
    match request.document.select request.operation with
    | .ok op => pure op
    | .error problem => throw (.ofFailure (.invalidDocument problem.message) [])
  let rootType ←
    match schema.rootType? op.kind with
    | some rootType => pure rootType
    | none =>
      throw (.ofFailure (.invalidDocument (Fault.notConfigured op.kind).message) [op.location])
  let bindings ←
    match schema.coerceVariables op.variableDefs request.inputs with
    | .ok bindings => pure bindings
    | .error errors => throw (.ofErrors errors)
  return {
    selector := .ofDocument schema request.document bindings
    context := context
    config := config
    rootType := rootType
    root := request.root
    selections := op.selections
    serial := op.kind == .mutation
    depth := request.document.depthLimit }

/-- Executes a request whose document is known to be valid.  Choosing the operation and its
variables may still fail. -/
def Schema.executeValidated (schema : Schema) (config : Config) (context : Context)
    (request : Request) : Ending :=
  match schema.prepare config context request with
  | .ok run => run.ending
  | .error response => .response response []

/-- Validates a request and executes it when nothing is wrong with it. -/
def Schema.execute (schema : Schema) (config : Config) (context : Context) (request : Request) :
    Ending :=
  match schema.validate request.document request.operation request.inputs with
  | [] => schema.executeValidated config context request
  | errors => .response (.ofErrors errors) []

end TypedQuery
