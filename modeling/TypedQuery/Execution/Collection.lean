import TypedQuery.Document.Basic
import TypedQuery.Schema.Basic
/-!
The fields that selections amount to on an object type.  Fragments that apply are entered, each at
most once, and fields of one response key form a group.
-/

namespace TypedQuery

/-! ## Directives -/

def Directive.condition? (bindings : Json.Fields) (directive : Directive) : Option Json :=
  (directive.arguments.lookup "if").map (Literal.toJson bindings)

/-- A selection is left out by `skip` when its condition is true, and by `include` unless it is. -/
def Directive.admits (bindings : Json.Fields) (directive : Directive) : Bool :=
  let isTrue :=
    match directive.condition? bindings with
    | some (.bool true) => true
    | _ => false
  match directive.name with
  | "skip" => !isTrue
  | "include" => isTrue
  | _ => true

def isIncluded (bindings : Json.Fields) (directives : List Directive) : Bool :=
  directives.all (Directive.admits bindings)

/-- A fragment applies to the object type that it names, and to those that belong to the abstract
type that it names. -/
def Schema.applies (schema : Schema) (condition object : String) : Bool :=
  condition == object || schema.isPossible condition object

/-! ## Collecting -/

/-- What collecting looks things up in. -/
structure Selector where
  schema : Schema
  fragments : List Fragment
  bindings : Json.Fields

/-- Fields in the order in which they were met, and the names of the fragments that were met. -/
structure Collected where
  fields : List FieldNode
  met : List String

namespace Selector

def ofDocument (schema : Schema) (doc : Document) (bindings : Json.Fields) : Selector :=
  { schema := schema, fragments := doc.fragments, bindings := bindings }

/-- The fragment of a name, the last of several. -/
def fragment? (s : Selector) (name : String) : Option Fragment :=
  s.fragments.reverse.find? fun frag => frag.name == name

mutual

/-- Collects one selection; `enter` collects the selections of a fragment. -/
def collectSelection (s : Selector) (enter : Fragment → Collected → Collected) (object : String) :
    Selection → Collected → Collected
  | .field head selections, state =>
    if isIncluded s.bindings head.directives then
      { state with fields := state.fields ++ [{ head with selections := selections }] }
    else state
  | .spread _ name directives, state =>
    if !isIncluded s.bindings directives || state.met.contains name then state
    else
      let state := { state with met := name :: state.met }
      match s.fragment? name with
      | some frag => if s.schema.applies frag.condition object then enter frag state else state
      | none => state
  | .inline _ condition directives selections, state =>
    if !isIncluded s.bindings directives then state
    else
      match condition with
      | some condition =>
        if s.schema.applies condition object then s.collectWith enter object selections state
        else state
      | none => s.collectWith enter object selections state

def collectWith (s : Selector) (enter : Fragment → Collected → Collected) (object : String) :
    List Selection → Collected → Collected
  | [], state => state
  | first :: rest, state =>
    s.collectWith enter object rest (s.collectSelection enter object first state)

end

/-- Enters fragments up to `depth` deep.  A fragment inside a fragment has another name than those
around it, so fragments never nest deeper than there are fragments. -/
def collectDeep (s : Selector) (object : String) : Nat → List Selection → Collected → Collected
  | 0 => s.collectWith (fun _ state => state) object
  | depth + 1 =>
    s.collectWith (fun frag state => s.collectDeep object depth frag.selections state) object

/-- The fields of several sets of selections, which share the fragments that were met. -/
def collect (s : Selector) (object : String) (sets : List (List Selection)) : List FieldNode :=
  (sets.foldl (fun state set => s.collectDeep object s.fragments.length set state)
    { fields := [], met := [] }).fields

end Selector

/-! ## Grouping -/

/-- The fields of one response key.  The first of them decides what is resolved. -/
structure FieldGroup where
  key : String
  first : FieldNode
  others : List FieldNode

namespace FieldGroup

def nodes (group : FieldGroup) : List FieldNode := group.first :: group.others

def locations (group : FieldGroup) : List Location := group.nodes.map fun node => node.location

/-- Adds a field to the group of its key, or a new group at the end. -/
def insert (node : FieldNode) : List FieldGroup → List FieldGroup
  | [] => [{ key := node.responseKey, first := node, others := [] }]
  | group :: rest =>
    if group.key = node.responseKey then { group with others := group.others ++ [node] } :: rest
    else group :: insert node rest

def ofNodes (nodes : List FieldNode) : List FieldGroup :=
  nodes.foldl (fun groups node => insert node groups) []

end FieldGroup

end TypedQuery
