import TypedQuery.Error.Rejection
import TypedQuery.Location
import TypedQuery.Path
/-!
Failures of validation and execution, and the errors of a response that report them.
-/

namespace TypedQuery

/-- An error raised by a resolver.  Raising it with extensions, be they empty, differs from raising
it without. -/
structure Raised where
  message : String
  extensions : Option Json.Fields
  deriving Repr

namespace Raised

def plain (message : String) : Raised := { message := message, extensions := none }

def withExtension (key : String) (value : Json) (e : Raised) : Raised :=
  { e with extensions := some (Keyed.put key value (e.extensions.getD [])) }

/-- Replaces all extensions. -/
def withExtensions (extensions : Json.Fields) (e : Raised) : Raised :=
  { e with extensions := some extensions }

end Raised

inductive Failure where
  /-- The document does not fit the schema, or the request does not fit the document. -/
  | invalidDocument (message : String)
  | invalidVariable (message : String)
  | rejected (rejection : Rejection)
  | raised (error : Raised)
  /-- A non-null field, given by its coordinate, came to null. -/
  | nullResult (field : String)
  /-- A value of an abstract type was not placed in one of its object types. -/
  | unplaced (message : String)
  | timedOut (field : String) (limit : Nat)
  | panicked (message : String)
  deriving Repr

namespace Failure

def message : Failure → String
  | invalidDocument message => message
  | invalidVariable message => message
  | rejected rejection => rejection.message
  | raised error => error.message
  | nullResult field => s!"Cannot return null for non-nullable field {field}."
  | unplaced message => message
  | timedOut field limit =>
    s!"Field \"{field}\" was cancelled after exceeding the {limit}ms deadline."
  | panicked message => message

/-- Only a raised error brings extensions. -/
def extensions? : Failure → Option Json.Fields
  | raised error => error.extensions
  | _ => none

end Failure

/-- An error of a response.  A request error has no path, which differs from the path of the
root. -/
structure ResponseError where
  message : String
  locations : List Location
  path : Option Path
  extensions : Option Json.Fields
  deriving Repr

def Failure.report (failure : Failure) (locations : List Location) (path : Option Path) :
    ResponseError :=
  { message := failure.message
    locations := locations
    path := path
    extensions := failure.extensions? }

namespace ResponseError

def plain (message : String) : ResponseError :=
  { message := message, locations := [], path := none, extensions := none }

/-- The message, with the first location if there is one. -/
def display (e : ResponseError) : String :=
  match e.locations with
  | [] => e.message
  | first :: _ => s!"{e.message} ({first.text})"

end ResponseError

/-! ## Encoding -/

def Location.toJson (l : Location) : Json :=
  .obj [("line", .ofNat l.line), ("column", .ofNat l.column)]

/-- Accepts an object with both members, or an array of the two. -/
def Location.ofJson? : Json → Option Location
  | .obj fields => do
    let line ← (← fields.lookup "line").nat?
    let column ← (← fields.lookup "column").nat?
    return { line, column }
  | .arr [line, column] => do return { line := ← line.nat?, column := ← column.nat? }
  | _ => none

namespace ResponseError

/-- Locations are left out when there are none, a path and extensions when they are absent. -/
def toJson (e : ResponseError) : Json :=
  .obj <|
    [("message", .str e.message)] ++
    (if e.locations.isEmpty then [] else [("locations", .arr (e.locations.map Location.toJson))]) ++
    (match e.path with
      | some path => [("path", path.toJson)]
      | none => []) ++
    (match e.extensions with
      | some extensions => [("extensions", .obj extensions)]
      | none => [])

def locationsOfJson? : Json → Option (List Location)
  | .arr items => items.mapM Location.ofJson?
  | _ => none

/-- Null stands for an absent path. -/
def pathOfJson? : Json → Option (Option Path)
  | .null => some none
  | value => (Path.ofJson? value).map some

/-- Null stands for absent extensions. -/
def extensionsOfJson? : Json → Option (Option Json.Fields)
  | .null => some none
  | .obj fields => some (some fields)
  | _ => none

/-- Decodes the members of an error, each with what it stands for when it is missing. -/
def ofMembers? (message : Json) (locations path extensions : Option Json) :
    Option ResponseError := do
  return {
    message := ← message.str?
    locations := ← (locations.map locationsOfJson?).getD (some [])
    path := ← (path.map pathOfJson?).getD (some none)
    extensions := ← (extensions.map extensionsOfJson?).getD (some none) }

/-- Accepts an object, of which other members are ignored, or an array of the members in their order
that may end early. -/
def ofJson? : Json → Option ResponseError
  | .obj fields => do
    ofMembers? (← fields.lookup "message") (fields.lookup "locations") (fields.lookup "path")
      (fields.lookup "extensions")
  | .arr items =>
    match items with
    | message :: rest =>
      if rest.length ≤ 3 then ofMembers? message rest[0]? rest[1]? rest[2]? else none
    | [] => none
  | _ => none

end ResponseError

end TypedQuery
