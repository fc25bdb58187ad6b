import TypedQuery.Path
/-!
Settings of an execution.
-/

namespace TypedQuery

structure Config where
  /-- How many fields of a selection set, or items of a list, run at a time. -/
  maxConcurrentFields : Nat
  /-- The time that one resolver call may take, in milliseconds. -/
  fieldTimeout : Option Nat
  /-- A panic of a resolver becomes an error of its field. -/
  catchPanics : Bool
  deriving DecidableEq, Repr

namespace Config

def standard : Config :=
  { maxConcurrentFields := 100, fieldTimeout := none, catchPanics := true }

instance : Inhabited Config := ⟨standard⟩

/-- The size of a window.  At least one member must run, or nothing ever would. -/
def window (config : Config) : Nat := max 1 config.maxConcurrentFields

/-! ## Encoding -/

def toJson (config : Config) : Json :=
  .obj
    [("max_concurrent_fields", .ofNat config.maxConcurrentFields),
      ("field_timeout_ms", Json.ofOption Json.ofNat config.fieldTimeout),
      ("catch_panics", .bool config.catchPanics)]

def timeoutOfJson? : Json → Option (Option Nat)
  | .null => some none
  | value => value.nat?.map some

def flagOfJson? : Json → Option Bool
  | .bool b => some b
  | _ => none

/-- Decodes the members that are there and takes the standard ones for the others. -/
def ofMembers? (maxConcurrentFields fieldTimeout catchPanics : Option Json) : Option Config := do
  return {
    maxConcurrentFields :=
      ← (maxConcurrentFields.map Json.nat?).getD (some standard.maxConcurrentFields)
    fieldTimeout := ← (fieldTimeout.map timeoutOfJson?).getD (some standard.fieldTimeout)
    catchPanics := ← (catchPanics.map flagOfJson?).getD (some standard.catchPanics) }

/-- Accepts an object with any of the members, or an array of the members in their order that may
end early. -/
def ofJson? : Json → Option Config
  | .obj fields =>
    ofMembers? (fields.lookup "max_concurrent_fields") (fields.lookup "field_timeout_ms")
      (fields.lookup "catch_panics")
  | .arr items =>
    if items.length ≤ 3 then ofMembers? items[0]? items[1]? items[2]? else none
  | _ => none

end Config

end TypedQuery
