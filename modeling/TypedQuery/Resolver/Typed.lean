import TypedQuery.Json.Compact
import TypedQuery.Resolver.Basic
import TypedQuery.Text.Hidden
/-!
Reading arguments at a native type.  Integers may be read as doubles, but a float is no integer,
whatever its value.
-/

namespace TypedQuery

inductive NativeType where
  | int64
  | byte
  | double
  | boolean
  | text
  | int64List
  deriving DecidableEq, Repr

/-- Why a value cannot be read at a type. -/
inductive Mismatch where
  | wrongKind (found : Json) (expected : NativeType)
  | outOfRange (found : Int) (expected : NativeType)
  deriving Repr

namespace NativeType

def label : NativeType → String
  | int64 => "i64"
  | byte => "u8"
  | double => "f64"
  | boolean => "a boolean"
  | text => "a string"
  | int64List => "a sequence"

end NativeType

namespace Mismatch

/-- A character of a string as mismatches show it. -/
def showChar (c : Char) : List Char :=
  match c with
  | '"' => ['\\', '"']
  | '\\' => ['\\', '\\']
  | '\n' => ['\\', 'n']
  | '\r' => ['\\', 'r']
  | '\t' => ['\\', 't']
  | '\x00' => ['\\', '0']
  | c => Text.shown c

/-- How a mismatch names what it found. -/
def found : Json → String
  | .null => "null"
  | .bool b => "boolean `" ++ (if b then "true" else "false") ++ "`"
  | .int n => "integer `" ++ toString n ++ "`"
  | .float x => "floating point `" ++ x.compactText ++ "`"
  | .str s => "string \"" ++ String.ofList (s.toList.flatMap showChar) ++ "\""
  | .arr _ => "sequence"
  | .obj _ => "map"

def message : Mismatch → String
  | wrongKind value expected => s!"invalid type: {found value}, expected {expected.label}"
  | outOfRange n expected => s!"invalid value: {found (.int n)}, expected {expected.label}"

end Mismatch

namespace NativeType

def readInteger (type : NativeType) (low high : Int) : Json → Except Mismatch Json
  | .int n => if low ≤ n ∧ n ≤ high then .ok (.int n) else .error (.outOfRange n type)
  | value => .error (.wrongKind value type)

def readInt64 : Json → Except Mismatch Json :=
  readInteger int64 (-9223372036854775808) 9223372036854775807

/-- Reads a value at a type.  A list is refused for its first item that does not fit. -/
def read : NativeType → Json → Except Mismatch Json
  | int64, value => readInt64 value
  | byte, value => readInteger byte 0 255 value
  | double, .float x => .ok (.float x)
  | double, .int n =>
    match Binary64.ofInt? n with
    | some x => .ok (.float x)
    | none => .error (.outOfRange n double)
  | boolean, .bool b => .ok (.bool b)
  | text, .str s => .ok (.str s)
  | int64List, .arr items => .arr <$> items.mapM readInt64
  | type, value => .error (.wrongKind value type)

end NativeType

namespace Json.Fields

/-- An argument at a type.  One that is absent, null or of another type reads as nothing. -/
def readAs? (name : String) (type : NativeType) (arguments : Json.Fields) : Option Json :=
  match arguments.lookup name with
  | none | some .null => none
  | some value => (type.read value).toOption

/-- An argument that the caller cannot do without. -/
def require (name : String) (type : NativeType) (arguments : Json.Fields) : Except Raised Json :=
  match arguments.lookup name with
  | none => .error (.plain s!"Argument \"{name}\" was not provided.")
  | some value =>
    match type.read value with
    | .ok result => .ok result
    | .error mismatch =>
      .error (.plain s!"Argument \"{name}\" is malformed: {mismatch.message}")

end Json.Fields

end TypedQuery
