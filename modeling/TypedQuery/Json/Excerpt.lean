import TypedQuery.Json.Compact
/-!
How a message shows a value that was rejected: in full near the surface, shortened where it is deep
or long.
-/

namespace TypedQuery
namespace Json

/-- Containers below this depth are shown by their kind only. -/
def excerptDepth : Nat := 2

/-- An array shows this many items and counts the others. -/
def excerptLength : Nat := 10

def omittedItems (count : Nat) : List String :=
  match count - excerptLength with
  | 0 => []
  | 1 => ["... 1 more item"]
  | n => [s!"... {n} more items"]

mutual

def excerptAt (depth : Nat) : Json → String
  | arr [] => "[]"
  | arr (item :: rest) =>
    if excerptDepth ≤ depth then "[Array]"
    else
      let shown := excerptItems (depth + 1) excerptLength (item :: rest)
      "[" ++ ", ".intercalate (shown ++ omittedItems (rest.length + 1)) ++ "]"
  | obj [] => "\x7b\x7d"
  | obj (field :: rest) =>
    if excerptDepth ≤ depth then "[Object]"
    else "\x7b " ++ ", ".intercalate (excerptFields (depth + 1) (field :: rest)) ++ " \x7d"
  | value => value.compact

def excerptItems (depth count : Nat) : List Json → List String
  | [] => []
  | item :: rest =>
    match count with
    | 0 => []
    | count + 1 => excerptAt depth item :: excerptItems depth count rest

def excerptFields (depth : Nat) : List (String × Json) → List String
  | [] => []
  | (key, value) :: rest => (key ++ ": " ++ excerptAt depth value) :: excerptFields depth rest

end

/-- The text that stands for a value in a message. -/
def excerpt (value : Json) : String := excerptAt 0 value

end Json
end TypedQuery
