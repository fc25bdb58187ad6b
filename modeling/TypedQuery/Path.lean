import TypedQuery.Json.Basic
/-!
Addresses of positions in a response: from the root, the response key or the list index of each
step.
-/

namespace TypedQuery

inductive PathSegment where
  | key (name : String)
  | index (position : Nat)
  deriving DecidableEq, Repr

/-- A path lists its segments from the root on; the root itself is the empty path. -/
abbrev Path := List PathSegment

/-- Unsigned 64-bit integers, the range of counts and indices in encoded values. -/
def Json.nat? : Json → Option Nat
  | .int n => if 0 ≤ n ∧ n ≤ 18446744073709551615 then some n.toNat else none
  | _ => none

namespace PathSegment

def text : PathSegment → String
  | key name => name
  | index n => toString n

/-- A key is encoded as a string and an index as an integer, so a key that looks like a number
stays a key. -/
def toJson : PathSegment → Json
  | key name => .str name
  | index n => .ofNat n

def ofJson? : Json → Option PathSegment
  | .str name => some (key name)
  | value => value.nat?.map index

end PathSegment

namespace Path

def root : Path := []

def field (path : Path) (key : String) : Path := path ++ [.key key]

def item (path : Path) (index : Nat) : Path := path ++ [.index index]

def text (path : Path) : String := ".".intercalate (path.map PathSegment.text)

def toJson (path : Path) : Json := .arr (path.map PathSegment.toJson)

def ofJson? : Json → Option Path
  | .arr items => items.mapM PathSegment.ofJson?
  | _ => none

end Path

end TypedQuery
