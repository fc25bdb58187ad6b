import TypedQuery.Keyed
import TypedQuery.Number.Binary64
/-!
The values that resolvers return, arguments carry and responses hold.  An integer and a float of
the same value are different values, and an object keeps the order of its fields.
-/

namespace TypedQuery

inductive Json where
  | null
  | bool (value : Bool)
  | int (value : Int)
  | float (value : Binary64)
  | str (text : String)
  | arr (items : List Json)
  | obj (fields : List (String × Json))
  deriving Repr, Inhabited

namespace Json

/-- The fields of an object. -/
abbrev Fields := Keyed Json

def isNull : Json → Bool
  | null => true
  | _ => false

/-- A field of an object.  Other values have none. -/
def field? (key : String) : Json → Option Json
  | obj fields => fields.lookup key
  | _ => none

def str? : Json → Option String
  | str text => some text
  | _ => none

/-- The integers that a value keeps exactly: 64 bits, with or without a sign. -/
def fitsInteger (n : Int) : Bool :=
  -9223372036854775808 ≤ n && n ≤ 18446744073709551615

def ofNat (n : Nat) : Json := int n

def ofOption {α : Type} (encode : α → Json) : Option α → Json
  | some a => encode a
  | none => null

end Json

end TypedQuery
