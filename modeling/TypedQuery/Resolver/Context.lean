import TypedQuery.Error.Failure
/-!
Data that all resolvers of one request share: at most one value of each kind.
-/

namespace TypedQuery

/-- The kinds of value that a context may hold. -/
inductive ContextKind where
  | integer
  | flag
  | text
  deriving DecidableEq, Repr

/-- How messages name a kind. -/
def ContextKind.label : ContextKind → String
  | integer => "i64"
  | flag => "bool"
  | text => "alloc::string::String"

structure Context where
  integer : Option Int
  flag : Option Bool
  text : Option String
  deriving DecidableEq, Repr

namespace Context

def empty : Context := { integer := none, flag := none, text := none }

instance : Inhabited Context := ⟨empty⟩

/-- The number of values it holds. -/
def size (c : Context) : Nat :=
  c.integer.toList.length + c.flag.toList.length + c.text.toList.length

def get? (kind : ContextKind) (c : Context) : Option Json :=
  match kind with
  | .integer => c.integer.map .int
  | .flag => c.flag.map .bool
  | .text => c.text.map .str

/-- The value of a kind, which the caller cannot do without. -/
def require (kind : ContextKind) (c : Context) : Except Raised Json :=
  match c.get? kind with
  | some value => .ok value
  | none => .error (.plain s!"Context has no value of type {kind.label}.")

end Context

end TypedQuery
