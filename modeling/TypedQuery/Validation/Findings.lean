import TypedQuery.Validation.Fault
/-!
What a visit of a definition brings to light: faults, uses of variables and spreads of fragments,
each in the order of the text.
-/

namespace TypedQuery

/-- A variable in a value.  The place is that of the field or directive that takes the value, and
the expected type is missing where nothing is known of it. -/
structure VariableUse where
  name : String
  location : Location
  expected : Option TypeExpr
  /-- The place has a default of its own, so it may go without the variable. -/
  hasDefault : Bool
  deriving Repr

structure Spread where
  fragment : String
  location : Location
  deriving DecidableEq, Repr

structure Findings where
  diagnostics : List Diagnostic
  uses : List VariableUse
  spreads : List Spread

namespace Findings

def none : Findings := { diagnostics := [], uses := [], spreads := [] }

def ofFault (fault : Fault) (locations : List Location) : Findings :=
  { diagnostics := [{ fault := fault, locations := locations }], uses := [], spreads := [] }

def ofUses (uses : List VariableUse) : Findings :=
  { diagnostics := [], uses := uses, spreads := [] }

def ofSpread (spread : Spread) : Findings :=
  { diagnostics := [], uses := [], spreads := [spread] }

def append (a b : Findings) : Findings :=
  { diagnostics := a.diagnostics ++ b.diagnostics
    uses := a.uses ++ b.uses
    spreads := a.spreads ++ b.spreads }

instance : Append Findings := ⟨append⟩

@[simp] theorem diagnostics_append (a b : Findings) :
    (a ++ b).diagnostics = a.diagnostics ++ b.diagnostics := rfl

@[simp] theorem uses_append (a b : Findings) : (a ++ b).uses = a.uses ++ b.uses := rfl

@[simp] theorem spreads_append (a b : Findings) : (a ++ b).spreads = a.spreads ++ b.spreads := rfl

/-- A fault that is found exactly when a condition holds. -/
def when (condition : Bool) (fault : Fault) (locations : List Location) : Findings :=
  if condition then ofFault fault locations else none

def concat (parts : List Findings) : Findings := parts.foldr append none

end Findings

end TypedQuery
