import TypedQuery.Json.Basic
/-!
Positions in a query text.  Lines and columns count from one, and columns count characters.
-/

namespace TypedQuery

structure Location where
  line : Nat
  column : Nat
  deriving DecidableEq, Repr, Inhabited

namespace Location

def start : Location := { line := 1, column := 1 }

def right (columns : Nat) (l : Location) : Location := { l with column := l.column + columns }

def nextLine (l : Location) : Location := { line := l.line + 1, column := 1 }

/-- The position behind a stretch of text. -/
def after (l : Location) (cs : List Char) : Location :=
  cs.foldl (fun l c => if c = '\n' then l.nextLine else l.right 1) l

def text (l : Location) : String := s!"{l.line}:{l.column}"

end Location

end TypedQuery
