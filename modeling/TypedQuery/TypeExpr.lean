/-!
References to types: a name under any nesting of lists and non-null marks.
-/

namespace TypedQuery

inductive TypeExpr where
  | named (name : String)
  | list (item : TypeExpr)
  | nonNull (inner : TypeExpr)
  deriving DecidableEq, Repr, Inhabited

namespace TypeExpr

def text : TypeExpr → String
  | named name => name
  | list item => "[" ++ item.text ++ "]"
  | nonNull inner => inner.text ++ "!"

def isNonNull : TypeExpr → Bool
  | nonNull _ => true
  | _ => false

/-- The reference without its outermost mark, if it has one. -/
def nullable : TypeExpr → TypeExpr
  | nonNull inner => inner
  | t => t

/-- A list, with or without a mark. -/
def isList (t : TypeExpr) : Bool :=
  match t.nullable with
  | list _ => true
  | _ => false

/-- What a list or a mark wraps. -/
def inner? : TypeExpr → Option TypeExpr
  | list item => some item
  | nonNull inner => some inner
  | named _ => none

/-- The name inside all wrappers. -/
def base : TypeExpr → String
  | named name => name
  | list item => item.base
  | nonNull inner => inner.base

/-- A mark directly inside a mark, at any depth. -/
def marksTwice : TypeExpr → Bool
  | named _ => false
  | list item => item.marksTwice
  | nonNull inner => inner.isNonNull || inner.marksTwice

/-- Reads a reference off its text: a mark at the end first, brackets around the whole next, and any
other text is a name. -/
def ofChars : Nat → List Char → TypeExpr
  | 0, cs => named (String.ofList cs)
  | fuel + 1, cs =>
    if cs.getLast? = some '!' then nonNull (ofChars fuel cs.dropLast)
    else
      match cs with
      | '[' :: rest =>
        if rest.getLast? = some ']' then list (ofChars fuel rest.dropLast)
        else named (String.ofList cs)
      | _ => named (String.ofList cs)

/-- Each wrapper takes a character at least, so the length bounds their number. -/
def ofText (text : String) : TypeExpr := ofChars text.length text.toList

end TypeExpr

end TypedQuery
