import TypedQuery.Document.Basic
import TypedQuery.Document.Token
/-!
The grammar of query documents.  One token of look-ahead decides every choice, so a rule that has
begun is never taken back.
-/

namespace TypedQuery

/-- A rule takes lexemes off the front, or fails. -/
abbrev Rule (α : Type) := StateT (List Lexeme) (Except TextFault) α

namespace Rule

def fail {α : Type} : Rule α := throw .malformed

def demand (condition : Bool) : Rule Unit := if condition then pure () else fail

def peek : Rule (Option Token) := fun lexemes => .ok (lexemes.head?.map (·.token), lexemes)

/-- The position of the next token. -/
def here : Rule Location
  | [] => .error .malformed
  | lexeme :: rest => .ok (lexeme.location, lexeme :: rest)

def take : Rule Token
  | [] => .error .malformed
  | lexeme :: rest => .ok (lexeme.token, rest)

def mark (c : Char) : Rule Unit := do
  let token ← take
  demand (token = .punctuator c)

def nextIs (c : Char) : Rule Bool := do return (← peek) = some (.punctuator c)

def name : Rule String := do
  match ← take with
  | .name text => return text
  | _ => fail

def keyword (word : String) : Rule Unit := do
  demand ((← name) = word)

/-- Zero or more items up to a closing mark, which is taken. -/
def upTo {α : Type} (closing : Char) (item : Rule α) : Nat → Rule (List α)
  | 0 => fail
  | fuel + 1 => do
    if ← nextIs closing then
      mark closing
      return []
    else
      let first ← item
      return first :: (← upTo closing item fuel)

/-- One or more items up to a closing mark. -/
def someUpTo {α : Type} (closing : Char) (item : Rule α) (fuel : Nat) : Rule (List α) := do
  let items ← upTo closing item fuel
  demand !items.isEmpty
  return items

/-! ## Values and types -/

def keyed {α : Type} (value : Rule α) : Rule (String × α) := do
  let key ← name
  mark ':'
  return (key, ← value)

/-- The fields of an object literal: of a repeated key the last one counts, and they are kept in the
order of their keys. -/
def sortedFields (fields : List (String × Literal)) : List (String × Literal) :=
  (Keyed.ofList fields).mergeSort fun a b => a.1 ≤ b.1

/-- A value; `constant` forbids variables at every depth. -/
def value (constant : Bool) : Nat → Rule Literal
  | 0 => fail
  | fuel + 1 => do
    match ← take with
    | .punctuator '$' => if constant then fail else return .var (← name)
    | .punctuator '[' => return .list (← upTo ']' (value constant fuel) fuel)
    | .punctuator '\x7b' =>
      return .object (sortedFields (← upTo '\x7d' (keyed (value constant fuel)) fuel))
    | .int n => return .int n
    | .float x => return .float x
    | .str text => return .str text
    | .block inside => return .str (← Token.blockText inside)
    | .name "true" => return .bool true
    | .name "false" => return .bool false
    | .name "null" => return .null
    | .name text => return .enum text
    | _ => fail

def typeExpr : Nat → Rule TypeExpr
  | 0 => fail
  | fuel + 1 => do
    let inner ←
      if ← nextIs '[' then do
        mark '['
        let item ← typeExpr fuel
        mark ']'
        pure (TypeExpr.list item)
      else
        TypeExpr.named <$> name
    if ← nextIs '!' then
      mark '!'
      return .nonNull inner
    else
      return inner

/-! ## Selections -/

def arguments (fuel : Nat) : Rule (List (String × Literal)) := do
  if ← nextIs '(' then
    mark '('
    someUpTo ')' (keyed (value false fuel)) fuel
  else
    return []

def directives : Nat → Rule (List Directive)
  | 0 => fail
  | fuel + 1 => do
    if ← nextIs '@' then
      let location ← here
      mark '@'
      let name ← name
      let arguments ← arguments fuel
      return { location, name, arguments } :: (← directives fuel)
    else
      return []

mutual

def selections : Nat → Rule (List Selection)
  | 0 => fail
  | fuel + 1 => do
    mark '\x7b'
    someUpTo '\x7d' (selection fuel) fuel

def selection : Nat → Rule Selection
  | 0 => fail
  | fuel + 1 => do
    if (← peek) = some .ellipsis then
      let _ ← take
      let location ← here
      match ← peek with
      | some (.name "on") =>
        keyword "on"
        let condition ← name
        let directives ← directives fuel
        return .inline location (some condition) directives (← selections fuel)
      | some (.name _) =>
        let fragment ← name
        return .spread location fragment (← directives fuel)
      | _ =>
        let directives ← directives fuel
        return .inline location none directives (← selections fuel)
    else
      let location ← here
      let first ← name
      let (aliasName, name) ←
        if ← nextIs ':' then do
          mark ':'
          pure (some first, ← name)
        else pure (none, first)
      let arguments ← arguments fuel
      let directives ← directives fuel
      let head : FieldHead := { location, aliasName, name, arguments, directives }
      if ← nextIs '\x7b' then
        return .field head (← selections fuel)
      else
        return .field head []

end

/-! ## Definitions -/

def variableDefinition (fuel : Nat) : Rule VariableDefinition := do
  let location ← here
  mark '$'
  let name ← name
  mark ':'
  let type ← typeExpr fuel
  if ← nextIs '=' then
    mark '='
    return { location, name, type, defaultValue := some (← value true fuel) }
  else
    return { location, name, type, defaultValue := none }

/-- An operation behind its keyword. -/
def operation (fuel : Nat) (location : Location) (kind : OperationKind) : Rule Operation := do
  let name ←
    match ← peek with
    | some (.name _) => some <$> name
    | _ => pure none
  let variableDefs ←
    if ← nextIs '(' then do
      mark '('
      someUpTo ')' (variableDefinition fuel) fuel
    else pure []
  let directives ← directives fuel
  let selections ← selections fuel
  return { location, kind, name, variableDefs, directives, selections }

/-- A fragment behind its keyword. -/
def fragment (fuel : Nat) (location : Location) : Rule Fragment := do
  let name ← name
  keyword "on"
  let condition ← Rule.name
  let directives ← directives fuel
  let selections ← selections fuel
  return { location, name, condition, directives, selections }

def definition (fuel : Nat) : Rule Definition := do
  let location ← here
  if ← nextIs '\x7b' then
    let selections ← selections fuel
    return .operation
      { location, kind := .query, name := none, variableDefs := [], directives := [], selections }
  else
    match ← name with
    | "query" => .operation <$> operation fuel location .query
    | "mutation" => .operation <$> operation fuel location .mutation
    | "subscription" => .operation <$> operation fuel location .subscription
    | "fragment" => .fragment <$> fragment fuel location
    | _ => fail

/-- Definitions up to the end of the text. -/
def definitions (fuel : Nat) : Nat → Rule (List Definition)
  | 0 => fail
  | count + 1 => do
    if (← peek).isNone then
      return []
    else
      let first ← definition fuel
      return first :: (← definitions fuel count)

end Rule

namespace Document

/-- The document that a text spells: one definition at least.  Every step down in the grammar takes
a token within two steps, so twice the number of tokens is fuel enough. -/
def ofText (text : String) : Except TextFault Document := do
  let lexemes := Token.scanText text
  let fuel := 2 * lexemes.length + 4
  let (definitions, _) ← (Rule.definitions fuel fuel).run lexemes
  if definitions.isEmpty then throw .malformed
  return { definitions }

end Document

end TypedQuery
