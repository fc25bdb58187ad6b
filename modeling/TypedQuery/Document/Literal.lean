import TypedQuery.Json.Basic
import TypedQuery.Number.Decimal
import TypedQuery.Text.Blank
import TypedQuery.Text.Lines
/-!
Literals of a query document, the text that messages print for them, and their value.
-/

namespace TypedQuery

/-- The number that a float literal spells.  One beyond the finite numbers is infinite and stands
for no value. -/
inductive FloatLiteral where
  | finite (value : Binary64)
  | infinite (negative : Bool)
  deriving DecidableEq, Repr

inductive Literal where
  | var (name : String)
  | int (value : Int)
  | float (value : FloatLiteral)
  | str (text : String)
  | bool (value : Bool)
  | null
  | enum (name : String)
  | list (items : List Literal)
  | object (fields : List (String × Literal))
  deriving Repr, Inhabited

namespace FloatLiteral

def text : FloatLiteral → String
  | finite x => x.plainText
  | infinite false => "inf"
  | infinite true => "-inf"

def toJson : FloatLiteral → Json
  | finite x => .float x
  | infinite _ => .null

end FloatLiteral

namespace Literal

/-! ## Printed form -/

/-- The characters that a printed string may hold as they are. -/
def isPrintable (c : Char) : Bool := 0x20 ≤ c.toNat && c.toNat ≤ 0xFFFF

def quoteChar (c : Char) : List Char :=
  match c with
  | '\r' => ['\\', 'r']
  | '\n' => ['\\', 'n']
  | '\t' => ['\\', 't']
  | '"' => ['\\', '"']
  | '\\' => ['\\', '\\']
  | c =>
    if isPrintable c then [c]
    else
      let ds := Nat.toDigits 10 c.toNat
      '\\' :: 'u' :: Decimal.zeros (4 - ds.length) ++ ds

/-- Escapes each run of three quotes, which would end a block. -/
def escapeBlock : List Char → List Char
  | '"' :: '"' :: '"' :: rest => '\\' :: '"' :: '"' :: '"' :: escapeBlock rest
  | c :: rest => c :: escapeBlock rest
  | [] => []

def blockLine (line : List Char) : List Char :=
  if line.all Text.isBlank then ['\n'] else ' ' :: ' ' :: escapeBlock line ++ ['\n']

/-- A text of several lines is printed as a block, unless it holds a character that needs an
escape. -/
def isBlockText (cs : List Char) : Bool :=
  cs.contains '\n' && cs.all fun c => c = '\n' || c = '\r' || c = '\t' || isPrintable c

def quotedText (text : String) : String :=
  let cs := text.toList
  let fence := ['"', '"', '"']
  String.ofList <|
    if isBlockText cs then fence ++ '\n' :: (Text.lines cs).flatMap blockLine ++ fence
    else '"' :: cs.flatMap quoteChar ++ ['"']

mutual

def text : Literal → String
  | var name => "$" ++ name
  | int n => toString n
  | float x => x.text
  | str s => quotedText s
  | bool true => "true"
  | bool false => "false"
  | null => "null"
  | enum name => name
  | list items => "[" ++ ", ".intercalate (textItems items) ++ "]"
  | object fields => "\x7b" ++ ", ".intercalate (textFields fields) ++ "\x7d"

def textItems : List Literal → List String
  | [] => []
  | item :: rest => text item :: textItems rest

def textFields : List (String × Literal) → List String
  | [] => []
  | (key, value) :: rest => (key ++ ": " ++ text value) :: textFields rest

end

/-! ## Variables -/

mutual

/-- The variables of a literal, each as often as it occurs, from left to right. -/
def variableNames : Literal → List String
  | var name => [name]
  | list items => variableNamesItems items
  | object fields => variableNamesFields fields
  | _ => []

def variableNamesItems : List Literal → List String
  | [] => []
  | item :: rest => variableNames item ++ variableNamesItems rest

def variableNamesFields : List (String × Literal) → List String
  | [] => []
  | (_, value) :: rest => variableNames value ++ variableNamesFields rest

end

def hasVariable (l : Literal) : Bool := !l.variableNames.isEmpty

/-! ## Value -/

mutual

/-- The value of a literal.  A variable stands for its value, or for null when it has none; the name
of an enum value becomes a string. -/
def toJson (values : Json.Fields) : Literal → Json
  | var name => (values.lookup name).getD .null
  | int n => .int n
  | float x => x.toJson
  | str s => .str s
  | bool b => .bool b
  | null => .null
  | enum name => .str name
  | list items => .arr (toJsonItems values items)
  | object fields => .obj (toJsonFields values fields)

def toJsonItems (values : Json.Fields) : List Literal → List Json
  | [] => []
  | item :: rest => toJson values item :: toJsonItems values rest

def toJsonFields (values : Json.Fields) : List (String × Literal) → List (String × Json)
  | [] => []
  | (key, value) :: rest => (key, toJson values value) :: toJsonFields values rest

end

end Literal

end TypedQuery
