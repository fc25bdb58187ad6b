import TypedQuery.Schema.Definition
import TypedQuery.Text.Blank
/-!
The scalars that every schema starts with.  Results are coerced with more tolerance than inputs, and
what one of them makes of a result it accepts as an input unchanged.
-/

namespace TypedQuery
namespace BuiltIn

def reject (fault : ScalarFault) (value : Json) : Except ScalarRejection Json :=
  .error { fault := fault, value := value }

/-- The number that a text spells when blanks around it are trimmed. -/
def numericText? (text : String) : Option Binary64 :=
  (Decimal.read? (Text.trim text.toList)).bind Decimal.toBinary?

def fitsInt32 (n : Int) : Bool := -2147483648 ≤ n && n ≤ 2147483647

/-- Accepts an integer that fits 32 bits; `value` is what is rejected otherwise. -/
def int32 (value : Json) (n : Int) : Except ScalarRejection Json :=
  if fitsInt32 n then .ok (.int n) else reject .notInt32 value

/-- Accepts a number whose value is an integer that fits 32 bits. -/
def wholeInt32 (value : Json) (x : Binary64) : Except ScalarRejection Json :=
  match x.toInt? with
  | some n => int32 value n
  | none => reject .notInteger value

def parseInt : Json → Except ScalarRejection Json
  | .int n => int32 (.int n) n
  | .float x => wholeInt32 (.float x) x
  | value => reject .notInteger value

def serializeInt : Json → Except ScalarRejection Json
  | .bool b => .ok (.int (if b then 1 else 0))
  | .str text =>
    match numericText? text with
    | some x => wholeInt32 (.str text) x
    | none => reject .notInteger (.str text)
  | value => parseInt value

def parseFloat : Json → Except ScalarRejection Json
  | .int n => .ok (.int n)
  | .float x => .ok (.float x)
  | value => reject .notNumeric value

def serializeFloat : Json → Except ScalarRejection Json
  | .bool b => .ok (.int (if b then 1 else 0))
  | .str text =>
    match numericText? text with
    | some x => .ok (.float x)
    | none => reject .notNumeric (.str text)
  | value => parseFloat value

def parseString : Json → Except ScalarRejection Json
  | .str text => .ok (.str text)
  | value => reject .notString value

def serializeString : Json → Except ScalarRejection Json
  | .str text => .ok (.str text)
  | .bool b => .ok (.str (if b then "true" else "false"))
  | .int n => .ok (.str (toString n))
  | .float x => .ok (.str x.compactText)
  | value => reject .noText value

def parseBoolean : Json → Except ScalarRejection Json
  | .bool b => .ok (.bool b)
  | value => reject .notBoolean value

/-- A number stands for whether it differs from zero. -/
def serializeBoolean : Json → Except ScalarRejection Json
  | .int n => .ok (.bool (n ≠ 0))
  | .float x => .ok (.bool !x.isZero)
  | value => parseBoolean value

/-- Results and inputs are coerced alike: strings stay, and integers become strings. -/
def coerceId : Json → Except ScalarRejection Json
  | .str text => .ok (.str text)
  | .int n => .ok (.str (toString n))
  | value => reject .notId value

def scalars : List ScalarDef :=
  [{ name := "Int"
     description := some "Built-in Int scalar"
     serialize := serializeInt
     parse := parseInt },
   { name := "Float"
     description := some "Built-in Float scalar"
     serialize := serializeFloat
     parse := parseFloat },
   { name := "String"
     description := some "Built-in String scalar"
     serialize := serializeString
     parse := parseString },
   { name := "Boolean"
     description := some "Built-in Boolean scalar"
     serialize := serializeBoolean
     parse := parseBoolean },
   { name := "ID"
     description := some "Built-in ID scalar"
     serialize := coerceId
     parse := coerceId }]

def names : List String := ["Int", "Float", "String", "Boolean", "ID"]

def isName (name : String) : Bool := names.contains name

end BuiltIn
end TypedQuery
