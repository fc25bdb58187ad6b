import TypedQuery.Document.Literal
import TypedQuery.Json.Excerpt
import TypedQuery.TypeExpr
/-!
Rejections: a value that a type does not accept, and why.
-/

namespace TypedQuery

/-! ## Scalars -/

/-- Why a scalar does not accept a value. -/
inductive ScalarFault where
  /-- An integer was wanted. -/
  | notInteger
  /-- The integer needs more than 32 bits. -/
  | notInt32
  | notNumeric
  /-- The value has no text to be shown as. -/
  | noText
  | notString
  | notBoolean
  | notId
  /-- A reason of a custom scalar, in its own words. -/
  | stated (message : String)
  deriving DecidableEq, Repr

def ScalarFault.message (value : Json) : ScalarFault → String
  | notInteger => s!"Int cannot represent non-integer value: {value.excerpt}"
  | notInt32 => s!"Int cannot represent non 32-bit signed integer value: {value.excerpt}"
  | notNumeric => s!"Float cannot represent non numeric value: {value.excerpt}"
  | noText => s!"String cannot represent value: {value.excerpt}"
  | notString => s!"String cannot represent a non string value: {value.excerpt}"
  | notBoolean => s!"Boolean cannot represent a non boolean value: {value.excerpt}"
  | notId => s!"ID cannot represent value: {value.excerpt}"
  | stated message => message

/-- What a scalar answers to a value that it does not accept. -/
structure ScalarRejection where
  fault : ScalarFault
  value : Json
  deriving Repr

/-! ## Types -/

/-- Why a type does not accept a value.  A scalar has no say in the other causes. -/
inductive RejectionCause where
  | scalar (fault : ScalarFault)
  /-- The result of a resolver is not among the values of the enum. -/
  | notEnumResult (enum : String)
  /-- The input is not among the values of the enum. -/
  | unknownEnumValue (enum value : String)
  | notEnumName (enum : String)
  | nullForNonNull (type : TypeExpr)
  | notLeafType (type : String)
  | notInputType (type : String)
  | unknownType (type : String)
  /-- A field of list type, given by its coordinate, resolved to something else. -/
  | notList (field : String)
  | missingArgument (argument : String) (type : TypeExpr)
  | nullArgument (argument : String) (type : TypeExpr)
  | invalidArgument (argument : String) (literal : Literal)
  deriving Repr

structure Rejection where
  cause : RejectionCause
  value : Json
  deriving Repr

namespace Rejection

def ofScalar (r : ScalarRejection) : Rejection := { cause := .scalar r.fault, value := r.value }

def message (r : Rejection) : String :=
  match r.cause with
  | .scalar fault => fault.message r.value
  | .notEnumResult enum => s!"Enum \"{enum}\" cannot represent value: {r.value.excerpt}"
  | .unknownEnumValue enum name => s!"Value \"{name}\" does not exist in \"{enum}\" enum."
  | .notEnumName enum => s!"Enum \"{enum}\" cannot represent non-enum value: {r.value.excerpt}."
  | .nullForNonNull type => s!"Expected non-nullable type \"{type.text}\" not to be null."
  | .notLeafType type => s!"Type \"{type}\" is not a leaf type."
  | .notInputType type => s!"Type \"{type}\" is not an input type."
  | .unknownType type => s!"Unknown type \"{type}\"."
  | .notList field => s!"Expected Iterable, but did not find one for field \"{field}\"."
  | .missingArgument name type =>
    s!"Argument \"{name}\" of required type \"{type.text}\" was not provided."
  | .nullArgument name type =>
    s!"Argument \"{name}\" of non-null type \"{type.text}\" must not be null."
  | .invalidArgument name literal => s!"Argument \"{name}\" has invalid value {literal.text}."

end Rejection

end TypedQuery
