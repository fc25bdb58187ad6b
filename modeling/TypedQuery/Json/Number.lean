import TypedQuery.Json.Basic
import TypedQuery.Number.Decimal
/-!
Reads a number from its text.  The spelling decides the kind of a number: an integer that fits 64
bits stays an integer, and a fraction, an exponent or a larger integer makes a float.

A float is made of the leading digits that fit 64 bits, which are rounded to a binary number, and a
power of ten, also rounded, by which that number is multiplied or divided.  Each step rounds, so the
float may miss the one nearest to its text by a little.
-/

namespace TypedQuery
namespace Json

/-- Appends digits to a significand as long as it fits 64 bits.  The second number counts the digits
that are left out. -/
def appendDigits (significand : Nat) : List Char → Nat × Nat
  | [] => (significand, 0)
  | c :: rest =>
    let longer := 10 * significand + Decimal.digitValue c
    if longer < 1 <<< 64 then appendDigits longer rest else (significand, rest.length + 1)

/-- The largest exponent of a power of ten among the finite numbers. -/
def largestPower : Nat := 308

/-- The number nearest to `10 ^ n`. -/
def powerOfTen? (n : Nat) : Option Binary64 := Binary64.nearest? false (Decimal.tenTo n) 1

/-- The number times `10 ^ exponent`.  Zero has no need of the power.  A division by a power beyond
the finite ones is done in several steps, a multiplication by one leads beyond them too. -/
def shift? (x : Binary64) (exponent : Int) : Option Binary64 :=
  if exponent.natAbs ≤ largestPower then do
    let power ← powerOfTen? exponent.natAbs
    if 0 ≤ exponent then x.mul? power else x.div? power
  else if x.isZero then some x
  else if 0 ≤ exponent then none
  else do
    let power ← powerOfTen? largestPower
    let smaller ← x.div? power
    shift? smaller (exponent + largestPower)
termination_by exponent.natAbs
decreasing_by simp only [largestPower] at *; omega

/-- The float that a text spells, or `none` beyond the finite ones. -/
def readFloat? (s : Decimal.Spelling) : Option Binary64 := do
  let (significand, wholeLeft) := appendDigits 0 s.whole
  let (significand, fractionLeft) := appendDigits significand s.fraction
  let x ← Binary64.nearest? s.negative significand 1
  shift? x (s.exponent + wholeLeft + fractionLeft - s.fraction.length)

def isNumberPart (c : Char) : Bool :=
  c.isDigit || c = '-' || c = '+' || c = '.' || c = 'e' || c = 'E'

/-- Digits without a leading zero, apart from zero itself. -/
def isWholePart : List Char → Bool
  | ['0'] => true
  | c :: rest => c ≠ '0' && (c :: rest).all Char.isDigit
  | [] => false

def isFractionPart : List Char → Bool
  | '.' :: rest =>
    (rest.head?.any Char.isDigit) &&
      (match rest.dropWhile Char.isDigit with
        | [] => true
        | c :: _ => c = 'e' || c = 'E')
  | _ => true

def readNumber? (cs : List Char) : Option Json :=
  let (negative, body) :=
    match cs with
    | '-' :: rest => (true, rest)
    | _ => (false, cs)
  let whole := body.takeWhile Char.isDigit
  let rest := body.dropWhile Char.isDigit
  if !isWholePart whole || !isFractionPart rest then none
  else
    let magnitude : Int := Decimal.ofDigits whole
    let n := if negative then -magnitude else magnitude
    if rest.isEmpty && fitsInteger n && !(negative && n = 0) then some (int n)
    else ((Decimal.Spelling.read? cs).bind readFloat?).map float

end Json
end TypedQuery
