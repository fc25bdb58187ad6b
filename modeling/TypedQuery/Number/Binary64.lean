/-!
Finite binary64 numbers as exact integers: a sign, a significand and an exponent.  Every operation
is arithmetic on `Nat` and `Int`, so a statement about a number is a statement about integers.
Results are rounded to the nearest number, and a tie goes to the even significand.
-/

namespace TypedQuery

/-- The finite number `± significand * 2 ^ exponent / 2 ^ 1074`.  Above the least exponent the
significand has all of its 53 bits, so a number other than zero has one form.  Zero has two, because
its sign is kept. -/
structure Binary64 where
  negative : Bool
  significand : Nat
  exponent : Nat
  significand_lt : significand < 1 <<< 53
  exponent_le : exponent ≤ 2045
  normal : exponent = 0 ∨ 1 <<< 52 ≤ significand
  deriving DecidableEq, Repr

namespace Binary64

def zero (negative : Bool) : Binary64 where
  negative := negative
  significand := 0
  exponent := 0
  significand_lt := by decide
  exponent_le := by decide
  normal := .inl rfl

instance : Inhabited Binary64 := ⟨zero false⟩

def isZero (x : Binary64) : Bool := x.significand == 0

/-- Which of two integers a value goes to that lies halfway between them. -/
inductive Tie where
  | toEven
  | up
  deriving DecidableEq, Repr

/-- `num / den` rounded to an integer. -/
def roundQuotient (tie : Tie) (num den : Nat) : Nat :=
  let low := num / den
  let twice := 2 * (num % den)
  if twice < den ∨ (twice = den ∧ tie = .toEven ∧ low % 2 = 0) then low else low + 1

/-- `none` when the parts are those of no finite number. -/
def ofParts? (negative : Bool) (significand exponent : Nat) : Option Binary64 :=
  if h : significand < 1 <<< 53 ∧ exponent ≤ 2045 ∧ (exponent = 0 ∨ 1 <<< 52 ≤ significand) then
    some
      { negative := negative
        significand := significand
        exponent := exponent
        significand_lt := h.1
        exponent_le := h.2.1
        normal := h.2.2 }
  else
    none

/-- The number nearest to `num / den`, or `none` beyond the largest finite one.  The exponent is
the least that leaves 53 bits; rounding up may fill one bit more, which the next exponent takes. -/
def nearest? (negative : Bool) (num den : Nat) : Option Binary64 :=
  let scaled := num <<< 1074
  let exponent := (scaled / den).log2 + 1 - 53
  let significand := roundQuotient .toEven scaled (den <<< exponent)
  if significand = 1 <<< 53 then
    ofParts? negative (1 <<< 52) (exponent + 1)
  else
    ofParts? negative significand exponent

def ofInt? (n : Int) : Option Binary64 := nearest? (n < 0) n.natAbs 1

/-- The magnitude as a numerator over `2 ^ 1074`. -/
def scaled (x : Binary64) : Nat := x.significand <<< x.exponent

/-- The product, or `none` beyond the largest finite number. -/
def mul? (x y : Binary64) : Option Binary64 :=
  nearest? (x.negative != y.negative) (x.scaled * y.scaled) (1 <<< 2148)

/-- The quotient by a number other than zero, or `none` beyond the largest finite number. -/
def div? (x y : Binary64) : Option Binary64 :=
  nearest? (x.negative != y.negative) x.scaled y.scaled

/-- The value, when it is an integer. -/
def toInt? (x : Binary64) : Option Int :=
  let magnitude := x.scaled >>> 1074
  if magnitude <<< 1074 = x.scaled then
    let n : Int := magnitude
    some (if x.negative then -n else n)
  else
    none

end Binary64

end TypedQuery
