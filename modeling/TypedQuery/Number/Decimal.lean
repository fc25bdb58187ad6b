import TypedQuery.Number.Binary64
/-!
Decimal numbers `± digits * 10 ^ exponent`: how they are read, how they are written, and the way
to and from `Binary64`.  A binary number is written with the fewest digits that name it: no other
binary number is as near to them.
-/

namespace TypedQuery

structure Decimal where
  negative : Bool
  digits : Nat
  exponent : Int
  deriving DecidableEq, Repr

namespace Decimal

/-! ## Reading -/

def digitValue (c : Char) : Nat := c.toNat - '0'.toNat

def ofDigits (ds : List Char) : Nat := ds.foldl (fun n c => 10 * n + digitValue c) 0

/-- A leading sign, if there is one, and the rest.  The flag is set by a minus. -/
def splitSign : List Char → Bool × List Char
  | '-' :: rest => (true, rest)
  | '+' :: rest => (false, rest)
  | cs => (false, cs)

/-- An exponent without its letter: an optional sign and at least one digit. -/
def readExponent? (cs : List Char) : Option Int :=
  let (negative, ds) := splitSign cs
  if ds.isEmpty ∨ !ds.all Char.isDigit then none
  else
    let n : Int := ofDigits ds
    some (if negative then -n else n)

/-- The parts of the text of a number: its sign, the digits on either side of the point, and its
exponent. -/
structure Spelling where
  negative : Bool
  whole : List Char
  fraction : List Char
  exponent : Int
  deriving Repr

/-- Reads an optional sign, digits with an optional point and at least one digit on either side of
it, and an optional exponent.  The whole text must be used. -/
def Spelling.read? (cs : List Char) : Option Spelling :=
  let (negative, body) := splitSign cs
  let whole := body.takeWhile Char.isDigit
  let (fraction, rest) :=
    match body.dropWhile Char.isDigit with
    | '.' :: tail => (tail.takeWhile Char.isDigit, tail.dropWhile Char.isDigit)
    | tail => ([], tail)
  let exponent? :=
    match rest with
    | [] => some 0
    | c :: tail => if c = 'e' ∨ c = 'E' then readExponent? tail else none
  if whole.isEmpty ∧ fraction.isEmpty then none
  else exponent?.map fun exponent => { negative, whole, fraction, exponent }

def ofSpelling (s : Spelling) : Decimal where
  negative := s.negative
  digits := ofDigits (s.whole ++ s.fraction)
  exponent := s.exponent - s.fraction.length

/-- The number that a text spells. -/
def read? (cs : List Char) : Option Decimal := (Spelling.read? cs).map ofSpelling

/-! ## Binary numbers -/

/-- The power `10 ^ n`. -/
def tenTo (n : Nat) : Nat := Nat.pow 10 n

def digitCount (n : Nat) : Nat := (Nat.toDigits 10 n).length

/-- The binary number nearest to a decimal, or `none` beyond the finite ones.  An exponent far
outside their range decides the answer alone, so no large power is computed for it. -/
def toBinary? (d : Decimal) : Option Binary64 :=
  let lead := d.exponent + digitCount d.digits
  if d.digits = 0 ∨ lead < -330 then some (Binary64.zero d.negative)
  else if 330 < lead then none
  else if 0 ≤ d.exponent then Binary64.nearest? d.negative (d.digits * tenTo d.exponent.toNat) 1
  else Binary64.nearest? d.negative d.digits (tenTo (-d.exponent).toNat)

/-- Moves up to `count` trailing zeros of the digits into the exponent. -/
def strip : Nat → Decimal → Decimal
  | 0, d => d
  | count + 1, d =>
    if d.digits ≠ 0 ∧ d.digits % 10 = 0 then
      strip count { d with digits := d.digits / 10, exponent := d.exponent + 1 }
    else d

end Decimal

namespace Binary64

/-- The decimal exponent of the first digit of `num / den`, for positive `num` and `den`. -/
def leadingExponent (num den : Nat) : Int :=
  if den ≤ num then (Decimal.digitCount (num / den) : Int) - 1
  else -(Decimal.digitCount ((den + num - 1) / num - 1) : Int)

/-- The reals that round to a number, as numerators over `2 ^ 1076`: the number itself and the two
ends, which are halfway to its neighbours.  Below a power of two the neighbour is nearer.  The ends
belong to the number exactly when its significand is even. -/
structure Interval where
  low : Nat
  value : Nat
  high : Nat
  closed : Bool

def interval (x : Binary64) : Interval where
  low :=
    let gap := if x.significand = 1 <<< 52 ∧ x.exponent ≠ 0 then 1 else 2
    (4 * x.significand - gap) <<< x.exponent
  value := (4 * x.significand) <<< x.exponent
  high := (4 * x.significand + 2) <<< x.exponent
  closed := x.significand % 2 = 0

namespace Interval

def contains (i : Interval) (num den : Nat) : Bool :=
  let scaled := num <<< 1076
  if i.closed then i.low * den ≤ scaled && scaled ≤ i.high * den
  else i.low * den < scaled && scaled < i.high * den

/-- The multiple of `10 ^ exponent` that lies in the interval, if there is one: of the value's two
neighbours on that grid the nearer, and of two that are equally near the one that `tie` names. -/
def onGrid? (tie : Tie) (i : Interval) (exponent : Int) : Option Nat :=
  let up := Decimal.tenTo exponent.toNat
  let down := Decimal.tenTo (-exponent).toNat
  let num := i.value * down
  let den := up <<< 1076
  let low := num / den
  let lowIn := i.contains (low * up) down
  let highIn := i.contains ((low + 1) * up) down
  match lowIn, highIn with
  | true, true => some (roundQuotient tie num den)
  | true, false => some low
  | false, true => some (low + 1)
  | false, false => none

end Interval

/-- The fewest decimal digits that name the number, and of those the nearest.  Seventeen digits are
always enough. -/
def shortest (tie : Tie) (x : Binary64) : Decimal :=
  if x.isZero then { negative := x.negative, digits := 0, exponent := 0 }
  else
    let i := x.interval
    let lead := leadingExponent i.value (1 <<< 1076)
    let attempt (n : Nat) : Option Decimal :=
      (i.onGrid? tie (lead - n)).map fun digits =>
        { negative := x.negative, digits := digits, exponent := lead - n }
    match (List.range 17).findSome? attempt with
    | some d => d.strip 17
    | none => { negative := x.negative, digits := 0, exponent := 0 }

end Binary64

namespace Decimal

/-! ## Writing -/

def zeros (n : Nat) : List Char := List.replicate n '0'

def signText (d : Decimal) : List Char := if d.negative then ['-'] else []

/-- The digits with the point put in its place and no exponent.  An integer has no point. -/
def positional (d : Decimal) : List Char :=
  let ds := Nat.toDigits 10 d.digits
  if d.digits = 0 then ds
  else if 0 ≤ d.exponent then ds ++ zeros d.exponent.toNat
  else
    let places := (-d.exponent).toNat
    if places < ds.length then
      ds.take (ds.length - places) ++ '.' :: ds.drop (ds.length - places)
    else
      '0' :: '.' :: zeros (places - ds.length) ++ ds

/-- One digit, the others behind a point, and the exponent with its sign. -/
def scientific (d : Decimal) : List Char :=
  let ds := Nat.toDigits 10 d.digits
  let lead := d.exponent + ds.length - 1
  let mantissa :=
    match ds with
    | c :: c' :: rest => c :: '.' :: c' :: rest
    | one => one
  mantissa ++ 'e' :: (if lead < 0 then '-' else '+') :: Nat.toDigits 10 lead.natAbs

end Decimal

namespace Binary64

/-- Positional throughout.  Of two equally near spellings the one farther from zero is chosen. -/
def plainText (x : Binary64) : String :=
  let d := x.shortest .up
  String.ofList (d.signText ++ d.positional)

/-- Positional while the first digit stands between `10 ^ -5` and `10 ^ 15`, and then always with a
fraction; scientific elsewhere.  Of two equally near spellings the one with an even last digit is
chosen. -/
def compactText (x : Binary64) : String :=
  let d := x.shortest .toEven
  let lead := d.exponent + Decimal.digitCount d.digits - 1
  let body :=
    if d.digits = 0 ∨ (-5 ≤ lead ∧ lead ≤ 15) then
      if d.digits = 0 ∨ 0 ≤ d.exponent then d.positional ++ ['.', '0'] else d.positional
    else d.scientific
  String.ofList (d.signText ++ body)

end Binary64

end TypedQuery
