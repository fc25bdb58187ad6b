import TypedQuery.Document.Literal
import TypedQuery.Json.Reading
import TypedQuery.Location
import TypedQuery.Text.Hidden
/-!
Tokens of a query text, each with the position of its first character.  Spaces, commas, line ends
and comments stand between tokens and mean nothing.
-/

namespace TypedQuery

/-- Why a text spells no document. -/
inductive TextFault where
  | malformed
  /-- The common indent of a block is a number of bytes, and in one of its lines it ends inside the
  character that begins at byte `start`. -/
  | splitCharacter (indent : Nat) (char : Char) (start : Nat)
  deriving DecidableEq, Repr

def TextFault.message : TextFault → String
  | malformed => "malformed document"
  | splitCharacter indent char start =>
    s!"start byte index {indent} is not a char boundary; it is inside '" ++
      String.ofList (Text.shown char) ++ s!"' (bytes {start}..{start + char.utf8Size} of string)"

inductive Token where
  | punctuator (mark : Char)
  | ellipsis
  | name (text : String)
  | int (value : Int)
  | float (value : FloatLiteral)
  | str (text : String)
  /-- A block of text as it stands between its quotes. -/
  | block (inside : String)
  /-- No token begins here. -/
  | invalid
  deriving DecidableEq, Repr

structure Lexeme where
  location : Location
  token : Token
  deriving DecidableEq, Repr

namespace Token

/-! ## Numbers -/

/-- The characters that end a number. -/
def endsNumber (c : Char) : Bool := " \n\r\t,#!$:=@|&()[]\x7b\x7d".toList.contains c

/-- An optional minus and digits without a leading zero, apart from zero itself. -/
def isWhole (cs : List Char) : Bool :=
  Json.isWholePart (match cs with
    | '-' :: rest => rest
    | _ => cs)

def isFraction (cs : List Char) : Bool := !cs.isEmpty && cs.all Char.isDigit

/-- The first character of an exponent is a sign or a digit between one and eight, and digits follow
it. -/
def isExponent : List Char → Bool
  | c :: rest => (c = '-' || c = '+' || ('1' ≤ c && c ≤ '8')) && rest.all Char.isDigit
  | [] => false

/-- Splits at the last occurrence of a character in `marks`, which is dropped. -/
def splitLast? (marks : List Char) (cs : List Char) : Option (List Char × List Char) :=
  let back := cs.reverse
  let tail := back.takeWhile fun c => !marks.contains c
  match back.dropWhile fun c => !marks.contains c with
  | [] => none
  | _ :: before => some (before.reverse, tail.reverse)

/-- The parts of a float are cut at its last point and its last exponent letter.  A point behind
that letter is left in the exponent, which no digits then make good. -/
def isFloat (cs : List Char) : Bool :=
  let decimal (cs : List Char) : Bool :=
    match splitLast? ['.'] cs with
    | some (whole, fraction) => isWhole whole && isFraction fraction
    | none => isWhole cs
  match splitLast? ['e', 'E'] cs with
  | some (number, exponent) => decimal number && isExponent exponent
  | none => decimal cs

def fitsInt (n : Int) : Bool := -9223372036854775808 ≤ n && n ≤ 9223372036854775807

def number? (cs : List Char) : Option Token :=
  if cs.any fun c => c = '.' || c = 'e' || c = 'E' then
    if isFloat cs then
      (Decimal.read? cs).map fun d =>
        match d.toBinary? with
        | some x => float (.finite x)
        | none => float (.infinite d.negative)
    else none
  else if isWhole cs then
    let (negative, digits) := Decimal.splitSign cs
    let magnitude : Int := Decimal.ofDigits digits
    let n := if negative then -magnitude else magnitude
    if fitsInt n then some (int n) else none
  else none

/-! ## Strings -/

/-- The text up to the closing quote, and the rest behind it.  A backslash takes the character that
follows it along, and a line must not end inside. -/
def cutString? : List Char → Option (List Char × List Char)
  | '"' :: rest => some ([], rest)
  | '\\' :: c :: rest =>
    if c = '\n' then none
    else (cutString? rest).map fun (inside, rest) => ('\\' :: c :: inside, rest)
  | c :: rest =>
    if c = '\n' then none else (cutString? rest).map fun (inside, rest) => (c :: inside, rest)
  | [] => none

/-- Four characters read as a hexadecimal number, which may have a plus in front. -/
def unit? (a b c d : Char) : Option Char :=
  (Json.hexNumber? (if a = '+' then [b, c, d] else [a, b, c, d])).bind Json.unitChar?

def escaped? : Char → Option Char
  | '"' => some '"'
  | '\\' => some '\\'
  | '/' => some '/'
  | 'b' => some '\x10'
  | 'f' => some '\x0c'
  | 'n' => some '\n'
  | 'r' => some '\r'
  | 't' => some '\t'
  | _ => none

def unescape? : List Char → Option (List Char)
  | [] => some []
  | '\\' :: 'u' :: a :: b :: c :: d :: rest => do return (← unit? a b c d) :: (← unescape? rest)
  | '\\' :: c :: rest => do return (← escaped? c) :: (← unescape? rest)
  | c :: rest => do return c :: (← unescape? rest)

/-- The text up to the three quotes that close a block.  Three quotes behind a backslash belong to
the text. -/
def cutBlock? (previous : Char) : List Char → Option (List Char × List Char)
  | '"' :: '"' :: '"' :: rest =>
    if previous = '\\' then
      (cutBlock? '"' rest).map fun (inside, rest) => ('"' :: '"' :: '"' :: inside, rest)
    else some ([], rest)
  | c :: rest => (cutBlock? c rest).map fun (inside, rest) => (c :: inside, rest)
  | [] => none

def byteLength (cs : List Char) : Nat := cs.foldr (fun c n => c.utf8Size + n) 0

def isBlankLine (line : List Char) : Bool := line.all Text.isBlank

/-- The least indent of the lines that are not blank, in bytes. -/
def commonIndent? (lines : List (List Char)) : Option Nat :=
  ((lines.filter fun line => !isBlankLine line).map fun line =>
    byteLength (line.takeWhile Text.isBlank)).min?

/-- Drops the first `indent` bytes of a line of which `start` bytes are gone already. -/
def dropIndent (indent start : Nat) : List Char → Except TextFault (List Char)
  | [] => .ok []
  | c :: rest =>
    if indent ≤ start then .ok (c :: rest)
    else if indent < start + c.utf8Size then .error (.splitCharacter indent c start)
    else dropIndent indent (start + c.utf8Size) rest

/-- A line that is shorter than the indent keeps what it has. -/
def dedent (indent? : Option Nat) (line : List Char) : Except TextFault (List Char) :=
  match indent? with
  | some indent => if indent ≤ byteLength line then dropIndent indent 0 line else .ok line
  | none => .ok line

def unescapeBlock : List Char → List Char
  | '\\' :: '"' :: '"' :: '"' :: rest => '"' :: '"' :: '"' :: unescapeBlock rest
  | c :: rest => c :: unescapeBlock rest
  | [] => []

/-- The lines of a block from the first that is not blank to the last, each with the indent that it
is to lose.  That is the one that the lines but the first share. -/
def blockLines (inside : List Char) : List (Option Nat × List Char) :=
  let all :=
    match Text.lines inside with
    | [] => []
    | first :: rest => (none, first) :: rest.map fun line => (commonIndent? rest, line)
  let isBlank (line : Option Nat × List Char) : Bool := isBlankLine line.2
  ((all.dropWhile isBlank).reverse.dropWhile isBlank).reverse

/-- The text of a block. -/
def blockText (inside : String) : Except TextFault String := do
  let lines ← (blockLines inside.toList).mapM fun (indent?, line) => dedent indent? line
  return String.ofList (['\n'].intercalate (lines.map unescapeBlock))

/-! ## Scanning -/

def startsName (c : Char) : Bool := c = '_' || c.isAlpha

def continuesName (c : Char) : Bool := startsName c || c.isDigit

def isOpening (c : Char) : Bool := c = '(' || c = '[' || c = '\x7b'

def isClosing (c : Char) : Bool := c = ')' || c = ']' || c = '\x7d'

def isMark (c : Char) : Bool :=
  isOpening c || isClosing c || "!$:=@|&".toList.contains c

/-- This many brackets may be open at once. -/
def bracketLimit : Nat := 50

def isLineEnd (c : Char) : Bool := c = '\n' || c = '\r'

/-- Scans from a position on, with `free` brackets still to be opened, up to the end of the text or
to what is no token.  Each step uses up one unit of `fuel` and one character at least. -/
def scan : Nat → Location → Nat → List Char → List Lexeme
  | 0, at_, _, _ => [⟨at_, invalid⟩]
  | _ + 1, _, _, [] => []
  | fuel + 1, at_, free, c :: rest =>
    if c = ' ' ∨ c = ',' then scan fuel (at_.right 1) free rest
    else if c = '\t' then scan fuel (at_.right 8) free rest
    else if c = '\n' then scan fuel at_.nextLine free rest
    else if c = '\r' ∨ c = '\uFEFF' then scan fuel at_ free rest
    else if c = '#' then
      scan fuel at_.nextLine free ((rest.dropWhile fun c => !isLineEnd c).drop 1)
    else if isOpening c then
      match free with
      | 0 => [⟨at_, invalid⟩]
      | free + 1 => ⟨at_, punctuator c⟩ :: scan fuel (at_.right 1) free rest
    else if isClosing c then
      ⟨at_, punctuator c⟩ :: scan fuel (at_.right 1) (free + 1) rest
    else if isMark c then
      ⟨at_, punctuator c⟩ :: scan fuel (at_.right 1) free rest
    else if c = '.' then
      match rest with
      | '.' :: '.' :: rest => ⟨at_, ellipsis⟩ :: scan fuel (at_.right 3) free rest
      | _ => [⟨at_, invalid⟩]
    else if startsName c then
      let word := c :: rest.takeWhile continuesName
      let rest := rest.dropWhile continuesName
      ⟨at_, name (String.ofList word)⟩ :: scan fuel (at_.right word.length) free rest
    else if c = '-' ∨ c.isDigit then
      let digits := c :: rest.takeWhile fun c => !endsNumber c
      let rest := rest.dropWhile fun c => !endsNumber c
      match number? digits with
      | some token => ⟨at_, token⟩ :: scan fuel (at_.right digits.length) free rest
      | none => [⟨at_, invalid⟩]
    else if c = '"' then
      match rest with
      | '"' :: '"' :: rest =>
        match cutBlock? '"' rest with
        | some (inside, rest) =>
          let behind := (at_.right 3 |>.after inside).right 3
          ⟨at_, block (String.ofList inside)⟩ :: scan fuel behind free rest
        | none => [⟨at_, invalid⟩]
      | rest =>
        match cutString? rest with
        | some (inside, rest) =>
          match unescape? inside with
          | some text =>
            ⟨at_, str (String.ofList text)⟩ :: scan fuel (at_.right (inside.length + 2)) free rest
          | none => [⟨at_, invalid⟩]
        | none => [⟨at_, invalid⟩]
    else [⟨at_, invalid⟩]

def scanText (text : String) : List Lexeme :=
  let cs := text.toList
  scan (cs.length + 1) Location.start bracketLimit cs

end Token

end TypedQuery
