import TypedQuery.Json.Number
/-!
Reads a value from its text.
-/

namespace TypedQuery
namespace Json

def isSpace (c : Char) : Bool := c = ' ' || c = '\t' || c = '\n' || c = '\r'

def hexValue? (c : Char) : Option Nat :=
  if c.isDigit then some (c.toNat - '0'.toNat)
  else if 'a' ≤ c ∧ c ≤ 'f' then some (c.toNat - 'a'.toNat + 10)
  else if 'A' ≤ c ∧ c ≤ 'F' then some (c.toNat - 'A'.toNat + 10)
  else none

def hexNumber? (cs : List Char) : Option Nat :=
  cs.foldlM (fun n c => (hexValue? c).map (16 * n + ·)) 0

/-- The character of one escaped unit, which must not be half of a pair. -/
def unitChar? (unit : Nat) : Option Char :=
  if unit < 0xD800 ∨ (0xDFFF < unit ∧ unit < 0x110000) then some (Char.ofNat unit) else none

/-- The character that two escaped units make together. -/
def pairChar? (high low : Nat) : Option Char :=
  if 0xD800 ≤ high ∧ high < 0xDC00 ∧ 0xDC00 ≤ low ∧ low < 0xE000 then
    some (Char.ofNat (0x10000 + (high - 0xD800) * 0x400 + (low - 0xDC00)))
  else none

def shortEscape? : Char → Option Char
  | '"' => some '"'
  | '\\' => some '\\'
  | '/' => some '/'
  | 'b' => some '\x08'
  | 'f' => some '\x0c'
  | 'n' => some '\n'
  | 'r' => some '\r'
  | 't' => some '\t'
  | _ => none

/-- Reads behind the opening quote, up to the closing one.  `done` holds what was read, reversed. -/
def readString? (done : List Char) : List Char → Option (String × List Char)
  | '"' :: rest => some (String.ofList done.reverse, rest)
  | '\\' :: 'u' :: a :: b :: c :: d :: '\\' :: 'u' :: e :: f :: g :: h :: rest => do
    let first ← hexNumber? [a, b, c, d]
    match unitChar? first with
    | some char => readString? (char :: done) ('\\' :: 'u' :: e :: f :: g :: h :: rest)
    | none =>
      let second ← hexNumber? [e, f, g, h]
      let char ← pairChar? first second
      readString? (char :: done) rest
  | '\\' :: 'u' :: a :: b :: c :: d :: rest => do
    let char ← unitChar? (← hexNumber? [a, b, c, d])
    readString? (char :: done) rest
  | '\\' :: c :: rest => do
    let char ← shortEscape? c
    readString? (char :: done) rest
  | c :: rest => if c.toNat < 0x20 then none else readString? (c :: done) rest
  | [] => none

mutual

/-- Reads one value; each step uses up one unit of `fuel`. -/
def readValue? : Nat → List Char → Option (Json × List Char)
  | 0, _ => none
  | fuel + 1, cs =>
    match cs.dropWhile isSpace with
    | 'n' :: 'u' :: 'l' :: 'l' :: rest => some (null, rest)
    | 't' :: 'r' :: 'u' :: 'e' :: rest => some (bool true, rest)
    | 'f' :: 'a' :: 'l' :: 's' :: 'e' :: rest => some (bool false, rest)
    | '"' :: rest => (readString? [] rest).map fun (text, rest) => (str text, rest)
    | '[' :: rest =>
      match rest.dropWhile isSpace with
      | ']' :: rest => some (arr [], rest)
      | rest => (readItems? fuel rest).map fun (items, rest) => (arr items, rest)
    | '\x7b' :: rest =>
      match rest.dropWhile isSpace with
      | '\x7d' :: rest => some (obj [], rest)
      | rest => (readFields? fuel rest).map fun (fields, rest) => (obj (Keyed.ofList fields), rest)
    | cs =>
      (readNumber? (cs.takeWhile isNumberPart)).map fun value => (value, cs.dropWhile isNumberPart)

/-- Reads the items of an array through its closing bracket. -/
def readItems? : Nat → List Char → Option (List Json × List Char)
  | 0, _ => none
  | fuel + 1, cs => do
    let (item, rest) ← readValue? fuel cs
    match rest.dropWhile isSpace with
    | ',' :: rest =>
      let (items, rest) ← readItems? fuel rest
      some (item :: items, rest)
    | ']' :: rest => some ([item], rest)
    | _ => none

/-- Reads the fields of an object through its closing brace. -/
def readFields? : Nat → List Char → Option (List (String × Json) × List Char)
  | 0, _ => none
  | fuel + 1, cs => do
    match cs.dropWhile isSpace with
    | '"' :: rest =>
      let (key, rest) ← readString? [] rest
      match rest.dropWhile isSpace with
      | ':' :: rest =>
        let (value, rest) ← readValue? fuel rest
        match rest.dropWhile isSpace with
        | ',' :: rest =>
          let (fields, rest) ← readFields? fuel rest
          some ((key, value) :: fields, rest)
        | '\x7d' :: rest => some ([(key, value)], rest)
        | _ => none
      | _ => none
    | _ => none

end

/-- The value that a text spells, if it spells exactly one.  A container and its first member start
one character apart and each takes a step, so twice the length is fuel enough. -/
def ofText? (text : String) : Option Json :=
  let cs := text.toList
  match readValue? (2 * cs.length + 2) cs with
  | some (value, rest) => if rest.all isSpace then some value else none
  | none => none

end Json
end TypedQuery
