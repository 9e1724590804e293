import RelMapper.Text.Integer
namespace RelMapper

inductive StringUnit
  | char (c : Char)
  | unit (n : Nat)

/-- The syntax of a JSON text. Numbers and strings are kept as written, so that a reader may reject
what it cannot use without rejecting what it ignores. -/
inductive Document
  | null
  | bool (b : Bool)
  | number (digits : List Char)
  | string (units : List StringUnit)
  | array (items : List Document)
  | object (members : List (List StringUnit × Document))

namespace Document

/-- The text of a string. Two surrogates are one character, and a lone one is no text. -/
def decode : List StringUnit → Option (List Char)
  | [] => some []
  | .char c :: us => (decode us).map (c :: ·)
  | .unit n :: us =>
    if n < 0xD800 ∨ 0xE000 ≤ n then (decode us).map (Char.ofNat n :: ·)
    else match us with
      | .unit l :: us =>
        if n < 0xDC00 ∧ 0xDC00 ≤ l ∧ l < 0xE000 then
          (decode us).map (Char.ofNat (0x10000 + (n - 0xD800) * 0x400 + (l - 0xDC00)) :: ·)
        else none
      | _ => none

def text? : Document → Option String
  | string units => (decode units).map String.ofList
  | _ => none

def bool? : Document → Option Bool
  | bool b => some b
  | _ => none

def uint64? : Document → Option UInt64
  | number digits =>
    (Text.readNat digits).bind fun n ↦ if n < UInt64.size then some (UInt64.ofNat n) else none
  | _ => none

def isSpace (c : Char) : Bool :=
  c == ' ' || c == '\n' || c == '\t' || c == '\r'

def skipSpace (cs : List Char) : List Char :=
  cs.dropWhile isSpace

def hexValue (c : Char) : Option Nat :=
  if c.isDigit then some (c.toNat - '0'.toNat)
  else if 'a' ≤ c ∧ c ≤ 'f' then some (c.toNat - 'a'.toNat + 10)
  else if 'A' ≤ c ∧ c ≤ 'F' then some (c.toNat - 'A'.toNat + 10)
  else none

def readHex (a b c d : Char) : Option Nat := do
  return (← hexValue a) * 4096 + (← hexValue b) * 256 + (← hexValue c) * 16 + (← hexValue d)

def simpleEscape : Char → Option Char
  | '"' => some '"'
  | '\\' => some '\\'
  | '/' => some '/'
  | 'b' => some '\x08'
  | 'f' => some '\x0c'
  | 'n' => some '\n'
  | 'r' => some '\r'
  | 't' => some '\t'
  | _ => none

def readString : List Char → Option (List StringUnit × List Char)
  | [] => none
  | '"' :: cs => some ([], cs)
  | '\\' :: 'u' :: a :: b :: c :: d :: cs => do
    let n ← readHex a b c d
    let (us, rest) ← readString cs
    return (.unit n :: us, rest)
  | '\\' :: e :: cs => do
    let c ← simpleEscape e
    let (us, rest) ← readString cs
    return (.char c :: us, rest)
  | c :: cs =>
    if c.toNat < 0x20 ∨ c = '\\' then none
    else (readString cs).map fun (us, rest) ↦ (.char c :: us, rest)

def readDigits (cs : List Char) : Option (List Char × List Char) :=
  match cs.takeWhile Char.isDigit with
  | [] => none
  | ds => some (ds, cs.dropWhile Char.isDigit)

def readWhole : List Char → Option (List Char × List Char)
  | '0' :: cs => some (['0'], cs)
  | cs => readDigits cs

def readFraction : List Char → Option (List Char × List Char)
  | '.' :: cs => (readDigits cs).map fun (ds, rest) ↦ ('.' :: ds, rest)
  | cs => some ([], cs)

def readPower : List Char → Option (List Char × List Char)
  | c :: cs =>
    if c = 'e' ∨ c = 'E' then
      let (sign, digits) := match cs with
        | '+' :: r => (['+'], r)
        | '-' :: r => (['-'], r)
        | r => ([], r)
      (readDigits digits).map fun (ds, rest) ↦ (c :: sign ++ ds, rest)
    else some ([], c :: cs)
  | [] => some ([], [])

def readNumber (cs : List Char) : Option (List Char × List Char) := do
  let (sign, cs) := match cs with
    | '-' :: r => (['-'], r)
    | r => ([], r)
  let (whole, cs) ← readWhole cs
  let (places, cs) ← readFraction cs
  let (power, cs) ← readPower cs
  return (sign ++ whole ++ places ++ power, cs)

mutual

/-- Reads a value. Of the fuel one unit is spent on every nested value and on every step along a
list, so that twice the length of the text is enough. -/
def readValue : Nat → List Char → Option (Document × List Char)
  | 0, _ => none
  | fuel + 1, cs =>
    match skipSpace cs with
    | 'n' :: 'u' :: 'l' :: 'l' :: rest => some (null, rest)
    | 't' :: 'r' :: 'u' :: 'e' :: rest => some (bool true, rest)
    | 'f' :: 'a' :: 'l' :: 's' :: 'e' :: rest => some (bool false, rest)
    | '"' :: rest => (readString rest).map fun (us, rest) ↦ (string us, rest)
    | '[' :: rest =>
      match skipSpace rest with
      | ']' :: rest => some (array [], rest)
      | rest => (readItems fuel rest).map fun (items, rest) ↦ (array items, rest)
    | '\x7b' :: rest =>
      match skipSpace rest with
      | '\x7d' :: rest => some (object [], rest)
      | rest => (readMembers fuel rest).map fun (members, rest) ↦ (object members, rest)
    | rest => (readNumber rest).map fun (digits, rest) ↦ (number digits, rest)

def readItems : Nat → List Char → Option (List Document × List Char)
  | 0, _ => none
  | fuel + 1, cs => do
    let (item, rest) ← readValue fuel cs
    match skipSpace rest with
    | ',' :: rest =>
      let (items, rest) ← readItems fuel rest
      return (item :: items, rest)
    | ']' :: rest => return ([item], rest)
    | _ => none

def readMembers : Nat → List Char → Option (List (List StringUnit × Document) × List Char)
  | 0, _ => none
  | fuel + 1, cs => do
    let (key, rest) ← readKey (skipSpace cs)
    let (value, rest) ← readValue fuel rest
    match skipSpace rest with
    | ',' :: rest =>
      let (members, rest) ← readMembers fuel rest
      return ((key, value) :: members, rest)
    | '\x7d' :: rest => return ([(key, value)], rest)
    | _ => none

def readKey : List Char → Option (List StringUnit × List Char)
  | '"' :: cs => do
    let (key, rest) ← readString cs
    match skipSpace rest with
    | ':' :: rest => return (key, rest)
    | _ => none
  | _ => none

end

def read? (s : String) : Option Document := do
  let cs := s.toList
  let (value, rest) ← readValue (2 * cs.length + 2) cs
  if (skipSpace rest).isEmpty then some value else none

end Document

end RelMapper
