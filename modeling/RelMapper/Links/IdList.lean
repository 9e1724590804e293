import RelMapper.Fault
import RelMapper.Text.DecimalDigit
namespace RelMapper.IdList

open Text

def isQuote (c : Char) : Bool :=
  c == '\'' || c == '"'

def isBare (c : Char) : Bool :=
  !isBlank c && !isQuote c && c != ',' && c != '[' && c != ']'

/-- The length of the id that starts a text, or zero if none starts there. Digits, with a minus or
without, end where the digits end; quoted text ends at the same quote; and other text ends before a
blank, a comma, a bracket or a quote. -/
def tokenLength : List Char → Nat
  | [] => 0
  | c :: cs =>
    if isDecimalDigit c ∨ (c = '-' ∧ (cs.head?.any isDecimalDigit)) then
      1 + (cs.takeWhile isDecimalDigit).length
    else if isQuote c then
      if cs.contains c then 2 + (cs.takeWhile (· != c)).length else 0
    else ((c :: cs).takeWhile isBare).length

def tokensFrom : Nat → List Char → List (List Char)
  | _, [] => []
  | n + 1, _ :: cs => tokensFrom n cs
  | 0, c :: cs =>
    match tokenLength (c :: cs) with
    | 0 => tokensFrom 0 cs
    | n + 1 => (c :: cs).take (n + 1) :: tokensFrom n cs

def tokens (cs : List Char) : List (List Char) :=
  tokensFrom 0 cs

/-- A token that reads as an integer is one, and any other is text without the quotes around it. -/
def ofToken (t : List Char) : Value :=
  match readInt64 (String.ofList t) with
  | some n => .bigInt n
  | none => .text (String.ofList (strip isQuote t))

def read : Value → Except Fault (List Value)
  | .null => .ok []
  | .array items => .ok items
  | .int n => .ok [.int n]
  | .bigInt n => .ok [.bigInt n]
  | .text s => .ok ((tokens s.toList).map ofToken)
  | v => .error (.ofMisuse (.unreadableIdList v.typeName))

end RelMapper.IdList
