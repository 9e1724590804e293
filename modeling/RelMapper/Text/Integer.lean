namespace RelMapper.Text

def digitValue (c : Char) : Nat :=
  c.toNat - '0'.toNat

def ofDigits (cs : List Char) : Nat :=
  cs.foldl (fun n c ↦ 10 * n + digitValue c) 0

def readNat (cs : List Char) : Option Nat :=
  if cs ≠ [] ∧ cs.all Char.isDigit then some (ofDigits cs) else none

def splitSign : List Char → Bool × List Char
  | '-' :: cs => (true, cs)
  | '+' :: cs => (false, cs)
  | cs => (false, cs)

def readInt (cs : List Char) : Option Int :=
  let (negative, digits) := splitSign cs
  (readNat digits).map fun n ↦ if negative then -(n : Int) else n

/-- An optional sign and digits whose number fits 64 bits. -/
def readInt64 (s : String) : Option Int64 :=
  (readInt s.toList).bind fun n ↦
    if Int64.minValue.toInt ≤ n ∧ n ≤ Int64.maxValue.toInt then some (Int64.ofInt n) else none

end RelMapper.Text
