import RelMapper.Double.Basic
namespace RelMapper.Double

/-- A positive double together with the reals that round to it, all over one denominator. The
bounds themselves belong to it when the significand is even. -/
structure Neighbourhood where
  value : Nat
  low : Nat
  high : Nat
  den : Nat
  closed : Bool

/-- The spacing of doubles halves below a power of two, so there the lower bound is nearer. -/
def neighbourhood (x : Double) : Neighbourhood :=
  let unit := Nat.pow 2 (x.scale - 2).toNat
  let below := if x.fraction = 0 ∧ 1 < x.exponentField then 1 else 2
  { value := 4 * x.significand * unit
    low := (4 * x.significand - below) * unit
    high := (4 * x.significand + 2) * unit
    den := Nat.pow 2 (2 - x.scale).toNat
    closed := x.significand % 2 == 0 }

namespace Neighbourhood

def contains (i : Neighbourhood) (k : Int) (c : Nat) : Bool :=
  let point := c * Nat.pow 10 k.toNat * i.den
  let shift := Nat.pow 10 (-k).toNat
  if i.closed then i.low * shift ≤ point && point ≤ i.high * shift
  else i.low * shift < point && point < i.high * shift

/-- The multiple of `10 ^ k` that rounds to the double, if any. Of two the nearer is taken, and of
two equally near the larger. -/
def onGrid (i : Neighbourhood) (k : Int) : Option Nat :=
  let num := i.value * Nat.pow 10 (-k).toNat
  let den := i.den * Nat.pow 10 k.toNat
  let c := num / den
  match i.contains k c, i.contains k (c + 1) with
  | true, true => some (if 2 * (num % den) < den then c else c + 1)
  | true, false => some c
  | false, true => some (c + 1)
  | false, false => none

def search (i : Neighbourhood) : Nat → Int → Nat × Int
  | 0, k => (i.value * Nat.pow 10 (-k).toNat / (i.den * Nat.pow 10 k.toNat), k)
  | n + 1, k =>
    match i.onGrid k with
    | some c => (c, k)
    | none => i.search n (k - 1)

end Neighbourhood

def leastShift (num den : Nat) : Nat → Nat → Nat
  | 0, start => start
  | fuel + 1, start =>
    if den ≤ num * Nat.pow 10 start then start else leastShift num den fuel (start + 1)

def decimalPoint (num den : Nat) : Int :=
  if den ≤ num then (Nat.toDigits 10 (num / den)).length
  else 1 - (leastShift num den (Nat.toDigits 10 den).length 1 : Int)

/-- The fewest digits that read back, and the power of ten that they count. Seventeen digits always
read back. -/
def shortest (x : Double) : Nat × Int :=
  let i := x.neighbourhood
  i.search 17 (decimalPoint i.value i.den - 1)

def positional (digits : List Char) (point : Int) : List Char :=
  if point ≤ 0 then '0' :: '.' :: (List.replicate (-point).toNat '0' ++ digits)
  else if digits.length ≤ point.toNat then
    digits ++ List.replicate (point.toNat - digits.length) '0'
  else digits.take point.toNat ++ '.' :: digits.drop point.toNat

def magnitudeText (x : Double) : List Char :=
  if x.isInfinite then ['i', 'n', 'f']
  else if x.isZero then ['0']
  else
    let (c, k) := x.shortest
    let digits := Nat.toDigits 10 c
    positional (digits.reverse.dropWhile (· == '0')).reverse (digits.length + k)

/-- The shortest decimal that reads back, positional at every size; an integral value has no
decimal point. -/
def toText (x : Double) : String :=
  if x.isNaN then "NaN"
  else String.ofList ((if x.isNegative then ['-'] else []) ++ x.magnitudeText)

end RelMapper.Double
