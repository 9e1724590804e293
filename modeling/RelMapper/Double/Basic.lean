namespace RelMapper

/-- An IEEE 754 double, given by its 64 bits. -/
structure Double where
  bits : UInt64

namespace Double

def signBit : Nat := 0x8000000000000000

def hiddenBit : Nat := 0x10000000000000

def isNegative (x : Double) : Bool :=
  signBit ≤ x.bits.toNat

def exponentField (x : Double) : Nat :=
  x.bits.toNat / hiddenBit % 2048

def fraction (x : Double) : Nat :=
  x.bits.toNat % hiddenBit

def isNaN (x : Double) : Bool :=
  x.exponentField == 2047 && x.fraction != 0

def isInfinite (x : Double) : Bool :=
  x.exponentField == 2047 && x.fraction == 0

def isFinite (x : Double) : Bool :=
  x.exponentField != 2047

def isZero (x : Double) : Bool :=
  x.exponentField == 0 && x.fraction == 0

def significand (x : Double) : Nat :=
  if x.exponentField = 0 then x.fraction else x.fraction + hiddenBit

def scale (x : Double) : Int :=
  if x.exponentField = 0 then -1074 else x.exponentField - 1075

protected def beq (x y : Double) : Bool :=
  !x.isNaN && !y.isNaN && (x.bits == y.bits || (x.isZero && y.isZero))

instance : BEq Double := ⟨Double.beq⟩

def infinityBits : Nat := 2047 * hiddenBit

def ofMagnitude (negative : Bool) (magnitude : Nat) : Double :=
  ⟨UInt64.ofNat ((if negative then signBit else 0) + magnitude)⟩

def nan : Double := ⟨0x7FF8000000000000⟩

def infinity (negative : Bool) : Double :=
  ofMagnitude negative infinityBits

def roundDiv (num den : Nat) : Nat :=
  let q := num / den
  let r := num % den
  if 2 * r < den then q else if den < 2 * r then q + 1 else q + q % 2

def floorLog2 (num den : Nat) : Int :=
  let e : Int := (num.log2 : Int) - den.log2
  if num * Nat.pow 2 (-e).toNat < den * Nat.pow 2 e.toNat then e - 1 else e

/-- The bits of the double nearest to `num / den`. Adding the rounded significand to the exponent
field, instead of packing it in, carries a significand that has become too long into the next
exponent. -/
def magnitudeBits (num den : Nat) : Nat :=
  if num = 0 then 0 else
    let s := max (floorLog2 num den - 52) (-1074)
    let m := roundDiv (num * Nat.pow 2 (-s).toNat) (den * Nat.pow 2 s.toNat)
    min ((s + 1074).toNat * hiddenBit + m) infinityBits

def ofRatio (negative : Bool) (num den : Nat) : Double :=
  ofMagnitude negative (magnitudeBits num den)

def ofInt (n : Int) : Double :=
  ofRatio (n < 0) n.natAbs 1

end Double

end RelMapper
